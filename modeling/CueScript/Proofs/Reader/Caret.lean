import CueScript.Proofs.Reader.Balance
import Mathlib.Data.List.DropRight

/-!
# The line above the caret

A report on delimiters shows a line of the text with a caret below it.  The place of the
fault is counted in line feeds, but the line that is shown is taken from the lines of the
text, and more characters than line feeds end those.

The main result is about texts in which the lines before the one to blame end with nothing
but line feeds, each with or without a carriage return before it.  The report shows the
line to blame with the caret below the character to blame exactly if no character that
ends lines stands in this line.
-/

namespace CueScript

namespace Text

/-! ## Rows between line feeds -/

/-- What stands between the line feeds around an offset. -/
def rowAt (text : List Char) (offset : Nat) : List Char :=
  (text.take offset).rtakeWhile (· != '\n') ++ (text.drop offset).takeWhile (· != '\n')

/-- What stands before the row of an offset, the line feed included. -/
def beforeRow (text : List Char) (offset : Nat) : List Char :=
  (text.take offset).rdropWhile (· != '\n')

/-- A row without the carriage return that it may end with. -/
def withoutReturn (row : List Char) : List Char :=
  if row.getLast? = some '\r' then row.dropLast else row

/-- Lines end with nothing but line feeds, each with or without a carriage return before
it. -/
def BreaksAtFeeds : List Char → Prop
  | [] => True
  | c :: rest =>
      (endsLine c = true → c = '\n' ∨ (c = '\r' ∧ rest.head? = some '\n')) ∧ BreaksAtFeeds rest

instance decidableBreaksAtFeeds : (text : List Char) → Decidable (BreaksAtFeeds text)
  | [] => isTrue trivial
  | _ :: rest => @instDecidableAnd _ _ _ (decidableBreaksAtFeeds rest)

theorem text_eq_rows (text : List Char) (offset : Nat) :
    ∃ rest, text = beforeRow text offset ++ (rowAt text offset ++ rest) ∧
      (rest = [] ∨ ∃ further, rest = '\n' :: further) := by
  refine ⟨(text.drop offset).dropWhile (· != '\n'), ?_, ?_⟩
  · unfold beforeRow rowAt
    rw [List.append_assoc, List.takeWhile_append_dropWhile, ← List.append_assoc,
      List.rdropWhile_append_rtakeWhile, List.take_append_drop]
  · cases rest : (text.drop offset).dropWhile (· != '\n') with
    | nil => exact .inl rfl
    | cons c further =>
        have stops := List.head?_dropWhile_not (· != '\n') (text.drop offset)
        rw [rest] at stops
        exact .inr ⟨further, by simpa using stops⟩

theorem beforeRow_eq (text : List Char) (offset : Nat) :
    beforeRow text offset = [] ∨ ∃ rows, beforeRow text offset = rows ++ ['\n'] := by
  by_cases empty : beforeRow text offset = []
  · exact .inl empty
  · have last : (beforeRow text offset).getLast empty = '\n' := by
      simpa [beforeRow] using List.rdropWhile_last_not (· != '\n') (text.take offset) empty
    refine .inr ⟨(beforeRow text offset).dropLast, ?_⟩
    rw [← last, List.dropLast_append_getLast]

theorem count_beforeRow (text : List Char) (offset : Nat) :
    (beforeRow text offset).count '\n' = (text.take offset).count '\n' := by
  have none : ((text.take offset).rtakeWhile (· != '\n')).count '\n' = 0 := by
    refine List.count_eq_zero.mpr fun member => ?_
    simpa using List.mem_rtakeWhile_imp member
  have parts : beforeRow text offset ++ (text.take offset).rtakeWhile (· != '\n') =
      text.take offset := List.rdropWhile_append_rtakeWhile
  rw [← parts, List.count_append, none, Nat.add_zero]

theorem not_mem_rowAt (text : List Char) (offset : Nat) : '\n' ∉ rowAt text offset := by
  intro member
  rcases List.mem_append.mp member with before | after
  · simpa using List.mem_rtakeWhile_imp before
  · simpa using List.mem_takeWhile_imp after

/-! ## Lines -/

theorem linesFrom_of_endsLine
    {current rest : List Char} {c : Char}
    (ends : endsLine c = true) (single : c = '\r' → rest.head? ≠ some '\n') :
    linesFrom current (c :: rest) = current.reverse :: linesFrom [] rest := by
  rw [linesFrom, if_pos ends]
  rintro others rfl rfl
  exact single rfl rfl

theorem linesFrom_of_not_endsLine
    {current rest : List Char} {c : Char} (goesOn : endsLine c = false) :
    linesFrom current (c :: rest) = linesFrom (c :: current) rest := by
  rw [linesFrom, if_neg (by simp [goesOn])]
  rintro others rfl
  simp [endsLine] at goesOn

theorem linesFrom_append
    {current row rest : List Char} (goesOn : ∀ c ∈ row, endsLine c = false) :
    linesFrom current (row ++ rest) = linesFrom (row.reverse ++ current) rest := by
  induction row generalizing current with
  | nil => rfl
  | cons c row inductionHypothesis =>
      rw [List.cons_append, linesFrom_of_not_endsLine (goesOn c List.mem_cons_self),
        inductionHypothesis fun each member => goesOn each (List.mem_cons_of_mem c member),
        List.reverse_cons, List.append_assoc]
      rfl

theorem linesFrom_feed (current rest : List Char) :
    linesFrom current ('\n' :: rest) = current.reverse :: linesFrom [] rest :=
  linesFrom_of_endsLine rfl fun same => absurd same (by decide)

theorem linesFrom_return
    {current rest : List Char}
    (complete : rest = [] ∨ ∃ further, rest = '\n' :: further) :
    ∃ further, linesFrom current ('\r' :: rest) = current.reverse :: further := by
  rcases complete with rfl | ⟨further, rfl⟩
  · exact ⟨_, linesFrom_of_endsLine rfl fun _ => nofun⟩
  · exact ⟨_, linesFrom.eq_2 current further⟩

/-- Complete rows are as many lines. -/
theorem linesFrom_rows
    {rows : List Char} (current rest : List Char)
    (breaks : BreaksAtFeeds (rows ++ ['\n'])) :
    ∃ shown : List (List Char), shown.length = (rows ++ ['\n']).count '\n' ∧
      linesFrom current (rows ++ '\n' :: rest) = shown ++ linesFrom [] rest := by
  induction current, rows using linesFrom.induct with
  | case1 current | case2 current =>
      exact ⟨[current.reverse], rfl, linesFrom_feed current rest⟩
  | case3 current rows inductionHypothesis =>
      obtain ⟨shown, length, lines⟩ := inductionHypothesis breaks.2.2
      refine ⟨current.reverse :: shown, ?_, ?_⟩
      · simpa using length
      · rw [List.cons_append, List.cons_append, linesFrom, lines, List.cons_append]
  | case4 current c rows notPair ends inductionHypothesis =>
      obtain ⟨shown, length, lines⟩ := inductionHypothesis breaks.2
      rcases breaks.1 ends with rfl | ⟨rfl, feed⟩
      · exact ⟨current.reverse :: shown, by simpa using length,
          (linesFrom_feed current _).trans (congrArg _ lines)⟩
      · -- The return belongs to the feed that completes the rows.
        cases rows with
        | nil => exact ⟨[current.reverse], rfl, linesFrom.eq_2 current rest⟩
        | cons d rows =>
            cases feed
            exact (notPair rows rfl rfl).elim
  | case5 current c rows notPair goesOn inductionHypothesis =>
      obtain ⟨shown, length, lines⟩ := inductionHypothesis breaks.2
      have notFeed : c ≠ '\n' := by
        rintro rfl
        exact goesOn rfl
      refine ⟨shown, ?_, ?_⟩
      · rw [List.cons_append, List.count_cons_of_ne notFeed]
        exact length
      · rw [List.cons_append, linesFrom_of_not_endsLine (by simpa using goesOn), lines]

/-- A row that no other character breaks is the next line. -/
theorem linesFrom_row
    {row rest : List Char} (unbroken : ∀ c ∈ withoutReturn row, endsLine c = false)
    (nonempty : withoutReturn row ≠ [])
    (complete : rest = [] ∨ ∃ further, rest = '\n' :: further) :
    ∃ further, linesFrom [] (row ++ rest) = withoutReturn row :: further := by
  unfold withoutReturn at *
  split
  · next last =>
      rw [if_pos last] at unbroken
      obtain ⟨further, lines⟩ := @linesFrom_return row.dropLast.reverse rest complete
      refine ⟨further, ?_⟩
      rw [← List.dropLast_append_getLast? '\r' last, List.append_assoc, linesFrom_append unbroken,
        List.append_nil, List.singleton_append, lines]
      simp
  · next last =>
      rw [if_neg last] at unbroken nonempty
      rw [linesFrom_append unbroken, List.append_nil]
      rcases complete with rfl | ⟨further, rfl⟩
      · refine ⟨[], ?_⟩
        rw [linesFrom, if_neg (by simpa using nonempty), List.reverse_reverse]
      · refine ⟨linesFrom [] further, ?_⟩
        rw [linesFrom_feed, List.reverse_reverse]

/-- No line holds a character that ends lines. -/
theorem unbroken_of_mem_linesFrom
    {current text line : List Char} (started : ∀ c ∈ current, endsLine c = false)
    (isLine : line ∈ linesFrom current text) :
    ∀ c ∈ line, endsLine c = false := by
  have whole : ∀ current : List Char, (∀ c ∈ current, endsLine c = false) →
      ∀ c ∈ current.reverse, endsLine c = false :=
    fun current unbroken c member => unbroken c (List.mem_reverse.mp member)
  induction current, text using linesFrom.induct with
  | case1 current isEmpty =>
      rw [linesFrom, if_pos isEmpty] at isLine
      cases isLine
  | case2 current isEmpty =>
      rw [linesFrom, if_neg isEmpty] at isLine
      rw [List.mem_singleton.mp isLine]
      exact whole current started
  | case3 current rest inductionHypothesis =>
      rw [linesFrom] at isLine
      rcases List.mem_cons.mp isLine with rfl | later
      · exact whole current started
      · exact inductionHypothesis (fun c member => absurd member List.not_mem_nil) later
  | case4 current c rest notPair ends inductionHypothesis =>
      rw [linesFrom, if_pos ends] at isLine
      · rcases List.mem_cons.mp isLine with rfl | later
        · exact whole current started
        · exact inductionHypothesis (fun c member => absurd member List.not_mem_nil) later
      · exact notPair
  | case5 current c rest notPair goesOn inductionHypothesis =>
      rw [linesFrom, if_neg goesOn] at isLine
      · refine inductionHypothesis (fun each member => ?_) isLine
        rcases List.mem_cons.mp member with rfl | earlier
        · simpa using goesOn
        · exact started each earlier
      · exact notPair

/-- Where the lines before the row of an offset end with nothing but line feeds, the row is
the line with the number of the line feeds before the offset, exactly if no character that
ends lines stands in it. -/
theorem getElem?_lines_iff
    {text : List Char} {offset : Nat}
    (breaks : BreaksAtFeeds (beforeRow text offset))
    (nonempty : withoutReturn (rowAt text offset) ≠ []) :
    (lines text)[(text.take offset).count '\n']? = some (withoutReturn (rowAt text offset)) ↔
      ∀ c ∈ withoutReturn (rowAt text offset), endsLine c = false := by
  constructor
  · intro found
    exact unbroken_of_mem_linesFrom (fun c member => absurd member List.not_mem_nil)
      (List.mem_of_getElem? found)
  · intro unbroken
    obtain ⟨rest, whole, complete⟩ := text_eq_rows text offset
    obtain ⟨further, lines⟩ := linesFrom_row unbroken nonempty complete
    rw [← count_beforeRow]
    generalize rowAt text offset = row at *
    rcases beforeRow_eq text offset with none | ⟨rows, some⟩
    · rw [none] at whole ⊢
      rw [whole, Text.lines, List.nil_append, lines]
      rfl
    · rw [some] at whole breaks ⊢
      obtain ⟨shown, length, earlier⟩ := linesFrom_rows [] (row ++ rest) breaks
      rw [whole, Text.lines, List.append_assoc, List.singleton_append, earlier, lines, ← length]
      simp

end Text

namespace Report

/-- The line that is shown is the one with the number in the place of the offset. -/
theorem sourceLine_atOffset (text : List Char) (offset : Nat) (filename : String) :
    sourceLine (String.ofList text) (Span.atOffset text offset filename) =
      String.ofList (((Text.lines text)[(text.take offset).count '\n']?).getD []) := by
  have line : (Span.atOffset text offset filename).line = (text.take offset).count '\n' + 1 :=
    (Span.tells_atOffset text offset filename).line
  rw [sourceLine, line, if_pos (by omega), String.toList_ofList]
  have index : (((text.take offset).count '\n' : Int) + 1).toNat - 1 =
      (text.take offset).count '\n' := by omega
  rw [index]
  cases (Text.lines text)[(text.take offset).count '\n']? <;> rfl

end Report

namespace Diagnostic

/-- The first line of a diagnostic: its place, severity, message and code. -/
def heading (diagnostic : Diagnostic) : String :=
  diagnostic.span.text ++ ": " ++ diagnostic.severity.text ++ ": " ++ diagnostic.message ++
    " [" ++ diagnostic.code.text ++ "]"

/-- The last line of a diagnostic, if it has a hint. -/
def hintLines (diagnostic : Diagnostic) : List String :=
  if diagnostic.hint.isEmpty then [] else ["hint: " ++ diagnostic.hint]

/-- Whether a diagnostic shows the row of a text on which an offset is, with a caret right
below the character to blame. -/
structure Underlines (diagnostic : Diagnostic) (text : List Char) (offset : Nat)
    (blamed : Char) : Prop where
  row : diagnostic.sourceLine = String.ofList (Text.withoutReturn (Text.rowAt text offset))
  column : ∃ before after, diagnostic.sourceLine = String.ofList (before ++ blamed :: after) ∧
    diagnostic.span.column = before.length + 1
  caret : diagnostic.text = String.intercalate "\n"
    (diagnostic.heading :: ("    " ++ diagnostic.sourceLine) ::
      ("    " ++ String.ofList
        (List.replicate (diagnostic.span.column - 1).toNat ' ' ++ ['^'])) ::
      diagnostic.hintLines)

theorem text_eq_caret
    {diagnostic : Diagnostic} (shows : diagnostic.sourceLine.isEmpty = false)
    (column : 0 < diagnostic.span.column)
    (narrow : diagnostic.span.endColumn = diagnostic.span.column) :
    diagnostic.text = String.intercalate "\n"
      (diagnostic.heading :: ("    " ++ diagnostic.sourceLine) ::
        ("    " ++ String.ofList
          (List.replicate (diagnostic.span.column - 1).toNat ' ' ++ ['^'])) ::
        diagnostic.hintLines) := by
  have width : (max 1 (diagnostic.span.endColumn - diagnostic.span.column)).toNat = 1 := by
    rw [narrow, Int.sub_self]
    rfl
  have below : ¬ diagnostic.span.column ≤ 0 := Int.not_le.mpr column
  simp only [text, caretLine, heading, hintLines, width, shows, below, Bool.false_eq_true,
    or_self, if_false, List.replicate_one, List.cons_append, List.nil_append]

end Diagnostic

namespace DelimiterFault

/-- The character that a fault is blamed on. -/
def sign : DelimiterFault → Char
  | .unterminatedString _ => '"'
  | .strayCloser _ closer => closer.closer
  | .mismatchedCloser _ closer _ => closer.closer
  | .unclosed _ opener => opener.opener

theorem Blames.sign_at
    {text : List Char} {fault : DelimiterFault} (blames : fault.Blames text) :
    text[fault.offset]? = some fault.sign := by
  cases fault with
  | strayCloser offset closer => exact blames.1.closes
  | mismatchedCloser offset closer expected => exact blames.1.closes
  | unterminatedString offset =>
      obtain ⟨before, body, opened, rfl, rfl, -⟩ := blames
      simp [offset, sign]
  | unclosed offset opener =>
      obtain ⟨before, inside, opened, rfl, rfl, -⟩ := blames
      simp [offset, sign]

theorem sign_ne (fault : DelimiterFault) :
    fault.sign ≠ '\n' ∧ fault.sign ≠ '\r' := by
  cases fault with
  | unterminatedString offset =>
      simp only [sign]
      decide
  | strayCloser offset delimiter | mismatchedCloser offset delimiter expected
  | unclosed offset delimiter =>
      simp only [sign]
      cases delimiter <;> decide

end DelimiterFault

namespace ReadFault

variable (text : List Char) (filename : String) (fault : DelimiterFault)

theorem span_delimiterReport :
    (delimiterReport text filename fault).diagnostic.span =
      Span.atOffset text fault.offset filename := by
  cases fault <;> rfl

theorem sourceLine_delimiterReport :
    (delimiterReport text filename fault).diagnostic.sourceLine =
      String.ofList (((Text.lines text)[(text.take fault.offset).count '\n']?).getD []) := by
  rw [← Report.sourceLine_atOffset text fault.offset filename]
  cases fault <;> rfl

/-- Only faults of delimiters are reported in these classes. -/
theorem eq_delimiters_of_class
    {text : List Char} {filename : String} {fault : ReadFault}
    (raised : (fault.report text filename).errorClass = .unterminatedString ∨
      (fault.report text filename).errorClass = .unbalancedForm) :
    ∃ blame, fault = .delimiters blame := by
  cases fault with
  | delimiters blame => exact ⟨blame, rfl⟩
  | sequence fault | formCount count => rcases raised with raised | raised <;> cases raised

end ReadFault

theorem Text.exists_withoutReturn_rowAt
    {text : List Char} {offset : Nat} {c : Char}
    (found : text[offset]? = some c) (notFeed : c ≠ '\n') (notReturn : c ≠ '\r') :
    ∃ before after, withoutReturn (rowAt text offset) = before ++ c :: after ∧
      Span.columnAfter (text.take offset) = before.length + 1 := by
  obtain ⟨bound, here⟩ := List.getElem?_eq_some_iff.mp found
  have row : rowAt text offset = (text.take offset).rtakeWhile (· != '\n') ++
      c :: (text.drop (offset + 1)).takeWhile (· != '\n') := by
    rw [rowAt, List.drop_eq_getElem_cons bound, here, List.takeWhile_cons,
      if_pos (by simpa using notFeed)]
  have column : Span.columnAfter (text.take offset) =
      ((text.take offset).rtakeWhile (· != '\n')).length + 1 := by
    rw [Span.columnAfter, List.rtakeWhile, List.length_reverse]
  generalize (text.take offset).rtakeWhile (· != '\n') = before at row column
  generalize (text.drop (offset + 1)).takeWhile (· != '\n') = after at row
  rw [row, withoutReturn]
  split
  · next last =>
      cases after with
      | nil =>
          rw [List.getLast?_append_cons, List.getLast?_singleton] at last
          exact absurd (Option.some.inj last) notReturn
      | cons d others =>
          exact ⟨before, (d :: others).dropLast, by simp, column⟩
  · exact ⟨before, after, rfl, column⟩

/-- A report on delimiters is blamed on a delimiter or quote of the text.  Where the lines
before it end with nothing but line feeds, its row is shown with the caret below it exactly
if no character that ends lines stands in the row, the carriage return at its end apart. -/
theorem read_underlines
    {text : List Char} {fault : ReadFault} (filename : String)
    (failed : read text = .error fault)
    (raised : (fault.report text filename).errorClass = .unterminatedString ∨
      (fault.report text filename).errorClass = .unbalancedForm) :
    ∃ blame : DelimiterFault, fault = .delimiters blame ∧
      text[blame.offset]? = some blame.sign ∧
      (Text.BreaksAtFeeds (Text.beforeRow text blame.offset) →
        ((fault.report text filename).diagnostic.Underlines text blame.offset blame.sign ↔
          ∀ c ∈ Text.withoutReturn (Text.rowAt text blame.offset), Text.endsLine c = false)) := by
  obtain ⟨blame, rfl⟩ := ReadFault.eq_delimiters_of_class raised
  have rejected : checkDelimiters text = .error blame := by
    unfold read at failed
    cases checked : checkDelimiters text with
    | error other =>
        simp only [checked, Except.mapError, bind, Except.bind] at failed
        cases failed
        rfl
    | ok offsets =>
        simp only [checked, Except.mapError, bind, Except.bind] at failed
        split at failed
        · cases failed
        · split at failed <;> cases failed
  have found := (checkDelimiters_eq_error_iff.mp rejected).sign_at
  refine ⟨blame, rfl, found, fun breaks => ?_⟩
  obtain ⟨before, after, row, column⟩ :=
    Text.exists_withoutReturn_rowAt found blame.sign_ne.1 blame.sign_ne.2
  have nonempty : Text.withoutReturn (Text.rowAt text blame.offset) ≠ [] := by
    rw [row]
    exact List.append_ne_nil_of_right_ne_nil _ (List.cons_ne_nil _ _)
  rw [← Text.getElem?_lines_iff breaks nonempty]
  have shown := ReadFault.sourceLine_delimiterReport text filename blame
  have place : (ReadFault.delimiterReport text filename blame).diagnostic.span.column =
      before.length + 1 := by
    rw [ReadFault.span_delimiterReport]
    exact congrArg Nat.cast column
  constructor
  · intro underlines
    have same := shown.symm.trans underlines.row
    cases line : (Text.lines text)[(text.take blame.offset).count '\n']? with
    | none =>
        rw [line] at same
        exact absurd (String.ofList_injective same).symm nonempty
    | some found =>
        rw [line] at same
        exact congrArg some (String.ofList_injective same)
  · intro isLine
    rw [isLine, Option.getD_some] at shown
    refine ⟨shown, ⟨before, after, ?_, place⟩, Diagnostic.text_eq_caret ?_ ?_ ?_⟩
    · rw [← row]
      exact shown
    · rw [ReadFault.report, shown, row]
      simp
    · rw [ReadFault.report, place]
      omega
    · rw [ReadFault.report, ReadFault.span_delimiterReport]
      rfl

/-- A closer in the second row, which a carriage return and a line feed part from the
first. -/
def mismatchInSecondRow : List Char := "(inc 1)\r\n(str [x)\r\n".toList

theorem read_underlines_secondRow :
    read mismatchInSecondRow = .error (.delimiters (.mismatchedCloser 16 .paren .bracket)) ∧
      (ReadFault.delimiterReport mismatchInSecondRow "cue"
        (.mismatchedCloser 16 .paren .bracket)).errorClass = .unbalancedForm ∧
      (ReadFault.delimiterReport mismatchInSecondRow "cue"
        (.mismatchedCloser 16 .paren .bracket)).diagnostic.Underlines mismatchInSecondRow 16
          ')' := by
  have failed :
      read mismatchInSecondRow = .error (.delimiters (.mismatchedCloser 16 .paren .bracket)) := rfl
  have unbroken : (Text.withoutReturn (Text.rowAt mismatchInSecondRow 16)).all
      (fun c => !Text.endsLine c) = true := by decide
  obtain ⟨blame, same, -, underlines⟩ := read_underlines "cue" failed (.inr rfl)
  cases same
  refine ⟨failed, rfl, (underlines (by decide)).mpr fun c member => ?_⟩
  simpa using List.all_eq_true.mp unbroken c member

/-- A stray closer in a row in which a string holds a line separator. -/
def separatorInRow : List Char := "(str \"a\u2028b\"))".toList

/-- The line that is shown ends at the separator. -/
theorem read_underlines_not_separator :
    read separatorInRow = .error (.delimiters (.strayCloser 11 .paren)) ∧
      (ReadFault.delimiterReport separatorInRow "cue" (.strayCloser 11 .paren)).errorClass =
        .unbalancedForm ∧
      ¬ (ReadFault.delimiterReport separatorInRow "cue"
        (.strayCloser 11 .paren)).diagnostic.Underlines separatorInRow 11 ')' := by
  refine ⟨rfl, rfl, fun underlines => ?_⟩
  have row := underlines.row
  rw [ReadFault.sourceLine_delimiterReport] at row
  exact absurd (String.ofList_injective row) (by decide)

end CueScript
