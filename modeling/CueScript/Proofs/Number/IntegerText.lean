import CueScript.Number.Decimal
import CueScript.Reader.Sequence

/-!
# Reading a printed integer

An integer is printed as a sign, if it is negative, and its decimal digits.  Whoever reads
these as an integer literal finds the same integer, as long as there are not too many
digits.  No character of the text ends a token, escapes from it or is blank.
-/

namespace CueScript

namespace Literal

theorem bounds_of_isDigit {c : Char} (digit : c.isDigit = true) : '0' ≤ c ∧ c ≤ '9' := by
  simpa [Char.isDigit, Char.le_def] using digit

theorem digitValue_of_isDigit {c : Char} (digit : c.isDigit = true) :
    Text.digitValue? c = some (c.toNat - '0'.toNat) := by
  have bounds := bounds_of_isDigit digit
  have upper : c.toNat ≤ '9'.toNat := bounds.2
  have ascii : c.toNat < 0x80 := Nat.lt_of_le_of_lt upper (by decide)
  simp only [Text.digitValue?, if_pos ascii, if_pos bounds]
  rfl

theorem digitsFrom_digits
    {digits : List Char} (areDigits : ∀ c ∈ digits, c.isDigit = true) (value width : Nat) :
    digitsFrom value width digits =
      ⟨Nat.ofDigitChars 10 digits value, width + digits.length, []⟩ := by
  induction digits generalizing value width with
  | nil => rfl
  | cons c rest inductionHypothesis =>
      have digit := areDigits c List.mem_cons_self
      have restDigits : ∀ d ∈ rest, d.isDigit = true := fun d member =>
        areDigits d (List.mem_cons_of_mem c member)
      have notUnderscore : c ≠ '_' := by
        rintro rfl
        exact absurd digit (by decide)
      rw [digitsFrom]
      · simp only [digitValue_of_isDigit digit, inductionHypothesis restDigits,
          Nat.ofDigitChars_cons, List.length_cons]
        congr 1
        omega
      · intro d others shape
        exact absurd shape notUnderscore

theorem takeDigits_decimalDigits (n : Nat) :
    takeDigits (decimalDigits n) = ⟨n, (decimalDigits n).length, []⟩ := by
  have areDigits : ∀ c ∈ decimalDigits n, c.isDigit = true := fun c member =>
    Nat.isDigit_of_mem_toDigits (by decide) (by decide) member
  have value : Nat.ofDigitChars 10 (decimalDigits n) 0 = n := Nat.ofDigitChars_ten_toDigits
  cases shape : decimalDigits n with
  | nil => exact absurd shape Nat.toDigits_ne_nil
  | cons c rest =>
      rw [shape] at areDigits value
      rw [Nat.ofDigitChars_cons, Nat.mul_zero, Nat.zero_add] at value
      have digit := areDigits c List.mem_cons_self
      simp only [takeDigits, digitValue_of_isDigit digit,
        digitsFrom_digits (fun d member => areDigits d (List.mem_cons_of_mem c member)), value,
        List.length_cons]
      congr 1
      omega

theorem stripWhile_of_none
    {drop : Char → Bool} {text : List Char} (keeps : ∀ c ∈ text, drop c = false) :
    Text.stripWhile drop text = text := by
  have noneDropped : ∀ part : List Char, (∀ c ∈ part, drop c = false) →
      part.dropWhile drop = part := by
    intro part partKeeps
    cases part with
    | nil => rfl
    | cons c rest => exact List.dropWhile_cons_of_neg (by simp [partKeeps c])
  have reverseKeeps : ∀ c ∈ text.reverse, drop c = false := fun c member =>
    keeps c (List.mem_reverse.mp member)
  rw [Text.stripWhile, noneDropped text keeps, noneDropped _ reverseKeeps,
    List.reverse_reverse]

end Literal

/-- A character of a printed integer. -/
def IsIntegerChar (c : Char) : Prop := c.isDigit = true ∨ c = '-'

theorem isIntegerChar_of_mem
    {n : Int} {c : Char} (member : c ∈ (decimalText n).toList) :
    IsIntegerChar c := by
  have ofDigits : ∀ {m : Nat}, c ∈ decimalDigits m → IsIntegerChar c := fun found =>
    .inl (Nat.isDigit_of_mem_toDigits (by decide) (by decide) found)
  by_cases negative : n < 0
  · simp only [decimalText, if_pos negative, String.toList_append, String.toList_ofList,
      List.mem_append] at member
    rcases member with sign | digit
    · exact .inr (List.mem_singleton.mp sign)
    · exact ofDigits digit
  · simp only [decimalText, if_neg negative, String.toList_ofList] at member
    exact ofDigits member

/-- Everything the scanners ask of a character of an integer. -/
theorem IsIntegerChar.plain
    {c : Char} (fits : IsIntegerChar c) :
    Sequence.endsToken c = false ∧ c ≠ '\\' ∧ c ≠ '\'' ∧ Text.surroundsNumber c = false ∧
      Text.isBlank c = false := by
  have cases : c = '-' ∨ ∃ k < 10, c = Nat.digitChar k := by
    rcases fits with digit | rfl
    · have bounds := Literal.bounds_of_isDigit digit
      have lower : '0'.toNat ≤ c.toNat := bounds.1
      have upper : c.toNat ≤ '9'.toNat := bounds.2
      have zero : '0'.toNat = 48 := rfl
      have nine : '9'.toNat = 57 := rfl
      refine .inr ⟨c.toNat - 48, by omega, Char.toNat_inj.mp ?_⟩
      rw [Nat.toNat_digitChar_of_lt_ten (by omega)]
      omega
    · exact .inl rfl
  rcases cases with rfl | ⟨k, small, rfl⟩
  · decide
  · have all : ∀ k < 10, Sequence.endsToken (Nat.digitChar k) = false ∧
        Nat.digitChar k ≠ '\\' ∧ Nat.digitChar k ≠ '\'' ∧
        Text.surroundsNumber (Nat.digitChar k) = false ∧
        Text.isBlank (Nat.digitChar k) = false := by
      decide
    exact all k small

theorem readInt_decimalText
    {n : Int} (short : (decimalDigits n.natAbs).length ≤ Literal.maxDigits) :
    Literal.readInt? (decimalText n).toList = some n := by
  have notStripped :
      Text.stripWhile Text.surroundsNumber (decimalText n).toList = (decimalText n).toList :=
    Literal.stripWhile_of_none fun c member => (isIntegerChar_of_mem member).plain.2.2.2.1
  have positive : (decimalDigits n.natAbs).length ≠ 0 := Nat.pos_iff_ne_zero.mp
    Nat.length_toDigits_pos
  have notLong : ¬ Literal.maxDigits < (decimalDigits n.natAbs).length := by omega
  rw [Literal.readInt?, notStripped]
  by_cases negative : n < 0
  · have signed : Literal.takeSign (decimalText n).toList =
        (true, decimalDigits n.natAbs) := by
      simp only [decimalText, if_pos negative, String.toList_append, String.toList_ofList]
      rfl
    simp only [signed, Literal.takeDigits_decimalDigits, positive, notLong, ne_eq,
      not_true_eq_false, or_self, if_false, if_true]
    exact congrArg some (by omega)
  · have unsigned : Literal.takeSign (decimalText n).toList =
        (false, decimalDigits n.natAbs) := by
      have text : (decimalText n).toList = decimalDigits n.natAbs := by
        simp only [decimalText, if_neg negative, String.toList_ofList]
      rw [text]
      cases shape : decimalDigits n.natAbs with
      | nil => rfl
      | cons c rest =>
          have digit : c.isDigit = true := by
            refine @Nat.isDigit_of_mem_toDigits 10 n.natAbs c (by decide) (by decide) ?_
            change c ∈ decimalDigits n.natAbs
            rw [shape]
            exact List.mem_cons_self
          have notSign : c ≠ '-' ∧ c ≠ '+' := by
            constructor <;> rintro rfl <;> exact absurd digit (by decide)
          rw [Literal.takeSign]
          · exact fun tail same => notSign.1 (List.head_eq_of_cons_eq same)
          · exact fun tail same => notSign.2 (List.head_eq_of_cons_eq same)
    simp only [unsigned, Literal.takeDigits_decimalDigits, positive, notLong, ne_eq,
      not_true_eq_false, or_self, if_false, Bool.false_eq_true]
    exact congrArg some (by omega)

end CueScript
