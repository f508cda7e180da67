import CueScript.Reader

/-!
# Where lists open

A reader that follows a text opens a list at some of its parentheses;
`Sequence.openings` gives their offsets.  The trees that are read hold lists, and
`Value.listNodes` gives them in the order of a walk that meets every list before what
is in it.

The main result says that the two agree one by one: there are as many lists as
openings, and whoever starts to read at an opening finds the list of that number as the
first form.  Nothing is assumed of the text but that it reads.

`Sequence.Move` says what following one character can do to a reader, whatever is
around the innermost sequence.  `Places` is a record of the reading under way: which
list was found at which offset, and which lists are still open.
-/

namespace CueScript

namespace Value

mutual

/-- The lists in a tree, every list before those in it. -/
def listNodes : Value → List Value
  | .list items birth => .list items birth :: listNodesAll items
  | .vector items _ => listNodesAll items
  | .quoted form => listNodes form
  | _ => []

/-- The lists in trees, one tree after the other. -/
def listNodesAll : List Value → List Value
  | [] => []
  | item :: rest => listNodes item ++ listNodesAll rest

end

@[simp]
theorem listNodesAll_append (left right : List Value) :
    listNodesAll (left ++ right) = listNodesAll left ++ listNodesAll right := by
  induction left with
  | nil => rfl
  | cons item rest inductionHypothesis =>
      simp [listNodesAll, inductionHypothesis]

@[simp]
theorem listNodesAll_singleton (item : Value) :
    listNodesAll [item] = listNodes item := by
  simp [listNodesAll]

end Value

namespace Sequence

/-- Whether a reader takes a character for the parenthesis that opens a list. -/
def opensList (state : State) (c : Char) : Bool :=
  match state.mode with
  | .between | .token _ => c == '('
  | _ => false

/-- The offsets at which a reader in some state opens lists in the rest of a text. -/
def openingsFrom (state : State) : List Char → List Nat
  | [] => []
  | c :: rest =>
      let own := if opensList state c then [state.offset] else []
      match step state c (c :: rest) with
      | .ok next => own ++ openingsFrom next rest
      | .error _ => own

/-- The offsets at which reading a text opens lists. -/
def openings (text : List Char) : List Nat := openingsFrom start text

/-- The first form that a reader completes outside of all delimiters. -/
def firstFrom (state : State) : List Char → Option Value
  | [] =>
      match (finishToken state).outer, (finishToken state).level.reversed with
      | [], form :: _ => some form
      | _, _ => none
  | c :: rest =>
      match step state c (c :: rest) with
      | .error _ => none
      | .ok next =>
          match next.outer, next.level.reversed with
          | [], form :: _ => some form
          | _, _ => firstFrom next rest

/-- The first form of a text for a reader that begins at an offset. -/
def firstFormAt (text : List Char) (offset : Nat) : Option Value :=
  firstFrom { start with offset := offset } (text.drop offset)

/-! ## What following a character can do -/

/-- The lists in the items of a sequence so far. -/
def Level.nodes (level : Level) : List Value :=
  Value.listNodesAll level.reversed.reverse

@[simp]
theorem nodes_empty : Level.empty.nodes = [] := rfl

@[simp]
theorem listNodes_foldl_quoted (quotes : List Nat) (form : Value) :
    (quotes.foldl (fun inner _ => Value.quoted inner) form).listNodes =
      form.listNodes := by
  induction quotes generalizing form with
  | nil => rfl
  | cons offset rest inductionHypothesis =>
      rw [List.foldl_cons, inductionHypothesis, Value.listNodes]

@[simp]
theorem nodes_push (level : Level) (form : Value) :
    (level.push form).nodes = level.nodes ++ form.listNodes := by
  simp [Level.nodes, Level.push]

theorem nodes_of_items
    {level : Level} {items : List Value}
    (ended : level.items = .ok items) :
    Value.listNodesAll items = level.nodes := by
  unfold Level.items at ended
  split at ended
  · cases ended
  · cases ended
    rfl

theorem listNodes_tokenValue (token : List Char) :
    (tokenValue token).listNodes = [] := by
  unfold tokenValue
  split
  · rfl
  · split <;> rfl

/-- The lists that the innermost sequence has when the token under way ends. -/
@[simp]
theorem nodes_finishToken (state : State) :
    (finishToken state).level.nodes = state.level.nodes := by
  unfold finishToken
  split
  · simp [push, listNodes_tokenValue]
  · rfl

@[simp]
theorem outer_finishToken (state : State) :
    (finishToken state).outer = state.outer := by
  unfold finishToken
  split <;> rfl

@[simp]
theorem offset_finishToken (state : State) :
    (finishToken state).offset = state.offset := by
  unfold finishToken
  split <;> rfl

/-- What can happen to a reader when it follows a character.  `follow` tells the next
state for all that can be around the innermost sequence; `opens` tells whether the
character opens a list. -/
inductive Move (state : State) (opens : Bool)
    (follow : List (Delimiter × Level) → List Char → Except SequenceFault State) :
    State → Prop
  /-- The innermost sequence stays the same and gets no list. -/
  | stay (mode : Mode) (level : Level)
      (nodes : level.nodes = state.level.nodes)
      (closed : opens = false)
      (anywhere : ∀ outer rest,
        follow outer rest = .ok ⟨state.offset + 1, mode, level, outer⟩) :
      Move state opens follow ⟨state.offset + 1, mode, level, state.outer⟩
  /-- A sequence begins inside the innermost one. -/
  | descend (delimiter : Delimiter) (level : Level)
      (nodes : level.nodes = state.level.nodes)
      (opened : opens = decide (delimiter = .paren))
      (anywhere : ∀ outer rest,
        follow outer rest =
          .ok ⟨state.offset + 1, .between, .empty, (delimiter, level) :: outer⟩) :
      Move state opens follow
        ⟨state.offset + 1, .between, .empty, (delimiter, level) :: state.outer⟩
  /-- The innermost sequence ends and becomes a form of the one around it. -/
  | ascend (delimiter : Delimiter) (level : Level) (outer : List (Delimiter × Level))
      (items : List Value)
      (around : state.outer = (delimiter, level) :: outer)
      (nodes : Value.listNodesAll items = state.level.nodes)
      (closed : opens = false)
      (anywhere : ∀ level outer rest,
        follow ((delimiter, level) :: outer) rest =
          .ok ⟨state.offset + 1, .between, level.push (delimited delimiter items), outer⟩) :
      Move state opens follow
        ⟨state.offset + 1, .between, level.push (delimited delimiter items), outer⟩

theorem opener_eq_paren_iff
    {c : Char} {delimiter : Delimiter}
    (opener : Delimiter.ofOpener? c = some delimiter) :
    (c == '(') = decide (delimiter = .paren) := by
  unfold Delimiter.ofOpener? at opener
  split at opener <;> cases opener <;> simp

theorem ne_paren_of_ofOpener?_eq_none
    {c : Char} (opener : Delimiter.ofOpener? c = none) :
    (c == '(') = false := by
  unfold Delimiter.ofOpener? at opener
  split at opener <;> simp_all

/-- What following a character between tokens can do. -/
theorem move_of_stepBetween
    {state next : State} {c : Char} {rest : List Char}
    (taken : stepBetween state c rest = .ok next) :
    Move state (c == '(')
      (fun outer rest => stepBetween { state with outer := outer } c rest) next := by
  unfold stepBetween at taken ⊢
  by_cases blank : Text.isAsciiBlank c = true
  · rw [if_pos blank] at taken
    cases taken
    refine .stay .between state.level rfl ?_ fun outer rest => ?_
    · rw [beq_eq_false_iff_ne]
      rintro rfl
      exact absurd blank (by decide)
    · simp only [if_pos blank]
      rfl
  simp only [if_neg blank] at taken ⊢
  by_cases quotation : c = '"'
  · subst quotation
    cases taken
    exact .stay (.string []) state.level rfl (by decide) fun _ _ => rfl
  simp only [if_neg quotation] at taken ⊢
  by_cases semicolon : c = ';'
  · subst semicolon
    cases taken
    exact .stay .comment state.level rfl (by decide) fun _ _ => rfl
  simp only [if_neg semicolon] at taken ⊢
  by_cases apostrophe : c = '\''
  · subst apostrophe
    cases taken
    exact .stay .between ⟨state.level.reversed, state.offset :: state.level.quotes⟩ rfl
      (by decide) fun _ _ => rfl
  simp only [if_neg apostrophe] at taken ⊢
  by_cases backslash : c = '\\'
  · subst backslash
    cases taken
    exact .stay (.tokenEscape []) state.level rfl (by decide) fun _ _ => rfl
  simp only [if_neg backslash] at taken ⊢
  cases opener : Delimiter.ofOpener? c with
  | some delimiter =>
      simp only [opener] at taken ⊢
      cases taken
      exact .descend delimiter state.level rfl (opener_eq_paren_iff opener) fun _ _ => rfl
  | none =>
      have closed := ne_paren_of_ofOpener?_eq_none opener
      cases closer : Delimiter.ofCloser? c with
      | none =>
          simp only [opener, closer] at taken ⊢
          cases taken
          exact .stay (.token [c]) state.level rfl closed fun _ _ => rfl
      | some delimiter =>
          simp only [opener, closer] at taken ⊢
          unfold close at taken ⊢
          cases ended : state.level.items with
          | error fault =>
              rw [ended] at taken
              cases taken
          | ok items =>
              rw [ended] at taken
              cases around : state.outer with
              | nil =>
                  simp only [around] at taken
                  cases taken
              | cons entry outer =>
                  obtain ⟨opened, level⟩ := entry
                  by_cases same : opened = delimiter
                  · simp only [around, if_pos same, bind, Except.bind] at taken
                    cases taken
                    refine .ascend opened level outer items around
                      (nodes_of_items ended) closed fun level outer rest => ?_
                    simp only [ended, if_pos same]
                    rfl
                  · simp only [around, if_neg same, bind, Except.bind] at taken
                    cases taken

/-- What following a character can do. -/
theorem move_of_step
    {state next : State} {c : Char} {rest : List Char}
    (taken : step state c rest = .ok next) :
    Move state (opensList state c)
      (fun outer rest => step { state with outer := outer } c rest) next := by
  obtain ⟨offset, mode, level, around⟩ := state
  cases mode with
  | between => exact move_of_stepBetween taken
  | comment =>
      cases taken
      exact .stay _ level rfl rfl fun _ _ => rfl
  | string reversed =>
      simp only [step] at taken ⊢
      by_cases quotation : c = '"'
      · subst quotation
        cases taken
        refine .stay .between (level.push (.str (String.ofList reversed.reverse))) ?_ rfl
          fun _ _ => rfl
        simp [Value.listNodes]
      · simp only [if_neg quotation] at taken ⊢
        by_cases backslash : c = '\\'
        · subst backslash
          cases taken
          exact .stay (.stringEscape reversed) level rfl rfl fun _ _ => rfl
        · simp only [if_neg backslash] at taken ⊢
          cases taken
          exact .stay (.string (c :: reversed)) level rfl rfl fun _ _ => rfl
  | stringEscape reversed =>
      cases taken
      exact .stay _ level rfl rfl fun _ _ => rfl
  | tokenEscape reversed =>
      cases taken
      exact .stay _ level rfl rfl fun _ _ => rfl
  | token reversed =>
      simp only [step] at taken ⊢
      by_cases ends : endsToken c = true
      · simp only [if_pos ends] at taken ⊢
        have between := move_of_stepBetween taken
        -- The token adds no list, so the move is one of the state before it ended.
        cases between with
        | stay mode nextLevel nodes closed anywhere =>
            rw [nodes_finishToken] at nodes
            exact .stay mode nextLevel nodes closed anywhere
        | descend delimiter inner nodes opened anywhere =>
            rw [nodes_finishToken] at nodes
            exact .descend delimiter inner nodes opened anywhere
        | ascend delimiter inner outer items above nodes closed anywhere =>
            rw [nodes_finishToken] at nodes
            exact .ascend delimiter inner outer items above nodes closed anywhere
      · have closed : (c == '(') = false := by
          rw [beq_eq_false_iff_ne]
          rintro rfl
          exact absurd (by decide) ends
        simp only [if_neg ends] at taken ⊢
        by_cases backslash : c = '\\'
        · subst backslash
          cases taken
          exact .stay (.tokenEscape reversed) level rfl rfl fun _ _ => rfl
        · simp only [if_neg backslash] at taken ⊢
          cases taken
          exact .stay (.token (c :: reversed)) level rfl closed fun _ _ => rfl

/-! ## The record of a reading -/

/-- A list with the offset at which it was opened. -/
abbrev Place := Nat × Value

/-- A record of the reading under way: the lists found in the innermost sequence, and
for each sequence around it the delimiter and offset at which the next one begins,
after the lists found before. -/
structure Places where
  found : List Place
  outer : List (Delimiter × Nat × List Place)

namespace Places

/-- The lists found in the sequences around the innermost one. -/
def foundAround : List (Delimiter × Nat × List Place) → List Place
  | [] => []
  | (_, _, found) :: outer => foundAround outer ++ found

/-- All lists found. -/
def all (places : Places) : List Place := foundAround places.outer ++ places.found

/-- The openings in the sequences around the innermost one. -/
def offsetsAround : List (Delimiter × Nat × List Place) → List Nat
  | [] => []
  | (delimiter, offset, found) :: outer =>
      offsetsAround outer ++ found.map Prod.fst ++
        (if delimiter = .paren then [offset] else [])

/-- The openings of all lists, found or still open. -/
def offsets (places : Places) : List Nat :=
  offsetsAround places.outer ++ places.found.map Prod.fst

/-- Nothing read yet. -/
def start : Places := ⟨[], []⟩

/-- The lists found when a sequence ends: one that is a list comes before those in
it. -/
def closed (delimiter : Delimiter) (offset : Nat) (items : List Value)
    (found : List Place) : List Place :=
  match delimiter with
  | .paren => (offset, .list items 0) :: found
  | .bracket => found

theorem map_snd_closed
    (delimiter : Delimiter) (offset : Nat) {items : List Value} {found : List Place}
    (nodes : found.map Prod.snd = Value.listNodesAll items) :
    (closed delimiter offset items found).map Prod.snd =
      (delimited delimiter items).listNodes := by
  cases delimiter <;> simp [closed, delimited, Value.listNodes, nodes]

theorem map_fst_closed
    (delimiter : Delimiter) (offset : Nat) (items : List Value) (found : List Place) :
    (closed delimiter offset items found).map Prod.fst =
      (if delimiter = .paren then [offset] else []) ++ found.map Prod.fst := by
  cases delimiter <;> simp [closed]

end Places

/-- A reader that has been put at the opening of a list: it sees nothing around the
list, and what the reader in question has between the list and itself. -/
def State.insideOnly (state : State) (between : List (Delimiter × Level)) : State :=
  { state with outer := between ++ [(.paren, Level.empty)] }

/-- A record fits a reader in front of the rest of a text. -/
structure Places.Fits (text rest : List Char) (state : State) (places : Places) :
    Prop where
  /-- The reader stands where the rest begins. -/
  position : text.drop state.offset = rest
  /-- The lists found in the innermost sequence are those in its items. -/
  nodes : places.found.map Prod.snd = state.level.nodes
  /-- The same holds of the sequences around it. -/
  around :
    places.outer.map (fun entry => (entry.1, entry.2.2.map Prod.snd)) =
      state.outer.map fun entry => (entry.1, entry.2.nodes)
  /-- Whoever reads from the opening of a list that was found finds that list. -/
  first : ∀ place ∈ places.all, firstFormAt text place.1 = some place.2
  /-- Whoever reads from the opening of a list that is still open has come as far as
  the reader. -/
  pending : ∀ (between below : List (Delimiter × Nat × List Place)) (offset : Nat)
      (found : List Place),
    places.outer = between ++ (.paren, offset, found) :: below →
      firstFormAt text offset =
        firstFrom (state.insideOnly (state.outer.take between.length)) rest

namespace Places.Fits

variable {text rest : List Char} {state : State} {places : Places} {c : Char}

theorem position_next
    (fits : Fits text (c :: rest) state places) :
    text.drop (state.offset + 1) = rest := by
  rw [← List.drop_drop, fits.position]
  rfl

/-- The reader goes on in the innermost sequence, which gets no list. -/
theorem stay
    {mode : Mode} {level : Level}
    (fits : Fits text (c :: rest) state places)
    (nodes : level.nodes = state.level.nodes)
    (anywhere : ∀ outer rest,
      step { state with outer := outer } c rest =
        .ok ⟨state.offset + 1, mode, level, outer⟩) :
    Fits text rest ⟨state.offset + 1, mode, level, state.outer⟩ places where
  position := fits.position_next
  nodes := fits.nodes.trans nodes.symm
  around := fits.around
  first := fits.first
  pending between below offset found shape := by
    rw [fits.pending between below offset found shape, firstFrom, State.insideOnly,
      anywhere]
    -- The list is still open, so there is no first form yet.
    cases state.outer.take between.length <;> rfl

/-- A sequence begins inside the innermost one. -/
theorem descend
    {delimiter : Delimiter} {level : Level}
    (fits : Fits text (c :: rest) state places)
    (nodes : level.nodes = state.level.nodes)
    (anywhere : ∀ outer rest,
      step { state with outer := outer } c rest =
        .ok ⟨state.offset + 1, .between, .empty, (delimiter, level) :: outer⟩)
    (opening : delimiter = .paren → c = '(') :
    Fits text rest
      ⟨state.offset + 1, .between, .empty, (delimiter, level) :: state.outer⟩
      ⟨[], (delimiter, state.offset, places.found) :: places.outer⟩ where
  position := fits.position_next
  nodes := rfl
  around := by
    simp [fits.around, fits.nodes, nodes]
  first := by
    simpa [Places.all, foundAround] using fits.first
  pending between below offset found shape := by
    cases between with
    | nil =>
        simp only [List.nil_append, List.cons.injEq, Prod.mk.injEq] at shape
        obtain ⟨⟨rfl, rfl, rfl⟩, rfl⟩ := shape
        rw [firstFormAt, fits.position, opening rfl]
        rfl
    | cons entry inner =>
        simp only [List.cons_append, List.cons.injEq] at shape
        obtain ⟨rfl, shape⟩ := shape
        rw [fits.pending inner below offset found shape, firstFrom, State.insideOnly,
          anywhere]
        rfl

/-- The innermost sequence ends and becomes a form of the one around it. -/
theorem ascend
    {delimiter opened : Delimiter} {level : Level} {outer : List (Delimiter × Level)}
    {items : List Value} {offset : Nat} {found before : List Place}
    {recorded : List (Delimiter × Nat × List Place)}
    (fits : Fits text (c :: rest) state ⟨found, (opened, offset, before) :: recorded⟩)
    (around : state.outer = (delimiter, level) :: outer)
    (nodes : Value.listNodesAll items = state.level.nodes)
    (anywhere : ∀ level outer rest,
      step { state with outer := (delimiter, level) :: outer } c rest =
        .ok ⟨state.offset + 1, .between, level.push (delimited delimiter items), outer⟩) :
    Fits text rest
      ⟨state.offset + 1, .between, level.push (delimited delimiter items), outer⟩
      ⟨before ++ closed delimiter offset items found, recorded⟩ := by
  have shapes := fits.around
  simp only [around, List.map_cons, List.cons.injEq, Prod.mk.injEq] at shapes
  obtain ⟨⟨rfl, beforeNodes⟩, shapes⟩ := shapes
  have foundNodes : found.map Prod.snd = Value.listNodesAll items :=
    fits.nodes.trans nodes.symm
  refine ⟨fits.position_next, ?_, shapes, ?_, ?_⟩
  · simp [beforeNodes, map_snd_closed opened offset foundNodes]
  · have earlier : ∀ place, place ∈ foundAround recorded ∨ place ∈ before ∨ place ∈ found →
        firstFormAt text place.1 = some place.2 := by
      intro place member
      apply fits.first
      simpa [Places.all, foundAround, or_assoc] using member
    intro place member
    simp only [Places.all, List.mem_append] at member
    rcases member with member | member | member
    · exact earlier place (.inl member)
    · exact earlier place (.inr (.inl member))
    · cases opened with
      | bracket => exact earlier place (.inr (.inr member))
      | paren =>
          rcases List.mem_cons.mp member with rfl | member
          · -- Whoever reads from here has just come to the end of this list.
            rw [fits.pending [] recorded offset before rfl, firstFrom, State.insideOnly,
              List.length_nil, List.take_zero, List.nil_append, anywhere]
            rfl
          · exact earlier place (.inr (.inr member))
  · intro between below start inside shape
    have pending := fits.pending ((opened, offset, before) :: between) below start inside
      (congrArg ((opened, offset, before) :: ·) shape)
    rw [pending, firstFrom, State.insideOnly, around, List.length_cons, List.take_succ_cons,
      List.cons_append, anywhere]
    cases outer.take between.length <;> rfl

/-- A record that fits can be kept while the reader follows a character, and has one
more opening if the character opens a list. -/
theorem step
    {next : State}
    (fits : Fits text (c :: rest) state places)
    (taken : Sequence.step state c (c :: rest) = .ok next) :
    ∃ later : Places, Fits text rest next later ∧
      later.offsets =
        places.offsets ++ (if opensList state c then [state.offset] else []) := by
  cases move_of_step taken with
  | stay mode level nodes closed anywhere =>
      exact ⟨places, fits.stay nodes anywhere, by simp [closed]⟩
  | descend delimiter level nodes opened anywhere =>
      have opening : delimiter = .paren → c = '(' := by
        intro isParen
        simp only [isParen, decide_true] at opened
        unfold opensList at opened
        split at opened
        · exact eq_of_beq opened
        · exact eq_of_beq opened
        · cases opened
      refine ⟨_, fits.descend nodes anywhere opening, ?_⟩
      simp [Places.offsets, offsetsAround, opened, List.append_assoc]
  | ascend delimiter level outer items around nodes closed anywhere =>
      obtain ⟨found, recordedOuter⟩ := places
      cases recordedOuter with
      | nil =>
          have shapes := fits.around
          simp [around] at shapes
      | cons entry recorded =>
          obtain ⟨opened, offset, before⟩ := entry
          refine ⟨_, fits.ascend around nodes anywhere, ?_⟩
          have shapes := fits.around
          simp only [around, List.map_cons, List.cons.injEq, Prod.mk.injEq] at shapes
          obtain ⟨⟨rfl, -⟩, -⟩ := shapes
          simp [Places.offsets, offsetsAround, closed, map_fst_closed, List.append_assoc]

/-- A record that fits can be kept to the end of the text. -/
theorem run
    {last : State}
    (fits : Fits text rest state places)
    (followed : Sequence.run state rest = .ok last) :
    ∃ final : Places, Fits text [] last final ∧
      final.offsets = places.offsets ++ openingsFrom state rest := by
  induction rest generalizing state places with
  | nil =>
      cases followed
      exact ⟨places, fits, by simp [openingsFrom]⟩
  | cons c rest inductionHypothesis =>
      cases taken : Sequence.step state c (c :: rest) with
      | error fault => simp [Sequence.run, taken, bind, Except.bind] at followed
      | ok next =>
          simp only [Sequence.run, taken, bind, Except.bind] at followed
          obtain ⟨later, laterFits, laterOffsets⟩ := fits.step taken
          obtain ⟨final, finalFits, finalOffsets⟩ := inductionHypothesis laterFits followed
          refine ⟨final, finalFits, ?_⟩
          simp [finalOffsets, laterOffsets, openingsFrom, taken]

/-- The record before the first character. -/
theorem start (text : List Char) : Fits text text Sequence.start Places.start where
  position := rfl
  nodes := rfl
  around := rfl
  first place member := by cases member
  pending between below offset found shape := by
    cases between <;> cases shape

end Places.Fits

/-- A text that ends well ends neither inside a string nor after a backslash. -/
theorem items_of_finish
    {state : State} {forms : List Value}
    (finished : finish state = .ok forms) :
    (do
      let items ← (finishToken state).level.items
      match state.outer with
      | [] => pure items
      | (opener, _) :: _ => throw (.missingCloser opener none)) = Except.ok forms := by
  unfold finish at finished
  cases mode : state.mode with
  | string _ | stringEscape _ | tokenEscape _ =>
      rw [mode] at finished
      cases finished
  | between | comment | token _ =>
      rw [mode] at finished
      exact finished

/-- What is left when a text ends well: its forms are those of the outermost
sequence. -/
theorem nodes_of_finish
    {state : State} {forms : List Value}
    (finished : finish state = .ok forms) :
    state.outer = [] ∧ Value.listNodesAll forms = state.level.nodes := by
  have atEnd := items_of_finish finished
  cases ended : (finishToken state).level.items with
  | error fault => simp [ended, bind, Except.bind] at atEnd
  | ok items =>
      cases outer : state.outer with
      | cons entry below => simp [ended, outer, bind, Except.bind, throw, throwThe,
          MonadExceptOf.throw] at atEnd
      | nil =>
          simp only [ended, outer, bind, Except.bind, pure, Except.pure,
            Except.ok.injEq] at atEnd
          subst atEnd
          exact ⟨rfl, (nodes_of_items ended).trans (nodes_finishToken state)⟩

/-- A text that reads has as many lists as openings, and reading from an opening gives
the list of that number first. -/
theorem openings_spec
    {text : List Char} {forms : List Value}
    (reads : readSequence text = .ok forms) :
    (Value.listNodesAll forms).length = (openings text).length ∧
      ∀ (index offset : Nat), (openings text)[index]? = some offset →
        ∃ node, (Value.listNodesAll forms)[index]? = some node ∧
          firstFormAt text offset = some node := by
  unfold readSequence at reads
  cases followed : Sequence.run start text with
  | error fault => simp [followed, bind, Except.bind] at reads
  | ok last =>
      simp only [followed, bind, Except.bind] at reads
      obtain ⟨final, fits, offsets⟩ := (Places.Fits.start text).run followed
      obtain ⟨outermost, nodes⟩ := nodes_of_finish reads
      obtain ⟨found, recorded⟩ := final
      have nothingAround : recorded = [] := by
        have shapes := fits.around
        rwa [outermost, List.map_nil, List.map_eq_nil_iff] at shapes
      subst nothingAround
      have isNodes : Value.listNodesAll forms = found.map Prod.snd :=
        nodes.trans fits.nodes.symm
      have isOpenings : openings text = found.map Prod.fst := by
        simpa [Places.offsets, Places.offsetsAround, Places.start, openings]
          using offsets.symm
      rw [isNodes, isOpenings]
      refine ⟨by simp, fun index offset atIndex => ?_⟩
      rw [List.getElem?_map, Option.map_eq_some_iff] at atIndex
      obtain ⟨place, atIndex, rfl⟩ := atIndex
      refine ⟨place.2, by simp [atIndex], fits.first place ?_⟩
      simpa [Places.all, Places.foundAround] using List.mem_of_getElem? atIndex

end Sequence

end CueScript
