import CueScript.Proofs.Parting.Evaluation

/-!
# One form in two scopes

What the evaluation of a form does depends on the scope only through the variables under the
names that the form mentions.  If two scopes have the same variables under these names, and
no piece of work that the evaluation in one of them begins finds them with different ones,
the evaluation in the other one ends with the same value or the same fault and leaves the same
heap, up to the scopes that it has opened.

The names include those that abbreviations bring in.  Forms that make closures are left out:
a closure holds the scope that it was made in.
-/

namespace CueScript

namespace Heap

/-- Whether two scopes have the same variables under some names. -/
def Coincide (names : String → Prop) (here there : Nat) (heap : Heap) : Prop :=
  ∀ name, names name → heap.lookup? here (.str name) = heap.lookup? there (.str name)

/-- Whether everything in a heap leads to scopes that have been opened, and whether its lists
with a number of those that forms are made of hold what forms are made of. -/
structure Opened (vocabulary : Vocabulary) (heap : Heap) : Prop where
  scopes : ∀ (id : Nat) (scope : Scope), heap.scopes[id]? = some scope →
    scope.vars.Within (vocabulary.bounds (· < heap.scopes.size)) ∧
      ∀ outer ∈ scope.outer, outer < heap.scopes.size
  tables : ∀ (id : Nat) (entries : ValueEntries), heap.tables[id]? = some entries →
    Value.EntriesWithin (vocabulary.bounds (· < heap.scopes.size)) entries
  losses : ∀ (birth : Nat) (left : List Value), heap.left? birth = some left →
    (vocabulary.bounds (· < heap.scopes.size)).Lists birth left ∧
      Value.AllWithin (vocabulary.bounds (· < heap.scopes.size)) left
  unnumbered : heap.left? 0 = none
  births : ∀ birth, vocabulary.lists birth → birth < heap.births

end Heap

namespace Parting

variable {terms : Terms} {heap : Heap}

/-- Runs that begin on one heap share all of its scopes. -/
def start (terms : Terms) (opened : heap.Opened terms.toVocabulary) : Parting terms where
  left := heap.scopes
  right := heap.scopes
  shared id := id < heap.scopes.size
  sameCount := rfl
  alike id isShared := by
    have isScope := Array.getElem?_eq_getElem isShared
    exact ⟨heap.scopes[id], isScope, isScope, opened.scopes id _ isScope⟩

theorem fits_start (opened : heap.Opened terms.toVocabulary) :
    (start terms opened).Fits heap where
  scopes := rfl
  tables := opened.tables
  losses := opened.losses
  unnumbered := opened.unnumbered
  births := opened.births

end Parting

/-- To look out for two scopes with different variables under one of the names. -/
noncomputable def Watch.parts (names : String → Prop) (here there : Nat) : Watch :=
  open Classical in fun _ heap => !decide (heap.Coincide names here there)

theorem Watch.parts_eq_false
    {names : String → Prop} {here there : Nat} {path : List Task} {heap : Heap} :
    Watch.parts names here there path heap = false ↔ heap.Coincide names here there := by
  unfold Watch.parts
  simp

namespace Eval

variable {terms : Terms} {parting : Parting terms} {roots : Side → Nat}

/-! ## Runs -/

/-- A run with a watch and one without. -/
def besides (watch : Watch) (alarm : Fault) (frames : Nat) (around : List Task) : Side → Worker
  | .left => watched watch alarm frames around
  | .right => solve frames

/-- Whole runs end alike, as long as the first two scopes have the same variables. -/
theorem workers_alongside (closed : terms.Closed) (frames : Nat) (around : List Task) :
    WorkersAlongside parting roots
      (besides (.parts terms.names (roots .left) (roots .right)) terms.alarm frames around) := by
  induction frames generalizing parting around with
  | zero => exact fun later _ task _ heap fits => .fault later _ heap (.refl later) fits
  | succ frames inductionHypothesis =>
      intro later _ task beside heap fits
      change later.Ends Parting.Knows
        ((watched _ terms.alarm (frames + 1) around (task .left)).perform heap)
        ((step (solve frames) (task .right)).perform (heap.rescope later.right))
      rw [perform_watched_succ]
      split
      · exact .alarm heap _
      · rename_i unmet
        exact ends_step closed (inductionHypothesis (task .left :: around)) beside fits
          (Watch.parts_eq_false.mp (Bool.eq_false_iff.mpr unmet))

end Eval

/-! ## A scope inside another one -/

/-- Whether a scope stands right inside another one and has no variables under some names. -/
def Heap.addsNone (names : List String) (inside around : Nat) (heap : Heap) : Bool :=
  match heap.scopes[around]?, heap.scopes[inside]? with
  | some scope, some ⟨.table table, outer⟩ =>
      outer == around :: scope.outer && names.all fun name =>
        (Entries.find? Value.sameKey (.str name) (heap.table table)).isNone
  | _, _ => false

theorem Heap.coincide_of_addsNone
    {names : List String} {inside around : Nat} {heap : Heap}
    (addsNone : heap.addsNone names inside around = true) :
    heap.Coincide (· ∈ names) inside around := by
  unfold Heap.addsNone at addsNone
  split at addsNone
  · rename_i scope table outer isAround isInside
    simp only [Bool.and_eq_true, beq_iff_eq, List.all_eq_true, Option.isNone_iff_eq_none]
      at addsNone
    obtain ⟨rfl, unheld⟩ := addsNone
    intro name isName
    have missing : ValueEntries.get? (heap.table table) (.str name) = .ok none :=
      congrArg Except.ok (unheld name isName)
    rw [Heap.lookup_inside isAround isInside, missing]
  · cases addsNone

/-- To look out for variables under some names in a scope right inside another one. -/
def Watch.adds (names : List String) (inside around : Nat) : Watch :=
  fun _ heap => !heap.addsNone names inside around

namespace Eval

/-- The form `(let [z (f x)] z)`. -/
def calling : Value :=
  .list [.symbol "let",
    .vector [.symbol "z", .list [.symbol "f", .symbol "x"] 0] 0, .symbol "z"] 0

/-- What that form speaks of. -/
def calledNames : Vocabulary where
  names := (· ∈ ["let", "z", "f", "x"])
  lists _ := False
  numbered := id

/-- A scope with a function and a number, and another one inside, in which there is something
else. -/
def callingHeap : Heap :=
  { Heap.empty with
    tables :=
      #[[(.str "f", .closure 2 "f" ["n"] none [.symbol "n"] 0 0), (.str "x", .int 7)],
        [(.str "y", .int 8)]]
    scopes := #[⟨.table 0, []⟩, ⟨.table 1, [0]⟩]
    evaluators := #[⟨{}, 0⟩]
    births := 3 }

theorem callingHeap_opened : callingHeap.Opened calledNames where
  scopes id scope isScope := by
    rcases id with _ | _ | id
    · cases isScope
      exact ⟨trivial, fun _ member => nomatch member⟩
    · cases isScope
      refine ⟨trivial, fun outer member => ?_⟩
      rw [List.mem_singleton.mp member]
      decide
    · cases isScope
  tables id entries isTable := by
    rcases id with _ | _ | id
    · cases isTable
      refine ⟨⟨trivial, ?_⟩, ⟨trivial, trivial⟩, trivial⟩
      exact ⟨⟨trivial, trivial⟩, fun _ _ => trivial, Nat.zero_lt_two, trivial, trivial⟩
    · cases isTable
      exact ⟨⟨trivial, trivial⟩, trivial⟩
    · cases isTable
  losses _ _ isLeft := nomatch isLeft
  unnumbered := rfl
  births _ isList := isList.elim

theorem calledNames_closed : calledNames.Closed where
  noFunctions isName := by
    change "fn" ∈ ["let", "z", "f", "x"] at isName
    revert isName
    decide
  expansions head symbols isName isFound := by
    change head ∈ ["let", "z", "f", "x"] at isName
    simp only [List.mem_cons, List.not_mem_nil, or_false] at isName
    rcases isName with rfl | rfl | rfl | rfl <;> cases isFound

theorem calling_isForm : calledNames.Form calling := by
  simp [calling, calledNames, Vocabulary.Form, Vocabulary.AllForms]

/-- The form `(do (.define (.env c) "x" 5) x)`. -/
def redefining : Value :=
  .list [.symbol "do",
    .list [.symbol ".define", .list [.symbol ".env", .symbol "c"] 0, .str "x", .int 5] 0,
    .symbol "x"] 0

/-- A scope with a number and a closure made there, and another one inside in which there is the
same number. -/
def redefinedHeap : Heap :=
  { Heap.empty with
    tables :=
      #[[(.str "x", .int 1),
          (.str "c", .closure 2 SpecialForm.unnamed [] none [.int 0] 0 0)],
        [(.str "x", .int 1)]]
    scopes := #[⟨.table 0, []⟩, ⟨.table 1, [0]⟩]
    evaluators := #[⟨{}, 0⟩]
    births := 3 }

end Eval

end CueScript
