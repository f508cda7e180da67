import CueScript.Proofs.Frame.Code
import CueScript.Proofs.Twin.Evaluation

/-!
# Trees that keep to themselves

A tree without `fn` and without abbreviations makes no closure when it is evaluated.  So it
meets no closure, scope, evaluator or store, unless one is in the variables that it looks up,
and it looks up only the names in it.
-/

namespace CueScript

namespace Value

mutual

/-- Whether a value is a tree of code in which some symbols do not occur and whose lists have
some numbers. -/
def IsTreeWithout (barred : List String) (numbers : Nat → Prop) : Value → Prop
  | .symbol name => name ∉ barred
  | .int _ => True
  | .float _ _ => True
  | .str _ => True
  | .list items birth => numbers birth ∧ AllTreesWithout barred numbers items
  | .vector items birth => numbers birth ∧ AllTreesWithout barred numbers items
  | .quoted form => IsTreeWithout barred numbers form
  | _ => False

/-- The same for the items of a list. -/
def AllTreesWithout (barred : List String) (numbers : Nat → Prop) : List Value → Prop
  | [] => True
  | item :: rest => IsTreeWithout barred numbers item ∧ AllTreesWithout barred numbers rest

end

section

variable (barred : List String) (numbers : Nat → Prop) [DecidablePred numbers]

mutual

/-- Whether a value is such a tree can be decided. -/
def decideTreeWithout : (tree : Value) → Decidable (IsTreeWithout barred numbers tree)
  | .symbol name => inferInstanceAs (Decidable (name ∉ barred))
  | .int _ | .float _ _ | .str _ => .isTrue trivial
  | .list items birth | .vector items birth =>
      have := decideTreesWithout items
      inferInstanceAs (Decidable (numbers birth ∧ AllTreesWithout barred numbers items))
  | .quoted form => decideTreeWithout form
  | .nil | .bool _ | .keyword _ | .tuple _ | .map .. | .closure .. | .builtin _
  | .instanceTest .. | .store _ | .event .. | .kind _ | .constant _ | .unset _ | .method ..
  | .member .. | .scope _ | .evaluator _ | .settings _ => .isFalse id

/-- The same for the items of a list. -/
def decideTreesWithout : (trees : List Value) → Decidable (AllTreesWithout barred numbers trees)
  | [] => .isTrue trivial
  | tree :: rest =>
      have := decideTreeWithout tree
      have := decideTreesWithout rest
      inferInstanceAs (Decidable (IsTreeWithout barred numbers tree ∧
        AllTreesWithout barred numbers rest))

end

instance : DecidablePred (IsTreeWithout barred numbers) := decideTreeWithout barred numbers

end

section

variable {barred : List String} {numbers others : Nat → Prop}

mutual

theorem isTreeWithout_widen
    (wider : ∀ birth, numbers birth → others birth) (tree : Value)
    (isTree : IsTreeWithout barred numbers tree) :
    IsTreeWithout barred others tree := by
  cases tree with
  | list items birth => exact ⟨wider birth isTree.1, allTreesWithout_widen wider items isTree.2⟩
  | vector items birth => exact ⟨wider birth isTree.1, allTreesWithout_widen wider items isTree.2⟩
  | quoted form => exact isTreeWithout_widen wider form isTree
  | symbol _ | int _ | float _ _ | str _ => exact isTree
  | _ => exact isTree.elim

theorem allTreesWithout_widen
    (wider : ∀ birth, numbers birth → others birth) (trees : List Value)
    (areTrees : AllTreesWithout barred numbers trees) :
    AllTreesWithout barred others trees := by
  cases trees with
  | nil => exact trivial
  | cons tree rest =>
      exact ⟨isTreeWithout_widen wider tree areTrees.1,
        allTreesWithout_widen wider rest areTrees.2⟩

end

end

/-- Whether a value is a piece of code other than some symbols. -/
def IsCodeWithout (barred : List String) (code : Nat → Prop) (value : Value) : Prop :=
  value.IsCode code ∧ ∀ name ∈ barred, value ≠ .symbol name

variable {barred : List String} {shared code : Nat → Prop}

theorem isCodeWithout_current
    {value : Value} (holdings : Holdings) (isCode : value.IsCodeWithout barred code) :
    (value.current holdings).IsCodeWithout barred code := by
  refine ⟨isCode_current holdings value isCode.1, fun name member same => ?_⟩
  cases value with
  | symbol other => exact isCode.2 name member same
  | list items birth =>
      rw [current] at same
      split at same <;> cases same
  | vector items birth =>
      rw [current] at same
      split at same <;> cases same
  | int _ | float _ _ | str _ | quoted _ => cases same
  | _ => exact isCode.1

/-! ## Trees that are told apart -/

mutual

theorem tellApart_without
    (wider : ∀ birth, shared birth → code birth) (next : Nat) (tree : Value)
    (isTree : IsTreeWithout barred (fun birth => birth = 0 ∨ shared birth) tree)
    (fresh : ∀ birth, next ≤ birth → birth < (tellApart next tree).2 → code birth) :
    IsTreeWithout barred code (tellApart next tree).1 := by
  cases tree with
  | list items birth =>
      have areTrees := tellItemsApart_without wider next items isTree.2
        fun number above below => fresh number above
          (Nat.lt_of_lt_of_le below (numbered_le birth _))
      have own : code (numbered birth (tellItemsApart next items).2).1 :=
        numbered_code (isTree.1.imp_right (wider birth)) fun number above below =>
          fresh number (Nat.le_trans (tellItemsApart_le next items) above) below
      exact ⟨own, areTrees⟩
  | vector items birth =>
      have areTrees := tellItemsApart_without wider next items isTree.2
        fun number above below => fresh number above
          (Nat.lt_of_lt_of_le below (numbered_le birth _))
      have own : code (numbered birth (tellItemsApart next items).2).1 :=
        numbered_code (isTree.1.imp_right (wider birth)) fun number above below =>
          fresh number (Nat.le_trans (tellItemsApart_le next items) above) below
      exact ⟨own, areTrees⟩
  | quoted form => exact tellApart_without wider next form isTree fresh
  | float number birth => cases number <;> exact trivial
  | symbol name => exact isTree
  | int _ | str _ => exact trivial
  | _ => exact isTree.elim

theorem tellItemsApart_without
    (wider : ∀ birth, shared birth → code birth) (next : Nat) (trees : List Value)
    (areTrees : AllTreesWithout barred (fun birth => birth = 0 ∨ shared birth) trees)
    (fresh : ∀ birth, next ≤ birth → birth < (tellItemsApart next trees).2 → code birth) :
    AllTreesWithout barred code (tellItemsApart next trees).1 := by
  cases trees with
  | nil => exact trivial
  | cons tree rest =>
      have first := tellApart_without wider next tree areTrees.1
        fun birth above below => fresh birth above
          (Nat.lt_of_lt_of_le below (tellItemsApart_le _ rest))
      have others := tellItemsApart_without wider _ rest areTrees.2
        fun birth above below => fresh birth (Nat.le_trans (tellApart_le next tree) above) below
      exact ⟨first, others⟩

end

mutual

/-- A tree whose lists have lost nothing is up to date. -/
theorem current_of_without
    {heap : Heap} (unlost : ∀ birth, code birth → heap.left? birth = none) (tree : Value)
    (isTree : IsTreeWithout barred code tree) :
    heap.current tree = tree := by
  cases tree with
  | list items birth =>
      rw [Heap.current_list (unlost birth isTree.1), map_current_of_without unlost items isTree.2]
  | vector items birth =>
      rw [Heap.current_vector (unlost birth isTree.1),
        map_current_of_without unlost items isTree.2]
  | quoted form => rw [Heap.current_quoted, current_of_without unlost form isTree]
  | symbol name => exact Heap.current_symbol name
  | int number => exact Heap.current_int number
  | float number birth => exact Heap.current_float number birth
  | str text => exact Heap.current_str text
  | _ => exact isTree.elim

theorem map_current_of_without
    {heap : Heap} (unlost : ∀ birth, code birth → heap.left? birth = none) (trees : List Value)
    (areTrees : AllTreesWithout barred code trees) :
    trees.map heap.current = trees := by
  cases trees with
  | nil => rfl
  | cons tree rest =>
      rw [List.map_cons, current_of_without unlost tree areTrees.1,
        map_current_of_without unlost rest areTrees.2]

end

theorem isCode_of_without (tree : Value) (isTree : IsTreeWithout barred code tree) :
    IsCode code tree := by
  cases tree with
  | list items birth => exact isTree.1
  | vector items birth => exact isTree.1
  | quoted form => exact isCode_of_without form isTree
  | symbol _ | int _ | float _ _ | str _ => exact trivial
  | _ => exact isTree.elim

theorem isCodeWithout_of_tree
    {tree : Value} (isTree : IsTreeWithout barred code tree) :
    tree.IsCodeWithout barred code := by
  refine ⟨isCode_of_without tree isTree, ?_⟩
  rintro name member rfl
  exact isTree member

end Value

/-! ## Bounds -/

/-- No store, closure, scope or evaluator is met, and lists with some numbers hold code without
some symbols. -/
def Bounds.secluded (barred : List String) (code births scopes tables : Nat → Prop) : Bounds where
  stores _ := False
  scopes := scopes
  evaluators _ := True
  tables := tables
  births := births
  losable _ := True
  code := Value.IsCodeWithout barred code
  contents birth item := code birth → item.IsCodeWithout barred code
  contents_current _ _ holdings isCode known :=
    Value.isCodeWithout_current holdings (isCode known)
  escapes := False

section Secluded

variable {barred : List String} {code births scopes tables : Nat → Prop}

namespace Value

mutual

theorem within_of_without
    (wider : ∀ birth, code birth → births birth) (tree : Value)
    (isTree : IsTreeWithout barred code tree) :
    Within (.secluded barred code births scopes tables) tree := by
  cases tree with
  | list items birth =>
      obtain ⟨areCode, within⟩ := allWithin_of_without wider items isTree.2
      exact ⟨⟨wider birth isTree.1, fun item member _ => areCode item member⟩, within⟩
  | vector items birth =>
      obtain ⟨areCode, within⟩ := allWithin_of_without wider items isTree.2
      exact ⟨⟨wider birth isTree.1, fun item member _ => areCode item member⟩, within⟩
  | quoted form => exact within_of_without wider form isTree
  | symbol _ | int _ | float _ _ | str _ => exact trivial
  | _ => exact isTree.elim

theorem allWithin_of_without
    (wider : ∀ birth, code birth → births birth) (trees : List Value)
    (areTrees : AllTreesWithout barred code trees) :
    (∀ item ∈ trees, item.IsCodeWithout barred code) ∧
      AllWithin (.secluded barred code births scopes tables) trees := by
  cases trees with
  | nil => exact ⟨(fun _ member => nomatch member), trivial⟩
  | cons tree rest =>
      have within := within_of_without wider tree areTrees.1
      obtain ⟨areCode, restWithin⟩ := allWithin_of_without wider rest areTrees.2
      refine ⟨fun item member => ?_, within, restWithin⟩
      rcases List.mem_cons.mp member with rfl | later
      · exact isCodeWithout_of_tree areTrees.1
      · exact areCode item later

end

end Value

theorem mem_abbreviations_of_expand
    {name : String} {args : List Value} {expansion : Value}
    (isExpansion : expand? name args = some expansion) :
    name ∈ abbreviations.map Prod.fst := by
  obtain ⟨symbols, isFound, -⟩ := Option.map_eq_some_iff.mp isExpansion
  obtain ⟨before, after, isSplit, -⟩ := List.lookup_eq_some_iff.mp isFound
  rw [isSplit, List.map_append, List.map_cons]
  exact List.mem_append_right _ List.mem_cons_self

/-- Only forms that begin with `fn` make closures. -/
theorem SpecialForm.eq_fn_of_function
    {head name : String} {form body : List Value} {params : List String} {rest : Option String}
    (isFunction : ofForm? head form = some (.ok (.function name params rest body))) :
    head = "fn" := by
  unfold ofForm? at isFunction
  split at isFunction <;> simp only [Option.some.injEq, reduceCtorEq] at isFunction
  · unfold asQuote at isFunction
    split at isFunction <;> cases isFunction
  · unfold asIf at isFunction
    split at isFunction <;> cases isFunction
  · unfold asGuarded at isFunction
    split at isFunction <;> cases isFunction
  · unfold asGuarded at isFunction
    split at isFunction <;> cases isFunction
  · cases isFunction
  · cases isFunction
  · cases isFunction
  · unfold asLet at isFunction
    cases isPairs : bindings form <;> rw [isPairs] at isFunction <;> cases isFunction
  · unfold asWhenLet at isFunction
    cases isPairs : bindings form <;> rw [isPairs] at isFunction
    · cases isFunction
    · simp only [bind, Except.bind] at isFunction
      split at isFunction <;> cases isFunction
  · unfold asIfLet at isFunction
    cases isPairs : bindings form <;> rw [isPairs] at isFunction
    · cases isFunction
    · simp only [bind, Except.bind] at isFunction
      split at isFunction <;> cases isFunction
  · unfold asCond at isFunction
    split at isFunction <;> cases isFunction
  · rfl

/-- Code without `fn` and without abbreviations is closed under evaluation. -/
theorem grammar_secluded
    (numbered : ¬ code 0) (zero : births 0) (noFunctions : "fn" ∈ barred)
    (noAbbreviations : ∀ name ∈ abbreviations.map Prod.fst, name ∈ barred) :
    (Bounds.secluded barred code births scopes tables).Grammar True where
  unnumbered items := ⟨zero, fun _ _ known => absurd known numbered⟩
  current heap item _ evaluable := by
    unfold Heap.current
    split
    · exact evaluable.2
    · exact Value.isCodeWithout_current _ evaluable.2
  vector items birth evaluable item member := evaluable.1.1.2 item member evaluable.2.1
  combination head args birth _ evaluable := by
    have items := fun item member => evaluable.1.1.2 item member evaluable.2.1
    exact ⟨items head List.mem_cons_self, fun arg member =>
      items arg (List.mem_cons_of_mem _ member)⟩
  special name args birth parts evaluable isParts := by
    have items := fun item member => evaluable.1.1.2 item member evaluable.2.1
    refine SpecialForm.ofForm_all (fun _ _ _ => trivial) ?_ (fun _ => items) isParts
    intro _ vector elements isVector isSequence element member
    have inForm := List.mem_of_getElem? isVector
    have vectorCode := (items vector inForm).1
    have vectorWithin := Value.allWithin_iff.mp evaluable.1.2 vector inForm
    cases vector with
    | list held birth =>
        cases isSequence
        exact vectorWithin.1.2 element member vectorCode
    | vector held birth =>
        cases isSequence
        exact vectorWithin.1.2 element member vectorCode
    | _ => cases isSequence
  function name args birth label params rest body evaluable isFunction := by
    obtain rfl := SpecialForm.eq_fn_of_function isFunction
    have head := evaluable.1.1.2 _ List.mem_cons_self evaluable.2.1
    exact head.2 "fn" noFunctions rfl
  fault _ _ _ _ _ _ := trivial
  ordinary name args birth evaluable _ item member :=
    evaluable.1.1.2 item member evaluable.2.1
  expansion name args birth expansion evaluable _ isExpansion := by
    have head := evaluable.1.1.2 _ List.mem_cons_self evaluable.2.1
    exact absurd rfl (head.2 name (noAbbreviations name (mem_abbreviations_of_expand isExpansion)))
  lost heap items birth left heapWithin evaluable isLeft item member :=
    heapWithin.kept birth left evaluable.1.1.1 isLeft item member evaluable.2.1

end Secluded

/-! ## Runs -/

/-- One of some names is looked up, or a scope or an evaluator is used as a value. -/
def strays (barred : List String) : Watch
  | .evaluate _ _ (.symbol name) _ :: _, _ => barred.contains name
  | .read (.scope _) _ :: _, _ => true
  | .call (.member (.scope _) _) _ :: _, _ => true
  | .call (.member (.evaluator _) _) _ :: _, _ => true
  | _, _ => false

namespace Eval

variable {barred : List String} {code births scopes tables : Nat → Prop}

/-- What is secluded does not stray. -/
theorem governs_secluded
    (grammar : (Bounds.secluded barred code births scopes tables).Grammar True) :
    Regime.Governs ⟨.secluded barred code births scopes tables, True, fun _ _ _ => True⟩ .never
      (strays barred) where
  grammar := grammar
  spared evaluators around task heap _ within _ _ := by
    cases task with
    | evaluate owner inside item depth =>
        refine ⟨?_, trivial⟩
        cases item with
        | symbol name =>
            have spoken : name ∉ barred := fun member => within.2.2.2.2 name member rfl
            simpa [strays] using spoken
        | _ => rfl
    | read value name =>
        refine ⟨?_, trivial⟩
        cases value with
        | scope id => exact within.2.elim
        | _ => rfl
    | enter function args depth => exact ⟨rfl, trivial⟩
    | call function args =>
        refine ⟨?_, fun isReflection => ?_, fun _ _ _ _ _ => trivial⟩
        · cases function with
          | member receiver operation =>
              cases receiver with
              | scope id => exact within.1.2.elim
              | evaluator id => exact within.1.2.elim
              | _ => rfl
          | _ => rfl
        · cases function with
          | member receiver operation =>
              cases receiver with
              | closure id name params rest body inside owner => exact within.1.2.2.2.2.elim
              | evaluator id => exact within.1.2.elim
              | _ => cases isReflection
          | _ => cases isReflection
  kept _ _ _ _ _ _ _ _ _ _ _ _ _ := trivial

/-- A run that is secluded does not stray and stays secluded. -/
theorem perform_secluded
    (grammar : (Bounds.secluded barred code births scopes tables).Grammar True)
    {task : Task} {heap : Heap} (frames : Nat)
    (heapWithin : heap.Within (.secluded barred code births scopes tables))
    (within : task.Within (.secluded barred code births scopes tables)) (alarm : Fault) :
    (watched (strays barred) alarm frames [] task).perform heap =
        (solve frames task).perform heap ∧
      (solve frames task).Keeps (.secluded barred code births scopes tables)
        (Value.Within (.secluded barred code births scopes tables)) heap := by
  obtain ⟨unseen, quiet⟩ := Regime.exists_alarm ((solve frames task).perform heap)
  rw [← watched_never unseen frames []] at quiet
  have runs (other : Fault) :=
    Regime.run_of_alarm (governs_secluded grammar) frames heapWithin within trivial quiet other
  rw [watched_never] at runs
  exact ⟨(runs alarm).1, (runs alarm).2.1⟩

end Eval

/-- Runs that do not stray do nothing that variables they do not look up could tell. -/
theorem Pairing.coveredBy_strays
    {pairing : Pairing} {barred : List String}
    (spoken : ∀ name, name ∉ barred → pairing.spoken name) (level : ¬ pairing.slack)
    (together : ¬ pairing.apart) (unbacked : pairing.Unbacked) :
    pairing.CoveredBy (strays barred) := by
  intro task around heap quiet
  cases task with
  | evaluate owner inside form depth =>
      refine ⟨unbacked.meets inside, ?_⟩
      rintro name rfl
      refine .inr ⟨name, rfl, spoken name fun member => ?_⟩
      have isBarred : barred.contains name = true := List.contains_iff_mem.mpr member
      rw [show barred.contains name = false from quiet] at isBarred
      cases isBarred
  | read value name =>
      cases value with
      | store id => exact fun isApart => absurd isApart together
      | scope id => cases quiet
      | evaluator id => exact fun lowered => absurd (pairing.lowers lowered) level
      | closure id shown params rest body inside owner => exact .inl (unbacked.meets inside)
      | _ => exact trivial
  | enter closure args depth => exact unbacked.permits_enter closure args depth
  | call function args =>
      cases function with
      | member receiver operation =>
          cases receiver with
          | scope id => cases quiet
          | evaluator id => cases quiet
          | _ => exact trivial
      | _ => exact trivial

end CueScript
