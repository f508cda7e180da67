import CueScript.Proofs.Extract.Seclusion
import CueScript.Proofs.Twin.Identity
import CueScript.Proofs.Twin.Settled

/-!
# Other variables

A run that looks up only some names ends in the same way from a heap in which scopes have
other variables besides, and in which more scopes, tables and numbers have been given out.
It leaves there what it does not know of.
-/

namespace CueScript

theorem shifted_replicate_before
    {count mark number : Nat} (below : number < mark) :
    shifted (List.replicate count mark) number = number :=
  shifted_before fun each member => by
    rw [List.eq_of_mem_replicate member]
    exact below

theorem shifted_replicate_after
    {count mark number : Nat} (above : mark ≤ number) :
    shifted (List.replicate count mark) number = number + count := by
  rw [shifted_after fun each member => ?_, List.length_replicate]
  rw [List.eq_of_mem_replicate member]
  exact above

namespace Heap

/-- Whether a heap has all that another one has, while lists may have lost items and more
scopes, tables and numbers may have been given out. -/
structure Grows (before after : Heap) : Prop where
  stores : after.stores = before.stores
  views : after.views = before.views
  evaluators : after.evaluators = before.evaluators
  scopes : ∀ id < before.scopes.size, after.scopes[id]? = before.scopes[id]?
  tables : ∀ id < before.tables.size, after.tables[id]? = before.tables[id]?
  scopeCount : before.scopes.size ≤ after.scopes.size
  tableCount : before.tables.size ≤ after.tables.size
  births : before.births ≤ after.births

/-- Whether a heap holds all that another one does, apart from variables under barred
names. -/
structure Parallels (barred : List String) (left right : Heap) : Prop where
  stores : right.stores = left.stores
  noViews : left.views = []
  views : right.views = []
  losses : right.losses = left.losses
  evaluators : right.evaluators = left.evaluators
  scopes : ∀ id < left.scopes.size, right.scopes[id]? = left.scopes[id]?
  owned : ∀ id < left.tables.size, left.isOfStore id = true →
    right.tables[id]? = left.tables[id]?
  lookups : ∀ id < left.tables.size, left.isOfStore id = false → ∀ name, name ∉ barred →
    (right.table id).get? (.str name) = (left.table id).get? (.str name)
  scopeCount : left.scopes.size ≤ right.scopes.size
  tableCount : left.tables.size ≤ right.tables.size
  births : left.births ≤ right.births

variable {barred : List String} {left right : Heap}

/-- The numbers of a heap in which more have been given out. -/
def numbersBeside (left right : Heap) (positive : 0 < left.births) : Renaming :=
  .shifting (List.replicate (right.births - left.births) left.births)
    (List.replicate (right.scopes.size - left.scopes.size) left.scopes.size)
    (List.replicate (right.tables.size - left.tables.size) left.tables.size)
    fun mark member => by
      rw [List.eq_of_mem_replicate member]
      exact positive

theorem numbersBeside_keeps {positive : 0 < left.births} :
    (left.numbersBeside right positive).Keeps left where
  births _ below := shifted_replicate_before below
  scopes _ below := shifted_replicate_before below
  tables _ below := shifted_replicate_before below

/-- Where no more numbers have been given out, they are the same. -/
theorem numbersBeside_same
    {positive : 0 < left.births} (births : right.births = left.births)
    (scopes : right.scopes.size = left.scopes.size)
    (tables : right.tables.size = left.tables.size) :
    left.numbersBeside right positive = .identity := by
  have same (mark : Nat) : shifted (List.replicate 0 mark) = fun number => number := by
    funext number
    rfl
  simp only [numbersBeside, Renaming.shifting, births, scopes, tables, Nat.sub_self, same,
    Renaming.identity]

namespace Parallels

/-- A run beside one with other variables. -/
def pairing (parallels : left.Parallels barred right) (settled : left.Settled) (alarm : Fault) :
    Pairing where
  numbers := left.numbersBeside right settled.births
  slack := False
  aside id :=
    if id < left.tables.size ∧ left.isOfStore id = false then
      some (left.table id, right.table id)
    else
      none
  spoken name := name ∉ barred
  alike id entries others isAside _ _ name spoken := by
    split at isAside
    · rename_i isFree
      cases isAside
      have fixed := Settled.renameEntries_eq (settled.tables id _ (getElem?_tables isFree.1))
        (@numbersBeside_keeps left right settled.births)
      have renamed := Value.get_rename (left.numbersBeside right settled.births) (.str name)
        (left.table id)
      rw [fixed, Value.rename_str] at renamed
      rw [parallels.lookups id isFree.1 isFree.2 name spoken]
      exact renamed
    · cases isAside
  ownScopes := left.scopes.size
  alarm := alarm

variable (parallels : left.Parallels barred right) (settled : left.Settled) (alarm : Fault)

/-- Both runs start from heaps that are alike. -/
theorem like : left.Like (parallels.pairing settled alarm) right := by
  have keeps := @numbersBeside_keeps left right settled.births
  have fixed := settled.fixed keeps
  have free {id : Nat} (kept : (parallels.pairing settled alarm).aside id = none)
      (below : id < left.tables.size) : left.isOfStore id = true := by
    simp only [pairing, ite_eq_right_iff, reduceCtorEq, imp_false, not_and] at kept
    exact Bool.not_eq_false _ ▸ kept below
  have unowned {id : Nat} (owned : left.isOfStore id = true) :
      (parallels.pairing settled alarm).aside id = none :=
    if_neg fun isFree => Bool.false_ne_true (isFree.2.symm.trans owned)
  constructor
  · intro id kept
    by_cases below : id < left.tables.size
    · change right.tables[(left.numbersBeside right settled.births).tables id]? = _
      rw [keeps.tables id below, parallels.owned id below (free kept below)]
      cases held : left.tables[id]? with
      | none => rfl
      | some entries => exact congrArg some (fixed.tables id entries held).symm
    · have above := Nat.le_of_not_lt below
      have moved : (left.numbersBeside right settled.births).tables id =
          id + (right.tables.size - left.tables.size) := shifted_replicate_after above
      have count := parallels.tableCount
      change right.tables[(left.numbersBeside right settled.births).tables id]? = _
      rw [moved, Array.getElem?_eq_none (by omega), Array.getElem?_eq_none above]
      rfl
  · intro id entries others isAside
    simp only [pairing] at isAside
    split at isAside
    · rename_i isFree
      cases isAside
      have count := parallels.tableCount
      change _ ∧ right.tables[(left.numbersBeside right settled.births).tables id]? = _
      rw [keeps.tables id isFree.1, Heap.table, Heap.table,
        Array.getElem?_eq_getElem isFree.1,
        Array.getElem?_eq_getElem (Nat.lt_of_lt_of_le isFree.1 count)]
      exact ⟨rfl, rfl⟩
    · cases isAside
  · rw [parallels.views, parallels.noViews]
    rfl
  · rw [parallels.losses]
    exact (Settled.map_eq_of_forall fun entry member =>
      Prod.ext (fixed.losses entry member).1 (fixed.losses entry member).2).symm
  · refine Array.ext_getElem? fun id => ?_
    rw [parallels.stores, Array.getElem?_map]
    cases held : left.stores[id]? with
    | none => rfl
    | some store =>
        have same := fixed.stores id store held
        rw [Option.map_some, Store.renumber]
        exact congrArg (fun table => some (Store.mk store.name table)) same.symm
  · intro id _
    have unbacked : (parallels.pairing settled alarm).Unbacked := fun _ => rfl
    rw [unbacked.scope_eq]
    by_cases below : id < left.scopes.size
    · change right.scopes[(left.numbersBeside right settled.births).scopes id]? = _
      rw [keeps.scopes id below, parallels.scopes id below]
      cases held : left.scopes[id]? with
      | none => rfl
      | some scope => exact congrArg some (fixed.scopes id scope held).symm
    · have above := Nat.le_of_not_lt below
      have moved : (left.numbersBeside right settled.births).scopes id =
          id + (right.scopes.size - left.scopes.size) := shifted_replicate_after above
      have count := parallels.scopeCount
      change right.scopes[(left.numbersBeside right settled.births).scopes id]? = _
      rw [moved, Array.getElem?_eq_none (by omega), Array.getElem?_eq_none above]
      rfl
  · exact fun _ _ _ _ => ⟨fun _ _ => Bool.false_ne_true, fun _ _ => Bool.false_ne_true⟩
  · exact fun _ _ isBehind => absurd isBehind.symm (Option.some_ne_none _)
  · exact fun _ _ _ _ isBehind => absurd isBehind.symm (Option.some_ne_none _)
  · rw [parallels.evaluators]
  · exact fun id => .inl (by rw [Heap.config, Heap.config, parallels.evaluators])
  · intro id
    rw [Heap.hostDepth, Heap.hostDepth, parallels.evaluators]
    exact Pairing.levels_refl _ _
  · intro further
    have moved : (left.numbersBeside right settled.births).births (left.births + further) =
        left.births + further + (right.births - left.births) :=
      shifted_replicate_after (Nat.le_add_right _ _)
    have count := parallels.births
    change (left.numbersBeside right settled.births).births (left.births + further) = _
    omega
  · intro further
    have moved : (left.numbersBeside right settled.births).scopes (left.scopes.size + further) =
        left.scopes.size + further + (right.scopes.size - left.scopes.size) :=
      shifted_replicate_after (Nat.le_add_right _ _)
    have count := parallels.scopeCount
    change (left.numbersBeside right settled.births).scopes (left.scopes.size + further) = _
    omega
  · intro further
    have moved : (left.numbersBeside right settled.births).tables (left.tables.size + further) =
        left.tables.size + further + (right.tables.size - left.tables.size) :=
      shifted_replicate_after (Nat.le_add_right _ _)
    have count := parallels.tableCount
    change (left.numbersBeside right settled.births).tables (left.tables.size + further) = _
    omega
  · exact fun id store isStore => unowned (isOfStore_iff.mpr ⟨id, store, isStore, rfl⟩)
  · intro entry member
    rw [parallels.noViews] at member
    cases member
  · intro id table outer isScope notBelow
    exact absurd (Array.getElem?_eq_some_iff.mp isScope).1 (Nat.not_lt.mpr notBelow)
  · exact Nat.le_refl _
  · exact fun isApart => isApart.elim

end Parallels

/-! ## Runs beside each other -/

section Run

variable {code births scopes tables : Nat → Prop}

/-- What becomes of a run beside a secluded one. -/
structure RunsBeside (bounds : Bounds) (left right : Heap) (settled : left.Settled)
    (ran other : Except Fault Value × Heap) : Prop where
  value : ∀ value, ran.1 = .ok value → value.Within bounds
  outcome : other.1 = ran.1.map (Value.rename (left.numbersBeside right settled.births))
  tables : ∀ id < left.tables.size, other.2.tables[id]? = right.tables[id]?
  views : other.2.views = []
  losses : other.2.losses = ran.2.losses.map fun entry =>
    ((left.numbersBeside right settled.births).births entry.1,
      entry.2.map (Value.rename (left.numbersBeside right settled.births)))
  unlost : ∀ birth < left.births, ¬ bounds.births birth →
    other.2.left? birth = right.left? birth
  keeps : other.2.evaluators = right.evaluators ∧ right.Extends .anything other.2

theorem Parallels.beside
    (parallels : left.Parallels barred right) (settled : left.Settled)
    (shielded : ∀ (id : Nat) (store : Store), left.stores[id]? = some store →
      ¬ tables store.table)
    {alarm : Fault} {ran other : Except Fault Value × Heap}
    (alike : ran.2.Like (parallels.pairing settled alarm) other.2)
    (extend : left.Extends (.secluded barred code births scopes tables) ran.2)
    (further : other.2.evaluators = right.evaluators ∧ right.Extends .anything other.2)
    (value : ∀ value, ran.1 = .ok value →
      value.Within (.secluded barred code births scopes tables))
    (outcome : other.1 = ran.1.map (Value.rename (left.numbersBeside right settled.births))) :
    RunsBeside (.secluded barred code births scopes tables) left right settled ran other := by
  have like := parallels.like settled alarm
  have keeps := @numbersBeside_keeps left right settled.births
  refine ⟨value, outcome, fun id below => ?_, ?_, alike.losses, fun birth below unknown => ?_,
    further⟩
  · -- A table is that of a store, which the run beside cannot reach, or it is set aside.
    cases owned : left.isOfStore id with
    | true =>
        obtain ⟨holder, store, isStore, rfl⟩ := isOfStore_iff.mp owned
        have kept := like.storesKept holder store isStore
        have before := like.tables store.table kept
        have after := alike.tables store.table kept
        rw [extend.tables store.table (shielded holder store isStore), ← before] at after
        change other.2.tables[(left.numbersBeside right settled.births).tables _]? =
          right.tables[(left.numbersBeside right settled.births).tables _]? at after
        rwa [keeps.tables _ below] at after
    | false =>
        have isAside : (parallels.pairing settled alarm).aside id =
            some (left.table id, right.table id) := if_pos ⟨below, owned⟩
        have before := (like.asides id _ _ isAside).2
        have after := (alike.asides id _ _ isAside).2
        rw [← before] at after
        change other.2.tables[(left.numbersBeside right settled.births).tables _]? =
          right.tables[(left.numbersBeside right settled.births).tables _]? at after
        rwa [keeps.tables id below] at after
  · rw [alike.views, extend.sameViews (fun _ => id) id, parallels.noViews]
    rfl
  · have before := like.left_items birth
    have after := alike.left_items birth
    rw [extend.losses birth unknown, ← before] at after
    change other.2.left? ((left.numbersBeside right settled.births).births birth) =
      right.left? ((left.numbersBeside right settled.births).births birth) at after
    rwa [keeps.births birth below] at after

theorem Parallels.runsBeside
    (parallels : left.Parallels barred right) (settled : left.Settled)
    (grammar : (Bounds.secluded barred code births scopes tables).Grammar True)
    (heapWithin : left.Within (.secluded barred code births scopes tables))
    (shielded : ∀ (id : Nat) (store : Store), left.stores[id]? = some store →
      ¬ tables store.table)
    {owner inside : Nat} {tree : Value} (depth : Int) (below : inside < left.scopes.size)
    (known : left.Knows tree) (scopeKnown : scopes inside)
    (evaluable : tree.Evaluable (.secluded barred code births scopes tables)) (frames : Nat) :
    RunsBeside (.secluded barred code births scopes tables) left right settled
      ((Eval.solve frames (.evaluate owner inside tree depth)).perform left)
      ((Eval.solve frames (.evaluate owner inside tree depth)).perform right) := by
  obtain ⟨alarm, quiet⟩ := Regime.exists_alarm
    ((Eval.solve frames (.evaluate owner inside tree depth)).perform left)
  let pairing := parallels.pairing settled alarm
  have like : left.Like pairing right := parallels.like settled alarm
  have keeps := @numbersBeside_keeps left right settled.births
  have within : (Task.evaluate owner inside tree depth).Within
      (.secluded barred code births scopes tables) :=
    ⟨trivial, scopeKnown, evaluable⟩
  obtain ⟨sameRun, secluded⟩ := Eval.perform_secluded grammar frames heapWithin within alarm
  have covered : pairing.CoveredBy (strays barred) :=
    Pairing.coveredBy_strays (fun _ spoken => spoken) id id fun _ => rfl
  have tasks : Task.Twin pairing (.evaluate owner inside tree depth)
      (.evaluate owner inside tree depth) := by
    have twin : Task.Twin pairing (.evaluate owner inside tree depth) _ :=
      .evaluate owner inside tree (pairing.levels_refl depth)
    rw [show pairing.numbers.scopes inside = inside from keeps.scopes inside below,
      show tree.rename pairing.numbers = tree from known _ keeps] at twin
    exact twin
  have ends := Eval.workers_twin covered (.inl (Eq.refl frames)) [] _ _ tasks left right like
  rw [show pairing.alarm = alarm from rfl, sameRun] at ends
  have extend := secluded.becomes.extend
  have value := secluded.value
  have kept := Eval.solve_keeps frames (Bounds.lists_anything 0) (fun _ => trivial)
    (fun _ => trivial) trivial (Bounds.heapWithin_anything right)
    (Bounds.taskWithin_anything (.evaluate owner inside tree depth))
  have further := And.intro kept.evaluators kept.becomes.extend
  generalize (Eval.solve frames (.evaluate owner inside tree depth)).perform left = ran
    at ends quiet extend value ⊢
  generalize (Eval.solve frames (.evaluate owner inside tree depth)).perform right = other
    at ends further ⊢
  cases ends with
  | value result after last alike =>
      exact parallels.beside settled shielded alike extend further value rfl
  | fault fault after last alike =>
      exact parallels.beside settled shielded alike extend further value rfl
  | alarm after last => exact absurd rfl (quiet after)
  | limit fault cuts => exact cuts.1.elim

end Run

end Heap

end CueScript
