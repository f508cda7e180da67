import CueScript.Proofs.Catalog.Flatten
import Mathlib.Order.Lattice.Nat

/-!
# Nearest ancestors first

The queue of `Lineage.ancestors` is worked off generation by generation.  `Swept` says how
far that has come: all kinds of earlier generations have been seen, and the queue holds what
is left of one generation before what has been found of the next.

In a catalog that builds, the ancestors of a kind are the kinds that it inherits from, each
once and the nearest first, and to be of a kind is a partial order.
-/

namespace CueScript

namespace Lineage

open Relation

variable {lineage : Lineage} {kind : EventKind} {generation : Nat}
  {seen near far : List EventKind}

/-- What is reached from a kind by going back so many generations. -/
inductive Back (lineage : Lineage) (kind : EventKind) : Nat → EventKind → Prop
  | here : Back lineage kind 0 kind
  | parent {generation : Nat} {child parent : EventKind}
      (back : Back lineage kind generation child) (inherits : lineage.Inherits child parent) :
      Back lineage kind (generation + 1) parent

/-- The smallest number of generations from a kind back to an ancestor. -/
noncomputable def distance (lineage : Lineage) (kind ancestor : EventKind) : Nat :=
  sInf {generation | lineage.Back kind generation ancestor}

theorem exists_back_of_inherits
    {ancestor : EventKind} (inherits : TransGen lineage.Inherits kind ancestor) :
    ∃ generation, lineage.Back kind generation ancestor := by
  induction inherits with
  | single isParent => exact ⟨1, .parent .here isParent⟩
  | tail _ isParent inductionHypothesis =>
      obtain ⟨generation, back⟩ := inductionHypothesis
      exact ⟨generation + 1, .parent back isParent⟩

/-- One kind is at most as far away as another, as far as ancestors go. -/
def AtMostAsFar (lineage : Lineage) (kind nearer farther : EventKind) : Prop :=
  ∀ generation, lineage.Back kind (generation + 1) farther →
    ∃ earlier ≤ generation + 1, lineage.Back kind earlier nearer

theorem AtMostAsFar.distance_le
    {nearer farther : EventKind} (order : lineage.AtMostAsFar kind nearer farther)
    (inherits : TransGen lineage.Inherits kind farther) (other : farther ≠ kind) :
    lineage.distance kind nearer ≤ lineage.distance kind farther := by
  have back : lineage.Back kind (lineage.distance kind farther) farther :=
    Nat.sInf_mem (exists_back_of_inherits inherits)
  cases steps : lineage.distance kind farther with
  | zero =>
      rw [steps] at back
      cases back
      exact absurd rfl other
  | succ generation =>
      rw [steps] at back
      obtain ⟨earlier, bound, backToNearer⟩ := order generation back
      exact (Nat.sInf_le backToNearer).trans bound

/-! ## Generation by generation -/

/-- How far the ancestors of a kind have been swept: the queue holds some kinds of one
generation and then some of the next. -/
structure Swept (lineage : Lineage) (kind : EventKind) (generation : Nat)
    (seen near far : List EventKind) : Prop where
  back : ∀ each ∈ near, lineage.Back kind (generation + 1) each
  backFurther : ∀ each ∈ far, lineage.Back kind (generation + 2) each
  earlier : ∀ before < generation, ∀ each, lineage.Back kind (before + 1) each → each ∈ seen
  present : ∀ each, lineage.Back kind (generation + 1) each → each ∈ seen ∨ each ∈ near
  known : ∀ each ∈ seen, ∃ earlier ≤ generation + 1, lineage.Back kind earlier each
  queued : ∀ each ∈ seen, ∀ parent, lineage.Inherits each parent →
    parent ∈ seen ∨ parent ∈ near ∨ parent ∈ far
  ordered : seen.Pairwise (lineage.AtMostAsFar kind)

namespace Swept

theorem start : lineage.Swept kind 0 [] (lineage.parents kind) [] where
  back each isParent := .parent .here isParent
  backFurther each member := absurd member List.not_mem_nil
  earlier before bound := absurd bound (Nat.not_lt_zero before)
  present each back := by
    cases back with
    | parent back isParent =>
        cases back
        exact .inr isParent
  known each member := absurd member List.not_mem_nil
  queued each member := absurd member List.not_mem_nil
  ordered := .nil

/-- When a generation is done, the next one has been found. -/
theorem next (swept : lineage.Swept kind generation seen [] far) :
    lineage.Swept kind (generation + 1) seen far [] where
  back := swept.backFurther
  backFurther each member := absurd member List.not_mem_nil
  earlier before bound each back := by
    rcases Nat.lt_succ_iff_lt_or_eq.mp bound with isEarlier | rfl
    · exact swept.earlier before isEarlier each back
    · exact (swept.present each back).resolve_right List.not_mem_nil
  present each back := by
    cases back with
    | parent back isParent =>
        have isSeen := (swept.present _ back).resolve_right List.not_mem_nil
        exact (swept.queued _ isSeen each isParent).imp_right
          fun queued => queued.resolve_left List.not_mem_nil
  known each member := by
    obtain ⟨before, bound, back⟩ := swept.known each member
    exact ⟨before, Nat.le_succ_of_le bound, back⟩
  queued each member parent isParent :=
    (swept.queued each member parent isParent).imp_right
      fun queued => .inl (queued.resolve_left List.not_mem_nil)
  ordered := swept.ordered

/-- The head of the queue can be taken for one of the nearer generation. -/
theorem exists_near
    {head : EventKind} {rest : List EventKind}
    (swept : lineage.Swept kind generation seen near far) (queue : near ++ far = head :: rest) :
    ∃ generation near far, lineage.Swept kind generation seen (head :: near) far ∧
      near ++ far = rest := by
  cases near with
  | nil =>
      rw [List.nil_append] at queue
      subst queue
      exact ⟨_, rest, [], swept.next, List.append_nil rest⟩
  | cons first others =>
      cases queue
      exact ⟨generation, others, far, swept, rfl⟩

theorem skip
    {head : EventKind} (swept : lineage.Swept kind generation seen (head :: near) far)
    (old : head ∈ seen) :
    lineage.Swept kind generation seen near far where
  back each member := swept.back each (List.mem_cons_of_mem head member)
  backFurther := swept.backFurther
  earlier := swept.earlier
  present each back := by
    rcases swept.present each back with isSeen | isNear
    · exact .inl isSeen
    · rcases List.mem_cons.mp isNear with rfl | later
      · exact .inl old
      · exact .inr later
  known := swept.known
  queued each member parent isParent := by
    rcases swept.queued each member parent isParent with isSeen | isNear | isFar
    · exact .inl isSeen
    · rcases List.mem_cons.mp isNear with rfl | later
      · exact .inl old
      · exact .inr (.inl later)
    · exact .inr (.inr isFar)
  ordered := swept.ordered

/-- A kind that is new is of the nearer generation and of no earlier one. -/
theorem take
    {head : EventKind} (swept : lineage.Swept kind generation seen (head :: near) far)
    (fresh : head ∉ seen) :
    lineage.Swept kind generation (seen ++ [head]) near (far ++ lineage.parents head) where
  back each member := swept.back each (List.mem_cons_of_mem head member)
  backFurther each member := by
    rcases List.mem_append.mp member with isFar | isParent
    · exact swept.backFurther each isFar
    · exact .parent (swept.back head List.mem_cons_self) isParent
  earlier before bound each back :=
    List.mem_append_left _ (swept.earlier before bound each back)
  present each back := by
    rcases swept.present each back with isSeen | isNear
    · exact .inl (List.mem_append_left _ isSeen)
    · rcases List.mem_cons.mp isNear with rfl | later
      · exact .inl (List.mem_append_right _ List.mem_cons_self)
      · exact .inr later
  known each member := by
    rcases List.mem_append.mp member with isSeen | isHead
    · exact swept.known each isSeen
    · rw [List.mem_singleton.mp isHead]
      exact ⟨generation + 1, le_rfl, swept.back head List.mem_cons_self⟩
  queued each member parent isParent := by
    rcases List.mem_append.mp member with isSeen | isHead
    · rcases swept.queued each isSeen parent isParent with known | isNear | isFar
      · exact .inl (List.mem_append_left _ known)
      · rcases List.mem_cons.mp isNear with rfl | later
        · exact .inl (List.mem_append_right _ List.mem_cons_self)
        · exact .inr (.inl later)
      · exact .inr (.inr (List.mem_append_left _ isFar))
    · rw [List.mem_singleton.mp isHead] at isParent
      exact .inr (.inr (List.mem_append_right _ isParent))
  ordered := by
    refine List.pairwise_append.mpr ⟨swept.ordered, List.pairwise_singleton _ _, ?_⟩
    intro each isSeen last isHead before back
    rw [List.mem_singleton.mp isHead] at back
    have notEarlier : generation ≤ before := by
      by_contra isEarlier
      exact fresh (swept.earlier before (Nat.not_le.mp isEarlier) head back)
    obtain ⟨earlier, bound, backToEach⟩ := swept.known each isSeen
    exact ⟨earlier, bound.trans (Nat.succ_le_succ notEarlier), backToEach⟩

/-- The queue is worked off from near to far. -/
theorem pairwise_ancestorsFrom (swept : lineage.Swept kind generation seen near far) :
    (lineage.ancestorsFrom seen (near ++ far)).Pairwise (lineage.AtMostAsFar kind) := by
  generalize queue : near ++ far = waiting
  induction seen, waiting using ancestorsFrom.induct lineage generalizing generation near far with
  | case1 seen =>
      rw [ancestorsFrom]
      exact swept.ordered
  | case2 seen head rest old inductionHypothesis =>
      rw [ancestorsFrom, if_pos old]
      obtain ⟨generation, near, far, swept, remains⟩ := swept.exists_near queue
      exact inductionHypothesis (swept.skip old) remains
  | case3 seen head rest fresh inductionHypothesis =>
      rw [ancestorsFrom, if_neg fresh]
      obtain ⟨generation, near, far, swept, remains⟩ := swept.exists_near queue
      refine inductionHypothesis (swept.take fresh) ?_
      rw [← List.append_assoc, remains]

end Swept

theorem nodup_ancestorsFrom
    {queue : List EventKind} (distinct : seen.Nodup) :
    (lineage.ancestorsFrom seen queue).Nodup := by
  induction seen, queue using ancestorsFrom.induct lineage with
  | case1 seen =>
      rw [ancestorsFrom]
      exact distinct
  | case2 seen head rest old inductionHypothesis =>
      rw [ancestorsFrom, if_pos old]
      exact inductionHypothesis distinct
  | case3 seen head rest fresh inductionHypothesis =>
      rw [ancestorsFrom, if_neg fresh]
      refine inductionHypothesis (List.nodup_append.mpr ⟨distinct, List.nodup_singleton head, ?_⟩)
      rintro each isSeen _ isHead rfl
      exact fresh (List.mem_singleton.mp isHead ▸ isSeen)

/-- In a lineage without cycles the ancestors of a kind come nearest first. -/
theorem Acyclic.pairwise_ancestors (acyclic : lineage.Acyclic) (kind : EventKind) :
    (lineage.ancestors kind).Pairwise fun nearer farther =>
      lineage.distance kind nearer ≤ lineage.distance kind farther := by
  have started : lineage.Swept kind 0 [] (lineage.parents kind) [] := .start
  have ordered := started.pairwise_ancestorsFrom
  rw [List.append_nil] at ordered
  refine List.Pairwise.imp_of_mem ?_ ordered
  intro nearer farther _ isFarther order
  have inherits := mem_ancestors_iff.mp isFarther
  refine order.distance_le inherits ?_
  rintro rfl
  exact acyclic _ inherits

theorem Acyclic.eq_of_isA
    {first second : EventKind} (acyclic : lineage.Acyclic)
    (isSecond : lineage.isA (some first) second = true)
    (isFirst : lineage.isA (some second) first = true) : first = second := by
  rcases reflTransGen_iff_eq_or_transGen.mp (isA_iff.mp isSecond) with same | inherits
  · exact same.symm
  · exact absurd (inherits.trans_left (isA_iff.mp isFirst)) (acyclic first)

end Lineage

namespace Catalog

open Relation

/-- In a catalog that builds, the ancestors of a kind are the kinds that it inherits from, each
once, none of them the kind itself and the nearest first.  To be of a kind is a partial order,
and what has no kind is nothing. -/
theorem ancestors_of_build
    {layout : CatalogLayout} {catalog : Catalog} (built : build? layout = .ok catalog) :
    (∀ kind, (∀ ancestor, ancestor ∈ catalog.lineage.ancestors kind ↔
        TransGen catalog.lineage.Inherits kind ancestor) ∧
      (catalog.lineage.ancestors kind).Nodup ∧
      kind ∉ catalog.lineage.ancestors kind ∧
      (catalog.lineage.ancestors kind).Pairwise fun nearer farther =>
        catalog.lineage.distance kind nearer ≤ catalog.lineage.distance kind farther) ∧
      (∀ kind, catalog.lineage.isA (some kind) kind = true) ∧
      (∀ first second, catalog.lineage.isA (some first) second = true →
        catalog.lineage.isA (some second) first = true → first = second) ∧
      (∀ first second third, catalog.lineage.isA (some first) second = true →
        catalog.lineage.isA (some second) third = true →
        catalog.lineage.isA (some first) third = true) ∧
      ∀ target, catalog.lineage.isA none target = false := by
  have acyclic := (isBuilt_of_build built).acyclic
  refine ⟨fun kind => ⟨fun ancestor => Lineage.mem_ancestors_iff,
      Lineage.nodup_ancestorsFrom List.nodup_nil,
      fun member => acyclic kind (Lineage.mem_ancestors_iff.mp member),
      acyclic.pairwise_ancestors kind⟩,
    fun kind => Lineage.isA_iff.mpr .refl, fun first second => acyclic.eq_of_isA, ?_,
    fun target => rfl⟩
  intro first second third isSecond isThird
  exact Lineage.isA_iff.mpr ((Lineage.isA_iff.mp isSecond).trans (Lineage.isA_iff.mp isThird))

/-- Beats inherit from mixers, from device updates and from players, and mixers inherit from
players. -/
def staggeredLayout : CatalogLayout := [
  (.beat, ⟨[("tempo", "(.bpm status)", "")], [.mixerStatus, .deviceUpdate, .cdjStatus]⟩),
  (.mixerStatus, ⟨[], [.cdjStatus]⟩),
  (.cdjStatus, ⟨[], [.deviceUpdate]⟩),
  (.deviceUpdate, ⟨[], []⟩)]

/-- The catalog that is made from it. -/
def staggered : Catalog := [
  (.beat, ⟨[("tempo",
    ⟨"tempo", "(.bpm status)", "", .list [.symbol ".bpm", .symbol "status"] 0⟩)],
    [.mixerStatus, .deviceUpdate, .cdjStatus]⟩),
  (.mixerStatus, ⟨[], [.cdjStatus]⟩),
  (.cdjStatus, ⟨[], [.deviceUpdate]⟩),
  (.deviceUpdate, ⟨[], []⟩)]

/-- Device updates, which are also two and three generations away, come by the shortest way. -/
theorem ancestors_of_build_staggered :
    build? staggeredLayout = .ok staggered ∧
      staggered.lineage.ancestors .beat = [.mixerStatus, .deviceUpdate, .cdjStatus] ∧
      staggered.lineage.distance .beat .deviceUpdate ≤
        staggered.lineage.distance .beat .cdjStatus ∧
      staggered.lineage.isA (some .mixerStatus) .beat = false := by
  have made : setsOf staggeredLayout [] = .ok staggered := rfl
  have accepted : staggered.validate = .ok () := by cbv
  have built : build? staggeredLayout = .ok staggered := by
    rw [build?, made]
    change (staggered.validate >>= fun _ => pure staggered) = _
    rw [accepted]
    rfl
  have found : staggered.lineage.ancestors .beat =
      [.mixerStatus, .deviceUpdate, .cdjStatus] := by cbv
  obtain ⟨ancestors, -, antisymmetric, -⟩ := ancestors_of_build built
  obtain ⟨-, -, -, ordered⟩ := ancestors .beat
  rw [found] at ordered
  refine ⟨built, found, List.rel_of_pairwise_cons ordered.tail List.mem_cons_self, ?_⟩
  refine Bool.eq_false_iff.mpr fun isBeat => ?_
  have isMixer : staggered.lineage.isA (some .beat) .mixerStatus = true := by
    rw [Lineage.isA, found]
    rfl
  exact absurd (antisymmetric _ _ isMixer isBeat) (by decide)

end Catalog

end CueScript
