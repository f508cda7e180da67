import CueScript.Catalog
import Mathlib.Logic.Relation

/-!
# Who inherits from whom

`Lineage.Inherits` holds between a kind and its direct parents; its closure is what it means
to inherit.  The queue of `Lineage.ancestors` lists exactly the kinds that a kind inherits
from, and the search of `Lineage.cycle?` finds a kind that inherits from itself if and only
if there is one.
-/

namespace CueScript

namespace Lineage

open Relation

variable {lineage : Lineage}

/-- A kind has another one among its direct parents. -/
def Inherits (lineage : Lineage) (kind parent : EventKind) : Prop :=
  parent ∈ lineage.parents kind

instance (kind parent : EventKind) : Decidable (lineage.Inherits kind parent) :=
  inferInstanceAs (Decidable (parent ∈ lineage.parents kind))

/-- No kind inherits from itself, through however many others. -/
def Acyclic (lineage : Lineage) : Prop :=
  ∀ kind, ¬ TransGen lineage.Inherits kind kind

/-! ## The queue of ancestors -/

theorem reached_of_mem_ancestorsFrom
    {seen queue : List EventKind} {found : EventKind}
    (member : found ∈ lineage.ancestorsFrom seen queue) :
    found ∈ seen ∨ ∃ kind ∈ queue, ReflTransGen lineage.Inherits kind found := by
  induction seen, queue using ancestorsFrom.induct lineage with
  | case1 seen =>
      rw [ancestorsFrom] at member
      exact .inl member
  | case2 seen kind rest old inductionHypothesis =>
      rw [ancestorsFrom, if_pos old] at member
      rcases inductionHypothesis member with inSeen | ⟨start, inRest, reached⟩
      · exact .inl inSeen
      · exact .inr ⟨start, List.mem_cons_of_mem _ inRest, reached⟩
  | case3 seen kind rest fresh inductionHypothesis =>
      rw [ancestorsFrom, if_neg fresh] at member
      rcases inductionHypothesis member with inSeen | ⟨start, inQueue, reached⟩
      · rcases List.mem_append.mp inSeen with old | new
        · exact .inl old
        · rw [List.mem_singleton.mp new]
          exact .inr ⟨kind, List.mem_cons_self, .refl⟩
      · rcases List.mem_append.mp inQueue with inRest | isParent
        · exact .inr ⟨start, List.mem_cons_of_mem _ inRest, reached⟩
        · exact .inr ⟨kind, List.mem_cons_self, .head isParent reached⟩

/-- Whatever is seen or waits in the queue is found, and the parents of all that is found, as
long as the parents of what is seen have been put into the queue. -/
theorem ancestorsFrom_closed
    {seen queue : List EventKind}
    (queued : ∀ kind ∈ seen, ∀ parent, lineage.Inherits kind parent →
      parent ∈ seen ∨ parent ∈ queue) :
    (∀ kind, kind ∈ seen ∨ kind ∈ queue → kind ∈ lineage.ancestorsFrom seen queue) ∧
      ∀ kind ∈ lineage.ancestorsFrom seen queue, ∀ parent, lineage.Inherits kind parent →
        parent ∈ lineage.ancestorsFrom seen queue := by
  induction seen, queue using ancestorsFrom.induct lineage with
  | case1 seen =>
      rw [ancestorsFrom]
      refine ⟨fun kind found => found.resolve_right List.not_mem_nil, ?_⟩
      intro kind found parent inherits
      exact (queued kind found parent inherits).resolve_right List.not_mem_nil
  | case2 seen kind rest old inductionHypothesis =>
      rw [ancestorsFrom, if_pos old]
      have stillQueued : ∀ each ∈ seen, ∀ parent, lineage.Inherits each parent →
          parent ∈ seen ∨ parent ∈ rest := by
        intro each isSeen parent inherits
        rcases queued each isSeen parent inherits with known | waiting
        · exact .inl known
        · rcases List.mem_cons.mp waiting with rfl | later
          · exact .inl old
          · exact .inr later
      obtain ⟨contains, closed⟩ := inductionHypothesis stillQueued
      refine ⟨fun each found => contains each ?_, closed⟩
      rcases found with isSeen | waiting
      · exact .inl isSeen
      · rcases List.mem_cons.mp waiting with rfl | later
        · exact .inl old
        · exact .inr later
  | case3 seen kind rest fresh inductionHypothesis =>
      rw [ancestorsFrom, if_neg fresh]
      have nowQueued : ∀ each ∈ seen ++ [kind], ∀ parent, lineage.Inherits each parent →
          parent ∈ seen ++ [kind] ∨ parent ∈ rest ++ lineage.parents kind := by
        intro each isSeen parent inherits
        rcases List.mem_append.mp isSeen with old | new
        · rcases queued each old parent inherits with known | waiting
          · exact .inl (List.mem_append_left _ known)
          · rcases List.mem_cons.mp waiting with rfl | later
            · exact .inl (List.mem_append_right _ List.mem_cons_self)
            · exact .inr (List.mem_append_left _ later)
        · rw [List.mem_singleton.mp new] at inherits
          exact .inr (List.mem_append_right _ inherits)
      obtain ⟨contains, closed⟩ := inductionHypothesis nowQueued
      refine ⟨fun each found => contains each ?_, closed⟩
      rcases found with isSeen | waiting
      · exact .inl (List.mem_append_left _ isSeen)
      · rcases List.mem_cons.mp waiting with rfl | later
        · exact .inl (List.mem_append_right _ List.mem_cons_self)
        · exact .inr (List.mem_append_left _ later)

/-- The ancestors of a kind are the kinds that it inherits from. -/
theorem mem_ancestors_iff {kind ancestor : EventKind} :
    ancestor ∈ lineage.ancestors kind ↔ TransGen lineage.Inherits kind ancestor := by
  constructor
  · intro member
    rcases reached_of_mem_ancestorsFrom member with inSeen | ⟨parent, isParent, reached⟩
    · exact absurd inSeen List.not_mem_nil
    · exact .head' isParent reached
  · intro inherits
    obtain ⟨contains, closed⟩ := @ancestorsFrom_closed lineage [] (lineage.parents kind)
      fun each isSeen => absurd isSeen List.not_mem_nil
    induction inherits with
    | single isParent => exact contains _ (.inr isParent)
    | tail _ isParent inductionHypothesis => exact closed _ inductionHypothesis _ isParent

/-- A kind is another one if the other one is reached by going back to parents. -/
theorem isA_iff {kind target : EventKind} :
    lineage.isA (some kind) target = true ↔ ReflTransGen lineage.Inherits kind target := by
  rw [isA, Bool.or_eq_true, beq_iff_eq, List.contains_iff_mem, mem_ancestors_iff,
    reflTransGen_iff_eq_or_transGen]
  exact or_congr_left eq_comm

/-! ## The search for cycles -/

/-- No line of parents that begins with a kind goes on forever. -/
def Grounded (lineage : Lineage) (kind : EventKind) : Prop :=
  Acc (fun parent child => lineage.Inherits child parent) kind

theorem Grounded.not_inherits_itself
    {kind : EventKind} (grounded : lineage.Grounded kind) :
    ¬ TransGen lineage.Inherits kind kind := by
  have closed : Acc (TransGen fun parent child => lineage.Inherits child parent) kind :=
    Acc.transGen grounded
  induction closed with
  | intro kind _ inductionHypothesis =>
      intro inherits
      have backward : TransGen (fun parent child => lineage.Inherits child parent) kind kind :=
        transGen_swap.mpr inherits
      exact inductionHypothesis kind backward grounded inherits

/-- What a search through some kinds tells, on a path and with some kinds done before. -/
def Searched (lineage : Lineage) (path done kinds : List EventKind) :
    Except (List EventKind) (List EventKind) → Prop
  | .ok after =>
      (∀ kind, kind ∈ done ∨ kind ∈ kinds → kind ∈ after) ∧
        ((∀ kind ∈ done, lineage.Grounded kind) → ∀ kind ∈ after, lineage.Grounded kind)
  | .error _ =>
      (∀ before ∈ path, ∀ kind ∈ kinds, TransGen lineage.Inherits before kind) →
        ∃ kind, TransGen lineage.Inherits kind kind

/-- A kind whose parents have been searched is searched. -/
theorem Searched.of_parents
    {path done : List EventKind} {kind : EventKind}
    {outcome : Except (List EventKind) (List EventKind)}
    (searched : lineage.Searched (path ++ [kind]) done (lineage.parents kind) outcome) :
    lineage.Searched path done [kind] (outcome.map (· ++ [kind])) := by
  cases outcome with
  | ok after =>
      obtain ⟨contains, grounded⟩ := searched
      constructor
      · intro each found
        rcases found with old | new
        · exact List.mem_append_left _ (contains each (.inl old))
        · exact List.mem_append_right _ new
      · intro doneGrounded each found
        have afterGrounded := grounded doneGrounded
        rcases List.mem_append.mp found with old | new
        · exact afterGrounded each old
        · rw [List.mem_singleton.mp new]
          exact .intro kind fun parent isParent =>
            afterGrounded parent (contains parent (.inr isParent))
  | error fault =>
      intro leads
      refine searched fun before onPath parent isParent => ?_
      rcases List.mem_append.mp onPath with earlier | last
      · exact (leads before earlier kind List.mem_cons_self).tail isParent
      · rw [List.mem_singleton.mp last]
        exact .single isParent

/-- Kinds that are searched one after the other are searched. -/
theorem Searched.cons
    {path done after rest : List EventKind} {kind : EventKind}
    {outcome : Except (List EventKind) (List EventKind)}
    (first : lineage.Searched path done [kind] (.ok after))
    (further : lineage.Searched path after rest outcome) :
    lineage.Searched path done (kind :: rest) outcome := by
  cases outcome with
  | ok last =>
      constructor
      · intro each found
        refine further.1 each ?_
        rcases found with old | new
        · exact .inl (first.1 each (.inl old))
        · rcases List.mem_cons.mp new with rfl | later
          · exact .inl (first.1 each (.inr List.mem_cons_self))
          · exact .inr later
      · exact fun doneGrounded => further.2 (first.2 doneGrounded)
  | error fault =>
      exact fun leads => further fun before onPath each later =>
        leads before onPath each (List.mem_cons_of_mem _ later)

theorem searched_check (lineage : Lineage) :
    (∀ path done kind,
      lineage.Searched path done [kind] (lineage.checkFrom path done kind)) ∧
    ∀ path done kinds, lineage.Searched path done kinds (lineage.checkAll path done kinds) := by
  apply checkFrom.mutual_induct lineage
  case case1 =>
    intro path done kind isDone
    rw [checkFrom, if_pos isDone]
    refine ⟨fun each found => ?_, fun grounded => grounded⟩
    rcases found with old | new
    · exact old
    · exact List.mem_singleton.mp new ▸ isDone
  case case2 =>
    intro path done kind notDone onPath
    rw [checkFrom, if_neg notDone, dif_pos onPath]
    exact fun leads => ⟨kind, leads kind onPath kind List.mem_cons_self⟩
  case case3 =>
    intro path done kind notDone offPath after searched inductionHypothesis
    rw [checkFrom, if_neg notDone, dif_neg offPath, searched]
    rw [searched] at inductionHypothesis
    exact Searched.of_parents inductionHypothesis
  case case4 =>
    intro path done kind notDone offPath fault searched inductionHypothesis
    rw [checkFrom, if_neg notDone, dif_neg offPath, searched]
    rw [searched] at inductionHypothesis
    exact Searched.of_parents inductionHypothesis
  case case5 =>
    intro path done
    rw [checkAll]
    exact ⟨fun each found => found.resolve_right List.not_mem_nil, fun grounded => grounded⟩
  case case6 =>
    intro path done kind rest after searched firstHypothesis restHypothesis
    rw [checkAll, searched]
    rw [searched] at firstHypothesis
    exact firstHypothesis.cons restHypothesis
  case case7 =>
    intro path done kind rest fault searched firstHypothesis
    rw [checkAll, searched]
    rw [searched] at firstHypothesis
    exact fun leads => firstHypothesis fun before onPath each isKind =>
      leads before onPath each (List.mem_singleton.mp isKind ▸ List.mem_cons_self)

/-- A kind that has parents is listed. -/
theorem Inherits.listed
    {kind parent : EventKind} (inherits : lineage.Inherits kind parent) :
    kind ∈ lineage.map Prod.fst := by
  unfold Inherits parents at inherits
  cases found : lineage.lookup kind with
  | none => simp [found] at inherits
  | some own =>
      obtain ⟨before, after, isSplit, -⟩ := List.lookup_eq_some_iff.mp found
      rw [isSplit, List.map_append]
      exact List.mem_append_right _ List.mem_cons_self

/-- The search finds a cycle if there is one, and else no line of parents goes on forever. -/
theorem cycle?_cases (lineage : Lineage) :
    (lineage.cycle? = none ∧ ∀ kind, lineage.Grounded kind) ∨
      (lineage.cycle? ≠ none ∧ ∃ kind, TransGen lineage.Inherits kind kind) := by
  have searched := (searched_check lineage).2 [] [] (lineage.map Prod.fst)
  unfold cycle?
  cases outcome : lineage.checkAll [] [] (lineage.map Prod.fst) with
  | ok after =>
      rw [outcome] at searched
      have grounded := searched.2 fun kind isDone => absurd isDone List.not_mem_nil
      exact .inl ⟨rfl, fun kind => .intro kind fun parent isParent =>
        (grounded kind (searched.1 kind (.inr isParent.listed))).inv isParent⟩
  | error path =>
      rw [outcome] at searched
      exact .inr ⟨(fun none => nomatch none),
        searched fun before onPath => absurd onPath List.not_mem_nil⟩

theorem cycle?_eq_none_iff : lineage.cycle? = none ↔ lineage.Acyclic := by
  rcases cycle?_cases lineage with ⟨none, grounded⟩ | ⟨some, kind, inherits⟩
  · exact iff_of_true none fun kind => (grounded kind).not_inherits_itself
  · exact iff_of_false some fun acyclic => acyclic kind inherits

theorem Acyclic.grounded (acyclic : lineage.Acyclic) (kind : EventKind) :
    lineage.Grounded kind := by
  rcases cycle?_cases lineage with ⟨none, grounded⟩ | ⟨some, each, inherits⟩
  · exact grounded kind
  · exact absurd inherits (acyclic each)

end Lineage

end CueScript
