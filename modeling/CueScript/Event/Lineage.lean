import CueScript.Event.Kind

/-!
# Lineages

A lineage gives the direct parents of each kind of event.  `Lineage.ancestors`
lists everything a kind inherits from, nearest first: the kinds still to be looked
at wait in a queue, and each kind enters the result once.
-/

namespace CueScript

/-- The direct parents of each kind of event. -/
abbrev Lineage := List (EventKind × List EventKind)

namespace EventKind

/-- Every kind is among all kinds. -/
theorem mem_all (kind : EventKind) : kind ∈ all := by
  cases kind <;> decide

end EventKind

namespace Lineage

/-- The lineage of the devices this language is for: whatever a device announces is
a device update. -/
def standard : Lineage := [
  (.deviceUpdate, []),
  (.beat, [.deviceUpdate]),
  (.mixerStatus, [.deviceUpdate]),
  (.cdjStatus, [.deviceUpdate])]

/-- The direct parents of a kind; a kind that is not listed has none. -/
def parents (lineage : Lineage) (kind : EventKind) : List EventKind :=
  (lineage.lookup kind).getD []

/-- The kinds that are not in a list. -/
def unseen (seen : List EventKind) : List EventKind :=
  EventKind.all.filter fun kind => !seen.contains kind

/-- A new kind in the list leaves fewer kinds outside it. -/
theorem length_unseen_lt {seen : List EventKind} {kind : EventKind}
    (fresh : ¬ kind ∈ seen) :
    (unseen (seen ++ [kind])).length < (unseen seen).length := by
  have narrowed : unseen (seen ++ [kind]) = (unseen seen).filter (· != kind) := by
    simp only [unseen, List.filter_filter]
    apply List.filter_congr
    intro each _
    by_cases same : each = kind <;> simp [same]
  rw [narrowed]
  apply List.length_filter_lt_length_iff_exists.2
  exact ⟨kind, by simp [unseen, EventKind.mem_all, fresh], by simp⟩

/-- The kinds seen so far with those that are reached from the queue. -/
def ancestorsFrom (lineage : Lineage) (seen queue : List EventKind) : List EventKind :=
  match queue with
  | [] => seen
  | kind :: rest =>
      if kind ∈ seen then
        ancestorsFrom lineage seen rest
      else
        ancestorsFrom lineage (seen ++ [kind]) (rest ++ lineage.parents kind)
termination_by ((unseen seen).length, queue.length)
decreasing_by
  · exact Prod.Lex.right _ (by simp)
  · rename_i fresh
    exact Prod.Lex.left _ _ (length_unseen_lt fresh)

/-- All kinds that a kind inherits from, nearest first, each once. -/
def ancestors (lineage : Lineage) (kind : EventKind) : List EventKind :=
  ancestorsFrom lineage [] (lineage.parents kind)

/-- Whether a kind is another or inherits from it; what has no kind is nothing. -/
def isA (lineage : Lineage) (kind : Option EventKind) (target : EventKind) : Bool :=
  match kind with
  | none => false
  | some each => each == target || (lineage.ancestors each).contains target

end Lineage

end CueScript
