import CueScript.Proofs.Depth.Limit
import CueScript.Proofs.Symbols.NullSafe

/-!
# Runs that are nested deeper

A run goes on in the same way from a smaller depth, and inside host calls of smaller depths,
as long as the limits are the same and no evaluator is asked for its depth.  Only that it may
get further before a limit ends it.
-/

namespace CueScript

open Value

/-- A run beside one that is nested deeper. -/
def besideDeeper (alarm : Fault) : Pairing :=
  { besideLower alarm with
    lowered := False
    lowers := False.elim }

theorem besideDeeper_tight (alarm : Fault) : (besideDeeper alarm).Tight := fun _ => rfl

theorem besideDeeper_deeper (alarm : Fault) : (besideDeeper alarm).Deeper := ⟨trivial, id⟩

/-- Only the question for its depth tells a run from one that is nested deeper. -/
theorem besideDeeper_covered (alarm : Fault) :
    (besideDeeper alarm).CoveredBy asksHostDepth := by
  have unbacked := (besideDeeper_tight alarm).unbacked
  have isOpen : (besideDeeper alarm).Open := ⟨besideDeeper_tight alarm, id⟩
  intro task around heap unmet
  cases task with
  | evaluate owner inside form depth =>
      exact ⟨unbacked.meets inside, fun _ _ => .inl (besideDeeper_tight alarm)⟩
  | read value name =>
      cases value with
      | store id => exact fun isApart => isApart.elim
      | evaluator id => exact fun lowered => lowered.elim
      | scope id => exact ⟨.inl isOpen, .inl unbacked⟩
      | closure id shown params rest body inside owner => exact .inl (unbacked.meets inside)
      | _ => exact trivial
  | enter closure args depth => exact unbacked.permits_enter closure args depth
  | call function args =>
      cases function with
      | member receiver operation =>
          cases receiver with
          | scope id => exact isOpen
          | evaluator id => exact ⟨isOpen, fun _ => ne_of_beq_false unmet⟩
          | _ => exact trivial
      | _ => exact trivial

/-- A watch for questions for a depth tells of the same in twin runs. -/
theorem asksHostDepth_twin
    {pairing : Pairing} {task twin : Task} (tasks : Task.Twin pairing task twin)
    (around others : List Task) (left right : Heap) :
    asksHostDepth (twin :: others) right = asksHostDepth (task :: around) left := by
  cases tasks with
  | call function args =>
      cases function with
      | member receiver operation => cases receiver <;> simp [asksHostDepth, rename]
      | _ => simp [asksHostDepth, rename]
  | _ => rfl

/-- Evaluators with the settings of those of a heap, none of them inside a deeper host call. -/
structure Heap.Shallower (heap : Heap) (evaluators : Array EvaluatorState) : Prop where
  count : evaluators.size = heap.evaluators.size
  configs : ∀ id, (heap.equip evaluators).config id = heap.config id
  hostDepths : ∀ id, (heap.equip evaluators).hostDepth id ≤ heap.hostDepth id

namespace Heap.Shallower

variable {heap : Heap} {evaluators : Array EvaluatorState}

theorem refl (heap : Heap) : heap.Shallower heap.evaluators :=
  ⟨rfl, fun _ => rfl, fun _ => Int.le_refl _⟩

theorem like (shallower : heap.Shallower evaluators) (alarm : Fault) :
    (heap.equip evaluators).Like (besideDeeper alarm) heap := by
  have like := @Heap.like_equip (besideDeeper alarm) rfl (fun _ => rfl)
    (heap.equip evaluators) heap.evaluators (fun _ _ _ isAside => nomatch isAside)
    shallower.count.symm (fun id => .inl (shallower.configs id).symm)
    (fun id => .inr ⟨trivial, shallower.hostDepths id⟩) (fun _ _ _ => rfl) (fun _ _ => rfl)
    (fun _ _ _ _ _ => rfl) (Nat.zero_le _) False.elim
  exact like

end Heap.Shallower

/-- Evaluators of which each is inside a host call as deep as the less deep one of two. -/
def Heap.shallowest (heap : Heap) (first second : Array EvaluatorState) :
    Array EvaluatorState :=
  first.mapIdx fun id state =>
    { state with hostDepth := min state.hostDepth ((heap.equip second).hostDepth id) }

section Shallowest

variable (heap : Heap) (first second : Array EvaluatorState)

theorem Heap.config_shallowest (id : Nat) :
    (heap.equip (heap.shallowest first second)).config id = (heap.equip first).config id := by
  cases found : first[id]? with
  | none => simp [config, equip, shallowest, found]
  | some state => simp [config, equip, shallowest, found]

theorem Heap.hostDepth_shallowest (id : Nat) (known : id < first.size) :
    (heap.equip (heap.shallowest first second)).hostDepth id =
      min ((heap.equip first).hostDepth id) ((heap.equip second).hostDepth id) := by
  simp [hostDepth, equip, shallowest, known]

theorem Heap.hostDepth_of_unknown (evaluators : Array EvaluatorState) (id : Nat)
    (unknown : evaluators.size ≤ id) :
    (heap.equip evaluators).hostDepth id = 0 := by
  simp [hostDepth, equip, unknown]

theorem Heap.shallowest_left : (heap.equip first).Shallower (heap.shallowest first second) where
  count := by simp [shallowest, equip]
  configs id := heap.config_shallowest first second id
  hostDepths id := by
    change (heap.equip (heap.shallowest first second)).hostDepth id ≤
      (heap.equip first).hostDepth id
    by_cases known : id < first.size
    · rw [heap.hostDepth_shallowest first second id known]
      exact Int.min_le_left _ _
    · have unknown : (heap.shallowest first second).size ≤ id := by
        simpa [shallowest] using known
      exact Int.le_of_eq ((heap.hostDepth_of_unknown _ id unknown).trans
        (heap.hostDepth_of_unknown first id (Nat.le_of_not_lt known)).symm)

theorem Heap.shallowest_right
    (count : second.size = first.size)
    (configs : ∀ id, (heap.equip second).config id = (heap.equip first).config id) :
    (heap.equip second).Shallower (heap.shallowest first second) where
  count := by simp [shallowest, equip, count]
  configs id := (heap.config_shallowest first second id).trans (configs id).symm
  hostDepths id := by
    change (heap.equip (heap.shallowest first second)).hostDepth id ≤
      (heap.equip second).hostDepth id
    by_cases known : id < first.size
    · rw [heap.hostDepth_shallowest first second id known]
      exact Int.min_le_right _ _
    · have unknown : (heap.shallowest first second).size ≤ id := by
        simpa [shallowest] using known
      exact Int.le_of_eq ((heap.hostDepth_of_unknown _ id unknown).trans
        (heap.hostDepth_of_unknown second id (by omega)).symm)

end Shallowest

/-- The same piece of work at a smaller and at a greater depth. -/
inductive Task.Deeper : Task → Task → Prop
  | evaluate (evaluator scope : Nat) (form : Value) {depth deeper : Int} (le : depth ≤ deeper) :
      Task.Deeper (.evaluate evaluator scope form depth) (.evaluate evaluator scope form deeper)
  | enter (closure : Value) (args : List Value) {depth deeper : Int} (le : depth ≤ deeper) :
      Task.Deeper (.enter closure args depth) (.enter closure args deeper)
  | same (task : Task) : Task.Deeper task task

theorem Task.Deeper.twin
    {task deeper : Task} (tasks : task.Deeper deeper) (alarm : Fault) :
    Task.Twin (besideDeeper alarm) task deeper := by
  have same : (besideDeeper alarm).numbers = .identity := rfl
  cases tasks with
  | evaluate evaluator scope form le =>
      have twin : Task.Twin (besideDeeper alarm) _ _ :=
        .evaluate evaluator scope form (.inr ⟨trivial, le⟩)
      simpa only [same, rename_identity, Renaming.identity_scopes] using twin
  | enter closure args le =>
      have twin : Task.Twin (besideDeeper alarm) _ _ := .enter closure args (.inr ⟨trivial, le⟩)
      simpa only [same, rename_identity, map_rename_identity] using twin
  | same => exact Eval.task_twin_itself rfl task

/-- A run beside a deeper one ends as that one does, but for the evaluators, unless a limit
ends the deeper one. -/
theorem TwinEnds.eq_of_deeper
    {alarm : Fault} {first second : Except Fault Value × Heap}
    (ends : TwinEnds (besideDeeper alarm) (rename (besideDeeper alarm).numbers) first second)
    (quiet : ∀ after, first ≠ (.error alarm, after))
    (unlimited : ∀ fault, second.1 = .error fault → ¬ fault.IsLimit) :
    first = (second.1, second.2.equip first.2.evaluators) := by
  cases ends with
  | value result left right like =>
      have same : result.rename (besideDeeper alarm).numbers = result := rename_identity result
      rw [same]
      exact Prod.ext rfl (like.eq_equip rfl (besideDeeper_tight alarm))
  | fault fault left right like =>
      exact Prod.ext rfl (like.eq_equip rfl (besideDeeper_tight alarm))
  | alarm left other => exact absurd rfl (quiet left)
  | limit fault cuts other right => exact absurd cuts.2.1 (unlimited fault rfl)

namespace Eval

theorem solve_evaluators (frames : Nat) (task : Task) (heap : Heap) :
    ((solve frames task).perform heap).2.evaluators = heap.evaluators :=
  (solve_keeps frames (Bounds.lists_anything 0) (fun _ => trivial) (fun _ => trivial) trivial
    (Bounds.heapWithin_anything heap) (Bounds.taskWithin_anything task)).evaluators

theorem equip_solve (frames : Nat) (task : Task) (heap : Heap) :
    ((solve frames task).perform heap).2.equip heap.evaluators =
      ((solve frames task).perform heap).2 := by
  rw [← solve_evaluators frames task heap]
  rfl

section Deeper

variable {frames fewer : Nat} {task deeper : Task} {heap : Heap}
  {evaluators : Array EvaluatorState} {around others : List Task} {alarm : Fault}

/-- A piece of work that asks no evaluator for its depth is done in the same way where it is
nested deeper, unless a limit ends it there. -/
theorem solve_deeper
    (enough : fewer ≤ frames) (tasks : task.Deeper deeper)
    (shallower : heap.Shallower evaluators)
    (quiet : ∀ after, (watched asksHostDepth alarm frames around task).perform
      (heap.equip evaluators) ≠ (.error alarm, after))
    (unlimited : ∀ fault, ((solve fewer deeper).perform heap).1 = .error fault →
      ¬ fault.IsLimit) :
    (solve frames task).perform (heap.equip evaluators) =
      (((solve fewer deeper).perform heap).1,
        ((solve fewer deeper).perform heap).2.equip evaluators) := by
  have ends : TwinEnds (besideDeeper alarm) (rename (besideDeeper alarm).numbers)
      ((watched asksHostDepth alarm frames around task).perform (heap.equip evaluators))
      ((solve fewer deeper).perform heap) :=
    workers_twin (besideDeeper_covered alarm) (.inr ⟨besideDeeper_deeper alarm, enough⟩) around
      task deeper (tasks.twin alarm) (heap.equip evaluators) heap (shallower.like alarm)
  have settled := ends.eq_of_deeper quiet unlimited
  rw [watched_of_quiet quiet, solve_evaluators] at settled
  exact settled

/-- A piece of work that asks no evaluator for its depth where it is nested deeper does not
ask for it where it is nested less deeply. -/
theorem quiet_of_deeper
    (enough : fewer ≤ frames) (tasks : task.Deeper deeper)
    (shallower : heap.Shallower evaluators)
    (quiet : ∀ after, (watched asksHostDepth alarm fewer others deeper).perform heap ≠
      (.error alarm, after))
    (unlimited : ∀ fault, ((solve fewer deeper).perform heap).1 = .error fault →
      ¬ fault.IsLimit) :
    ∀ after, (watched asksHostDepth alarm frames around task).perform (heap.equip evaluators) ≠
      (.error alarm, after) := by
  -- an alarm that the left run does not end with, so that something is said of it
  obtain ⟨unheard, silent⟩ := Regime.exists_alarm
    ((watched asksHostDepth alarm frames around task).perform (heap.equip evaluators))
  have answers : (besideDeeper unheard).Answers asksHostDepth asksHostDepth alarm alarm := by
    intro task twin inner outer left right twins
    rw [asksHostDepth_twin twins inner outer left right]
    exact ⟨fun met => .inr ⟨met, rfl⟩, fun unmet => unmet⟩
  have ends := watched_twin (besideDeeper_covered unheard) answers
    (.inr ⟨besideDeeper_deeper unheard, enough⟩) around others task deeper (tasks.twin unheard)
    (heap.equip evaluators) heap (shallower.like unheard)
  rw [watched_of_quiet quiet] at ends quiet
  have settled := ends.eq_of_deeper silent unlimited
  intro after stopped
  have sameOutcome := congrArg Prod.fst (settled.symm.trans stopped)
  exact quiet ((solve fewer deeper).perform heap).2 (Prod.ext sameOutcome rfl)

/-- In one heap, a piece of work that asks no evaluator for its depth is done in the same way
at a smaller depth. -/
theorem solve_eq_of_deeper
    (enough : fewer ≤ frames) (tasks : task.Deeper deeper)
    (quiet : ∀ after, (watched asksHostDepth alarm fewer others deeper).perform heap ≠
      (.error alarm, after))
    (unlimited : ∀ fault, ((solve fewer deeper).perform heap).1 = .error fault →
      ¬ fault.IsLimit) :
    (solve frames task).perform heap = (solve fewer deeper).perform heap := by
  have silent := @quiet_of_deeper frames fewer task deeper heap heap.evaluators [] others alarm
    enough tasks (.refl heap) quiet unlimited
  have same := solve_deeper enough tasks (.refl heap) silent unlimited
  rw [equip_solve] at same
  exact same

/-- Two pieces of work that are both deeper than a third one end alike, if the first asks no
evaluator for its depth and no limit ends either of them. -/
theorem solve_beside
    {third second : Task} {other : Nat} {first others : Array EvaluatorState}
    (deeper : third.Deeper task) (deeperToo : third.Deeper second)
    (shallower : (heap.equip first).Shallower evaluators)
    (shallowerToo : (heap.equip others).Shallower evaluators) (fewer : other ≤ frames)
    (quiet : ∀ after, (watched asksHostDepth alarm frames around task).perform
      (heap.equip first) ≠ (.error alarm, after))
    (unlimited : ∀ fault, ((solve frames task).perform (heap.equip first)).1 = .error fault →
      ¬ fault.IsLimit)
    (unlimitedToo : ∀ fault, ((solve other second).perform (heap.equip others)).1 =
      .error fault → ¬ fault.IsLimit) :
    (solve other second).perform (heap.equip others) =
      (((solve frames task).perform (heap.equip first)).1,
        ((solve frames task).perform (heap.equip first)).2.equip others) := by
  have silent := @quiet_of_deeper frames frames third task (heap.equip first) evaluators [] around
    alarm (Nat.le_refl frames) deeper shallower quiet unlimited
  have left := solve_deeper (Nat.le_refl frames) deeper shallower silent unlimited
  have right := solve_deeper fewer deeperToo shallowerToo silent unlimitedToo
  have same := left.symm.trans right
  refine Prod.ext (congrArg Prod.fst same).symm ?_
  have sameHeaps := congrArg (fun ending => Heap.equip ending.2 others) same
  change ((solve frames task).perform (heap.equip first)).2.equip others =
    ((solve other second).perform (heap.equip others)).2.equip others at sameHeaps
  exact (equip_solve other second (heap.equip others)).symm.trans sameHeaps.symm

end Deeper

end Eval

end CueScript
