import CueScript.Expression
import CueScript.Proofs.Twin.Identity

/-!
# The limit of nesting

A higher limit changes nothing in a run that the lower one does not cut off, and neither
does a smaller depth to begin at.  All that could tell the limit or the depth are members
of closures and evaluators.
-/

namespace CueScript

open Value

/-- A heap in which an evaluator may nest to another depth. -/
def Heap.withLimit (heap : Heap) (evaluator : Nat) (limit : Int) : Heap :=
  heap.equip <| heap.evaluators.modify evaluator fun state =>
    { state with config := { state.config with maxDepth := limit } }

theorem Heap.config_withLimit (heap : Heap) (evaluator : Nat) (limit : Int) (id : Nat) :
    (heap.withLimit evaluator limit).config id = heap.config id ∨
      id = evaluator ∧ ((heap.withLimit evaluator limit).config id).maxDepth = limit := by
  by_cases same : evaluator = id
  · subst same
    cases found : heap.evaluators[evaluator]? with
    | none => simp [withLimit, config, equip, Array.getElem?_modify, found]
    | some state => simp [withLimit, config, equip, Array.getElem?_modify, found]
  · simp [withLimit, config, equip, Array.getElem?_modify, same]

theorem Heap.hostDepth_withLimit (heap : Heap) (evaluator : Nat) (limit : Int) (id : Nat) :
    (heap.withLimit evaluator limit).hostDepth id = heap.hostDepth id := by
  by_cases same : evaluator = id
  · subst same
    cases found : heap.evaluators[evaluator]? with
    | none => simp [withLimit, hostDepth, equip, Array.getElem?_modify, found]
    | some state => simp [withLimit, hostDepth, equip, Array.getElem?_modify, found]
  · simp [withLimit, hostDepth, equip, Array.getElem?_modify, same]

/-- A run beside one in which limits are lower. -/
def besideLower (alarm : Fault) : Pairing where
  numbers := .identity
  slack := True
  lowered := True
  lowers := id
  aside _ := none
  spoken _ := True
  alike _ _ _ isAside := nomatch isAside
  ownScopes := 0
  alarm := alarm

theorem Heap.like_withLimit
    {heap : Heap} {evaluator : Nat} {limit : Int} (higher : heap.maxDepth evaluator ≤ limit)
    (alarm : Fault) :
    (heap.withLimit evaluator limit).Like (besideLower alarm) heap := by
  have like := @Heap.like_equip (besideLower alarm) rfl (fun _ => rfl)
    (heap.withLimit evaluator limit) heap.evaluators (fun _ _ _ isAside => nomatch isAside)
    (by simp [withLimit, equip]) ?_ ?_ (fun _ _ _ => rfl) (fun _ _ => rfl)
    (fun _ _ _ _ _ => rfl) (Nat.zero_le _) False.elim
  · exact like
  · intro id
    change (besideLower alarm).Settings ((heap.withLimit evaluator limit).config id)
      (heap.config id)
    rcases heap.config_withLimit evaluator limit id with same | ⟨rfl, isLimit⟩
    · exact .inl same.symm
    · exact .inr ⟨trivial, by rw [isLimit]; exact higher⟩
  · intro id
    change (besideLower alarm).Levels ((heap.withLimit evaluator limit).hostDepth id)
      (heap.hostDepth id)
    exact .inl (heap.hostDepth_withLimit evaluator limit id)

/-- A watch for members of other values than events tells of the same in twin runs. -/
theorem leavesEvents_twin
    {pairing : Pairing} {task twin : Task} (tasks : Task.Twin pairing task twin)
    (around others : List Task) (left right : Heap) :
    leavesEvents (twin :: others) right = leavesEvents (task :: around) left := by
  cases tasks with
  | evaluate evaluator scope form levels => rfl
  | read value name => cases value <;> simp [leavesEvents, Value.isEvent, rename]
  | enter closure args levels => rfl
  | call function args =>
      cases function with
      | member receiver operation => cases receiver <;> simp [leavesEvents, rename]
      | _ => simp [leavesEvents, rename]

namespace Eval

/-! ## Bodies under a watch -/

/-- Whether the evaluation of a body never meets what a watch looks out for. -/
def BodyNeverMeets (watch : Watch) (site : Site) (forms : List Value) (heap : Heap) : Prop :=
  ∀ alarm, (body (watched watch alarm frameLimit []) site forms).perform heap =
    (performBody site forms).perform heap

theorem BodyNeverMeets.of_quiet
    {watch : Watch} {alarm : Fault} {site : Site} {forms : List Value} {heap : Heap}
    (quiet : ∀ after, (body (watched watch alarm frameLimit []) site forms).perform heap ≠
      (.error alarm, after)) :
    BodyNeverMeets watch site forms heap := by
  have governs := @Regime.anything_governs watch watch fun _ _ unmet => unmet
  intro other
  have watchedToo := (bodyFrom_of_alarm governs frameLimit (Bounds.heapWithin_anything heap)
    (fun _ _ => Bounds.taskWithin_anything _) (fun _ _ => trivial) other quiet).1
  exact watchedToo.trans (bodyFrom_of_quiet quiet)

/-- The limit of nesting only ever cuts off: a body whose evaluation it does not end gives
the same value or fault under a higher limit and from a smaller depth on, and leaves the
same heap but for the limit. -/
theorem performBody_withLimit
    {site : Site} {forms : List Value} {heap : Heap} {limit depth : Int}
    (higher : heap.maxDepth site.evaluator ≤ limit) (shallower : depth ≤ site.depth)
    (never : BodyNeverMeets leavesEvents site forms heap)
    (uncut : ∀ reached, ((performBody site forms).perform heap).1 ≠
      .error (.depthExceeded reached)) :
    (performBody { site with depth := depth } forms).perform
        (heap.withLimit site.evaluator limit) =
      (((performBody site forms).perform heap).1,
        ((performBody site forms).perform heap).2.withLimit site.evaluator limit) := by
  let freer : Site := { site with depth := depth }
  let wider : Heap := heap.withLimit site.evaluator limit
  -- an alarm that is told apart from the outcome, for the watch over both runs
  obtain ⟨alarm, quiet⟩ := Regime.exists_alarm ((performBody site forms).perform heap)
  -- an alarm that the left run does not end with, so that something is said of it
  obtain ⟨unheard, silent⟩ := Regime.exists_alarm
    ((body (watched leavesEvents alarm frameLimit []) freer forms).perform wider)
  have answers : (besideLower unheard).Answers leavesEvents leavesEvents alarm alarm := by
    intro task twin around others left right tasks
    rw [leavesEvents_twin tasks around others left right]
    exact ⟨fun met => .inr ⟨met, rfl⟩, fun unmet => unmet⟩
  have workers := watched_twin
    (Pairing.coveredBy_leavesEvents (fun _ => trivial) fun _ => rfl) answers
    (.inl (Eq.refl frameLimit)) [] []
  have sites : Site.Twin (besideLower unheard) freer site :=
    ⟨⟨rfl, .inr ⟨trivial, shallower⟩⟩, rfl⟩
  have ends := twin_body workers sites forms wider heap (heap.like_withLimit higher unheard)
  have sameForms : forms.map (rename (besideLower unheard).numbers) = forms :=
    map_rename_identity forms
  rw [sameForms, never alarm] at ends
  have settled : (body (watched leavesEvents alarm frameLimit []) freer forms).perform wider =
      (((performBody site forms).perform heap).1,
        ((performBody site forms).perform heap).2.equip
          ((body (watched leavesEvents alarm frameLimit []) freer forms).perform
            wider).2.evaluators) := by
    generalize (body (watched leavesEvents alarm frameLimit []) freer forms).perform wider = left
      at ends silent ⊢
    generalize (performBody site forms).perform heap = right at ends uncut ⊢
    cases ends with
    | value result first second like =>
        have same : result.rename (besideLower unheard).numbers = result := rename_identity result
        rw [same, like.eq_equip rfl fun _ => rfl]
        rfl
    | fault fault first second like =>
        rw [like.eq_equip rfl fun _ => rfl]
        rfl
    | alarm first second => exact absurd rfl (silent first)
    | limit fault cuts first second =>
        obtain ⟨-, isLimit, notStack⟩ := cuts
        cases fault with
        | depthExceeded reached => exact absurd rfl (uncut reached)
        | failed failure =>
            cases failure with
            | stackExhausted => exact absurd rfl (notStack trivial)
            | _ => exact isLimit.elim
        | _ => exact isLimit.elim
  have plain : (body (watched leavesEvents alarm frameLimit []) freer forms).perform wider =
      (performBody freer forms).perform wider := by
    refine @BodyNeverMeets.of_quiet _ alarm _ _ _ (fun after stopped => ?_) alarm
    have sameOutcome := congrArg Prod.fst (settled.symm.trans stopped)
    exact quiet ((performBody site forms).perform heap).2 (Prod.ext sameOutcome rfl)
  have kept := (bodyFrom_keeps frameLimit site .nil forms heap).evaluators
  have keptToo := (bodyFrom_keeps frameLimit freer .nil forms wider).evaluators
  rw [plain] at settled
  refine settled.trans (Prod.ext rfl ?_)
  change ((performBody site forms).perform heap).2.equip
      ((performBody freer forms).perform wider).2.evaluators =
    ((performBody site forms).perform heap).2.equip _
  change ((performBody site forms).perform heap).2.evaluators = heap.evaluators at kept
  change ((performBody freer forms).perform wider).2.evaluators = wider.evaluators at keptToo
  rw [kept, keptToo]
  rfl

/-! ### A function that is called back -/

/-- `((fn f [n] (if (zero? n) n (first (map f [(dec n)])))) 2)` -/
def calledBack : List Value :=
  let next := Value.vector [.list [.symbol "dec", .symbol "n"] 0] 0
  let again := Value.list [.symbol "first", .list [.symbol "map", .symbol "f", next] 0] 0
  let choice := Value.list
    [.symbol "if", .list [.symbol "zero?", .symbol "n"] 0, .symbol "n", again] 0
  [.list [.list [.symbol "fn", .symbol "f", .vector [.symbol "n"] 0, choice] 0, .int 2] 0]

/-- A heap with an evaluator and its outermost scope. -/
def rooted (limit : Int) : Heap :=
  ((Expression.openSite { maxDepth := limit } none).perform Heap.empty).2

/-- Whether a body gives zero while members of other values than events are looked out
for. -/
def bodyGivesZero (site : Site) (forms : List Value) (heap : Heap) : Bool :=
  match ((body (watched leavesEvents (.malformed "") frameLimit []) site forms).perform heap).1 with
  | .ok (.int 0) => true
  | _ => false

theorem performBody_withLimit_calledBack :
    (rooted 20).maxDepth 0 ≤ 64 ∧
      ((performBody ⟨0, 0, 3⟩ calledBack).perform (rooted 20)).1 = .ok (.int 0) ∧
      ((performBody ⟨0, 0, 0⟩ calledBack).perform ((rooted 20).withLimit 0 64)).1 =
        .ok (.int 0) := by
  have gives : bodyGivesZero ⟨0, 0, 3⟩ calledBack (rooted 20) = true := by
    decide +kernel
  have isZero : ((body (watched leavesEvents (.malformed "") frameLimit []) ⟨0, 0, 3⟩
      calledBack).perform (rooted 20)).1 = .ok (.int 0) := by
    unfold bodyGivesZero at gives
    split at gives
    · assumption
    · cases gives
  have never : BodyNeverMeets leavesEvents ⟨0, 0, 3⟩ calledBack (rooted 20) := by
    refine @BodyNeverMeets.of_quiet _ (.malformed "") _ _ _ fun after stopped => ?_
    rw [stopped] at isZero
    cases isZero
  rw [never] at isZero
  have higher : (rooted 20).maxDepth 0 ≤ 64 := by decide +kernel
  have same := @performBody_withLimit ⟨0, 0, 3⟩ calledBack (rooted 20) 64 0 higher (by decide)
    never fun reached cut => by
      rw [isZero] at cut
      cases cut
  exact ⟨higher, isZero, (congrArg Prod.fst same).trans isZero⟩

end Eval

end CueScript
