import CueScript.Proofs.Depth.Nesting
import CueScript.Proofs.Run.Compile
import CueScript.Session

/-!
# Depth in sessions

Whatever a session of expressions with one limit does, its heap stays one in which all
evaluators have that limit and none is left inside a call.  So in every call of every
expression bodies nest no deeper than the limit, as long as no closure that is called back
starts at a smaller depth than the form that made the call.

A closure of another expression can.  Two expressions whose closures call each other in
turn, one of them through a built-in function, nest as deep as they like.
-/

namespace CueScript

open Depth

/-- What is found after something was put is that or was found before. -/
theorem Entries.find?_of_put
    {κ α : Type} {same : κ → κ → Bool} {key probe : κ} {value found : α}
    {entries : Entries κ α}
    (isFound : Entries.find? same probe (Entries.put same key value entries) = some found) :
    found = value ∨ Entries.find? same probe entries = some found := by
  induction entries with
  | nil =>
      rw [Entries.put, Entries.find?] at isFound
      split at isFound
      · cases isFound
        exact .inl rfl
      · cases isFound
  | cons entry rest inductionHypothesis =>
      obtain ⟨stored, old⟩ := entry
      rw [Entries.put] at isFound
      split at isFound
      · rw [Entries.find?] at isFound
        rw [Entries.find?]
        split at isFound
        · cases isFound
          exact .inl rfl
        · rename_i differs
          rw [if_neg differs]
          exact .inr isFound
      · rw [Entries.find?] at isFound
        rw [Entries.find?]
        split at isFound
        · rename_i matchesProbe
          rw [if_pos matchesProbe]
          exact .inr isFound
        · rename_i differs
          rw [if_neg differs]
          exact inductionHypothesis isFound

/-- What a session can be asked to do if all its expressions have one limit.  Events and
values may hold closures of the session; the trees of a table may not refer to others. -/
def SessionStep.Admissible (limit : Int) (heap : Heap) : SessionStep → Prop
  | .compile _ source =>
      source.config.maxDepth = limit ∧
        Expression.TableWithin (ownedBelow heap.evaluators.size) source.table
  | .call _ event _ _ _ => event.Within (ownedBelow heap.evaluators.size)
  | .set key value =>
      key.Within (ownedBelow heap.evaluators.size) ∧
        value.Within (ownedBelow heap.evaluators.size)

namespace Session

/-- The sessions that steps lead to if all expressions have one limit, with their heaps.
A call first opens the further stores it names. -/
inductive Reachable (limit : Int) : Session → Heap → Prop
  | start (entries : ValueEntries) (within : Value.EntriesWithin (ownedBelow 0) entries) :
      Reachable limit ((Session.start entries).run Heap.empty).1
        ((Session.start entries).run Heap.empty).2
  | step {session : Session} {heap : Heap} (step : SessionStep)
      (reachable : Reachable limit session heap)
      (admissible : step.Admissible limit heap) :
      Reachable limit ((session.perform step).run heap).1.2
        ((session.perform step).run heap).2
  | openStore {session : Session} {heap : Heap} (name : Option String)
      (reachable : Reachable limit session heap) :
      Reachable limit ((session.optionalStore name).run heap).1.2
        ((session.optionalStore name).run heap).2

/-- A session with a uniform heap, to which its expressions belong. -/
structure Sound (limit : Int) (session : Session) (heap : Heap) : Prop where
  uniform : Uniform limit heap
  functions : ∀ (id : String) (expression : Expression),
    Entries.find? (· == ·) id session.expressions = some expression →
      expression.function.Within (ownedBelow heap.evaluators.size)

end Session

namespace Depth

variable {limit : Int} {heap after : Heap}

theorem ownedBelow_narrower {fewer more : Nat} (le : fewer ≤ more) :
    (ownedBelow fewer).Narrower (ownedBelow more) where
  stores _ known := known
  scopes _ known := known
  evaluators _ known := Nat.lt_of_lt_of_le known le
  births _ known := known
  code _ known := known
  contents _ _ known := known
  escapes known := known

theorem within_ownedBelow {fewer more : Nat} (le : fewer ≤ more)
    (within : heap.Within (ownedBelow fewer)) :
    heap.Within (ownedBelow more) :=
  within.widen ⟨rfl, rfl, rfl, rfl⟩ (fun _ known => Nat.lt_of_lt_of_le known le)
    (fun _ known => known) (fun _ _ known => known) (fun known => known)
    (fun _ _ _ known => known)

/-- A run leaves a uniform heap uniform. -/
theorem Uniform.of_keeps
    {α : Type} {post : α → Prop} {action : Action α}
    (uniform : Uniform limit heap)
    (keeps : action.Keeps (ownedBelow heap.evaluators.size) post heap) :
    Uniform limit (action.perform heap).2 where
  states := by
    rw [keeps.evaluators]
    exact uniform.states
  within := by
    rw [keeps.evaluators]
    exact keeps.becomes.within

/-- Stores may be opened. -/
theorem Uniform.openStore
    (uniform : Uniform limit heap) (name : String) {entries : ValueEntries}
    (entriesWithin : Value.EntriesWithin (ownedBelow heap.evaluators.size) entries) :
    Uniform limit (heap.openStore name entries).2 :=
  ⟨uniform.states, uniform.within.openStore name entriesWithin⟩

/-- Making a function leaves a uniform heap uniform, with one evaluator more. -/
theorem Uniform.build
    (uniform : Uniform limit heap) {source : ExpressionSource} {forms : List Value}
    (hasLimit : source.config.maxDepth = limit)
    (tableWithin : Expression.TableWithin (ownedBelow heap.evaluators.size) source.table)
    (areTrees : Value.AllTrees forms) :
    ((Expression.build source forms).perform heap).2.evaluators.size =
        heap.evaluators.size + 1 ∧
      Uniform limit ((Expression.build source forms).perform heap).2 ∧
      ∀ form function, ((Expression.build source forms).perform heap).1 =
        .ok (form, function) → function.Within (ownedBelow (heap.evaluators.size + 1)) := by
  have fewer : heap.evaluators.size ≤ heap.evaluators.size + 1 := Nat.le_succ _
  have tableInside : Expression.TableWithin (ownedBelow (heap.evaluators.size + 1))
      source.table := fun entry member =>
    Value.within_widen (ownedBelow_narrower fewer) _ (tableWithin entry member)
  obtain ⟨evaluators, within, functionWithin⟩ :=
    Expression.build_keeps (fun _ => trivial) (fun _ => trivial)
      (fun _ => ⟨trivial, fun _ _ => trivial⟩) (fun _ _ _ _ => trivial) trivial
      (Nat.lt_succ_self heap.evaluators.size) (within_ownedBelow fewer uniform.within)
      tableInside areTrees
  have size : ((Expression.build source forms).perform heap).2.evaluators.size =
      heap.evaluators.size + 1 := by
    rw [evaluators, Array.size_push]
  refine ⟨size, ⟨?_, ?_⟩, functionWithin⟩
  · rw [evaluators]
    intro id state isState
    rw [Array.getElem?_push] at isState
    split at isState
    · cases isState
      exact ⟨hasLimit, rfl⟩
    · exact uniform.states id state isState
  · rw [size]
    exact within

/-- Compiling leaves a uniform heap uniform, and its evaluators are not fewer. -/
theorem Uniform.compile
    (uniform : Uniform limit heap) {source : ExpressionSource}
    (hasLimit : source.config.maxDepth = limit)
    (tableWithin : Expression.TableWithin (ownedBelow heap.evaluators.size) source.table)
    {globals : Nat} {compilation : Expression.Compilation} {after : Heap}
    (compiled : (Expression.compile source globals).run heap = (compilation, after)) :
    Uniform limit after ∧ heap.evaluators.size ≤ after.evaluators.size ∧
      ∀ expression, compilation.outcome = .ok expression →
        expression.function.Within (ownedBelow after.evaluators.size) := by
  cases formed : Expression.formsOf heap source.text.toList source.label with
  | error report =>
      have unfit := Expression.compile_of_unfit globals formed
      rw [compiled] at unfit
      obtain ⟨failed, rfl⟩ := unfit
      refine ⟨uniform, Nat.le_refl _, fun expression isOk => ?_⟩
      rw [failed] at isOk
      cases isOk
  | ok forms =>
      have areTrees := allTrees_of_read (Expression.read_of_formsOf formed).1
      obtain ⟨size, uniformAfter, functionWithin⟩ :=
        uniform.build hasLimit tableWithin areTrees
      rcases built : (Expression.build source forms).perform heap with ⟨outcome, made⟩
      rw [built] at size uniformAfter functionWithin
      cases outcome with
      | error fault =>
          have failed := Expression.compile_of_error globals formed built
          rw [compiled] at failed
          obtain ⟨isError, rfl⟩ := failed
          refine ⟨uniformAfter, size ▸ Nat.le_succ _, fun expression isOk => ?_⟩
          rw [isError] at isOk
          cases isOk
      | ok parts =>
          obtain ⟨form, function⟩ := parts
          have succeeded := Expression.compile_of_ok globals formed built
          rw [compiled] at succeeded
          obtain ⟨isOk, rfl⟩ := succeeded
          have sameSize : (made.openStore (source.label ++ " locals") []).2.evaluators.size =
              heap.evaluators.size + 1 := size
          refine ⟨uniformAfter.openStore _ trivial, sameSize ▸ Nat.le_succ _, ?_⟩
          intro expression same
          rw [isOk] at same
          cases same
          rw [sameSize]
          exact functionWithin form function rfl

end Depth

namespace Session

variable {limit : Int} {session : Session} {heap : Heap}

namespace Sound

theorem start
    {entries : ValueEntries} (within : Value.EntriesWithin (ownedBelow 0) entries) :
    Sound limit ((Session.start entries).run Heap.empty).1
      ((Session.start entries).run Heap.empty).2 where
  uniform := by
    have empty : Uniform limit Heap.empty :=
      { states := fun _ _ isState => nomatch isState
        within := Heap.within_empty _ (fun _ => trivial) (fun _ => trivial) (fun _ => trivial)
          fun _ _ => trivial }
    exact empty.openStore globalsName within
  functions _ _ isFound := nomatch isFound

theorem compile
    (sound : Sound limit session heap) {id : String} {source : ExpressionSource}
    (hasLimit : source.config.maxDepth = limit)
    (tableWithin : Expression.TableWithin (ownedBelow heap.evaluators.size) source.table) :
    Sound limit ((session.perform (.compile id source)).run heap).1.2
      ((session.perform (.compile id source)).run heap).2 := by
  rcases compiled : (Expression.compile source session.globals).run heap with
    ⟨compilation, after⟩
  obtain ⟨uniform, fewer, functionWithin⟩ :=
    sound.uniform.compile hasLimit tableWithin compiled
  simp only [StateT.run] at compiled
  have old : ∀ (other : String) (expression : Expression),
      Entries.find? (· == ·) other session.expressions = some expression →
        expression.function.Within (ownedBelow after.evaluators.size) :=
    fun other expression isFound =>
      Value.within_widen (ownedBelow_narrower fewer) _ (sound.functions other expression isFound)
  cases outcome : compilation.outcome with
  | error report =>
      have ran : (session.perform (.compile id source)).run heap =
          ((.compiled compilation, session), after) := by
        simp only [Session.perform, StateT.run, bind, StateT.bind, compiled, outcome]
        rfl
      rw [ran]
      exact ⟨uniform, old⟩
  | ok expression =>
      have ran : (session.perform (.compile id source)).run heap =
          ((.compiled compilation,
            { session with
              expressions := Entries.put (· == ·) id expression session.expressions }),
            after) := by
        simp only [Session.perform, StateT.run, bind, StateT.bind, compiled, outcome]
        rfl
      rw [ran]
      refine ⟨uniform, fun other otherExpression isFound => ?_⟩
      rcases Entries.find?_of_put isFound with rfl | isOld
      · exact functionWithin otherExpression outcome
      · exact old other otherExpression isOld

theorem optionalStore
    (sound : Sound limit session heap) (name : Option String) :
    Sound limit ((session.optionalStore name).run heap).1.2
        ((session.optionalStore name).run heap).2 ∧
      ((session.optionalStore name).run heap).2.evaluators = heap.evaluators ∧
      ((session.optionalStore name).run heap).1.2.expressions = session.expressions := by
  cases name with
  | none => exact ⟨sound, rfl, rfl⟩
  | some each =>
      cases isFound : Entries.find? (· == ·) each session.extras with
      | some id =>
          have stays : (session.optionalStore (some each)).run heap =
              ((some id, session), heap) := by
            simp only [Session.optionalStore, extraStore, isFound]
            rfl
          rw [stays]
          exact ⟨sound, rfl, rfl⟩
      | none =>
          have opens : (session.optionalStore (some each)).run heap =
              ((some heap.stores.size,
                { session with
                  extras := Entries.put (· == ·) each heap.stores.size session.extras }),
                (heap.openStore each []).2) := by
            simp only [Session.optionalStore, extraStore, isFound]
            rfl
          rw [opens]
          exact ⟨⟨sound.uniform.openStore each trivial, sound.functions⟩, rfl, rfl⟩

/-- The heap after a call is that after running the function of the expression. -/
theorem perform_callAnswer
    (expression : Expression) (arguments : Expression.Arguments) (strict : Bool) :
    ((callAnswer expression arguments strict).run heap).2 =
      ((Eval.perform (expression.callTask arguments)).perform heap).2 := by
  rw [← Expression.run_eq]
  rcases ran : (expression.run arguments).run heap with ⟨outcome, after⟩
  simp only [StateT.run] at ran
  cases strict with
  | true =>
      simp only [callAnswer, Expression.callStrictly, if_pos, StateT.run, bind, StateT.bind, ran]
      cases outcome <;> rfl
  | false =>
      simp only [callAnswer, Expression.callLeniently, Bool.false_eq_true, if_false, StateT.run,
        bind, StateT.bind, ran]
      cases outcome <;> rfl

theorem call
    (sound : Sound limit session heap) {id : String} {event : Value}
    {locals globals : Option String} {strict : Bool}
    (eventWithin : event.Within (ownedBelow heap.evaluators.size)) :
    Sound limit ((session.perform (.call id event locals globals strict)).run heap).1.2
      ((session.perform (.call id event locals globals strict)).run heap).2 := by
  cases isFound : Entries.find? (· == ·) id session.expressions with
  | none =>
      have stays : (session.perform (.call id event locals globals strict)).run heap =
          ((.unknown, session), heap) := by
        simp only [Session.perform, isFound]
        rfl
      rw [stays]
      exact sound
  | some expression =>
      obtain ⟨soundHere, sameHere, expressionsHere⟩ := sound.optionalStore locals
      rcases atLocals : (session.optionalStore locals).run heap with
        ⟨⟨localsStore, middle⟩, between⟩
      rw [atLocals] at soundHere sameHere expressionsHere
      obtain ⟨soundThere, sameThere, expressionsThere⟩ := soundHere.optionalStore globals
      rcases atGlobals : (middle.optionalStore globals).run between with
        ⟨⟨globalsStore, final⟩, ready⟩
      rw [atGlobals] at soundThere sameThere expressionsThere
      rcases answered : (callAnswer expression ⟨event, localsStore, globalsStore⟩ strict).run
        ready with ⟨answer, after⟩
      have ran : (session.perform (.call id event locals globals strict)).run heap =
          ((.called answer, final), after) := by
        simp only [StateT.run] at atLocals atGlobals answered
        simp only [Session.perform, isFound, StateT.run, bind, StateT.bind, atLocals, atGlobals,
          answered]
        rfl
      let arguments : Expression.Arguments := ⟨event, localsStore, globalsStore⟩
      have sameEvaluators : ready.evaluators = heap.evaluators := sameThere.trans sameHere
      have functionWithin := sound.functions id expression isFound
      rw [← sameEvaluators] at functionWithin eventWithin
      have keeps := Eval.perform_keeps (lists_ownedBelow ready.evaluators.size 0)
        (fun _ => trivial) (fun _ => trivial) trivial soundThere.uniform.within
        (@Expression.callTask_within _ expression arguments (fun _ => trivial) functionWithin
          eventWithin)
      have uniform := soundThere.uniform.of_keeps keeps
      rw [← perform_callAnswer expression arguments strict, answered] at uniform
      have sameAfter : after.evaluators = ready.evaluators := by
        have same := keeps.evaluators
        rwa [← perform_callAnswer expression arguments strict, answered] at same
      rw [ran]
      refine ⟨uniform, fun other otherExpression isOther => ?_⟩
      rw [sameAfter]
      exact soundThere.functions other otherExpression isOther

theorem set
    (sound : Sound limit session heap) {key value : Value}
    (keyWithin : key.Within (ownedBelow heap.evaluators.size))
    (valueWithin : value.Within (ownedBelow heap.evaluators.size)) :
    Sound limit ((session.perform (.set key value)).run heap).1.2
      ((session.perform (.set key value)).run heap).2 := by
  have keeps : (Store.set session.globals key value).Keeps
      (ownedBelow heap.evaluators.size) (Value.Within (ownedBelow heap.evaluators.size)) heap :=
    Agree.keeps (Store.agree_set trivial keyWithin valueWithin) sound.uniform.within
  refine ⟨sound.uniform.of_keeps keeps, fun id expression isFound => ?_⟩
  have same : ((session.perform (.set key value)).run heap).2.evaluators = heap.evaluators :=
    keeps.evaluators
  rw [same]
  exact sound.functions id expression isFound

end Sound

/-- Every session that is reached is sound. -/
theorem Reachable.sound (reachable : Reachable limit session heap) :
    Sound limit session heap := by
  induction reachable with
  | start entries within => exact .start within
  | step step _ admissible inductionHypothesis =>
      cases step with
      | compile id source => exact inductionHypothesis.compile admissible.1 admissible.2
      | call id event locals globals strict => exact inductionHypothesis.call admissible
      | set key value => exact inductionHypothesis.set admissible.1 admissible.2
  | openStore name _ inductionHypothesis => exact (inductionHypothesis.optionalStore name).1

/-- In every call of every expression of a session with one limit, bodies nest no deeper
than the limit as long as no closure that is called back starts at a smaller depth than the
form that made the call; and none does as long as only closures of the expression that
makes the call are called back. -/
theorem Reachable.nesting_bounded
    (reachable : Reachable limit session heap) (positive : 1 ≤ limit)
    {id : String} {expression : Expression}
    (isFound : Entries.find? (· == ·) id session.expressions = some expression)
    (arguments : Expression.Arguments)
    (eventWithin : arguments.event.Within (ownedBelow heap.evaluators.size)) :
    (Eval.NeverMeets (isReflective.or startsShallow) (expression.callTask arguments) heap →
        Eval.NeverMeets (deeper limit) (expression.callTask arguments) heap) ∧
      (Eval.NeverMeets (isReflective.or isForeign) (expression.callTask arguments) heap →
        Eval.NeverMeets (isReflective.or startsShallow) (expression.callTask arguments)
          heap) :=
  reachable.sound.uniform.call_bounded positive (reachable.sound.functions id expression isFound)
    ⟨eventWithin, trivial, trivial, trivial⟩

/-! ## Two sessions -/

/-- Carry out a step. -/
def advance (reached : Session × Heap) (step : SessionStep) : Session × Heap :=
  (((reached.1.perform step).run reached.2).1.2, ((reached.1.perform step).run reached.2).2)

/-- What steps lead to from a session with an empty store. -/
def after (steps : List SessionStep) : Session × Heap :=
  steps.foldl advance ((Session.start []).run Heap.empty)

theorem reachable_foldl_advance
    {steps : List SessionStep} {reached : Session × Heap}
    (admissible : ∀ step ∈ steps, ∀ heap, step.Admissible limit heap)
    (reachable : Reachable limit reached.1 reached.2) :
    Reachable limit (steps.foldl advance reached).1 (steps.foldl advance reached).2 := by
  induction steps generalizing reached with
  | nil => exact reachable
  | cons step rest inductionHypothesis =>
      have restAdmissible : ∀ other ∈ rest, ∀ heap, other.Admissible limit heap :=
        fun other member => admissible other (List.mem_cons_of_mem step member)
      have next : Reachable limit (advance reached step).1 (advance reached step).2 :=
        .step step reachable (admissible step List.mem_cons_self reached.2)
      exact inductionHypothesis restAdmissible next

theorem reachable_after
    {steps : List SessionStep}
    (admissible : ∀ step ∈ steps, ∀ heap, step.Admissible limit heap) :
    Reachable limit (after steps).1 (after steps).2 :=
  reachable_foldl_advance admissible (.start [] trivial)

/-- A source without convenience symbols. -/
def plainSource (limit : Int) (text : String) : ExpressionSource :=
  { text := text, table := [], config := { maxDepth := limit } }

theorem admissible_compile (id text : String) (heap : Heap) :
    SessionStep.Admissible limit heap (.compile id (plainSource limit text)) :=
  ⟨rfl, fun _ member => nomatch member⟩

/-- Whether calling the expression `main` gives zero while something is looked out for. -/
def givesZero (steps : List SessionStep) (watch : Watch) (alarm : Fault) : Bool :=
  match Entries.find? (· == ·) "main" (after steps).1.expressions with
  | none => false
  | some expression =>
      let run := Eval.watched watch alarm Eval.frameLimit [] (expression.callTask {})
      match (run.perform (after steps).2).1 with
      | .ok (.int 0) => true
      | _ => false

theorem exists_of_givesZero
    {steps : List SessionStep} {watch : Watch} {alarm : Fault}
    (gives : givesZero steps watch alarm = true) :
    ∃ expression final,
      Entries.find? (· == ·) "main" (after steps).1.expressions = some expression ∧
        (Eval.watched watch alarm Eval.frameLimit [] (expression.callTask {})).perform
          (after steps).2 = (.ok (.int 0), final) := by
  unfold givesZero at gives
  split at gives
  · cases gives
  · rename_i expression isFound
    simp only at gives
    split at gives
    · rename_i isZero
      exact ⟨expression, _, isFound, Prod.ext isZero rfl⟩
    · cases gives

/-- An expression whose closure is called back by a function that it calls. -/
def countdown : List SessionStep := [
  .compile "main" (plainSource 30
    "(let [f (fn f [n] (if (zero? n) n (first (map f [(dec n)]))))] (f 2))")]

theorem nesting_bounded_countdown :
    ∃ expression,
      Entries.find? (· == ·) "main" (after countdown).1.expressions = some expression ∧
        Eval.NeverMeets (deeper 30) (expression.callTask {}) (after countdown).2 := by
  have gives : givesZero countdown (isReflective.or isForeign) (.malformed "") = true := by
    decide +kernel
  obtain ⟨expression, final, isFound, ran⟩ := exists_of_givesZero gives
  have reachable : Reachable 30 (after countdown).1 (after countdown).2 :=
    reachable_after fun step member heap => by
      rw [List.mem_singleton.mp member]
      exact admissible_compile "main" _ heap
  have own : Eval.NeverMeets (isReflective.or isForeign) (expression.callTask {})
      (after countdown).2 := by
    refine @Eval.NeverMeets.of_quiet _ _ _ (.malformed "") fun other stopped => ?_
    rw [ran] at stopped
    cases stopped
  obtain ⟨bounded, keepsDepth⟩ :=
    reachable.nesting_bounded (by decide) isFound {} trivial
  exact ⟨expression, isFound, bounded (keepsDepth own)⟩

/-- Two expressions whose closures call each other in turn, one of them through `map`. -/
def pingPong : List SessionStep := [
  .compile "main" (plainSource 10 <|
    "(store! globals :f (fn [n] (if (zero? n) n ((fetch globals :g) (dec n))))) " ++
      "((fetch globals :f) 6)"),
  .compile "other" (plainSource 10
    "(store! globals :g (fn [n] (first (map (fetch globals :f) [n]))))"),
  .call "other" .nil none none true]

/-- More than ten bodies nest under a limit of ten, and the call gives a value. -/
theorem nesting_unbounded_pingPong :
    ∃ expression,
      Reachable 10 (after pingPong).1 (after pingPong).2 ∧
        Entries.find? (· == ·) "main" (after pingPong).1.expressions = some expression ∧
        ¬ Eval.NeverMeets (deeper 10) (expression.callTask {}) (after pingPong).2 ∧
        ((expression.run {}).run (after pingPong).2).1 = .ok (.int 0) := by
  have gives : givesZero pingPong .never (.malformed "") = true := by
    decide +kernel
  have stopped : givesZero pingPong (deeper 10) (.malformed "") = false := by
    decide +kernel
  obtain ⟨expression, final, isFound, ran⟩ := exists_of_givesZero gives
  rw [Eval.watched_never] at ran
  have reachable : Reachable 10 (after pingPong).1 (after pingPong).2 := by
    refine reachable_after fun step member heap => ?_
    simp only [pingPong, List.mem_cons, List.not_mem_nil, or_false] at member
    rcases member with rfl | rfl | rfl
    · exact admissible_compile "main" _ heap
    · exact admissible_compile "other" _ heap
    · exact trivial
  refine ⟨expression, reachable, isFound, fun never => ?_, ?_⟩
  · have watchedToo := (never (.malformed "")).trans ran
    have zero : givesZero pingPong (deeper 10) (.malformed "") = true := by
      unfold givesZero
      simp only [isFound, watchedToo]
    rw [zero] at stopped
    cases stopped
  · rw [Expression.run_eq, Eval.perform, ran]

end Session

end CueScript
