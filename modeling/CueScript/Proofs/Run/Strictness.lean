import CueScript.Session
import Mathlib.Data.List.Forall2

/-!
# Strict and lenient calls

A strict call raises what a lenient one logs, and that is all the difference there is
between them: the same function runs with the same stores, and it leaves the same heap.  So
a session goes on in the same way whichever of its calls are strict.
-/

namespace CueScript

/-! ## Single calls -/

namespace Fault

/-- The reports of faults that the language detects are of evaluation. -/
theorem isEvaluationError_report {fault : Fault} {report : Report}
    (detected : fault.report? = some report) :
    report.errorClass.isEvaluationError = true := by
  cases fault with
  | failed failure => cases detected
  | _ =>
      cases detected
      rfl

end Fault

namespace Expression

/-- How a strict call reports a fault.  What the language detects is raised as it is.  A
failure of a primitive operation is wrapped and kept as the cause; running out of stack is
reported as nesting too deeply. -/
inductive Raises : Fault → Report → Prop
  | detected {fault : Fault} {report : Report} (same : fault.report? = some report) :
      Raises fault report
  | wrapped {failure : Failure} {report : Report} (inStack : failure ≠ .stackExhausted)
      (errorClass : report.errorClass = .evaluation)
      (code : report.diagnostic.code = .executionError)
      (cause : report.cause = some failure.kindName) :
      Raises (.failed failure) report
  | exhausted {report : Report} (errorClass : report.errorClass = .recursionLimit)
      (code : report.diagnostic.code = .recursionLimit)
      (cause : report.cause = some Failure.stackExhausted.kindName) :
      Raises (.failed .stackExhausted) report

theorem Raises.isEvaluationError {fault : Fault} {report : Report} (raises : Raises fault report) :
    report.errorClass.isEvaluationError = true := by
  cases raises with
  | detected same => exact Fault.isEvaluationError_report same
  | wrapped _ errorClass => rw [errorClass]; rfl
  | exhausted errorClass => rw [errorClass]; rfl

theorem raises_callReport (expression : Expression) (fault : Fault) :
    Raises fault (expression.callReport fault) := by
  cases fault with
  | failed failure =>
      by_cases inStack : failure = .stackExhausted
      · subst inStack
        exact .exhausted rfl rfl rfl
      · have isWrapped : expression.callReport (.failed failure) =
            (Report.ofFields .evaluation .executionError
              (expression.name ++ " failed: " ++ failure.kindName ++ ": " ++ failure.text)
              .plain {}).withCause failure.kindName := by
          cases failure with
          | stackExhausted => exact absurd rfl inStack
          | _ => rfl
        rw [isWrapped]
        exact .wrapped inStack rfl rfl rfl
  | _ => exact .detected rfl

/-- What the two kinds of call make of a run of the function. -/
inductive CallsAgree : Except Fault Value → Except Report Value → Value × List LogRecord → Prop
  | value (value : Value) : CallsAgree (.ok value) (.ok value) (value, [])
  | fault {fault : Fault} {report : Report} {record : LogRecord} (raises : Raises fault report)
      (logged : record.level = .error) :
      CallsAgree (.error fault) (.error report) (.nil, [record])

variable (expression : Expression) (arguments : Arguments) (heap : Heap)

/-- Both kinds of call run the function once and leave the heap that it leaves. -/
theorem calls_agree :
    let ran := (expression.run arguments).run heap
    let strict := (expression.callStrictly arguments).run heap
    let lenient := (expression.callLeniently arguments).run heap
    strict.2 = ran.2 ∧ lenient.2 = ran.2 ∧ CallsAgree ran.1 strict.1 lenient.1 := by
  rcases ran : (expression.run arguments).run heap with ⟨outcome, after⟩
  simp only [StateT.run] at ran
  simp only [callStrictly, callLeniently, StateT.run, bind, StateT.bind, ran]
  cases outcome with
  | ok value => exact ⟨rfl, rfl, .value value⟩
  | error fault =>
      exact ⟨rfl, rfl, .fault (raises_callReport expression fault) rfl⟩

end Expression

/-! ## Sessions -/

/-- Whether two steps are the same, except that one of them may be a strict call where the
other one is lenient. -/
inductive SessionStep.SameButStrict : SessionStep → SessionStep → Prop
  | same (step : SessionStep) : SameButStrict step step
  | call (id : String) (event : Value) (locals globals : Option String) (first second : Bool) :
      SameButStrict (.call id event locals globals first) (.call id event locals globals second)

/-- Whether a strict call and a lenient one are answered alike: the description and the
expression's own store are the same, a result is the same and nothing is logged, and what the
strict call raises, the lenient one logs, once. -/
structure CallAnswer.Agree (strict lenient : CallAnswer) : Prop where
  description : lenient.description = strict.description
  locals : lenient.locals = strict.locals
  quiet : strict.logs = []
  value : ∀ value, strict.result = .ok value → lenient.result = .ok value ∧ lenient.logs = []
  fault : ∀ report, strict.result = .error report →
    report.errorClass.isEvaluationError = true ∧ lenient.result = .ok .nil ∧
      ∃ record, lenient.logs = [record] ∧ record.level = .error

/-- How steps are answered that are the same or differ in being strict. -/
inductive SessionAnswer.Agree : SessionStep → SessionStep → SessionAnswer → SessionAnswer → Prop
  | same (step : SessionStep) (answer : SessionAnswer) : Agree step step answer answer
  | unknown (id : String) (event : Value) (locals globals : Option String)
      (first second : Bool) :
      Agree (.call id event locals globals first) (.call id event locals globals second) .unknown
        .unknown
  | loosened (id : String) (event : Value) (locals globals : Option String)
      {strict lenient : CallAnswer} (agree : strict.Agree lenient) :
      Agree (.call id event locals globals true) (.call id event locals globals false)
        (.called strict) (.called lenient)
  | tightened (id : String) (event : Value) (locals globals : Option String)
      {strict lenient : CallAnswer} (agree : strict.Agree lenient) :
      Agree (.call id event locals globals false) (.call id event locals globals true)
        (.called lenient) (.called strict)

namespace Session

variable {heap : Heap}

/-- Calling an expression leaves one heap, and the answers agree. -/
theorem callAnswer_agree
    (expression : Expression) (arguments : Expression.Arguments) :
    let strict := (callAnswer expression arguments true).run heap
    let lenient := (callAnswer expression arguments false).run heap
    lenient.2 = strict.2 ∧ strict.1.Agree lenient.1 := by
  obtain ⟨strictHeap, lenientHeap, agree⟩ := expression.calls_agree arguments heap
  rcases strictly : (expression.callStrictly arguments).run heap with ⟨result, after⟩
  rcases leniently : (expression.callLeniently arguments).run heap with ⟨⟨value, logs⟩, later⟩
  rw [strictly, leniently] at agree
  rw [strictly] at strictHeap
  rw [leniently] at lenientHeap
  have sameHeap : later = after := lenientHeap.trans strictHeap.symm
  subst sameHeap
  generalize ((expression.run arguments).run heap).1 = outcome at agree
  simp only [StateT.run] at strictly leniently
  simp only [callAnswer, StateT.run, bind, StateT.bind, if_true, Bool.false_eq_true, if_false,
    strictly, leniently]
  refine ⟨rfl, rfl, rfl, rfl, ?_, ?_⟩
  · rintro _ ⟨⟩
    cases agree
    exact ⟨rfl, rfl⟩
  · rintro report ⟨⟩
    cases agree with
    | fault raises logged => exact ⟨raises.isEvaluationError, rfl, _, rfl, logged⟩

/-- What a session is at after a step, and how the step was answered. -/
structure Moment where
  step : SessionStep
  answer : SessionAnswer
  session : Session
  heap : Heap

/-- The moment after a step. -/
def moment (session : Session) (heap : Heap) (step : SessionStep) : Moment :=
  let performed := (session.perform step).run heap
  ⟨step, performed.1.1, performed.1.2, performed.2⟩

/-- The moments after each of some steps. -/
def course (session : Session) (heap : Heap) : List SessionStep → List Moment
  | [] => []
  | step :: rest =>
      let next := session.moment heap step
      next :: course next.session next.heap rest

/-- Whether two sessions are at the same with the same heap, and so with the same stores and
descriptions, after steps that were answered alike. -/
structure Moment.Agree (first second : Moment) : Prop where
  session : second.session = first.session
  heap : second.heap = first.heap
  answers : SessionAnswer.Agree first.step second.step first.answer second.answer

/-- A call of an expression is answered alike, and it leaves the same session and heap. -/
theorem perform_call_agree
    (session : Session) (heap : Heap) (id : String) (event : Value)
    (locals globals : Option String) :
    let strict := (session.perform (.call id event locals globals true)).run heap
    let lenient := (session.perform (.call id event locals globals false)).run heap
    lenient.1.2 = strict.1.2 ∧ lenient.2 = strict.2 ∧
      ((strict.1.1 = .unknown ∧ lenient.1.1 = .unknown) ∨
        ∃ first second, strict.1.1 = .called first ∧ lenient.1.1 = .called second ∧
          first.Agree second) := by
  cases isFound : Entries.find? (· == ·) id session.expressions with
  | none =>
      simp only [perform, isFound, true_and]
      exact .inl ⟨rfl, rfl⟩
  | some expression =>
      rcases withLocals : (session.optionalStore locals).run heap with ⟨⟨ownStore, former⟩, before⟩
      rcases withGlobals : (former.optionalStore globals).run before with
        ⟨⟨sharedStore, latter⟩, opened⟩
      obtain ⟨sameHeap, agree⟩ :=
        @callAnswer_agree opened expression ⟨event, ownStore, sharedStore⟩
      simp only [StateT.run] at withLocals withGlobals sameHeap agree
      simp only [perform, isFound, StateT.run, bind, StateT.bind, withLocals, withGlobals]
      exact ⟨rfl, sameHeap, .inr ⟨_, _, rfl, rfl, agree⟩⟩

/-- A step is answered alike, and it leaves the same session and heap. -/
theorem moment_agree
    (session : Session) (heap : Heap) {first second : SessionStep}
    (alike : first.SameButStrict second) :
    (session.moment heap first).Agree (session.moment heap second) := by
  cases alike with
  | same => exact ⟨rfl, rfl, .same _ _⟩
  | call id event locals globals first second =>
      obtain ⟨sameSession, sameHeap, answers⟩ :=
        perform_call_agree session heap id event locals globals
      cases first <;> cases second
      · exact ⟨rfl, rfl, .same _ _⟩
      · refine ⟨sameSession.symm, sameHeap.symm, ?_⟩
        simp only [moment]
        rcases answers with ⟨strict, lenient⟩ | ⟨_, _, strict, lenient, agree⟩
        · rw [strict, lenient]
          exact .unknown ..
        · rw [strict, lenient]
          exact .tightened id event locals globals agree
      · refine ⟨sameSession, sameHeap, ?_⟩
        simp only [moment]
        rcases answers with ⟨strict, lenient⟩ | ⟨_, _, strict, lenient, agree⟩
        · rw [strict, lenient]
          exact .unknown ..
        · rw [strict, lenient]
          exact .loosened id event locals globals agree
      · exact ⟨rfl, rfl, .same _ _⟩

/-- A session in which an expression writes to its store and then asks for a symbol that has
no value. -/
def missingSymbol (strict : Bool) : List SessionStep := [
  .compile "a" { text := "(store! locals 1 2) missing", table := [] },
  .call "a" .nil none none strict]

/-- The classes of the reports that the calls in a session raise, each with the number of
records that the call logs. -/
def outlines (moments : List Moment) : List (Option ErrorClass × Nat) :=
  moments.filterMap fun moment =>
    match moment.answer with
    | .called ⟨.ok _, logs, _, _⟩ => some (none, logs.length)
    | .called ⟨.error report, logs, _, _⟩ => some (some report.errorClass, logs.length)
    | _ => none

end Session

end CueScript
