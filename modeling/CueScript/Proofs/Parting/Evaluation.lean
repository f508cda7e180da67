import CueScript.Proofs.Parting.Site

/-!
# Evaluation where scopes part

A step of evaluation ends alike in both runs, if everything that it asks of its worker does.
Where the runs are in scopes of their own, this needs that these have the same variables at
the beginning of the step.
-/

namespace CueScript

open Value

variable {terms : Terms} {parting : Parting terms} {roots place : Side → Nat} {own : Bool}

/-! ## What is evaluated -/

namespace Parting

/-- Whether a form may be met and evaluated. -/
def Evaluable (parting : Parting terms) (own : Bool) (item : Value) : Prop :=
  parting.Knows item ∧ terms.Allows own item

/-- The same for several forms. -/
def AllEvaluable (parting : Parting terms) (own : Bool) (items : List Value) : Prop :=
  ∀ item ∈ items, parting.Evaluable own item

namespace Later

variable {after : Parting terms}

theorem evaluable
    (becomes : parting.Later after) {item : Value} (evaluable : parting.Evaluable own item) :
    after.Evaluable own item :=
  ⟨becomes.knows evaluable.1, evaluable.2⟩

theorem allEvaluable
    (becomes : parting.Later after) {items : List Value}
    (evaluable : parting.AllEvaluable own items) :
    after.AllEvaluable own items :=
  fun item member => becomes.evaluable (evaluable item member)

end Later

/-- The items of a form may be evaluated. -/
theorem allEvaluable_of_sequence
    {value : Value} {items : List Value} (whole : parting.Evaluable own value)
    (isSequence : value.sequence? = some items) :
    parting.AllEvaluable own items :=
  fun item member => ⟨allWithin_iff.mp (within_of_sequence whole.1 isSequence) item member,
    forms_of_sequence whole.1 whole.2 isSequence item member⟩

/-- What is still to come of a list of forms are forms. -/
theorem quiet_upcoming
    {items rest : List Value} {birth done : Nat}
    (whole : parting.Evaluable own (.list items birth))
    (evaluable : parting.AllEvaluable own rest) :
    Quiet parting (parting.AllEvaluable own) (Action.upcoming birth done rest) :=
  .upcoming evaluable fun _ left fits isLeft item member =>
    ⟨allWithin_iff.mp (fits.losses birth left isLeft).2 item member,
      fits.forms_of_left whole.2 isLeft item member⟩

end Parting

/-! ## Pieces of work -/

/-- The same piece of work in both runs. -/
inductive Task.Beside (parting : Parting terms) (roots : Side → Nat) : (Side → Task) → Prop
  | evaluate (own : Bool) (place : Side → Nat) (evaluator : Nat) (form : Value) (depth : Int)
      (stands : parting.Stands roots own place) (evaluable : parting.Evaluable own form) :
      Task.Beside parting roots fun side => .evaluate evaluator (place side) form depth
  | read (value : Value) (name : String) (known : parting.Knows value) :
      Task.Beside parting roots fun _ => .read value name
  | enter (closure : Value) (args : List Value) (depth : Int) (known : parting.Knows closure)
      (argsKnown : parting.KnowsAll args) :
      Task.Beside parting roots fun _ => .enter closure args depth
  | call (function : Value) (args : List Value) (known : parting.Knows function)
      (argsKnown : parting.KnowsAll args) :
      Task.Beside parting roots fun _ => .call function args

/-- Whether what two workers do ends alike, from some parting on. -/
def WorkersAlongside
    (parting : Parting terms) (roots : Side → Nat) (worker : Side → Worker) : Prop :=
  ∀ later, parting.Later later → ∀ task, Task.Beside later roots task →
    Alongside later Parting.Knows fun side => worker side (task side)

variable {worker : Side → Worker}

namespace WorkersAlongside

theorem later
    {after : Parting terms} (workers : WorkersAlongside parting roots worker)
    (becomes : parting.Later after) :
    WorkersAlongside after roots worker :=
  fun last further => workers last (becomes.trans further)

theorem here
    (workers : WorkersAlongside parting roots worker) {task : Side → Task}
    (beside : Task.Beside parting roots task) :
    Alongside parting Parting.Knows fun side => worker side (task side) :=
  workers parting (.refl parting) task beside

theorem calls (workers : WorkersAlongside parting roots worker) :
    CallsAlongside parting fun side function args => worker side (.call function args) :=
  fun later becomes function args known argsKnown =>
    workers later becomes _ (.call function args known argsKnown)

end WorkersAlongside

namespace Eval

section Parts

variable {evaluator : Nat} {depth : Int}

/-! ## Forms one after the other -/

theorem alongside_form
    (workers : WorkersAlongside parting roots worker) (stands : parting.Stands roots own place)
    {item : Value} (evaluable : parting.Evaluable own item) :
    Alongside parting Parting.Knows fun side =>
      form (worker side) ⟨evaluator, place side, depth⟩ item :=
  workers.here (.evaluate own place evaluator item depth stands evaluable)

theorem alongside_items
    (workers : WorkersAlongside parting roots worker) (stands : parting.Stands roots own place)
    {forms : List Value} (evaluable : parting.AllEvaluable own forms) :
    Alongside parting Parting.KnowsAll fun side =>
      items (worker side) ⟨evaluator, place side, depth⟩ forms := by
  induction forms generalizing parting with
  | nil => exact Quiet.alongside (.pure trivial)
  | cons item rest inductionHypothesis =>
      obtain ⟨itemFits, restFits⟩ := List.forall_mem_cons.mp evaluable
      refine .bind (alongside_form workers stands itemFits) ?_
      intro later value becomes valueKnown
      refine .bind (inductionHypothesis (workers.later becomes) (stands.later becomes)
        (becomes.allEvaluable restFits)) ?_
      exact fun last values further valuesKnown =>
        Quiet.alongside (.pure ⟨further.knows valueKnown, valuesKnown⟩)

theorem alongside_bodyFrom
    (workers : WorkersAlongside parting roots worker) (stands : parting.Stands roots own place)
    {forms : List Value} (evaluable : parting.AllEvaluable own forms)
    {result : Value} (known : parting.Knows result) :
    Alongside parting Parting.Knows fun side =>
      bodyFrom (worker side) ⟨evaluator, place side, depth⟩ result forms := by
  induction forms generalizing parting result with
  | nil => exact Quiet.alongside (.pure known)
  | cons item rest inductionHypothesis =>
      obtain ⟨itemFits, restFits⟩ := List.forall_mem_cons.mp evaluable
      refine .bind (alongside_form workers stands itemFits) ?_
      exact fun later value becomes valueKnown =>
        inductionHypothesis (workers.later becomes) (stands.later becomes)
          (becomes.allEvaluable restFits) valueKnown

theorem alongside_body
    (workers : WorkersAlongside parting roots worker) (stands : parting.Stands roots own place)
    {forms : List Value} (evaluable : parting.AllEvaluable own forms) :
    Alongside parting Parting.Knows fun side =>
      body (worker side) ⟨evaluator, place side, depth⟩ forms :=
  alongside_bodyFrom workers stands evaluable trivial

theorem alongside_allTrue
    (workers : WorkersAlongside parting roots worker) (stands : parting.Stands roots own place)
    {forms : List Value} (evaluable : parting.AllEvaluable own forms)
    {result : Value} (known : parting.Knows result) :
    Alongside parting Parting.Knows fun side =>
      allTrue (worker side) ⟨evaluator, place side, depth⟩ result forms := by
  induction forms generalizing parting result with
  | nil => exact Quiet.alongside (.pure known)
  | cons item rest inductionHypothesis =>
      obtain ⟨itemFits, restFits⟩ := List.forall_mem_cons.mp evaluable
      refine .bind (alongside_form workers stands itemFits) ?_
      intro later value becomes valueKnown
      split
      · exact inductionHypothesis (workers.later becomes) (stands.later becomes)
          (becomes.allEvaluable restFits) valueKnown
      · exact Quiet.alongside (.pure valueKnown)

theorem alongside_anyTrue
    (workers : WorkersAlongside parting roots worker) (stands : parting.Stands roots own place)
    {forms : List Value} (evaluable : parting.AllEvaluable own forms)
    {result : Value} (known : parting.Knows result) :
    Alongside parting Parting.Knows fun side =>
      anyTrue (worker side) ⟨evaluator, place side, depth⟩ result forms := by
  induction forms generalizing parting result with
  | nil => exact Quiet.alongside (.pure known)
  | cons item rest inductionHypothesis =>
      obtain ⟨itemFits, restFits⟩ := List.forall_mem_cons.mp evaluable
      refine .bind (alongside_form workers stands itemFits) ?_
      intro later value becomes valueKnown
      split
      · exact Quiet.alongside (.pure valueKnown)
      · exact inductionHypothesis (workers.later becomes) (stands.later becomes)
          (becomes.allEvaluable restFits) valueKnown

/-- Bindings are evaluated in a scope that the runs have opened. -/
theorem alongside_bindAll
    {scope : Nat} (workers : WorkersAlongside parting roots worker)
    (stands : parting.Stands roots own fun _ => scope)
    {pairs : List (String × Value)} (evaluable : ∀ pair ∈ pairs, parting.Evaluable own pair.2) :
    Alongside parting (fun _ _ => True) fun side =>
      bindAll (worker side) ⟨evaluator, scope, depth⟩ pairs := by
  induction pairs generalizing parting with
  | nil => exact Quiet.alongside (.pure trivial)
  | cons pair rest inductionHypothesis =>
      obtain ⟨name, item⟩ := pair
      obtain ⟨itemFits, restFits⟩ := List.forall_mem_cons.mp evaluable
      refine .bind (alongside_form workers stands itemFits) ?_
      intro later value becomes valueKnown
      have standsLater := stands.later becomes
      refine .after (.define standsLater.sameVariables trivial valueKnown) fun _ _ => ?_
      exact inductionHypothesis (workers.later becomes) standsLater
        fun each member => becomes.evaluable (restFits each member)

theorem alongside_firstClause
    (workers : WorkersAlongside parting roots worker) (stands : parting.Stands roots own place)
    {clauses : List (Value × Value)}
    (evaluable : ∀ clause ∈ clauses,
      parting.Evaluable own clause.1 ∧ parting.Evaluable own clause.2) :
    Alongside parting Parting.Knows fun side =>
      firstClause (worker side) ⟨evaluator, place side, depth⟩ clauses := by
  induction clauses generalizing parting with
  | nil => exact Quiet.alongside (.pure trivial)
  | cons clause rest inductionHypothesis =>
      obtain ⟨test, item⟩ := clause
      obtain ⟨⟨testFits, itemFits⟩, restFits⟩ := List.forall_mem_cons.mp evaluable
      refine .bind (alongside_form workers stands testFits) ?_
      intro later value becomes valueKnown
      split
      · exact alongside_form (workers.later becomes) (stands.later becomes)
          (becomes.evaluable itemFits)
      · exact inductionHypothesis (workers.later becomes) (stands.later becomes)
          fun each member => (restFits each member).imp becomes.evaluable becomes.evaluable

/-! ## Special forms -/

theorem alongside_branch
    (workers : WorkersAlongside parting roots worker) (stands : parting.Stands roots own place)
    {holds : Bool} {branches : List Value} (evaluable : parting.AllEvaluable own branches) :
    Alongside parting Parting.Knows fun side =>
      branch (worker side) ⟨evaluator, place side, depth⟩ holds branches := by
  unfold branch
  split
  · exact alongside_form workers stands (evaluable _ List.mem_cons_self)
  · exact Quiet.alongside .fail
  · exact alongside_form workers stands
      (evaluable _ (List.mem_cons_of_mem _ List.mem_cons_self))
  · exact Quiet.alongside (.pure trivial)

theorem allEvaluable_branches
    {yes : Value} {no : Option Value} (yesFits : parting.Evaluable own yes)
    (noFits : ∀ each, no = some each → parting.Evaluable own each) :
    parting.AllEvaluable own (yes :: no.toList) :=
  List.forall_mem_cons.mpr ⟨yesFits, fun item member => noFits item (Option.mem_toList.mp member)⟩

section Special

variable {items : List Value} {birth : Nat}

theorem alongside_bodyOf
    (workers : WorkersAlongside parting roots worker) (stands : parting.Stands roots own place)
    (whole : parting.Evaluable own (.list items birth))
    {forms : List Value} (evaluable : parting.AllEvaluable own forms) :
    Alongside parting Parting.Knows fun side =>
      bodyOf (worker side) ⟨evaluator, place side, depth⟩ birth forms :=
  .after (Parting.quiet_upcoming whole evaluable) fun _ comingFits =>
    alongside_body workers stands comingFits

/-- The body of a form that binds one name is evaluated. -/
theorem alongside_bound
    {β : Type} {post : Parting terms → β → Prop} {next : Side → Nat → Action β} {name : String}
    {value : Value} (stands : parting.Stands roots own place) (known : parting.Knows value)
    (tail : ∀ later scope, parting.Later later → later.Stands roots own (fun _ => scope) →
      Alongside later post fun side => next side scope) :
    Alongside parting post fun side =>
      Action.childScope (place side) [(.str name, value)] >>= next side :=
  .bind (.childScopeAt stands ⟨⟨trivial, known⟩, trivial⟩) fun later scope becomes standsInside =>
    tail later scope becomes standsInside

theorem alongside_special
    (workers : WorkersAlongside parting roots worker) (stands : parting.Stands roots own place)
    (whole : parting.Evaluable own (.list items birth))
    {parts : SpecialForm} (evaluable : parts.All parting.Knows (parting.Evaluable own))
    (shared : ∀ label params rest body, parts = .function label params rest body → own = false) :
    Alongside parting Parting.Knows fun side =>
      special (worker side) ⟨evaluator, place side, depth⟩ birth parts := by
  cases parts with
  | quote item => exact Quiet.alongside (.pure evaluable)
  | ifThen test yes no =>
      obtain ⟨testFits, branchesFit⟩ := evaluable
      refine .bind (alongside_form workers stands testFits) fun later value becomes _ => ?_
      refine .after (Parting.quiet_upcoming (becomes.evaluable whole)
        (becomes.allEvaluable (allEvaluable_branches branchesFit.1 branchesFit.2))) ?_
      exact fun branches branchesFit =>
        alongside_branch (workers.later becomes) (stands.later becomes) branchesFit
  | when test forms =>
      refine .bind (alongside_form workers stands evaluable.1) fun later value becomes _ => ?_
      split
      · exact alongside_bodyOf (workers.later becomes) (stands.later becomes)
          (becomes.evaluable whole) (becomes.allEvaluable evaluable.2)
      · exact Quiet.alongside (.pure trivial)
  | whenNot test forms =>
      refine .bind (alongside_form workers stands evaluable.1) fun later value becomes _ => ?_
      split
      · exact Quiet.alongside (.pure trivial)
      · exact alongside_bodyOf (workers.later becomes) (stands.later becomes)
          (becomes.evaluable whole) (becomes.allEvaluable evaluable.2)
  | and forms => exact alongside_allTrue workers stands evaluable trivial
  | or forms => exact alongside_anyTrue workers stands evaluable trivial
  | sequence forms => exact alongside_body workers stands evaluable
  | letIn bindings forms =>
      refine .bind (.childScopeAt stands trivial) fun later scope becomes standsInside => ?_
      refine .bind (alongside_bindAll (workers.later becomes) standsInside
        fun pair member => becomes.evaluable (evaluable.1 pair member)) ?_
      intro last _ further _
      have becomes := becomes.trans further
      exact alongside_bodyOf (workers.later becomes) (standsInside.later further)
        (becomes.evaluable whole) (becomes.allEvaluable evaluable.2)
  | whenLet name test forms =>
      refine .bind (alongside_form workers stands evaluable.1) ?_
      intro later value becomes valueKnown
      split
      · refine alongside_bound (stands.later becomes) valueKnown ?_
        intro last scope further standsInside
        have becomes := becomes.trans further
        exact alongside_bodyOf (workers.later becomes) standsInside
          (becomes.evaluable whole) (becomes.allEvaluable evaluable.2)
      · exact Quiet.alongside (.pure trivial)
  | ifLet name test yes no =>
      obtain ⟨testFits, branchesFit⟩ := evaluable
      refine .bind (alongside_form workers stands testFits) ?_
      intro later value becomes valueKnown
      refine .after (Parting.quiet_upcoming (becomes.evaluable whole)
        (becomes.allEvaluable (allEvaluable_branches branchesFit.1 branchesFit.2))) ?_
      intro branches branchesFit
      split
      · refine alongside_bound (stands.later becomes) valueKnown ?_
        exact fun last scope further standsInside =>
          alongside_branch (workers.later (becomes.trans further)) standsInside
            (further.allEvaluable branchesFit)
      · exact alongside_branch (workers.later becomes) (stands.later becomes) branchesFit
  | cond clauses => exact alongside_firstClause workers stands evaluable
  | function name params rest forms =>
      obtain rfl := shared name params rest forms rfl
      obtain ⟨scope, isShared, rfl⟩ := stands
      have bodyKnown : parting.KnowsAll forms :=
        allWithin_iff.mpr fun item member => (evaluable item member).1
      refine .after .newId fun id _ => Quiet.alongside (.pure ?_)
      exact ⟨bodyKnown, fun _ _ => trivial, isShared, trivial, trivial⟩

end Special

/-! ## Calls -/

theorem alongside_callHost
    (workers : WorkersAlongside parting roots worker) {function : Value} {args : List Value}
    (known : parting.Knows function) (argsKnown : parting.KnowsAll args) :
    Alongside parting Parting.Knows fun side =>
      callHost (worker side) ⟨evaluator, place side, depth⟩ function args :=
  .atHostDepth evaluator depth (workers.here (.call function args known argsKnown))

theorem quiet_headText (head function : Value) :
    Quiet parting (fun _ => True) (headText head function) := by
  unfold headText
  split
  · exact .shown function
  · exact .source head

theorem alongside_apply
    (workers : WorkersAlongside parting roots worker) (head : Value) {function : Value}
    {args : List Value} (known : parting.Knows function) (argsKnown : parting.KnowsAll args) :
    Alongside parting Parting.Knows fun side =>
      apply (worker side) ⟨evaluator, place side, depth⟩ head function args := by
  refine .after (.current known) fun present presentKnown => ?_
  have others : Alongside parting Parting.Knows fun side =>
      if Access.isCallable function then
        callHost (worker side) ⟨evaluator, place side, depth⟩ function args
      else
        headText head function >>= fun text =>
          Action.shown function >>= fun shown => throw (.notFunction text shown) := by
    split
    · exact alongside_callHost workers known argsKnown
    · exact Quiet.alongside (.bind (quiet_headText head function) fun _ _ =>
        .bind (.shown function) fun _ _ => .throw)
  cases present with
  | closure => exact workers.here (.enter function args depth known argsKnown)
  | map entries birth => exact Quiet.alongside (Member.quiet_callOnMap presentKnown.2 argsKnown)
  | _ => exact others

theorem alongside_useMember
    {whole : List Value} {birth : Nat} (workers : WorkersAlongside parting roots worker)
    (stands : parting.Stands roots own place)
    (wholeFits : parting.Evaluable own (.list whole birth)) {name : String} {parts : List Value}
    (evaluable : parting.AllEvaluable own parts) :
    Alongside parting Parting.Knows fun side =>
      useMember (worker side) ⟨evaluator, place side, depth⟩ birth name parts := by
  unfold useMember
  cases parts with
  | nil => exact Quiet.alongside .throw
  | cons target argForms =>
      obtain ⟨targetFits, argsFit⟩ := List.forall_mem_cons.mp evaluable
      refine .bind (alongside_form workers stands targetFits) ?_
      intro first value toFirst valueKnown
      refine .bind ((workers.later toFirst).here (.read value _ valueKnown)) ?_
      intro second found toSecond foundKnown
      have becomes := toFirst.trans toSecond
      refine .after (Parting.quiet_upcoming (becomes.evaluable wholeFits)
        (becomes.allEvaluable argsFit)) fun forms formsFit => ?_
      refine .bind (alongside_items (workers.later becomes) (stands.later becomes) formsFit) ?_
      intro third args toThird argsKnown
      split
      · exact alongside_callHost (workers.later (becomes.trans toThird))
          (toThird.knows foundKnown) argsKnown
      · split
        · exact Quiet.alongside (.pure (toThird.knows foundKnown))
        · exact Quiet.alongside .throw

theorem alongside_combination
    {whole : List Value} {birth : Nat} (workers : WorkersAlongside parting roots worker)
    (stands : parting.Stands roots own place)
    (wholeFits : parting.Evaluable own (.list whole birth)) {head : Value} {argForms : List Value}
    (headFits : parting.Evaluable own head) (evaluable : parting.AllEvaluable own argForms) :
    Alongside parting Parting.Knows fun side =>
      combination (worker side) ⟨evaluator, place side, depth⟩ birth head argForms := by
  refine .bind (alongside_form workers stands headFits) ?_
  intro first function toFirst known
  refine .after (Parting.quiet_upcoming (toFirst.evaluable wholeFits)
    (toFirst.allEvaluable evaluable)) fun forms formsFit => ?_
  refine .bind (alongside_items (workers.later toFirst) (stands.later toFirst) formsFit) ?_
  exact fun second args toSecond argsKnown =>
    alongside_apply (workers.later (toFirst.trans toSecond)) head (toSecond.knows known) argsKnown

/-! ## Forms -/

theorem quiet_symbol
    {scope : Nat} {name : String} (isShared : parting.shared scope) :
    Quiet parting parting.Knows (symbol scope name) := by
  unfold symbol
  split
  · exact .pure trivial
  · split
    · exact .pure trivial
    · exact .pure trivial
    · exact .pure trivial
    · exact .lookup isShared

/-- The parts of a special form may be evaluated. -/
theorem all_evaluable
    {name : String} {args : List Value} {birth : Nat} {parts : SpecialForm}
    (whole : parting.Evaluable own (.list (.symbol name :: args) birth))
    (isForm : SpecialForm.ofForm? name (.symbol name :: args) = some (.ok parts)) :
    parts.All parting.Knows (parting.Evaluable own) := by
  have all := Parting.allEvaluable_of_sequence whole rfl
  refine SpecialForm.ofForm_all (fun _ item member => (all item member).1) ?_ (fun _ => all) isForm
  intro _ vector items isVector isSequence
  exact Parting.allEvaluable_of_sequence (all vector (List.mem_of_getElem? isVector)) isSequence

theorem alongside_symbolCombination
    (closed : terms.Closed) (workers : WorkersAlongside parting roots worker)
    (stands : parting.Stands roots own place) {birth : Nat} {name : String} {argForms : List Value}
    (whole : parting.Evaluable own (.list (.symbol name :: argForms) birth)) :
    Alongside parting Parting.Knows fun side =>
      symbolCombination (worker side) ⟨evaluator, place side, depth⟩ birth name argForms := by
  obtain ⟨headFits, argsFit⟩ :=
    List.forall_mem_cons.mp (Parting.allEvaluable_of_sequence whole rfl)
  unfold symbolCombination
  cases isForm : SpecialForm.ofForm? name (.symbol name :: argForms) with
  | some found =>
      cases found with
      | error fault =>
          simp only [isForm]
          refine Quiet.alongside (.bind (.reading (fun heap _ => ?_) fun _ _ _ _ => trivial)
            fun raised (_ : True) => .throw)
          cases fault with
          | arity => rfl
          | malformed why =>
              cases why <;> simp [ShapeFault.toFault, Malformation.text]
      | ok parts =>
          simp only [isForm]
          refine alongside_special workers stands whole (all_evaluable whole isForm) ?_
          rintro label params rest body rfl
          cases own with
          | false => rfl
          | true =>
              have isFunction := SpecialForm.eq_fn_of_function isForm
              exact absurd (isFunction ▸ headFits.2 rfl) closed.noFunctions
  | none =>
      simp only [isForm]
      cases isExpansion : expand? name argForms with
      | some expansion =>
          have expansionKnown : parting.Knows expansion := by
            refine within_expansion (fun items => Vocabulary.lists_bounds terms.numbered items)
              (allWithin_iff.mpr fun item member => (argsFit item member).1) isExpansion
          refine alongside_form workers stands ⟨expansionKnown, ?_⟩
          exact Vocabulary.allows_expansion closed headFits.2
            (fun arg member => (argsFit arg member).2) isExpansion
      | none =>
          simp only
          split
          · exact alongside_useMember workers stands whole argsFit
          · exact alongside_combination workers stands whole headFits argsFit

/-- A form that is not a symbol does not depend on where it is evaluated by itself. -/
theorem alongside_formAt
    (closed : terms.Closed) (workers : WorkersAlongside parting roots worker)
    (stands : parting.Stands roots own place) {item : Value}
    (evaluable : parting.Evaluable own item) (noSymbol : own = true → item.isSymbol = false) :
    Alongside parting Parting.Knows fun side =>
      formAt (worker side) ⟨evaluator, place side, depth⟩ item := by
  have known := evaluable.1
  unfold formAt
  split
  · cases own with
    | true => cases noSymbol rfl
    | false =>
        obtain ⟨scope, isShared, rfl⟩ := stands
        exact Quiet.alongside (quiet_symbol isShared)
  · refine .bind (alongside_items workers stands (Parting.allEvaluable_of_sequence evaluable rfl)) ?_
    exact fun later values _ valuesKnown => Quiet.alongside (.newList valuesKnown)
  · exact Quiet.alongside (.newList trivial)
  · exact alongside_symbolCombination closed workers stands evaluable
  · obtain ⟨headFits, argsFit⟩ :=
      List.forall_mem_cons.mp (Parting.allEvaluable_of_sequence evaluable rfl)
    exact alongside_combination workers stands evaluable headFits argsFit
  · exact Quiet.alongside (.pure known)
  · exact Quiet.alongside (.pure known)

end Parts

/-! ## Bodies of closures -/

theorem quiet_restVar
    {params : List String} {rest : Option String} {args : List Value}
    (argsKnown : parting.KnowsAll args) :
    Quiet parting (fun found => ∀ name left, found = some (name, left) → parting.Knows left)
      (restVar params rest args) := by
  unfold restVar
  cases rest with
  | none => exact .pure fun _ _ same => nomatch same
  | some name =>
      refine .bind (.newList (argsKnown.drop params.length)) fun left leftKnown => .pure ?_
      rintro _ _ ⟨⟩
      exact leftKnown

theorem alongside_invoke
    (workers : WorkersAlongside parting roots worker) {closure : Value} {args : List Value}
    (depth : Int) (known : parting.Knows closure) (argsKnown : parting.KnowsAll args) :
    Alongside parting Parting.Knows fun side => invoke (worker side) closure args depth := by
  unfold invoke
  cases closure with
  | closure id name params rest forms scope owner =>
      have isShared : parting.shared scope := known.2.2.1
      simp only
      split
      · refine .after (quiet_restVar argsKnown) fun restVar restKnown => ?_
        refine .bind (.childScope isShared (within_callVars known restKnown argsKnown)) ?_
        intro later inner becomes innerShared
        have stands : later.Stands roots false fun _ => inner := ⟨inner, innerShared, rfl⟩
        refine alongside_body (workers.later becomes) stands fun item member => ?_
        exact ⟨becomes.knows (allWithin_iff.mp known.1 item member), fun isOwn => nomatch isOwn⟩
      · exact Quiet.alongside .throw
  | _ => exact Quiet.alongside .fail

/-! ## Evaluators as values -/

theorem quiet_level (depth : Value) : Quiet parting (fun _ => True) (level depth) := by
  unfold level
  split
  · exact .pure trivial
  · split
    · exact .pure trivial
    · exact .fail
  · exact .fail

/-- Where the runs share a scope, they can evaluate every form in it. -/
theorem alongside_evaluate
    (workers : WorkersAlongside parting roots worker) {evaluator scope : Nat} {item : Value}
    (depth : Int) (isShared : parting.shared scope) (known : parting.Knows item) :
    Alongside parting Parting.Knows fun side =>
      worker side (.evaluate evaluator scope item depth) :=
  workers.here (.evaluate false (fun _ => scope) evaluator item depth ⟨scope, isShared, rfl⟩
    ⟨known, fun isOwn => nomatch isOwn⟩)

theorem alongside_evaluateAll
    (workers : WorkersAlongside parting roots worker) {evaluator scope : Nat}
    {forms depth : Value} (isShared : parting.shared scope) (known : parting.Knows forms) :
    Alongside parting Parting.Knows fun side =>
      evaluateAll (worker side) evaluator scope forms depth := by
  refine .after (Access.quiet_items known) fun items itemsKnown => ?_
  refine Access.alongside_overItems forms itemsKnown trivial ?_
  intro later becomes _ item _ itemKnown
  refine .after (quiet_level depth) fun start _ => ?_
  refine .bind (alongside_evaluate (workers.later becomes) start (becomes.shared _ isShared)
    itemKnown) fun last value _ valueKnown => ?_
  exact Quiet.alongside (.pure valueKnown)

theorem alongside_applyGiven
    (workers : WorkersAlongside parting roots worker) {evaluator : Nat}
    {function given head depth : Value} (known : parting.Knows function)
    (givenKnown : parting.Knows given) :
    Alongside parting Parting.Knows fun side =>
      applyGiven (worker side) evaluator function given head depth := by
  have others : Alongside parting Parting.Knows fun side =>
      if Access.isCallable function then
        Access.items given >>= fun args =>
          level depth >>= fun start =>
            apply (worker side) ⟨evaluator, 0, start⟩ head function args
      else
        apply (worker side) ⟨evaluator, 0, 0⟩ head function [] := by
    split
    · refine .after (Access.quiet_items givenKnown) fun args argsKnown => ?_
      refine .after (quiet_level depth) fun start _ => ?_
      exact alongside_apply workers head known argsKnown
    · exact alongside_apply workers head known trivial
  unfold applyGiven
  cases function with
  | map entries birth =>
      refine .after (Access.quiet_items givenKnown) fun args argsKnown => ?_
      exact alongside_apply workers head known argsKnown
  | _ => exact others

theorem alongside_callEvaluator
    (closed : terms.Closed) (workers : WorkersAlongside parting roots worker) {evaluator : Nat}
    {operation : String} {args : List Value} (argsKnown : parting.KnowsAll args) :
    Alongside parting Parting.Knows fun side =>
      callEvaluator (worker side) evaluator operation args := by
  have stands {later : Parting terms} {scope : Nat} (isShared : later.shared scope) :
      later.Stands roots false fun _ => scope := ⟨scope, isShared, rfl⟩
  unfold callEvaluator
  split
  · exact Quiet.alongside (.get_bind (fun _ _ => rfl) fun _ _ => .pure trivial)
  · refine .bind (.scopeOf argsKnown.2.1) fun later inner becomes innerShared => ?_
    exact alongside_evaluate (workers.later becomes) 0 innerShared (becomes.knows argsKnown.1)
  · refine .bind (.scopeOf argsKnown.2.1) fun later inner becomes innerShared => ?_
    refine .after (quiet_level _) fun start _ => ?_
    exact alongside_evaluate (workers.later becomes) start innerShared
      (becomes.knows argsKnown.1)
  · refine .bind (.scopeOf argsKnown.2.1) fun later inner becomes innerShared => ?_
    exact alongside_evaluateAll (workers.later becomes) innerShared (becomes.knows argsKnown.1)
  · split
    · exact Quiet.alongside .fail
    · exact alongside_applyGiven workers argsKnown.1 argsKnown.2.1
  · split
    · refine .bind (.scopeOf argsKnown.2.1) fun later inner _ innerShared => ?_
      exact Quiet.alongside (quiet_symbol innerShared)
    · exact Quiet.alongside .fail
  · rename_i items birth scope depth
    obtain ⟨wholeKnown, scopeKnown, -⟩ := argsKnown
    refine .bind (.scopeOf scopeKnown) fun later inner becomes innerShared => ?_
    refine .after (quiet_level depth) fun start _ => ?_
    exact alongside_formAt closed (workers.later becomes) (stands innerShared)
      ⟨becomes.knows wholeKnown, fun isOwn => nomatch isOwn⟩ fun isOwn => nomatch isOwn
  · rename_i name items birth scope depth
    obtain ⟨-, wholeKnown, scopeKnown, -⟩ := argsKnown
    split
    · refine .bind (.scopeOf scopeKnown) fun later inner becomes innerShared => ?_
      refine .after (quiet_level depth) fun start _ => ?_
      have whole : later.Evaluable false (.list items birth) :=
        ⟨becomes.knows wholeKnown, fun isOwn => nomatch isOwn⟩
      exact alongside_useMember (workers.later becomes) (stands innerShared) whole
        fun item member =>
          Parting.allEvaluable_of_sequence whole rfl item (List.mem_of_mem_tail member)
    · exact Quiet.alongside .fail
  · rename_i function given depth
    refine .after (Access.quiet_items argsKnown.2.1) fun inner innerKnown => ?_
    refine .after (quiet_level depth) fun start _ => ?_
    exact alongside_callHost workers argsKnown.1 innerKnown
  · exact Quiet.alongside .fail

/-! ## Pieces of work -/

theorem quiet_readMember
    {value : Value} {name : String} (known : parting.Knows value) :
    Quiet parting parting.Knows (readMember value name) := by
  refine .bind (Access.quiet_member? known) fun found foundKnown => ?_
  cases found with
  | none => exact .throw
  | some value => exact .pure (foundKnown value rfl)

theorem alongside_call
    (closed : terms.Closed) (workers : WorkersAlongside parting roots worker) {function : Value}
    {args : List Value} (known : parting.Knows function) (argsKnown : parting.KnowsAll args) :
    Alongside parting Parting.Knows fun side => call (worker side) function args := by
  have calls := workers.calls
  refine .after (.currentItems argsKnown) fun present presentKnown => ?_
  cases function with
  | closure id name params rest forms scope owner =>
      exact .get_bind (fun _ _ => rfl) fun heap _ =>
        workers.here (.enter _ args (heap.hostDepth owner) known argsKnown)
  | builtin builtin => exact Call.alongside_perform calls presentKnown
  | instanceTest id lineage =>
      simp only
      split
      · exact Quiet.alongside (.bind (Device.quiet_isInstance _ _ _) fun _ _ => .pure trivial)
      · exact Quiet.alongside .fail
  | keyword name => exact Access.alongside_callKeyword calls presentKnown
  | method id result =>
      simp only
      split
      · exact Quiet.alongside (.pure known)
      · exact Quiet.alongside .fail
  | member receiver operation =>
      have receiverKnown : parting.Knows receiver := known
      have others : Alongside parting Parting.Knows fun side =>
          Action.current receiver >>= fun found =>
            Member.call (fun inner innerArgs => worker side (.call inner innerArgs)) found
              operation present :=
        .after (.current receiverKnown) fun found foundKnown =>
          Member.alongside_call calls foundKnown presentKnown
      cases receiver with
      | closure id name params rest forms scope owner =>
          simp only
          split
          · refine .after (Access.quiet_items presentKnown.1) fun inner innerKnown => ?_
            refine .after (quiet_level _) fun start _ => ?_
            exact workers.here (.enter _ inner start receiverKnown innerKnown)
          · exact Quiet.alongside .fail
      | evaluator owner => exact alongside_callEvaluator closed workers presentKnown
      | _ => exact others
  | _ => exact Quiet.alongside .fail

/-- A symbol has the same value in scopes that face each other, if the first two have the same
variable under its name. -/
theorem ends_symbol
    (faces : parting.Faces roots place) {heap : Heap} (fits : parting.Fits heap) {name : String}
    (agree : heap.lookup? (roots .left) (.str name) = heap.lookup? (roots .right) (.str name)) :
    parting.Ends Parting.Knows ((symbol (place .left) name).perform heap)
      ((symbol (place .right) name).perform (heap.rescope parting.right)) := by
  have same := faces.lookup fits agree
  have found : parting.Ends Parting.KnowsSome
      ((Action.reading fun heap => heap.lookup? (place .left) (.str name)).perform heap)
      ((Action.reading fun heap => heap.lookup? (place .right) (.str name)).perform
        (heap.rescope parting.right)) := by
    unfold Action.reading
    rw [Action.perform_get_bind, Action.perform_get_bind]
    beta_reduce
    rw [same]
    exact (Quiet.ofExcept (fun _ isFound => fits.lookup isFound) heap fits).ends
  have looked : parting.Ends Parting.Knows
      ((Action.lookup (place .left) (.str name)).perform heap)
      ((Action.lookup (place .right) (.str name)).perform (heap.rescope parting.right)) := by
    refine found.bind fun later result _ known after laterFits => ?_
    cases result with
    | none =>
        have quiet : Quiet later later.Knows
            (Action.display (.str name) >>= fun shown => throw (.unbound shown)) :=
          .bind (.display _) fun _ _ => .throw
        exact (quiet after laterFits).ends
    | some value => exact .value later value after (.refl later) laterFits (known value rfl)
  have constant {value : Value} (known : parting.Knows value) :
      parting.Ends Parting.Knows ((pure value : Action Value).perform heap)
        ((pure value : Action Value).perform (heap.rescope parting.right)) :=
    .value parting value heap (.refl parting) fits known
  unfold symbol
  split
  · exact constant trivial
  · split
    · exact constant trivial
    · exact constant trivial
    · exact constant trivial
    · exact looked

/-- One piece of work ends alike. -/
theorem ends_step
    (closed : terms.Closed) (workers : WorkersAlongside parting roots worker)
    {task : Side → Task} (beside : Task.Beside parting roots task) {heap : Heap}
    (fits : parting.Fits heap)
    (agree : ∀ name, terms.names name →
      heap.lookup? (roots .left) (.str name) = heap.lookup? (roots .right) (.str name)) :
    parting.Ends Parting.Knows ((step (worker .left) (task .left)).perform heap)
      ((step (worker .right) (task .right)).perform (heap.rescope parting.right)) := by
  cases beside with
  | evaluate own place evaluator item depth stands evaluable =>
      unfold step
      rw [Action.perform_get_bind, Action.perform_get_bind, Heap.maxDepth_rescope]
      dsimp only
      split
      · exact .fault parting _ heap (.refl parting) fits
      · have present : parting.Evaluable own (heap.current item) :=
          ⟨fits.current evaluable.1, fun isOwn => fits.form_current (evaluable.2 isOwn)⟩
        unfold Action.current
        simp only [bind_assoc, pure_bind, Action.perform_get_bind, Heap.current_rescope]
        generalize heap.current item = form at present
        cases own with
        | false =>
            exact alongside_formAt closed workers stands present (fun isOwn => nomatch isOwn)
              heap fits
        | true =>
            cases isSymbol : form.isSymbol with
            | false =>
                exact alongside_formAt closed workers stands present (fun _ => isSymbol)
                  heap fits
            | true =>
                cases form with
                | symbol name => exact ends_symbol stands fits (agree name (present.2 rfl))
                | _ => cases isSymbol
  | read value name known => exact Quiet.alongside (quiet_readMember known) heap fits
  | enter closure args depth known argsKnown =>
      exact alongside_invoke workers depth known argsKnown heap fits
  | call function args known argsKnown =>
      exact alongside_call closed workers known argsKnown heap fits

end Eval

end CueScript
