import CueScript.Proofs.Shape.Accepted

/-!
# Soundness of the shape check

Evaluating an accepted expression meets no special form of the wrong shape, as long as
none of its own lists loses items and no member of a closure or an evaluator is called.
The forms that the check leaves out have to be accepted, too; an expression that binds
one of them which is not shows that the check alone is not enough.

`Expression.IsConfined` is the invariant: all closures in sight are made of code of the
right shape.  Compiling establishes it, and every call keeps it.
-/

namespace CueScript

open Value Eval

/-! ## What to look out for -/

/-- A list is evaluated that is not the special form that its head announces. -/
def meetsMisshapen : Watch
  | .evaluate _ _ form _ :: _, heap =>
      match heap.current form with
      | .list items _ => (ShapeCheck.faultOf items).isSome
      | _ => false
  | _, _ => false

/-- An operation of a list with one of some numbers is called; the only one removes an
item. -/
def takesFrom (numbers : List Nat) : Watch
  | .call (.member (.list _ birth) _) _ :: _, _ => numbers.contains birth
  | _, _ => false

theorem not_mem_of_takesFrom
    {numbers : List Nat} {items : List Value} {birth : Nat} {name : String}
    {args : List Value} {around : List Task} {heap : Heap}
    (unmet : takesFrom numbers (.call (.member (.list items birth) name) args :: around) heap =
      false) :
    birth ∉ numbers := by
  intro member
  have taken : numbers.contains birth = true := List.contains_iff_mem.mpr member
  rw [show numbers.contains birth = false from unmet] at taken
  cases taken

namespace Expression

variable {expression : Expression} {reach : Bounds} {heap : Heap}

/-- The numbers of the lists that evaluating an expression takes for code. -/
def codeNumbers (expression : Expression) : List Nat :=
  Value.codeNumbers false expression.form

/-- The expression calls a member of a closure or of an evaluator, or it removes an item
from a list of its own code. -/
def oversteps (expression : Expression) : Watch :=
  isReflective.or (takesFrom expression.codeNumbers)

/-- The lists that have to keep their items; the number zero is that of lists that are
not told apart, which lose none. -/
def IsOwn (expression : Expression) (birth : Nat) : Prop :=
  birth = 0 ∨ birth ∈ expression.codeNumbers

/-- Bounds within which closures are made of code of the right shape and the lists of an
expression keep their items. -/
def confines (expression : Expression) (reach : Bounds) : Bounds :=
  { reach with
    evaluators := fun _ => True
    code := Code expression.IsOwn
    losable := fun birth => ¬ expression.IsOwn birth
    contents := fun _ _ => True
    contents_current := fun _ _ _ _ => trivial
    escapes := True }

/-- Whether all closures that calling an expression can reach are made of code of the right
shape. -/
structure IsConfined (expression : Expression) (reach : Bounds) (heap : Heap) : Prop where
  births : ∀ birth, expression.IsOwn birth → reach.births birth
  heapWithin : heap.Within (expression.confines reach)
  functionWithin : expression.function.Within (expression.confines reach)

/-! ## Calls -/

theorem intact_of_within
    (births : ∀ birth, expression.IsOwn birth → reach.births birth)
    (within : heap.Within (expression.confines reach)) :
    ∀ birth, expression.IsOwn birth → heap.left? birth = none := by
  intro birth own
  cases isLeft : heap.left? birth with
  | none => rfl
  | some left => exact absurd own (within.losses birth left (births birth own) isLeft).1

/-- A list that is no special form is no quotation. -/
theorem unquoted_of_ordinary
    {name : String} {args : List Value}
    (isOrdinary : SpecialForm.ofForm? name (.symbol name :: args) = none) :
    ShapeCheck.isQuotation (.symbol name :: args) = false := by
  rw [Code.isQuotation_eq, beq_eq_false_iff_ne]
  rintro rfl
  cases isOrdinary

/-- Code of the right shape is closed under evaluation. -/
theorem grammar_confines
    (births : ∀ birth, expression.IsOwn birth → reach.births birth) :
    (expression.confines reach).Grammar False where
  unnumbered _ := ⟨births 0 (.inl rfl), fun _ _ => trivial⟩
  current _ _ heapWithin evaluable :=
    evaluable.2.current (intact_of_within births heapWithin)
  vector items birth evaluable item member := by
    cases evaluable.2 with
    | atom _ isAtom => cases isAtom
    | vector _ _ _ inner => exact inner item member
  combination head args birth plain evaluable := by
    have unquoted : ShapeCheck.isQuotation (head :: args) = false := by
      cases head with
      | symbol name => cases plain
      | _ => rfl
    have inner := evaluable.2.item unquoted
    exact ⟨inner head List.mem_cons_self,
      fun arg member => inner arg (List.mem_cons_of_mem _ member)⟩
  special _ _ _ _ evaluable isParts := evaluable.2.parts isParts
  function _ _ _ _ _ _ _ _ _ := trivial
  fault _ _ _ _ evaluable isFault := evaluable.2.not_fault isFault
  ordinary name args birth evaluable isOrdinary item member := by
    exact evaluable.2.item (unquoted_of_ordinary isOrdinary) item member
  expansion name args birth expansion evaluable isOrdinary isExpansion := by
    have inner := evaluable.2.item (unquoted_of_ordinary isOrdinary)
    exact Code.expansion (.inl rfl) (fun arg member => inner arg (List.mem_cons_of_mem _ member))
      isExpansion
  lost later items birth left heapWithin evaluable isLeft := by
    rw [intact_of_within births heapWithin birth evaluable.2.known] at isLeft
    cases isLeft

/-- Code of the right shape and nothing else is evaluated. -/
def confinedRegime (expression : Expression) (reach : Bounds) : Regime :=
  ⟨expression.confines reach, False, fun _ _ _ => True⟩

theorem confinedRegime_governs
    (births : ∀ birth, expression.IsOwn birth → reach.births birth) :
    (expression.confinedRegime reach).Governs expression.oversteps meetsMisshapen where
  grammar := grammar_confines births
  spared evaluators around task later _ within laterWithin unmet := by
    obtain ⟨notReflective, notTaken⟩ := Bool.or_eq_false_iff.mp unmet
    cases task with
    | evaluate evaluator scope form depth =>
        have formCode : Code expression.IsOwn form := within.2.2.2
        have presentCode : Code expression.IsOwn (later.current form) :=
          formCode.current (intact_of_within births laterWithin)
        refine ⟨?_, trivial⟩
        simp only [meetsMisshapen, Heap.current_equip]
        split
        · rename_i items birth isList
          rw [isList] at presentCode
          rw [presentCode.sound]
          rfl
        · rfl
    | call function args =>
        refine ⟨rfl, fun isReflection => ?_, ?_⟩
        · exact absurd isReflection (not_isReflection notReflective)
        · rintro items birth name rfl numbered (rfl | own)
          · exact numbered rfl
          · exact not_mem_of_takesFrom notTaken own
    | _ => exact ⟨rfl, trivial⟩
  kept _ _ _ _ _ _ _ _ _ _ _ _ _ := trivial

/-- Only a special form of the wrong shape is reported as such. -/
theorem report_of_malformed
    {fault : Fault}
    (reported : (expression.callReport fault).diagnostic.code = .invalidSpecialForm) :
    ∃ text, fault = .malformed text := by
  cases fault with
  | malformed text => exact ⟨text, rfl⟩
  | failed failure => cases failure <;> cases reported
  | _ => cases reported

theorem run_of_callStrictly
    {arguments : Arguments} {outcome : Except Fault Value} {after : Heap}
    (ran : (Eval.perform (expression.callTask arguments)).perform heap = (outcome, after)) :
    (expression.callStrictly arguments).run heap =
      (outcome.mapError expression.callReport, after) := by
  rw [← run_eq] at ran
  simp only [StateT.run] at ran
  simp only [callStrictly, StateT.run, bind, StateT.bind, ran]
  cases outcome <;> rfl

/-- A call meets no special form of the wrong shape. -/
theorem IsConfined.call
    (confined : expression.IsConfined reach heap) {arguments : Arguments}
    (eventWithin : arguments.event.Within (expression.confines reach))
    (localsKnown : reach.stores (arguments.locals.getD expression.locals))
    (globalsKnown : reach.stores (arguments.globals.getD expression.globals))
    (never : NeverMeets expression.oversteps (expression.callTask arguments) heap) :
    NeverMeets meetsMisshapen (expression.callTask arguments) heap ∧
      (∀ report, ((expression.callStrictly arguments).run heap).1 = .error report →
        report.diagnostic.code ≠ .invalidSpecialForm) ∧
      expression.IsConfined reach ((expression.callStrictly arguments).run heap).2 := by
  have within : (expression.callTask arguments).Within (expression.confines reach) :=
    ⟨confined.functionWithin, eventWithin, localsKnown, globalsKnown, trivial⟩
  obtain ⟨neverMisshapen, keeps, notMalformed⟩ :=
    Regime.run_of_never (confinedRegime_governs confined.births) confined.heapWithin within
      trivial never
  rcases ran : (Eval.perform (expression.callTask arguments)).perform heap with ⟨outcome, after⟩
  have called := run_of_callStrictly ran
  refine ⟨neverMisshapen, ?_, ?_⟩
  · intro report isReport reported
    rw [called] at isReport
    cases outcome with
    | ok value => cases isReport
    | error fault =>
        cases isReport
        obtain ⟨text, rfl⟩ := report_of_malformed reported
        exact notMalformed text after ran
  · have afterWithin : ((Eval.perform (expression.callTask arguments)).perform heap).2.Within
        (expression.confines reach) := keeps.becomes.within
    rw [ran] at afterWithin
    rw [called]
    exact ⟨confined.births, afterWithin, confined.functionWithin⟩

/-! ## Compiling -/

/-- A function that is code of the right shape becomes a closure of such code. -/
theorem function_keeps
    {args : List Value} {birth evaluator scope : Nat} {depth : Int}
    (births : ∀ birth, expression.IsOwn birth → reach.births birth)
    (heapWithin : heap.Within (expression.confines reach))
    (formWithin : (Value.list (.symbol "fn" :: args) birth).Within (expression.confines reach))
    (code : Code expression.IsOwn (.list (.symbol "fn" :: args) birth))
    (scopeKnown : reach.scopes scope) :
    (Eval.perform (.evaluate evaluator scope (.list (.symbol "fn" :: args) birth) depth)).Keeps
      (expression.confines reach) (Value.Within (expression.confines reach)) heap := by
  have intact := intact_of_within births heapWithin
  have isForm : heap.current (.list (.symbol "fn" :: args) birth) =
      .list (.symbol "fn" :: args.map heap.current) birth := by
    rw [Heap.current_list (intact birth code.known), List.map_cons, Heap.current_symbol]
  generalize args.map heap.current = others at isForm
  have presentCode : Code expression.IsOwn (.list (.symbol "fn" :: others) birth) :=
    isForm ▸ code.current intact
  have presentWithin :
      (Value.list (.symbol "fn" :: others) birth).Within (expression.confines reach) :=
    isForm ▸ heapWithin.current formWithin
  obtain ⟨parts, isParts⟩ := ShapeCheck.faultOf_eq_none_iff.mp presentCode.sound _ rfl
  have isFunction : SpecialForm.ofForm? "fn" (.symbol "fn" :: others) = some (.ok parts) :=
    congrArg some isParts
  obtain ⟨name, params, rest, body, rfl⟩ := SpecialForm.exists_of_asFunction isParts
  have bodyCode := presentCode.parts isFunction
  have bodyWithin := SpecialForm.all_within presentWithin.2 isFunction
  have keeps : (do
      return .closure (← Action.newId) name params rest body scope evaluator :
        Action Value).Keeps (expression.confines reach)
        (Value.Within (expression.confines reach)) heap := by
    refine Agree.keeps (.bind .newId fun id _ => .pure ?_) heapWithin
    exact ⟨Value.allWithin_iff.mpr bodyWithin, bodyCode, scopeKnown, trivial, trivial⟩
  have ran := perform_function evaluator scope depth isForm isFunction
  by_cases tooDeep : heap.maxDepth evaluator < depth
  · rw [if_pos tooDeep] at ran
    refine .congr ?_ ran.symm
    exact ⟨rfl, heapWithin.becomesItself, fun _ same => nomatch same⟩
  · rw [if_neg tooDeep] at ran
    exact keeps.congr ran.symm

/-- Whether no closure with a body can be reached in a heap, in which only lists that are
told apart have lost items. -/
structure HasNoClosures (reach : Bounds) (heap : Heap) : Prop where
  within : heap.Within reach
  noCode : ∀ form, ¬ reach.code form
  unnumbered : reach.births 0
  numbered : ∀ birth, reach.losable birth → birth ≠ 0 ∧ birth < heap.births

theorem referencesOf_eq_nil
    {source : ExpressionSource} (noTable : source.table = []) (forms : List Value) :
    referencesOf source forms = [] := by
  simp [referencesOf, Reference.scan, noTable]

/-- The numbers of the lists in a tree that is told apart are new. -/
theorem fresh_of_told
    {tree : Value} {next birth : Nat}
    (within : ∀ bounds : Bounds, (∀ items, bounds.Lists 0 items) → tree.Within bounds)
    (member : birth ∈ Value.codeNumbers false (tree.tellApart next).1) :
    birth = 0 ∨ next ≤ birth := by
  let bounds : Bounds :=
    { Bounds.anything with births := fun birth => birth = 0 ∨ next ≤ birth }
  have later : ∀ birth, next ≤ birth → bounds.births birth := fun _ fresh => Or.inr fresh
  obtain ⟨told, -⟩ := Value.within_tellApart (fun _ _ _ _ => trivial) next later
    (fun _ _ _ => trivial) tree (within bounds fun _ => ⟨Or.inl rfl, fun _ _ => trivial⟩)
  exact Value.births_of_codeNumbers false _ told birth member

/-- The function of accepted forms and the heap it is made in are confined. -/
theorem build_confined
    {source : ExpressionSource} {forms : List Value} {after : Heap} {form function : Value}
    (free : HasNoClosures reach heap) (noTable : source.table = [])
    (areTrees : Value.AllTrees forms) (accepts : ShapeCheck.Accepts forms)
    (built : (build source forms).perform heap = (.ok (form, function), after))
    (globals locals : Nat) :
    (ofParts source forms globals form function locals).IsConfined reach after := by
  have references := referencesOf_eq_nil noTable forms
  have treeCode : Code (fun _ => True) (synthesize forms (referencesOf source forms)) := by
    rw [references]
    exact Code.synthesize accepts
  have treeWithin : ∀ bounds : Bounds, (∀ items, bounds.Lists 0 items) →
      (synthesize forms (referencesOf source forms)).Within bounds := by
    intro bounds unnumbered
    refine within_synthesize unnumbered areTrees fun each member => ?_
    rw [references] at member
    cases member
  -- What lists may hold and whether closures are met is of no account here.
  let unrestricted : Bounds := { reach with
    contents := fun _ _ => True
    contents_current := fun _ _ _ _ => trivial
    escapes := True }
  have openWithin : heap.Within unrestricted :=
    free.within.widen ⟨rfl, rfl, rfl, rfl⟩ (fun _ known => known) (fun _ known => known)
      (fun _ _ _ => trivial) (fun _ => trivial) (fun _ _ _ losable => losable)
  obtain ⟨toldWithin, toldBecomes⟩ :=
    becomes_tellApart (fun _ _ _ _ => trivial) openWithin
      (treeWithin unrestricted fun _ => ⟨free.unnumbered, fun _ _ => trivial⟩)
  -- The bounds depend on the form alone, so any function will do.
  let expression := ofParts source forms globals
    ((synthesize forms (referencesOf source forms)).tellApart heap.births).1 .nil locals
  have births : ∀ birth, expression.IsOwn birth → reach.births birth := by
    rintro birth (rfl | member)
    · exact free.unnumbered
    · exact Value.births_of_codeNumbers false _ toldWithin birth member
  have noCode : ∀ form, reach.code form → Code expression.IsOwn form :=
    fun form isCode => absurd isCode (free.noCode form)
  have code : Code expression.IsOwn expression.form :=
    (treeCode.tellApart heap.births).of_codeNumbers fun number member => .inr member
  have narrower : unrestricted.Narrower (expression.confines reach) :=
    ⟨fun _ known => known, fun _ known => known, fun _ _ => trivial, fun _ known => known,
      noCode, fun _ _ known => known, fun known => known⟩
  have formWithin : expression.form.Within (expression.confines reach) :=
    Value.within_widen narrower _ toldWithin
  have startWithin : (toldHeap source forms heap).Within (expression.confines reach) := by
    refine (toldBecomes.equip (heap.evaluators.push ⟨source.config, 0⟩)).within.widen
      ⟨rfl, rfl, rfl, rfl⟩ (fun _ _ => trivial) noCode (fun _ _ known => known)
      (fun known => known) ?_
    rintro birth left - losable own
    obtain ⟨notZero, old⟩ := free.numbered birth losable
    rcases own with isZero | member
    · exact notZero isZero
    · rcases fresh_of_told treeWithin member with isZero | fresh
      · exact notZero isZero
      · exact absurd old (Nat.not_lt.mpr fresh)
  let made : Action (Value × Value) := do
    let site ← openRoot heap.evaluators.size source.lineage
    let function ← Eval.perform
      (.evaluate site.evaluator site.scope expression.form site.depth)
    return (expression.form, function)
  have keeps : made.Keeps (expression.confines reach)
      (fun pair => pair.1 = expression.form ∧ pair.2.Within (expression.confines reach))
      (toldHeap source forms heap) := by
    refine (openRoot_keeps startWithin heap.evaluators.size source.lineage).bind ?_
    intro site between ⟨scopeKnown, _, _⟩ betweenWithin
    refine (function_keeps births betweenWithin formWithin code scopeKnown).bind ?_
    intro closure final closureWithin finalWithin
    exact .pure finalWithin ⟨rfl, closureWithin⟩
  have ran : made.perform (toldHeap source forms heap) = (.ok (form, function), after) :=
    (perform_build source forms heap).symm.trans built
  have afterWithin := keeps.becomes.within
  obtain ⟨sameForm, functionWithin⟩ := keeps.value (form, function) (congrArg Prod.fst ran)
  rw [ran] at afterWithin
  cases sameForm
  exact ⟨births, afterWithin, functionWithin⟩

/-- A heap with a store to share. -/
def started : Heap := (Heap.empty.openStore "globals" []).2

/-- Whatever holds no closure may be met. -/
def noClosures : Bounds :=
  { Bounds.anything with code := fun _ => False, losable := fun _ => False }

theorem started_hasNoClosures : HasNoClosures noClosures started where
  within := by
    have empty : Heap.empty.Within noClosures :=
      Heap.within_empty _ (fun _ => trivial) (fun _ => trivial) (fun _ => trivial)
        fun _ _ => trivial
    exact empty.openStore "globals" trivial
  noCode _ := id
  unnumbered := trivial
  numbered _ losable := losable.elim

/-- A source without convenience symbols. -/
def plain (text : String) : ExpressionSource := { text := text, table := [] }

/-- Whether a text compiles and a call of it ends in some way while something is looked
out for. -/
def ends (text : String) (watch : Expression → Watch) (alarm : Fault)
    (expected : Except Fault Value → Bool) : Bool :=
  match ((compile (plain text) 0).run started).1.outcome with
  | .error _ => false
  | .ok expression =>
      let run := watched (watch expression) alarm frameLimit [] (expression.callTask {})
      expected (run.perform ((compile (plain text) 0).run started).2).1

theorem exists_of_ends
    {text : String} {watch : Expression → Watch} {alarm : Fault}
    {expected : Except Fault Value → Bool}
    (reached : ends text watch alarm expected = true) :
    ∃ expression outcome after,
      ((compile (plain text) 0).run started).1.outcome = .ok expression ∧
        (watched (watch expression) alarm frameLimit [] (expression.callTask {})).perform
          ((compile (plain text) 0).run started).2 = (outcome, after) ∧
        expected outcome = true := by
  unfold ends at reached
  split at reached
  · cases reached
  · rename_i expression isOk
    exact ⟨expression, _, _, isOk, rfl, reached⟩

/-- Whether a run gives a value. -/
def hasValue : Except Fault Value → Bool
  | .ok _ => true
  | .error _ => false

/-- Whether a run ends with the fault of an `if` without parts. -/
def isBareIf : Except Fault Value → Bool
  | .ok _ => false
  | .error fault => fault == .arity "if" "2 or 3" 0

/-- An expression with a quotation for bindings whose form is as it should be. -/
def quotedChoice : String := "(let (quote (if true nil)) nil)"

/-- An expression with a quotation for bindings whose form is not as it should be. -/
def quotedBareIf : String := "(let (quote (if)) 1)"

end Expression

end CueScript
