import CueScript.Eval
import CueScript.Proofs.Run.Builtin
import CueScript.Proofs.Shape.Parts

/-!
# Evaluation in runs that agree

A step of evaluation agrees in two runs if everything that it asks of its worker does.
`Task.Asks` says what a piece of work can ask for, at which depth and inside which call;
`Eval.agree_step` is the only place where the definitions of evaluation are opened for
this.

Which forms may be evaluated is left open.  `Bounds.Grammar` says what evaluation needs
of the forms it is to be kept to: the parts it takes from such a form are such forms
again.
-/

namespace CueScript

/-- Whether a form may be evaluated. -/
def Value.Evaluable (bounds : Bounds) (item : Value) : Prop :=
  item.Within bounds ∧ bounds.code item

/-- What a kind of forms needs to be closed under evaluation. -/
structure Bounds.Grammar (bounds : Bounds) (misshapen : Prop) : Prop where
  unnumbered : ∀ items, bounds.Lists 0 items
  current : ∀ (heap : Heap) (item : Value), heap.Within bounds → item.Evaluable bounds →
    bounds.code (heap.current item)
  vector : ∀ items birth, (Value.vector items birth).Evaluable bounds →
    ∀ item ∈ items, bounds.code item
  combination : ∀ (head : Value) args birth, head.isSymbol = false →
    (Value.list (head :: args) birth).Evaluable bounds →
      bounds.code head ∧ ∀ arg ∈ args, bounds.code arg
  special : ∀ name args birth parts,
    (Value.list (.symbol name :: args) birth).Evaluable bounds →
      SpecialForm.ofForm? name (.symbol name :: args) = some (.ok parts) →
        parts.All (fun _ => True) bounds.code
  function : ∀ name args birth label params rest body,
    (Value.list (.symbol name :: args) birth).Evaluable bounds →
      SpecialForm.ofForm? name (.symbol name :: args) =
        some (.ok (.function label params rest body)) → bounds.escapes
  fault : ∀ name args birth fault, (Value.list (.symbol name :: args) birth).Evaluable bounds →
    SpecialForm.ofForm? name (.symbol name :: args) = some (.error fault) → misshapen
  ordinary : ∀ name args birth, (Value.list (.symbol name :: args) birth).Evaluable bounds →
    SpecialForm.ofForm? name (.symbol name :: args) = none →
      ∀ item ∈ .symbol name :: args, bounds.code item
  expansion : ∀ name args birth expansion,
    (Value.list (.symbol name :: args) birth).Evaluable bounds →
      SpecialForm.ofForm? name (.symbol name :: args) = none →
        expand? name args = some expansion → bounds.code expansion
  lost : ∀ (heap : Heap) items birth left, heap.Within bounds →
    (Value.list items birth).Evaluable bounds → heap.left? birth = some left →
      ∀ item ∈ left, bounds.code item

/-- Whether forms may be evaluated at a site. -/
structure Site.Within (bounds : Bounds) (site : Site) : Prop where
  scope : bounds.scopes site.scope
  evaluator : bounds.evaluators site.evaluator

/-- Whether two runs have the same settings and are at the same depths. -/
structure Pact.Balanced (pact : Pact) : Prop where
  configs : pact.SameConfigs
  depths : ∀ (heap : Heap) (id : Nat) (side : Side),
    (heap.equip (pact.evaluators side)).hostDepth id =
      (heap.equip (pact.evaluators .left)).hostDepth id

/-- Whether forms that are evaluated at some depth agree.  That a form has a value may
tell something about the depth. -/
def FormsAgree (pact : Pact) (worker : Side → Worker) (evaluator : Nat) (depth : Int)
    (opened : Prop) : Prop :=
  ∀ scope item, pact.bounds.scopes scope → item.Evaluable pact.bounds →
    Agree pact (fun value => value.Within pact.bounds ∧ opened) fun side =>
      worker side (.evaluate evaluator scope item depth)

/-- Whether all that evaluation at some depth asks for agrees.  Everything but forms is
asked for only after a form has had a value. -/
structure Requests (pact : Pact) (worker : Side → Worker) (evaluator : Nat) (depth : Int)
    (opened : Prop) : Prop where
  form : FormsAgree pact worker evaluator depth opened
  read : opened → ∀ (value : Value) name, value.Within pact.bounds →
    Agree pact (Value.Within pact.bounds) fun side => worker side (.read value name)
  enter : opened → ∀ (closure : Value) args, closure.Within pact.bounds →
    Value.AllWithin pact.bounds args →
      Agree pact (Value.Within pact.bounds) fun side => worker side (.enter closure args depth)
  call : opened → ∀ (function : Value) args, function.Within pact.bounds →
    Value.AllWithin pact.bounds args →
      Agree (pact.inCall evaluator depth) (Value.Within pact.bounds) fun side =>
        worker side (.call function args)

open Value

/-- What may be met in a special form may be met in its parts. -/
theorem SpecialForm.all_within
    {bounds : Bounds} {head : String} {form : List Value} {parts : SpecialForm}
    (within : AllWithin bounds form)
    (isParts : SpecialForm.ofForm? head form = some (.ok parts)) :
    parts.All (Within bounds) (Within bounds) := by
  have all := allWithin_iff.mp within
  refine SpecialForm.ofForm_all (fun _ => all) ?_ (fun _ => all) isParts
  intro _ vector items isVector isSequence
  have vectorWithin := all vector (List.mem_of_getElem? isVector)
  exact allWithin_iff.mp (within_of_sequence vectorWithin isSequence)

namespace Eval

section Parts

variable {pact : Pact} {worker : Side → Worker} {site : Site} {opened : Prop}

/-! ## Forms one after the other -/

theorem agree_form
    (formsAgree : FormsAgree pact worker site.evaluator site.depth opened)
    (known : pact.bounds.scopes site.scope)
    {item : Value} (fits : item.Evaluable pact.bounds) :
    Agree pact (fun value => value.Within pact.bounds ∧ opened) fun side =>
      form (worker side) site item :=
  formsAgree _ item known fits

theorem agree_items
    (formsAgree : FormsAgree pact worker site.evaluator site.depth opened)
    (known : pact.bounds.scopes site.scope)
    {forms : List Value} (fit : ∀ item ∈ forms, item.Evaluable pact.bounds) :
    Agree pact (AllWithin pact.bounds) fun side => items (worker side) site forms := by
  induction forms with
  | nil => exact .pure trivial
  | cons item rest inductionHypothesis =>
      have restFit : ∀ each ∈ rest, each.Evaluable pact.bounds := fun each member =>
        fit each (List.mem_cons_of_mem item member)
      refine .bind (agree_form formsAgree known (fit item List.mem_cons_self)) ?_
      intro value ⟨valueWithin, _⟩
      refine .bind (inductionHypothesis restFit) fun values valuesWithin => ?_
      exact .pure ⟨valueWithin, valuesWithin⟩

theorem agree_bodyFrom
    (formsAgree : FormsAgree pact worker site.evaluator site.depth opened)
    (known : pact.bounds.scopes site.scope)
    {forms : List Value} (fit : ∀ item ∈ forms, item.Evaluable pact.bounds)
    {result : Value} (within : result.Within pact.bounds) :
    Agree pact (Within pact.bounds) fun side => bodyFrom (worker side) site result forms := by
  induction forms generalizing result with
  | nil => exact .pure within
  | cons item rest inductionHypothesis =>
      have restFit : ∀ each ∈ rest, each.Evaluable pact.bounds := fun each member =>
        fit each (List.mem_cons_of_mem item member)
      refine .bind (agree_form formsAgree known (fit item List.mem_cons_self)) ?_
      intro value ⟨valueWithin, _⟩
      exact inductionHypothesis restFit valueWithin

theorem agree_body
    (formsAgree : FormsAgree pact worker site.evaluator site.depth opened)
    (known : pact.bounds.scopes site.scope)
    {forms : List Value} (fit : ∀ item ∈ forms, item.Evaluable pact.bounds) :
    Agree pact (Within pact.bounds) fun side => body (worker side) site forms :=
  agree_bodyFrom formsAgree known fit trivial

theorem agree_allTrue
    (formsAgree : FormsAgree pact worker site.evaluator site.depth opened)
    (known : pact.bounds.scopes site.scope)
    {forms : List Value} (fit : ∀ item ∈ forms, item.Evaluable pact.bounds)
    {result : Value} (within : result.Within pact.bounds) :
    Agree pact (Within pact.bounds) fun side => allTrue (worker side) site result forms := by
  induction forms generalizing result with
  | nil => exact .pure within
  | cons item rest inductionHypothesis =>
      have restFit : ∀ each ∈ rest, each.Evaluable pact.bounds := fun each member =>
        fit each (List.mem_cons_of_mem item member)
      refine .bind (agree_form formsAgree known (fit item List.mem_cons_self)) ?_
      intro value ⟨valueWithin, _⟩
      split
      · exact inductionHypothesis restFit valueWithin
      · exact .pure valueWithin

theorem agree_anyTrue
    (formsAgree : FormsAgree pact worker site.evaluator site.depth opened)
    (known : pact.bounds.scopes site.scope)
    {forms : List Value} (fit : ∀ item ∈ forms, item.Evaluable pact.bounds)
    {result : Value} (within : result.Within pact.bounds) :
    Agree pact (Within pact.bounds) fun side => anyTrue (worker side) site result forms := by
  induction forms generalizing result with
  | nil => exact .pure within
  | cons item rest inductionHypothesis =>
      have restFit : ∀ each ∈ rest, each.Evaluable pact.bounds := fun each member =>
        fit each (List.mem_cons_of_mem item member)
      refine .bind (agree_form formsAgree known (fit item List.mem_cons_self)) ?_
      intro value ⟨valueWithin, _⟩
      split
      · exact .pure valueWithin
      · exact inductionHypothesis restFit valueWithin

theorem agree_bindAll
    (formsAgree : FormsAgree pact worker site.evaluator site.depth opened)
    (known : pact.bounds.scopes site.scope)
    {pairs : List (String × Value)} (fit : ∀ pair ∈ pairs, pair.2.Evaluable pact.bounds) :
    Agree pact (fun _ => True) fun side => bindAll (worker side) site pairs := by
  induction pairs with
  | nil => exact .pure trivial
  | cons pair rest inductionHypothesis =>
      obtain ⟨name, item⟩ := pair
      have restFit : ∀ each ∈ rest, each.2.Evaluable pact.bounds := fun each member =>
        fit each (List.mem_cons_of_mem _ member)
      refine .bind (agree_form formsAgree known (fit (name, item) List.mem_cons_self)) ?_
      intro value ⟨valueWithin, _⟩
      refine .bind (.define known trivial valueWithin) fun _ _ => ?_
      exact inductionHypothesis restFit

theorem agree_firstClause
    (formsAgree : FormsAgree pact worker site.evaluator site.depth opened)
    (known : pact.bounds.scopes site.scope)
    {clauses : List (Value × Value)}
    (fit : ∀ clause ∈ clauses,
      clause.1.Evaluable pact.bounds ∧ clause.2.Evaluable pact.bounds) :
    Agree pact (Within pact.bounds) fun side => firstClause (worker side) site clauses := by
  induction clauses with
  | nil => exact .pure trivial
  | cons clause rest inductionHypothesis =>
      obtain ⟨test, item⟩ := clause
      obtain ⟨testFits, itemFits⟩ := fit (test, item) List.mem_cons_self
      have restFit : ∀ each ∈ rest,
          each.1.Evaluable pact.bounds ∧ each.2.Evaluable pact.bounds :=
        fun each member => fit each (List.mem_cons_of_mem _ member)
      refine .bind (agree_form formsAgree known testFits) fun value _ => ?_
      split
      · exact .weaken (agree_form formsAgree known itemFits) fun _ both => both.1
      · exact inductionHypothesis restFit

/-! ## Special forms -/

theorem agree_branch
    (formsAgree : FormsAgree pact worker site.evaluator site.depth opened)
    (known : pact.bounds.scopes site.scope)
    {holds : Bool} {branches : List Value}
    (fit : ∀ item ∈ branches, item.Evaluable pact.bounds) :
    Agree pact (Within pact.bounds) fun side =>
      branch (worker side) site holds branches := by
  unfold branch
  split
  · rename_i yes _
    exact .weaken (agree_form formsAgree known (fit yes List.mem_cons_self)) fun _ both => both.1
  · exact .fail
  · rename_i no
    have fits := fit no (List.mem_cons_of_mem _ List.mem_cons_self)
    exact .weaken (agree_form formsAgree known fits) fun _ both => both.1
  · exact .pure trivial

theorem agree_bodyOf
    (formsAgree : FormsAgree pact worker site.evaluator site.depth opened)
    (known : pact.bounds.scopes site.scope)
    {birth : Nat}
    (leftFits : ∀ (heap : Heap) (left : List Value), heap.Within pact.bounds →
      heap.left? birth = some left → ∀ item ∈ left, item.Evaluable pact.bounds)
    {forms : List Value} (fit : ∀ item ∈ forms, item.Evaluable pact.bounds) :
    Agree pact (Within pact.bounds) fun side => bodyOf (worker side) site birth forms :=
  .bind (.upcoming fit leftFits) fun _ upcomingFit => agree_body formsAgree known upcomingFit

theorem evaluable_branches
    {bounds : Bounds} {yes : Value} {no : Option Value}
    (yesFits : yes.Evaluable bounds)
    (noFits : ∀ each, no = some each → each.Evaluable bounds) :
    ∀ item ∈ yes :: no.toList, item.Evaluable bounds := by
  intro item member
  rcases List.mem_cons.mp member with rfl | member
  · exact yesFits
  · exact noFits item (Option.mem_toList.mp member)

theorem agree_special
    (formsAgree : FormsAgree pact worker site.evaluator site.depth opened)
    (inside : site.Within pact.bounds)
    {birth : Nat}
    (leftFits : ∀ (heap : Heap) (left : List Value), heap.Within pact.bounds →
      heap.left? birth = some left → ∀ item ∈ left, item.Evaluable pact.bounds)
    {parts : SpecialForm} (fit : parts.All (Within pact.bounds) (Evaluable pact.bounds))
    (escapes : ∀ label params rest body, parts = .function label params rest body →
      pact.bounds.escapes) :
    Agree pact (Within pact.bounds) fun side => special (worker side) site birth parts := by
  have known := inside.scope
  have agreeIn (scope : Nat) :
      FormsAgree pact worker (site.within scope).evaluator (site.within scope).depth opened :=
    formsAgree
  cases parts with
  | quote item => exact .pure fit
  | ifThen test yes no =>
      obtain ⟨testFits, yesFits, noFits⟩ := fit
      refine .bind (agree_form formsAgree known testFits) fun value _ => ?_
      refine .bind (.upcoming (evaluable_branches yesFits noFits) leftFits) ?_
      exact fun branches branchesFit => agree_branch formsAgree known branchesFit
  | when test forms =>
      refine .bind (agree_form formsAgree known fit.1) fun value _ => ?_
      split
      · exact agree_bodyOf formsAgree known leftFits fit.2
      · exact .pure trivial
  | whenNot test forms =>
      refine .bind (agree_form formsAgree known fit.1) fun value _ => ?_
      split
      · exact .pure trivial
      · exact agree_bodyOf formsAgree known leftFits fit.2
  | and forms => exact agree_allTrue formsAgree known fit trivial
  | or forms => exact agree_anyTrue formsAgree known fit trivial
  | sequence forms => exact agree_body formsAgree known fit
  | letIn bindings forms =>
      refine .bind (.childScope known trivial) fun scope scopeKnown => ?_
      refine .bind (agree_bindAll (agreeIn scope) scopeKnown fit.1) fun _ _ => ?_
      exact agree_bodyOf (agreeIn scope) scopeKnown leftFits fit.2
  | whenLet name test forms =>
      refine .bind (agree_form formsAgree known fit.1) fun value ⟨valueWithin, _⟩ => ?_
      split
      · have varsWithin : EntriesWithin pact.bounds [(.str name, value)] :=
          ⟨⟨trivial, valueWithin⟩, trivial⟩
        refine .bind (.childScope known varsWithin) fun scope scopeKnown => ?_
        exact agree_bodyOf (agreeIn scope) scopeKnown leftFits fit.2
      · exact .pure trivial
  | ifLet name test yes no =>
      obtain ⟨testFits, yesFits, noFits⟩ := fit
      refine .bind (agree_form formsAgree known testFits) fun value ⟨valueWithin, _⟩ => ?_
      refine .bind (.upcoming (evaluable_branches yesFits noFits) leftFits) ?_
      intro branches branchesFit
      split
      · have varsWithin : EntriesWithin pact.bounds [(.str name, value)] :=
          ⟨⟨trivial, valueWithin⟩, trivial⟩
        refine .bind (.childScope known varsWithin) fun scope scopeKnown => ?_
        exact agree_branch (agreeIn scope) scopeKnown branchesFit
      · exact agree_branch formsAgree known branchesFit
  | cond clauses => exact agree_firstClause formsAgree known fit
  | function name params rest forms =>
      have bodyWithin : AllWithin pact.bounds forms :=
        allWithin_iff.mpr fun item member => (fit item member).1
      have bodyCode : ∀ item ∈ forms, pact.bounds.code item :=
        fun item member => (fit item member).2
      refine .bind .newId fun id _ => ?_
      exact .pure ⟨bodyWithin, bodyCode, known, inside.evaluator, escapes _ _ _ _ rfl⟩

/-! ## Calls -/

theorem agree_callHost
    (requests : Requests pact worker site.evaluator site.depth opened)
    (isOpen : opened)
    {function : Value} {args : List Value}
    (within : function.Within pact.bounds) (argsWithin : AllWithin pact.bounds args) :
    Agree pact (Within pact.bounds) fun side => callHost (worker side) site function args :=
  .atHostDepth (requests.call isOpen function args within argsWithin)

theorem agree_headText (head function : Value) :
    Agree pact (fun _ => True) fun _ => headText head function := by
  unfold headText
  split
  · exact .shown function
  · exact .source head

theorem agree_apply
    (requests : Requests pact worker site.evaluator site.depth opened)
    (isOpen : opened)
    (head : Value) {function : Value} {args : List Value}
    (within : function.Within pact.bounds) (argsWithin : AllWithin pact.bounds args) :
    Agree pact (Within pact.bounds) fun side => apply (worker side) site head function args := by
  refine .bind (.current within) fun present presentWithin => ?_
  have others : Agree pact (Within pact.bounds) fun side =>
      if Access.isCallable function then
        callHost (worker side) site function args
      else
        headText head function >>= fun text =>
          Action.shown function >>= fun shown => throw (.notFunction text shown) := by
    split
    · exact agree_callHost requests isOpen within argsWithin
    · refine .bind (agree_headText head function) fun _ _ => ?_
      exact .bind (.shown function) fun _ _ => .throw trivial
  cases present with
  | closure => exact requests.enter isOpen function args within argsWithin
  | map entries birth => exact Member.agree_callOnMap presentWithin.2 argsWithin
  | _ => exact others

theorem agree_useMember
    (requests : Requests pact worker site.evaluator site.depth opened)
    (known : pact.bounds.scopes site.scope)
    {birth : Nat} {name : String} {parts : List Value}
    (leftFits : ∀ (heap : Heap) (left : List Value), heap.Within pact.bounds →
      heap.left? birth = some left → ∀ item ∈ left, item.Evaluable pact.bounds)
    (fit : ∀ item ∈ parts, item.Evaluable pact.bounds) :
    Agree pact (Within pact.bounds) fun side =>
      useMember (worker side) site birth name parts := by
  unfold useMember
  cases parts with
  | nil => exact .throw trivial
  | cons target argForms =>
      have argsFit : ∀ item ∈ argForms, item.Evaluable pact.bounds := fun item member =>
        fit item (List.mem_cons_of_mem target member)
      refine .bind (agree_form requests.form known (fit target List.mem_cons_self)) ?_
      intro value ⟨valueWithin, isOpen⟩
      refine .bind (requests.read isOpen value _ valueWithin) fun found foundWithin => ?_
      refine .bind (.upcoming argsFit leftFits) fun forms formsFit => ?_
      refine .bind (agree_items requests.form known formsFit) fun args argsWithin => ?_
      split
      · exact agree_callHost requests isOpen foundWithin argsWithin
      · split
        · exact .pure foundWithin
        · exact .throw trivial

theorem agree_combination
    (requests : Requests pact worker site.evaluator site.depth opened)
    (known : pact.bounds.scopes site.scope)
    {birth : Nat} {head : Value} {argForms : List Value}
    (leftFits : ∀ (heap : Heap) (left : List Value), heap.Within pact.bounds →
      heap.left? birth = some left → ∀ item ∈ left, item.Evaluable pact.bounds)
    (headFits : head.Evaluable pact.bounds)
    (fit : ∀ item ∈ argForms, item.Evaluable pact.bounds) :
    Agree pact (Within pact.bounds) fun side =>
      combination (worker side) site birth head argForms := by
  refine .bind (agree_form requests.form known headFits) fun function ⟨within, isOpen⟩ => ?_
  refine .bind (.upcoming fit leftFits) fun forms formsFit => ?_
  refine .bind (agree_items requests.form known formsFit) fun args argsWithin => ?_
  exact agree_apply requests isOpen head within argsWithin

/-! ## Forms -/

theorem agree_symbol
    {scope : Nat} {name : String} (known : pact.bounds.scopes scope) :
    Agree pact (Within pact.bounds) fun _ => symbol scope name := by
  unfold symbol
  split
  · exact .pure trivial
  · split
    · exact .pure trivial
    · exact .pure trivial
    · exact .pure trivial
    · exact .lookup known

theorem within_expansion
    {bounds : Bounds} {head : String} {args : List Value} {expansion : Value}
    (unnumbered : ∀ items, bounds.Lists 0 items)
    (argsWithin : AllWithin bounds args)
    (isExpansion : expand? head args = some expansion) :
    expansion.Within bounds := by
  obtain ⟨symbols, -, rfl⟩ := Option.map_eq_some_iff.mp isExpansion
  refine ⟨unnumbered _, allWithin_append.mpr ⟨?_, argsWithin⟩⟩
  rw [allWithin_iff]
  intro item member
  obtain ⟨name, -, rfl⟩ := List.mem_map.mp member
  exact trivial

theorem agree_symbolCombination
    (grammar : pact.bounds.Grammar pact.misshapen)
    (requests : Requests pact worker site.evaluator site.depth opened)
    (inside : site.Within pact.bounds)
    {birth : Nat} {name : String} {argForms : List Value}
    (fits : (Value.list (.symbol name :: argForms) birth).Evaluable pact.bounds) :
    Agree pact (Within pact.bounds) fun side =>
      symbolCombination (worker side) site birth name argForms := by
  obtain ⟨lists, wholeWithin⟩ := fits.1
  have known := inside.scope
  have leftFits : ∀ (heap : Heap) (left : List Value), heap.Within pact.bounds →
      heap.left? birth = some left → ∀ item ∈ left, item.Evaluable pact.bounds := by
    intro heap left heapWithin isLeft item member
    have leftWithin := (heapWithin.losses birth left lists.1 isLeft).2
    exact ⟨allWithin_iff.mp leftWithin item member,
      grammar.lost heap _ birth left heapWithin fits isLeft item member⟩
  unfold symbolCombination
  cases isForm : SpecialForm.ofForm? name (.symbol name :: argForms) with
  | some found =>
      cases found with
      | error fault =>
          have misshapen := grammar.fault name argForms birth fault fits isForm
          simp only [isForm]
          refine .bind (.reading (fun heap evaluators => ?_) fun _ _ _ _ => trivial) ?_
          · cases fault with
            | arity => rfl
            | malformed why => simp [ShapeFault.toFault, Malformation.text]
          · intro raised (_ : True)
            refine .throw ?_
            unfold Pact.Allows
            split
            · exact misshapen
            · exact trivial
      | ok parts =>
          have partsWithin := SpecialForm.all_within wholeWithin isForm
          have partsCode := grammar.special name argForms birth parts fits isForm
          have escapes (label params rest body)
              (isFunction : parts = .function label params rest body) : pact.bounds.escapes :=
            grammar.function name argForms birth label params rest body fits (isFunction ▸ isForm)
          simp only [isForm]
          refine agree_special requests.form inside leftFits ?_ escapes
          exact (partsWithin.and partsCode).quotes fun item both => both.1
  | none =>
      have allCode := grammar.ordinary name argForms birth fits isForm
      have argsFit : ∀ item ∈ argForms, item.Evaluable pact.bounds := fun item member =>
        ⟨allWithin_iff.mp wholeWithin.2 item member,
          allCode item (List.mem_cons_of_mem _ member)⟩
      simp only [isForm]
      cases isExpansion : expand? name argForms with
      | some expansion =>
          have expansionWithin : expansion.Within pact.bounds :=
            within_expansion grammar.unnumbered wholeWithin.2 isExpansion
          have expansionCode : pact.bounds.code expansion :=
            grammar.expansion name argForms birth expansion fits isForm isExpansion
          simp only
          refine .weaken (agree_form requests.form known ?_) fun _ both => both.1
          exact ⟨expansionWithin, expansionCode⟩
      | none =>
          simp only
          split
          · exact agree_useMember requests known leftFits argsFit
          · refine agree_combination requests known leftFits ?_ argsFit
            exact ⟨trivial, allCode _ List.mem_cons_self⟩

theorem agree_formAt
    (grammar : pact.bounds.Grammar pact.misshapen)
    (requests : Requests pact worker site.evaluator (site.depth + 1) opened)
    (inside : site.Within pact.bounds)
    {item : Value} (fits : item.Evaluable pact.bounds) :
    Agree pact (Within pact.bounds) fun side => formAt (worker side) site item := by
  have requestsIn :
      Requests pact worker site.inner.evaluator site.inner.depth opened :=
    requests
  have insideToo : site.inner.Within pact.bounds := ⟨inside.scope, inside.evaluator⟩
  have known := insideToo.scope
  have within := fits.1
  unfold formAt
  split
  · exact agree_symbol inside.scope
  · rename_i elements birth
    have elementsFit : ∀ each ∈ elements, each.Evaluable pact.bounds := fun each member =>
      ⟨allWithin_iff.mp within.2 each member,
        grammar.vector elements birth fits each member⟩
    refine .bind (agree_items requestsIn.form known elementsFit) fun values valuesWithin => ?_
    exact .newList valuesWithin
  · exact .newList trivial
  · exact agree_symbolCombination grammar requestsIn insideToo fits
  · rename_i head argForms birth isOther
    have plain : head.isSymbol = false := by
      cases head with
      | symbol name => exact absurd rfl (isOther name)
      | _ => rfl
    obtain ⟨headCode, argsCode⟩ := grammar.combination head argForms birth plain fits
    have leftFits : ∀ (heap : Heap) (left : List Value), heap.Within pact.bounds →
        heap.left? birth = some left → ∀ each ∈ left, each.Evaluable pact.bounds := by
      intro heap left heapWithin isLeft each member
      have leftWithin := (heapWithin.losses birth left within.1.1 isLeft).2
      exact ⟨allWithin_iff.mp leftWithin each member,
        grammar.lost heap _ birth left heapWithin fits isLeft each member⟩
    refine agree_combination requestsIn known leftFits ⟨within.2.1, headCode⟩ ?_
    exact fun each member => ⟨allWithin_iff.mp within.2.2 each member, argsCode each member⟩
  · exact .pure within
  · exact .pure within

end Parts

section Calls

variable {pact : Pact} {worker : Side → Worker}

/-! ## Bodies of closures -/

theorem agree_restVar
    {params : List String} {rest : Option String} {args : List Value}
    (argsWithin : AllWithin pact.bounds args) :
    Agree pact (fun found => ∀ name left, found = some (name, left) → left.Within pact.bounds)
      fun _ => restVar params rest args := by
  unfold restVar
  cases rest with
  | none => exact .pure fun _ _ same => nomatch same
  | some name =>
      refine .bind (.newList (argsWithin.drop params.length)) fun left leftWithin => .pure ?_
      rintro _ _ ⟨⟩
      exact leftWithin

theorem within_callVars
    {bounds : Bounds} {closure : Value} {name : String} {params : List String}
    {rest : Option (String × Value)} {args : List Value}
    (within : closure.Within bounds)
    (restWithin : ∀ name left, rest = some (name, left) → left.Within bounds)
    (argsWithin : AllWithin bounds args) :
    EntriesWithin bounds (callVars closure name params rest args) := by
  have pairsWithin : EntriesWithin bounds ((params.map Value.str).zip args) := by
    rw [entriesWithin_iff]
    rintro ⟨key, value⟩ member
    obtain ⟨isParam, isArg⟩ := List.of_mem_zip member
    obtain ⟨param, -, rfl⟩ := List.mem_map.mp isParam
    exact ⟨trivial, allWithin_iff.mp argsWithin value isArg⟩
  have boundWithin : EntriesWithin bounds
      (Entries.putAll Value.sameKey ((params.map Value.str).zip args) []) :=
    entriesWithin_putAll trivial pairsWithin
  unfold callVars
  cases rest with
  | none =>
      simp only
      split
      · exact boundWithin
      · exact entriesWithin_put boundWithin trivial within
  | some pair =>
      obtain ⟨restName, left⟩ := pair
      have leftWithin := restWithin restName left rfl
      simp only
      split
      · exact entriesWithin_put boundWithin trivial leftWithin
      · exact entriesWithin_put (entriesWithin_put boundWithin trivial leftWithin) trivial within

/-- A body is evaluated by the evaluator that its closure belongs to. -/
theorem agree_invoke
    {opened : Nat → Prop} {closure : Value} {args : List Value} {depth : Int}
    (formsAgree : ∀ id name params rest forms scope owner,
      closure = .closure id name params rest forms scope owner →
        FormsAgree pact worker owner (depth + 1) (opened owner))
    (within : closure.Within pact.bounds) (argsWithin : AllWithin pact.bounds args) :
    Agree pact (Within pact.bounds) fun side => invoke (worker side) closure args depth := by
  unfold invoke
  cases closure with
  | closure id name params rest forms scope owner =>
      have closureWithin := within
      obtain ⟨bodyWithin, bodyCode, scopeKnown, -⟩ := within
      simp only
      split
      · refine .bind (agree_restVar argsWithin) fun restVar restWithin => ?_
        have varsWithin : EntriesWithin pact.bounds (callVars _ name params restVar args) :=
          within_callVars closureWithin restWithin argsWithin
        refine .bind (.childScope scopeKnown varsWithin) fun inner innerKnown => ?_
        let site : Site := ⟨owner, inner, depth + 1⟩
        have agreeIn : FormsAgree pact worker site.evaluator site.depth (opened owner) :=
          formsAgree id name params rest forms scope owner rfl
        have known : pact.bounds.scopes site.scope := innerKnown
        refine agree_body agreeIn known fun item member => ?_
        exact ⟨allWithin_iff.mp bodyWithin item member, bodyCode item member⟩
      · exact .throw trivial
  | _ => exact .fail

/-! ## Evaluators as values -/

theorem agree_level (depth : Value) :
    Agree pact (fun _ => True) fun _ => level depth := by
  unfold level
  split
  · exact .pure trivial
  · split
    · exact .pure trivial
    · exact .fail
  · exact .fail

theorem agree_evaluateAll
    {evaluator scope : Nat} {forms depth : Value}
    (requests : ∀ depth, Requests pact worker evaluator depth True)
    (isOpen : ∀ item, pact.bounds.code item)
    (known : pact.bounds.scopes scope)
    (within : forms.Within pact.bounds) :
    Agree pact (Within pact.bounds) fun side =>
      evaluateAll (worker side) evaluator scope forms depth := by
  refine .bind (Access.agree_items within) fun items itemsWithin => ?_
  refine Access.agree_overItems within itemsWithin trivial fun _ item _ itemWithin => ?_
  refine .bind (agree_level depth) fun start _ => ?_
  refine .bind ((requests start).form scope item known ⟨itemWithin, isOpen item⟩) ?_
  exact fun value both => .pure both.1

theorem agree_applyGiven
    {evaluator : Nat} {function given head depth : Value}
    (requests : ∀ depth, Requests pact worker evaluator depth True)
    (within : function.Within pact.bounds) (givenWithin : given.Within pact.bounds) :
    Agree pact (Within pact.bounds) fun side =>
      applyGiven (worker side) evaluator function given head depth := by
  have requestsAt (start : Int) :
      Requests pact worker (Site.mk evaluator 0 start).evaluator
        (Site.mk evaluator 0 start).depth True :=
    requests start
  have others : Agree pact (Within pact.bounds) fun side =>
      if Access.isCallable function then
        Access.items given >>= fun args =>
          level depth >>= fun start =>
            apply (worker side) ⟨evaluator, 0, start⟩ head function args
      else
        apply (worker side) ⟨evaluator, 0, 0⟩ head function [] := by
    split
    · refine .bind (Access.agree_items givenWithin) fun args argsWithin => ?_
      refine .bind (agree_level depth) fun start _ => ?_
      exact agree_apply (requestsAt start) trivial head within argsWithin
    · exact agree_apply (requestsAt 0) trivial head within trivial
  unfold applyGiven
  cases function with
  | map entries birth =>
      refine .bind (Access.agree_items givenWithin) fun args argsWithin => ?_
      exact agree_apply (requestsAt 0) trivial head within argsWithin
  | _ => exact others

theorem agree_callEvaluator
    {evaluator : Nat} {operation : String} {args : List Value}
    (grammar : pact.bounds.Grammar pact.misshapen)
    (balanced : pact.Balanced)
    (requests : ∀ depth, Requests pact worker evaluator depth True)
    (isOpen : ∀ item, pact.bounds.code item)
    (known : pact.bounds.evaluators evaluator)
    (argsWithin : AllWithin pact.bounds args) :
    Agree pact (Within pact.bounds) fun side =>
      callEvaluator (worker side) evaluator operation args := by
  have evaluateIn {inner : Nat} {item : Value} (depth : Int)
      (innerKnown : pact.bounds.scopes inner) (itemWithin : item.Within pact.bounds) :
      Agree pact (Within pact.bounds) fun side =>
        worker side (.evaluate evaluator inner item depth) := by
    refine .weaken ((requests depth).form inner item innerKnown ⟨itemWithin, isOpen item⟩) ?_
    exact fun _ both => both.1
  unfold callEvaluator
  split
  · refine .get_bind fun heap _ => ?_
    simp only [balanced.depths heap evaluator]
    exact .pure trivial
  · refine .bind (.scopeOf argsWithin.2.1) fun inner innerKnown => ?_
    exact evaluateIn 0 innerKnown argsWithin.1
  · refine .bind (.scopeOf argsWithin.2.1) fun inner innerKnown => ?_
    refine .bind (agree_level _) fun start _ => ?_
    exact evaluateIn start innerKnown argsWithin.1
  · refine .bind (.scopeOf argsWithin.2.1) fun inner innerKnown => ?_
    exact agree_evaluateAll requests isOpen innerKnown argsWithin.1
  · split
    · exact .fail
    · refine agree_applyGiven requests argsWithin.1 argsWithin.2.1
  · split
    · refine .bind (.scopeOf argsWithin.2.1) fun inner innerKnown => ?_
      exact agree_symbol innerKnown
    · exact .fail
  · rename_i items birth scope depth
    obtain ⟨wholeWithin, scopeWithin, -⟩ := argsWithin
    refine .bind (.scopeOf scopeWithin) fun inner innerKnown => ?_
    refine .bind (agree_level depth) fun start _ => ?_
    let site : Site := ⟨evaluator, inner, start⟩
    have requestsIn : Requests pact worker site.evaluator (site.depth + 1) True :=
      requests (start + 1)
    exact agree_formAt grammar requestsIn ⟨innerKnown, known⟩ ⟨wholeWithin, isOpen _⟩
  · rename_i name items birth scope depth
    obtain ⟨-, wholeWithin, scopeWithin, -⟩ := argsWithin
    split
    · rename_i text _
      refine .bind (.scopeOf scopeWithin) fun inner innerKnown => ?_
      refine .bind (agree_level depth) fun start _ => ?_
      let site : Site := ⟨evaluator, inner, start + 1⟩
      have requestsIn : Requests pact worker site.evaluator site.depth True :=
        requests (start + 1)
      refine agree_useMember requestsIn innerKnown ?_ ?_
      · intro heap left heapWithin isLeft item member
        have leftWithin := (heapWithin.losses birth left wholeWithin.1.1 isLeft).2
        exact ⟨allWithin_iff.mp leftWithin item member, isOpen item⟩
      · intro item member
        exact ⟨allWithin_iff.mp wholeWithin.2.tail item member, isOpen item⟩
    · exact .fail
  · rename_i function given depth
    refine .bind (Access.agree_items argsWithin.2.1) fun inner innerWithin => ?_
    refine .bind (agree_level depth) fun start _ => ?_
    let site : Site := ⟨evaluator, 0, start⟩
    have requestsIn : Requests pact worker site.evaluator site.depth True := requests start
    exact agree_callHost requestsIn trivial argsWithin.1 innerWithin
  · exact .fail

end Calls

end Eval

/-! ## Pieces of work -/

/-- How deep an evaluator may nest. -/
def Pact.limit (pact : Pact) (evaluator : Nat) : Int :=
  (Heap.empty.equip (pact.evaluators .left)).maxDepth evaluator

/-- The depth of the innermost call an evaluator has made of a function that is not a
closure. -/
def Pact.hostDepth (pact : Pact) (evaluator : Nat) : Int :=
  (Heap.empty.equip (pact.evaluators .left)).hostDepth evaluator

/-- Whether calling a value does what the evaluator otherwise does of its own accord: to
run a closure at a chosen depth or to do a part of evaluation. -/
def Value.isReflection : Value → Bool
  | .member (.closure ..) _ => true
  | .member (.evaluator _) _ => true
  | _ => false

namespace Task

/-- Whether everything in a piece of work may be met. -/
def Within (bounds : Bounds) : Task → Prop
  | .evaluate owner inside item _ =>
      bounds.evaluators owner ∧ bounds.scopes inside ∧ item.Evaluable bounds
  | .read value _ => value.Within bounds
  | .enter function args _ => function.Within bounds ∧ Value.AllWithin bounds args
  | .call function args => function.Within bounds ∧ Value.AllWithin bounds args

/-- What holds of the value of a piece of work. -/
def Gives (pact : Pact) : Task → Value → Prop
  | .evaluate owner _ _ depth, value =>
      value.Within pact.bounds ∧ depth ≤ pact.limit owner
  | _, value => value.Within pact.bounds

/-- What has to hold so that a call keeps to the bounds: only some lists may lose items,
and what evaluates any values as forms may do so only if all values may be forms. -/
def Ready (bounds : Bounds) : Task → Prop
  | .call function _ =>
      (function.isReflection = true → ∀ item, bounds.code item) ∧
        ∀ items birth name, function = .member (.list items birth) name → birth ≠ 0 →
          bounds.losable birth
  | _ => True

theorem ready_of_total
    {bounds : Bounds}
    (total : ∀ item, bounds.code item) (losable : ∀ birth, bounds.losable birth)
    (task : Task) :
    task.Ready bounds := by
  cases task with
  | call => exact ⟨fun _ => total, fun _ birth _ _ _ => losable birth⟩
  | _ => exact trivial

/-- What a piece of work may ask for, and the pact that holds meanwhile. -/
inductive Asks (pact : Pact) : Task → Pact → Task → Prop
  /-- A part of a form is evaluated one level deeper. -/
  | part (evaluator scope : Nat) (form : Value) (depth : Int) (inside : Nat) (item : Value) :
      Asks pact (.evaluate evaluator scope form depth) pact
        (.evaluate evaluator inside item (depth + 1))
  /-- A member is read. -/
  | member (evaluator scope : Nat) (form : Value) (depth : Int) (value : Value)
      (name : String) (opened : depth + 1 ≤ pact.limit evaluator) :
      Asks pact (.evaluate evaluator scope form depth) pact (.read value name)
  /-- A closure is called by a form. -/
  | closure (evaluator scope : Nat) (form : Value) (depth : Int) (function : Value)
      (args : List Value) (opened : depth + 1 ≤ pact.limit evaluator) :
      Asks pact (.evaluate evaluator scope form depth) pact
        (.enter function args (depth + 1))
  /-- Another function is called by a form. -/
  | host (evaluator scope : Nat) (form : Value) (depth : Int) (function : Value)
      (args : List Value) (opened : depth + 1 ≤ pact.limit evaluator) :
      Asks pact (.evaluate evaluator scope form depth) (pact.inCall evaluator (depth + 1))
        (.call function args)
  /-- A form of a body is evaluated by the evaluator of the closure. -/
  | body (id : Nat) (name : String) (params : List String) (rest : Option String)
      (forms : List Value) (scope owner : Nat) (args : List Value) (depth : Int)
      (inside : Nat) (item : Value) :
      Asks pact (.enter (.closure id name params rest forms scope owner) args depth) pact
        (.evaluate owner inside item (depth + 1))
  /-- A function is called back by a function. -/
  | back (function : Value) (args : List Value) (inner : Value) (innerArgs : List Value) :
      Asks pact (.call function args) pact (.call inner innerArgs)
  /-- A closure that is called by a function starts at the depth its evaluator is at. -/
  | start (id : Nat) (name : String) (params : List String) (rest : Option String)
      (forms : List Value) (scope owner : Nat) (args : List Value) :
      Asks pact (.call (.closure id name params rest forms scope owner) args) pact
        (.enter (.closure id name params rest forms scope owner) args (pact.hostDepth owner))
  /-- Reflection may ask for anything. -/
  | reflection (function : Value) (args : List Value) (isReflection : function.isReflection = true)
      (further : Pact) (sub : Task)
      (side : further = pact ∨ ∃ evaluator depth, further = pact.inCall evaluator depth) :
      Asks pact (.call function args) further sub

end Task

namespace Eval

variable {pact : Pact} {worker : Side → Worker}

theorem agree_readMember
    {value : Value} {name : String}
    (balanced : pact.Balanced) (within : value.Within pact.bounds) :
    Agree pact (Within pact.bounds) fun _ => readMember value name := by
  refine .bind (Access.agree_member? within fun _ => balanced.configs) fun found foundWithin => ?_
  cases found with
  | none => exact .throw trivial
  | some value => exact .pure (foundWithin value rfl)

/-- What a call by reflection asks for agrees, if everything it may ask for does. -/
theorem requests_of_reflection
    {function : Value} {args : List Value}
    (isReflection : function.isReflection = true)
    (asked : ∀ further sub, Task.Asks pact (.call function args) further sub →
      sub.Within pact.bounds → Agree further (sub.Gives further) fun side => worker side sub)
    {evaluator : Nat} (known : pact.bounds.evaluators evaluator) (depth : Int) :
    Requests pact worker evaluator depth True where
  form := fun scope item scopeKnown fits => by
    refine .weaken (asked pact (.evaluate evaluator scope item depth)
      (.reflection function args isReflection pact _ (.inl rfl)) ⟨known, scopeKnown, fits⟩) ?_
    exact fun value both => ⟨both.1, trivial⟩
  read := fun _ value name within =>
    asked pact (.read value name) (.reflection function args isReflection pact _ (.inl rfl)) within
  enter := fun _ closure inner within innerWithin =>
    asked pact (.enter closure inner depth)
      (.reflection function args isReflection pact _ (.inl rfl)) ⟨within, innerWithin⟩
  call := fun _ inner innerArgs within innerWithin =>
    asked (pact.inCall evaluator depth) (.call inner innerArgs)
      (.reflection function args isReflection _ _ (.inr ⟨evaluator, depth, rfl⟩))
      ⟨within, innerWithin⟩

/-- Lists keep their numbers. -/
theorem list_of_current
    {heap : Heap} {value : Value} {items : List Value} {birth : Nat}
    (isList : heap.current value = .list items birth) :
    ∃ made, value = .list made birth := by
  unfold Heap.current at isList
  split at isList
  · exact ⟨items, isList⟩
  · cases value with
    | list made own =>
        rw [Value.current] at isList
        split at isList
        · cases isList
          exact ⟨made, rfl⟩
        · cases isList
          exact ⟨made, rfl⟩
    | vector made own =>
        rw [Value.current] at isList
        split at isList <;> cases isList
    | map made own =>
        rw [Value.current] at isList
        split at isList <;> cases isList
    | _ => cases isList

theorem agree_call
    {function : Value} {args : List Value}
    (grammar : pact.bounds.Grammar pact.misshapen)
    (balanced : pact.Balanced)
    (within : function.Within pact.bounds)
    (argsWithin : AllWithin pact.bounds args)
    (ready : Task.Ready pact.bounds (.call function args))
    (asked : ∀ further sub, Task.Asks pact (.call function args) further sub →
      sub.Within pact.bounds → Agree further (sub.Gives further) fun side => worker side sub) :
    Agree pact (Within pact.bounds) fun side => call (worker side) function args := by
  have calls : CallsAgree pact fun side inner innerArgs => worker side (.call inner innerArgs) :=
    fun inner innerArgs innerWithin innerArgsWithin =>
      asked pact _ (.back function args inner innerArgs) ⟨innerWithin, innerArgsWithin⟩
  refine .bind (.currentItems argsWithin) fun present presentWithin => ?_
  cases function with
  | closure id name params rest forms scope owner =>
      refine .get_bind fun heap heapWithin => ?_
      have depths : ∀ side,
          (heap.equip (pact.evaluators side)).hostDepth owner = pact.hostDepth owner :=
        fun side => balanced.depths heap owner side
      simp only [depths]
      exact asked pact _ (.start id name params rest forms scope owner args)
        ⟨within, argsWithin⟩
  | builtin builtin => exact Call.agree_perform calls presentWithin
  | instanceTest id lineage =>
      simp only
      split
      · exact .bind (Device.agree_isInstance _ _ _) fun _ _ => .pure trivial
      · exact .fail
  | keyword name => exact Access.agree_callKeyword calls presentWithin
  | method id result =>
      simp only
      split
      · exact .pure within
      · exact .fail
  | member receiver operation =>
      have receiverWithin : receiver.Within pact.bounds := within
      let fits (found : Value) : Prop :=
        found.Within pact.bounds ∧
          ∀ items birth, found = .list items birth → birth ≠ 0 → pact.bounds.losable birth
      have others : Agree pact (Within pact.bounds) fun side =>
          Action.current receiver >>= fun found =>
            Member.call (fun inner innerArgs => worker side (.call inner innerArgs)) found
              operation present := by
        have looked : Agree pact fits fun _ => Action.current receiver := by
          refine .get_bind fun heap heapWithin => ?_
          simp only [Heap.current_equip]
          refine .pure ⟨heapWithin.current receiverWithin, fun items birth isList => ?_⟩
          obtain ⟨made, rfl⟩ := list_of_current isList
          exact ready.2 made birth operation rfl
        refine .bind looked fun found ⟨foundWithin, losable⟩ => ?_
        exact Member.agree_call calls foundWithin presentWithin losable
      cases receiver with
      | closure id name params rest forms scope owner =>
          simp only
          split
          · refine .bind (Access.agree_items presentWithin.1) fun inner innerWithin => ?_
            refine .bind (agree_level _) fun start _ => ?_
            let entered : Task :=
              .enter (.closure id name params rest forms scope owner) inner start
            exact asked pact entered (.reflection _ args rfl pact entered (.inl rfl))
              ⟨receiverWithin, innerWithin⟩
          · exact .fail
      | evaluator owner =>
          have requests (depth : Int) : Requests pact worker owner depth True :=
            requests_of_reflection rfl asked receiverWithin.1 depth
          exact agree_callEvaluator grammar balanced requests (ready.1 rfl) receiverWithin.1
            presentWithin
      | _ => exact others
  | _ => exact .fail

/-- A step agrees if everything it asks for does. -/
theorem agree_step
    {task : Task}
    (grammar : pact.bounds.Grammar pact.misshapen)
    (balanced : pact.Balanced)
    (within : task.Within pact.bounds)
    (ready : task.Ready pact.bounds)
    (asked : ∀ further sub, task.Asks pact further sub → sub.Within pact.bounds →
      Agree further (sub.Gives further) fun side => worker side sub) :
    Agree pact (task.Gives pact) fun side => step (worker side) task := by
  cases task with
  | evaluate evaluator scope item depth =>
      obtain ⟨evaluatorKnown, scopeKnown, itemWithin, isCode⟩ := within
      have requests : Requests pact worker evaluator (depth + 1)
          (depth + 1 ≤ pact.limit evaluator) :=
        { form := fun inside part insideKnown fits =>
            asked pact _ (.part evaluator scope item depth inside part)
              ⟨evaluatorKnown, insideKnown, fits⟩
          read := fun opened value name valueWithin =>
            asked pact _ (.member evaluator scope item depth value name opened) valueWithin
          enter := fun opened closure args closureWithin argsWithin =>
            asked pact _ (.closure evaluator scope item depth closure args opened)
              ⟨closureWithin, argsWithin⟩
          call := fun opened function args functionWithin argsWithin =>
            asked _ _ (.host evaluator scope item depth function args opened)
              ⟨functionWithin, argsWithin⟩ }
      refine .get_bind fun heap heapWithin => ?_
      have limits : ∀ side,
          (heap.equip (pact.evaluators side)).maxDepth evaluator = pact.limit evaluator :=
        fun side => congrArg Config.maxDepth (balanced.configs heap evaluator side)
      simp only [limits]
      split
      · exact .throw trivial
      · rename_i notDeeper
        have present : Agree pact (Evaluable pact.bounds) fun _ => Action.current item := by
          refine .get_bind fun later laterWithin => ?_
          simp only [Heap.current_equip]
          exact .pure ⟨laterWithin.current itemWithin,
            grammar.current later item laterWithin ⟨itemWithin, isCode⟩⟩
        refine .bind present fun current fits => ?_
        let site : Site := ⟨evaluator, scope, depth⟩
        have formed : Agree pact (Within pact.bounds) fun side =>
            formAt (worker side) site current :=
          agree_formAt grammar requests ⟨scopeKnown, evaluatorKnown⟩ fits
        exact .weaken formed fun value valueWithin => ⟨valueWithin, Int.not_lt.mp notDeeper⟩
  | read value name =>
      have valueWithin : value.Within pact.bounds := within
      exact agree_readMember balanced valueWithin
  | enter closure args depth =>
      obtain ⟨closureWithin, argsWithin⟩ := within
      have formsAgree : ∀ id name params rest forms scope owner,
          closure = .closure id name params rest forms scope owner →
            FormsAgree pact worker owner (depth + 1) (depth + 1 ≤ pact.limit owner) := by
        rintro id name params rest forms scope owner rfl inside part insideKnown fits
        have ownerKnown : pact.bounds.evaluators owner := closureWithin.2.2.2.1
        exact asked pact _ (.body id name params rest forms scope owner args depth inside part)
          ⟨ownerKnown, insideKnown, fits⟩
      exact agree_invoke formsAgree closureWithin argsWithin
  | call function args =>
      exact agree_call grammar balanced within.1 within.2 ready asked

end Eval

end CueScript
