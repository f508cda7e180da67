import CueScript.Proofs.Run.Watch
import CueScript.Proofs.Twin.Builtin
import CueScript.Proofs.Twin.Form

/-!
# Evaluation in twin runs

One piece of work ends alike in twin runs, if the pieces inside it do and if it is one
that the pairing permits.  So whole runs do, as long as the left one meets nothing else.
-/

namespace CueScript

open Value

/-- The same piece of work in the left and in the right run. -/
inductive Task.Twin (pairing : Pairing) : Task → Task → Prop
  | evaluate (evaluator scope : Nat) (form : Value) {depth deeper : Int}
      (levels : pairing.Levels depth deeper) :
      Task.Twin pairing (.evaluate evaluator scope form depth)
        (.evaluate evaluator (pairing.numbers.scopes scope) (form.rename pairing.numbers)
          deeper)
  | read (value : Value) (name : String) :
      Task.Twin pairing (.read value name) (.read (value.rename pairing.numbers) name)
  | enter (closure : Value) (args : List Value) {depth deeper : Int}
      (levels : pairing.Levels depth deeper) :
      Task.Twin pairing (.enter closure args depth)
        (.enter (closure.rename pairing.numbers) (args.map (rename pairing.numbers)) deeper)
  | call (function : Value) (args : List Value) :
      Task.Twin pairing (.call function args)
        (.call (function.rename pairing.numbers) (args.map (rename pairing.numbers)))

/-- Whether a piece of work asks for nothing that the two runs need not share: where
tables are set aside, for no other variable than those that are spoken of, and where the
right run may be nested deeper, not for its depth.  Where the runs keep to heaps that are
apart, scopes are not used as values.  And no scope is used that nothing leads to. -/
def Pairing.Permits (pairing : Pairing) : Task → Prop
  | .evaluate _ scope item _ =>
      pairing.Meets scope ∧ ∀ name, item = .symbol name → pairing.Speaks (.str name)
  | .read value name => pairing.Shows value name
  | .enter (.closure _ _ _ _ _ inside _) _ _ => pairing.Meets inside
  | .enter .. => True
  | .call (.member (.scope _) _) _ => pairing.Open
  | .call (.member (.evaluator _) operation) _ =>
      pairing.Open ∧ (pairing.slack → operation ≠ "host_depth")
  | .call .. => True

/-- Where no scope stands behind another one, every closure may be entered. -/
theorem Pairing.Unbacked.permits_enter
    {pairing : Pairing} (unbacked : pairing.Unbacked) (closure : Value) (args : List Value)
    (depth : Int) :
    pairing.Permits (.enter closure args depth) := by
  cases closure with
  | closure id name params rest body inside owner => exact unbacked.meets inside
  | _ => exact trivial

/-- Whether what two workers do ends alike. -/
def WorkersTwin (pairing : Pairing) (worker other : Worker) : Prop :=
  ∀ task twin, Task.Twin pairing task twin →
    Twin pairing (rename pairing.numbers) (worker task) (other twin)

/-- The same evaluator at levels of the two runs. -/
structure Site.Level (pairing : Pairing) (site other : Site) : Prop where
  evaluator : other.evaluator = site.evaluator
  levels : pairing.Levels site.depth other.depth

/-- The same place in the two runs. -/
structure Site.Twin (pairing : Pairing) (site other : Site) : Prop
    extends Site.Level pairing site other where
  scope : other.scope = pairing.numbers.scopes site.scope

namespace Site.Twin

variable {pairing : Pairing} {site other : Site}

theorem inner (twin : Site.Twin pairing site other) :
    Site.Twin pairing site.inner other.inner :=
  ⟨⟨twin.evaluator, twin.levels.add 1⟩, twin.scope⟩

theorem within (twin : Site.Twin pairing site other) (scope : Nat) :
    Site.Twin pairing (site.within scope) (other.within (pairing.numbers.scopes scope)) :=
  ⟨⟨twin.evaluator, twin.levels⟩, rfl⟩

end Site.Twin

namespace Eval

section Parts

variable {pairing : Pairing} {worker other : Worker} {site there : Site}

/-! ## Forms one after the other -/

theorem twin_form
    (workers : WorkersTwin pairing worker other) (sites : site.Twin pairing there)
    (item : Value) :
    Twin pairing (rename pairing.numbers) (form worker site item)
      (form other there (item.rename pairing.numbers)) := by
  unfold form
  rw [sites.evaluator, sites.scope]
  exact workers _ _ (.evaluate site.evaluator site.scope item sites.levels)

theorem twin_items
    (workers : WorkersTwin pairing worker other) (sites : site.Twin pairing there)
    (forms : List Value) :
    Twin pairing (List.map (rename pairing.numbers)) (items worker site forms)
      (items other there (forms.map (rename pairing.numbers))) := by
  induction forms with
  | nil => exact .pure rfl
  | cons item rest inductionHypothesis =>
      exact .bind (twin_form workers sites item) fun value =>
        .bind inductionHypothesis fun values => .pure rfl

theorem twin_bodyFrom
    (workers : WorkersTwin pairing worker other) (sites : site.Twin pairing there)
    (result : Value) (forms : List Value) :
    Twin pairing (rename pairing.numbers) (bodyFrom worker site result forms)
      (bodyFrom other there (result.rename pairing.numbers)
        (forms.map (rename pairing.numbers))) := by
  induction forms generalizing result with
  | nil => exact .pure rfl
  | cons item rest inductionHypothesis =>
      exact .bind (twin_form workers sites item) fun value => inductionHypothesis value

theorem twin_body
    (workers : WorkersTwin pairing worker other) (sites : site.Twin pairing there)
    (forms : List Value) :
    Twin pairing (rename pairing.numbers) (body worker site forms)
      (body other there (forms.map (rename pairing.numbers))) :=
  twin_bodyFrom workers sites .nil forms

theorem twin_allTrue
    (workers : WorkersTwin pairing worker other) (sites : site.Twin pairing there)
    (result : Value) (forms : List Value) :
    Twin pairing (rename pairing.numbers) (allTrue worker site result forms)
      (allTrue other there (result.rename pairing.numbers)
        (forms.map (rename pairing.numbers))) := by
  induction forms generalizing result with
  | nil => exact .pure rfl
  | cons item rest inductionHypothesis =>
      refine .bind (twin_form workers sites item) fun value => ?_
      rw [isTrue_rename]
      split
      · exact inductionHypothesis value
      · exact .pure rfl

theorem twin_anyTrue
    (workers : WorkersTwin pairing worker other) (sites : site.Twin pairing there)
    (result : Value) (forms : List Value) :
    Twin pairing (rename pairing.numbers) (anyTrue worker site result forms)
      (anyTrue other there (result.rename pairing.numbers)
        (forms.map (rename pairing.numbers))) := by
  induction forms generalizing result with
  | nil => exact .pure rfl
  | cons item rest inductionHypothesis =>
      refine .bind (twin_form workers sites item) fun value => ?_
      rw [isTrue_rename]
      split
      · exact .pure rfl
      · exact inductionHypothesis value

theorem twin_bindAll
    (workers : WorkersTwin pairing worker other) (sites : site.Twin pairing there)
    (owns : pairing.Owns site.scope) (pairs : List (String × Value)) :
    Twin pairing (fun result => result) (bindAll worker site pairs)
      (bindAll other there (pairs.map (renameMember pairing.numbers))) := by
  induction pairs with
  | nil => exact .pure rfl
  | cons pair rest inductionHypothesis =>
      obtain ⟨name, item⟩ := pair
      refine .bind (twin_form workers sites item) fun value => ?_
      rw [sites.scope]
      exact .bind (.define owns (.str name) value) fun _ => inductionHypothesis

theorem twin_firstClause
    (workers : WorkersTwin pairing worker other) (sites : site.Twin pairing there)
    (clauses : List (Value × Value)) :
    Twin pairing (rename pairing.numbers) (firstClause worker site clauses)
      (firstClause other there (clauses.map (renameEntry pairing.numbers))) := by
  induction clauses with
  | nil => exact .pure rfl
  | cons clause rest inductionHypothesis =>
      obtain ⟨test, item⟩ := clause
      refine .bind (twin_form workers sites test) fun value => ?_
      rw [isTrue_rename]
      split
      · exact twin_form workers sites item
      · exact inductionHypothesis

/-! ## Special forms -/

theorem twin_branch
    (workers : WorkersTwin pairing worker other) (sites : site.Twin pairing there)
    (holds : Bool) (branches : List Value) :
    Twin pairing (rename pairing.numbers) (branch worker site holds branches)
      (branch other there holds (branches.map (rename pairing.numbers))) := by
  cases holds with
  | true =>
      cases branches with
      | nil => exact .fail
      | cons yes rest => exact twin_form workers sites yes
  | false =>
      rcases branches with _ | ⟨yes, _ | ⟨no, _ | ⟨next, rest⟩⟩⟩
      · exact .pure rfl
      · exact .pure rfl
      · exact twin_form workers sites no
      · exact .pure rfl

theorem twin_bodyOf
    (workers : WorkersTwin pairing worker other) (sites : site.Twin pairing there)
    (birth : Nat) (forms : List Value) :
    Twin pairing (rename pairing.numbers) (bodyOf worker site birth forms)
      (bodyOf other there (pairing.numbers.births birth)
        (forms.map (rename pairing.numbers))) :=
  .bind (.upcoming birth 2 forms) fun coming => twin_body workers sites coming

/-- What follows a test is taken from a form that may have lost parts. -/
theorem twin_branches
    {next later : List Value → Action Value} (birth : Nat) (yes : Value) (no : Option Value)
    (tail : ∀ branches, Twin pairing (rename pairing.numbers) (next branches)
      (later (branches.map (rename pairing.numbers)))) :
    Twin pairing (rename pairing.numbers)
      (Action.upcoming birth 2 (yes :: no.toList) >>= next)
      (Action.upcoming (pairing.numbers.births birth) 2
        (yes.rename pairing.numbers :: (no.map (rename pairing.numbers)).toList) >>=
          later) := by
  have same : yes.rename pairing.numbers :: (no.map (rename pairing.numbers)).toList =
      (yes :: no.toList).map (rename pairing.numbers) := by
    cases no <;> rfl
  rw [same]
  exact .bind (.upcoming birth 2 _) tail

theorem twin_special
    (workers : WorkersTwin pairing worker other) (sites : site.Twin pairing there)
    (meets : pairing.Meets site.scope)
    (birth : Nat) (parts : SpecialForm) :
    Twin pairing (rename pairing.numbers) (special worker site birth parts)
      (special other there (pairing.numbers.births birth)
        (parts.rename pairing.numbers)) := by
  cases parts with
  | quote item => exact .pure rfl
  | ifThen test yes no =>
      refine .bind (twin_form workers sites test) fun value => ?_
      refine twin_branches birth yes no fun branches => ?_
      rw [isTrue_rename]
      exact twin_branch workers sites value.isTrue branches
  | when test forms =>
      refine .bind (twin_form workers sites test) fun value => ?_
      rw [isTrue_rename]
      split
      · exact twin_bodyOf workers sites birth forms
      · exact .pure rfl
  | whenNot test forms =>
      refine .bind (twin_form workers sites test) fun value => ?_
      rw [isTrue_rename]
      split
      · exact .pure rfl
      · exact twin_bodyOf workers sites birth forms
  | and forms => exact twin_allTrue workers sites (.bool true) forms
  | or forms => exact twin_anyTrue workers sites .nil forms
  | sequence forms => exact twin_body workers sites forms
  | letIn bindings forms =>
      simp only [SpecialForm.rename, special]
      rw [sites.scope]
      refine .childScope_bind meets [] fun scope owns => ?_
      have inside := sites.within scope
      exact .bind (twin_bindAll workers inside owns bindings) fun _ =>
        twin_bodyOf workers inside birth forms
  | whenLet name test forms =>
      refine .bind (twin_form workers sites test) fun value => ?_
      rw [isTrue_rename]
      split
      · rw [sites.scope]
        exact .childScope_bind meets [(.str name, value)] fun scope _ =>
          twin_bodyOf workers (sites.within scope) birth forms
      · exact .pure rfl
  | ifLet name test yes no =>
      refine .bind (twin_form workers sites test) fun value => ?_
      refine twin_branches birth yes no fun branches => ?_
      rw [isTrue_rename]
      split
      · rw [sites.scope]
        exact .childScope_bind meets [(.str name, value)] fun scope _ =>
          twin_branch workers (sites.within scope) true branches
      · exact twin_branch workers sites false branches
  | cond clauses => exact twin_firstClause workers sites clauses
  | function name params rest forms =>
      refine .bind .newId fun id => .pure ?_
      rw [sites.scope, sites.evaluator, rename_closure]

/-! ## Calls -/

theorem twin_callHost
    (workers : WorkersTwin pairing worker other) (levels : site.Level pairing there)
    (function : Value) (args : List Value) :
    Twin pairing (rename pairing.numbers) (callHost worker site function args)
      (callHost other there (function.rename pairing.numbers)
        (args.map (rename pairing.numbers))) := by
  unfold callHost
  rw [levels.evaluator]
  exact .atHostDepth levels.levels site.evaluator (workers _ _ (.call function args))

theorem twin_headText (head function : Value) :
    Twin pairing (fun result => result) (headText head function)
      (headText (head.rename pairing.numbers) (function.rename pairing.numbers)) := by
  have written := @Twin.source pairing head
  cases head with
  | nil => exact .shown function
  | _ => exact written

theorem twin_apply
    (workers : WorkersTwin pairing worker other) (levels : site.Level pairing there)
    (head function : Value) (args : List Value) :
    Twin pairing (rename pairing.numbers) (apply worker site head function args)
      (apply other there (head.rename pairing.numbers) (function.rename pairing.numbers)
        (args.map (rename pairing.numbers))) := by
  refine .bind (.current function) fun present => ?_
  have others : Twin pairing (rename pairing.numbers)
      (if Access.isCallable function then
        callHost worker site function args
      else
        headText head function >>= fun text =>
          Action.shown function >>= fun shown => throw (.notFunction text shown))
      (if Access.isCallable (function.rename pairing.numbers) then
        callHost other there (function.rename pairing.numbers)
          (args.map (rename pairing.numbers))
      else
        headText (head.rename pairing.numbers) (function.rename pairing.numbers) >>=
          fun text => Action.shown (function.rename pairing.numbers) >>=
            fun shown => throw (.notFunction text shown)) := by
    rw [Access.isCallable_rename]
    split
    · exact twin_callHost workers levels function args
    · exact .bind (twin_headText head function) fun _ => .bind (.shown function) fun _ => .throw
  cases present with
  | closure id name params rest forms inside owner =>
      rw [rename_closure]
      exact workers _ _ (.enter function args levels.levels)
  | map entries birth =>
      rw [rename_map]
      exact Member.twin_callOnMap entries "get" args
  | _ => exact others

theorem twin_useMember
    (workers : WorkersTwin pairing worker other) (sites : site.Twin pairing there)
    (birth : Nat) (name : String) (parts : List Value) :
    Twin pairing (rename pairing.numbers) (useMember worker site birth name parts)
      (useMember other there (pairing.numbers.births birth) name
        (parts.map (rename pairing.numbers))) := by
  cases parts with
  | nil => exact .throw
  | cons target argForms =>
      refine .bind (twin_form workers sites target) fun value => ?_
      refine .bind (workers _ _ (.read value (Event.memberName name))) fun found => ?_
      refine .bind (.upcoming birth 2 argForms) fun forms => ?_
      refine .bind (twin_items workers sites forms) fun args => ?_
      rw [Access.isCallable_rename, List.isEmpty_map, List.length_map]
      split
      · exact twin_callHost workers sites.toLevel found args
      · split
        · exact .pure rfl
        · exact .throw

theorem twin_combination
    (workers : WorkersTwin pairing worker other) (sites : site.Twin pairing there)
    (birth : Nat) (head : Value) (argForms : List Value) :
    Twin pairing (rename pairing.numbers) (combination worker site birth head argForms)
      (combination other there (pairing.numbers.births birth) (head.rename pairing.numbers)
        (argForms.map (rename pairing.numbers))) :=
  .bind (twin_form workers sites head) fun function =>
    .bind (.upcoming birth 1 argForms) fun forms =>
      .bind (twin_items workers sites forms) fun args =>
        twin_apply workers sites.toLevel head function args

/-! ## Forms -/

theorem twin_symbol
    {name : String} (speaks : pairing.Speaks (.str name)) {scope : Nat}
    (meets : pairing.Meets scope) :
    Twin pairing (rename pairing.numbers) (symbol scope name)
      (symbol (pairing.numbers.scopes scope) name) := by
  unfold symbol
  split
  · exact .pure rfl
  · split
    · exact .pure rfl
    · exact .pure rfl
    · exact .pure rfl
    · exact .lookup speaks meets

theorem twin_symbolCombination
    (workers : WorkersTwin pairing worker other) (sites : site.Twin pairing there)
    (meets : pairing.Meets site.scope)
    (birth : Nat) (name : String) (argForms : List Value) :
    Twin pairing (rename pairing.numbers)
      (symbolCombination worker site birth name argForms)
      (symbolCombination other there (pairing.numbers.births birth) name
        (argForms.map (rename pairing.numbers))) := by
  have whole : .symbol name :: argForms.map (rename pairing.numbers) =
      (.symbol name :: argForms).map (rename pairing.numbers) := rfl
  unfold symbolCombination
  simp only [whole, SpecialForm.ofForm_rename, expand_rename]
  cases SpecialForm.ofForm? name (.symbol name :: argForms) with
  | some result =>
      cases result with
      | ok parts => exact twin_special workers sites meets birth parts
      | error fault =>
          refine .bind (.readingSame fun left right like => ?_) fun raised => .throw
          exact ShapeFault.toFault_rename like _ fault
  | none =>
      simp only [Option.map_none]
      cases expand? name argForms with
      | some expansion => exact twin_form workers sites expansion
      | none =>
          simp only [Option.map_none]
          split
          · exact twin_useMember workers sites birth _ argForms
          · exact twin_combination workers sites birth (.symbol name) argForms

theorem twin_formAt
    (workers : WorkersTwin pairing worker other) (sites : site.Twin pairing there)
    (meets : pairing.Meets site.scope) (item : Value)
    (speaks : ∀ name, item = .symbol name → pairing.Speaks (.str name)) :
    Twin pairing (rename pairing.numbers) (formAt worker site item)
      (formAt other there (item.rename pairing.numbers)) := by
  cases item with
  | symbol name =>
      have looked := twin_symbol (speaks name rfl) meets
      rw [← sites.scope] at looked
      exact looked
  | vector elements birth =>
      rw [rename_vector]
      exact .bind (twin_items workers sites.inner elements) fun values => .newList values
  | list items birth =>
      rw [rename_list]
      cases items with
      | nil => exact .newList []
      | cons head argForms =>
          have combined := twin_combination workers sites.inner birth head argForms
          cases head with
          | symbol name =>
              exact twin_symbolCombination workers sites.inner meets birth name argForms
          | _ => exact combined
  | quoted form => exact .pure rfl
  | _ => exact .pure (by simp)

/-! ## Closures -/

theorem twin_restVar (params : List String) (rest : Option String) (args : List Value) :
    Twin pairing (Option.map (renameMember pairing.numbers)) (restVar params rest args)
      (restVar params rest (args.map (rename pairing.numbers))) := by
  cases rest with
  | none => exact .pure rfl
  | some name =>
      unfold restVar
      rw [← List.map_drop]
      exact .bind (.newList _) fun left => .pure rfl

theorem callVars_rename
    (ρ : Renaming) (closure : Value) (name : String) (params : List String)
    (rest : Option (String × Value)) (args : List Value) :
    callVars (closure.rename ρ) name params (rest.map (renameMember ρ))
        (args.map (rename ρ)) =
      (callVars closure name params rest args).map (renameEntry ρ) := by
  have zipped : (params.map Value.str).zip (args.map (rename ρ)) =
      ((params.map Value.str).zip args).map (renameEntry ρ) := by
    induction params generalizing args with
    | nil => rfl
    | cons param others inductionHypothesis =>
        cases args with
        | nil => rfl
        | cons arg later => simp [inductionHypothesis]
  have bound : Entries.putAll Value.sameKey
        ((params.map Value.str).zip (args.map (rename ρ))) [] =
      (Entries.putAll Value.sameKey ((params.map Value.str).zip args) []).map
        (renameEntry ρ) := by
    rw [zipped]
    exact putAll_rename ρ _ []
  have put (name : String) (value : Value) (entries : ValueEntries) :=
    put_rename ρ (.str name) value entries
  simp only [rename_str] at put
  unfold callVars
  cases rest with
  | none =>
      simp only [Option.map_none, bound]
      split
      · rfl
      · exact put name closure _
  | some restVar =>
      obtain ⟨restName, left⟩ := restVar
      simp only [Option.map_some, renameMember_mk, bound]
      split
      · exact put restName left _
      · rw [put restName left, put name closure]

theorem twin_invoke
    (workers : WorkersTwin pairing worker other) {depth deeper : Int}
    (levels : pairing.Levels depth deeper) {closure : Value} (args : List Value)
    (permits : pairing.Permits (.enter closure args depth)) :
    Twin pairing (rename pairing.numbers) (invoke worker closure args depth)
      (invoke other (closure.rename pairing.numbers) (args.map (rename pairing.numbers))
        deeper) := by
  cases closure with
  | closure id name params rest forms inside owner =>
      have vars := callVars_rename pairing.numbers
        (.closure id name params rest forms inside owner) name params
      rw [rename_closure] at vars ⊢
      unfold invoke
      simp only [List.length_map]
      split
      · refine .bind (twin_restVar params rest args) fun restVar => ?_
        rw [vars]
        refine .childScope_bind permits _ fun scope _ => ?_
        have sites : Site.Twin pairing ⟨owner, scope, depth + 1⟩
            ⟨owner, pairing.numbers.scopes scope, deeper + 1⟩ :=
          ⟨⟨rfl, levels.add 1⟩, rfl⟩
        exact twin_body workers sites forms
      · exact .throw
  | _ => exact .fail

/-! ## Evaluators as values -/

theorem getD_rename (ρ : Renaming) (items : List Value) (index : Nat) (default : Value) :
    (items.map (rename ρ)).getD index (default.rename ρ) =
      (items.getD index default).rename ρ := by
  rw [List.getD_eq_getElem?_getD, List.getD_eq_getElem?_getD, List.getElem?_map]
  exact Access.getD_map_rename ρ items[index]? default

theorem rename_eq_list {ρ : Renaming} {value : Value} {items : List Value} {birth : Nat} :
    value.rename ρ = .list items birth ↔
      ∃ held number, value = .list held number ∧ held.map (rename ρ) = items ∧
        ρ.births number = birth := by
  cases value with
  | list held number =>
      simp only [rename_list, list.injEq]
      constructor
      · rintro ⟨sameItems, sameBirth⟩
        exact ⟨held, number, ⟨rfl, rfl⟩, sameItems, sameBirth⟩
      · rintro ⟨_, _, ⟨rfl, rfl⟩, sameItems, sameBirth⟩
        exact ⟨sameItems, sameBirth⟩
  | _ => simp [rename]

theorem twin_level (depth : Value) :
    Twin pairing (fun result => result) (level depth)
      (level (depth.rename pairing.numbers)) := by
  unfold level
  rw [toNumeric_rename]
  split
  · exact .pure rfl
  · split
    · exact .pure rfl
    · exact .fail
  · exact .fail

theorem twin_evaluateAll
    (workers : WorkersTwin pairing worker other) (evaluator scope : Nat)
    (forms depth : Value) :
    Twin pairing (rename pairing.numbers) (evaluateAll worker evaluator scope forms depth)
      (evaluateAll other evaluator (pairing.numbers.scopes scope)
        (forms.rename pairing.numbers) (depth.rename pairing.numbers)) := by
  refine .bind (Access.twin_items forms) fun found => ?_
  refine Access.twin_overItems (rename pairing.numbers) forms found .nil fun state item => ?_
  refine .bind (twin_level depth) fun level => ?_
  exact .bind (workers _ _ (.evaluate evaluator scope item (pairing.levels_refl level)))
    fun value => .pure rfl

theorem twin_applyGiven
    (workers : WorkersTwin pairing worker other) (evaluator : Nat)
    (function given head depth : Value) :
    Twin pairing (rename pairing.numbers)
      (applyGiven worker evaluator function given head depth)
      (applyGiven other evaluator (function.rename pairing.numbers)
        (given.rename pairing.numbers) (head.rename pairing.numbers)
        (depth.rename pairing.numbers)) := by
  have applied (depth : Int) (args : List Value) :
      Twin pairing (rename pairing.numbers) (apply worker ⟨evaluator, 0, depth⟩ head function args)
        (apply other ⟨evaluator, 0, depth⟩ (head.rename pairing.numbers)
          (function.rename pairing.numbers) (args.map (rename pairing.numbers))) :=
    twin_apply workers ⟨rfl, pairing.levels_refl depth⟩ head function args
  have others : Twin pairing (rename pairing.numbers)
      (if Access.isCallable function then
        Access.items given >>= fun args => level depth >>= fun depth =>
          apply worker ⟨evaluator, 0, depth⟩ head function args
      else
        apply worker ⟨evaluator, 0, 0⟩ head function [])
      (if Access.isCallable (function.rename pairing.numbers) then
        Access.items (given.rename pairing.numbers) >>= fun args =>
          level (depth.rename pairing.numbers) >>= fun depth =>
            apply other ⟨evaluator, 0, depth⟩ (head.rename pairing.numbers)
              (function.rename pairing.numbers) args
      else
        apply other ⟨evaluator, 0, 0⟩ (head.rename pairing.numbers)
          (function.rename pairing.numbers) []) := by
    rw [Access.isCallable_rename]
    split
    · exact .bind (Access.twin_items given) fun args => .bind (twin_level depth) fun depth =>
        applied depth args
    · exact applied 0 []
  cases function with
  | map entries birth => exact .bind (Access.twin_items given) fun args => applied 0 args
  | _ => exact others

theorem twin_callEvaluator
    (workers : WorkersTwin pairing worker other) (isOpen : pairing.Open) (evaluator : Nat)
    {operation : String} (covered : pairing.slack → operation ≠ "host_depth")
    (args : List Value) :
    Twin pairing (rename pairing.numbers) (callEvaluator worker evaluator operation args)
      (callEvaluator other evaluator operation (args.map (rename pairing.numbers))) := by
  obtain ⟨tight, together⟩ := isOpen
  have evaluated (item : Value) (scope : Nat) (depth : Int) :=
    workers _ _ (.evaluate evaluator scope item (pairing.levels_refl depth))
  have sites (scope : Nat) (depth : Int) :
      Site.Twin pairing ⟨evaluator, scope, depth⟩
        ⟨evaluator, pairing.numbers.scopes scope, depth⟩ :=
    ⟨⟨rfl, pairing.levels_refl depth⟩, rfl⟩
  unfold callEvaluator
  split
  · have notDeeper : ¬ pairing.slack := fun slack => covered slack rfl
    refine .get_bind fun left right like => .pure ?_
    have same := (like.hostDepths evaluator).resolve_right fun deeper => notDeeper deeper.1
    rw [same, rename_int]
  · exact .bind (.scopeOf together _) fun scope => evaluated _ scope 0
  · exact .bind (.scopeOf together _) fun scope => .bind (twin_level _) fun level =>
      evaluated _ scope level
  · exact .bind (.scopeOf together _) fun scope => twin_evaluateAll workers evaluator scope _ _
  · rename_i function given rest
    have head := getD_rename pairing.numbers rest 0 .nil
    have depth := getD_rename pairing.numbers rest 1 (.int 0)
    rw [rename_nil] at head
    rw [rename_int] at depth
    simp only [List.map_cons, List.length_map, head, depth]
    split
    · exact .fail
    · exact twin_applyGiven workers evaluator function given _ _
  · simp only [List.map_cons, List.map_nil, toText_rename]
    split
    · exact .bind (.scopeOf together _) fun scope =>
        twin_symbol (.inl tight) (tight.unbacked.meets scope)
    · exact .fail
  · rename_i items birth scope depth
    simp only [List.map_cons, List.map_nil, rename_list]
    refine .bind (.scopeOf together scope) fun scope => .bind (twin_level depth) fun level => ?_
    rw [← rename_list]
    exact twin_formAt workers (sites scope level) (tight.unbacked.meets scope) _
      fun name same => nomatch same
  · rename_i name items birth scope depth
    simp only [List.map_cons, List.map_nil, rename_list, toText_rename]
    split
    · refine .bind (.scopeOf together scope) fun scope => .bind (twin_level depth) fun level => ?_
      rw [← List.map_tail]
      exact twin_useMember workers (sites scope level).inner birth _ items.tail
    · exact .fail
  · refine .bind (Access.twin_items _) fun args => .bind (twin_level _) fun level => ?_
    exact twin_callHost workers ⟨rfl, pairing.levels_refl level⟩ _ args
  · split
    all_goals first
      | exact .fail
      | (simp only [List.map_eq_cons_iff, List.map_eq_nil_iff, rename_eq_list] at *; grind)

/-! ## Pieces of work -/

theorem isSymbol_current {heap : Heap} {item : Value} {name : String}
    (isSymbol : heap.current item = .symbol name) :
    item = .symbol name := by
  unfold Heap.current at isSymbol
  split at isSymbol
  · exact isSymbol
  · cases item <;> simp only [Value.current, reduceCtorEq] at isSymbol
    all_goals first
      | exact isSymbol
      | (split at isSymbol <;> cases isSymbol)

theorem isScope_current {heap : Heap} {value : Value} {id : Nat}
    (isScope : heap.current value = .scope id) :
    value = .scope id := by
  unfold Heap.current at isScope
  split at isScope
  · exact isScope
  · cases value <;> simp only [Value.current, reduceCtorEq] at isScope
    all_goals first
      | exact isScope
      | (split at isScope <;> cases isScope)

theorem twin_call
    (workers : WorkersTwin pairing worker other) (function : Value) (args : List Value)
    (permits : pairing.Permits (.call function args)) :
    Twin pairing (rename pairing.numbers) (Eval.call worker function args)
      (Eval.call other (function.rename pairing.numbers)
        (args.map (rename pairing.numbers))) := by
  have calls : CallersTwin pairing (fun inner innerArgs => worker (.call inner innerArgs))
      (fun inner innerArgs => other (.call inner innerArgs)) :=
    fun inner innerArgs => workers _ _ (.call inner innerArgs)
  refine .bind (.currentItems args) fun present => ?_
  cases function with
  | closure id name params rest body inside owner =>
      rw [rename_closure]
      refine .get_bind fun left right like => ?_
      rw [← rename_closure]
      exact workers _ _ (.enter _ args (like.hostDepths owner))
  | builtin function => exact Call.twin_perform calls function present
  | instanceTest id lineage =>
      rcases present with _ | ⟨kind, _ | ⟨value, _ | ⟨next, rest⟩⟩⟩
      · exact .fail
      · exact .fail
      · exact .bind (Device.twin_isInstance lineage kind value) fun holds => .pure rfl
      · exact .fail
  | keyword name => exact Access.twin_callKeyword calls name present
  | method id result =>
      cases present with
      | nil => exact .pure rfl
      | cons first rest => exact .fail
  | member receiver operation =>
      have called (shared : ∀ id, receiver = .scope id → pairing.Open) :
          Twin pairing (rename pairing.numbers)
            (Action.current receiver >>= fun held =>
              Member.call (fun inner innerArgs => worker (.call inner innerArgs)) held
                operation present)
            (Action.current (receiver.rename pairing.numbers) >>= fun held =>
              Member.call (fun inner innerArgs => other (.call inner innerArgs)) held
                operation (present.map (rename pairing.numbers))) :=
        .current_bind receiver fun heap =>
          Member.twin_call calls (heap.current receiver) operation present fun id isScope =>
            shared id (isScope_current isScope)
      cases receiver with
      | closure id name params rest forms scope owner =>
          rw [rename_member, rename_closure]
          rcases present with _ | ⟨collection, _ | ⟨depth, _ | ⟨next, others⟩⟩⟩
          · exact .fail
          · exact .fail
          · refine .bind (Access.twin_items collection) fun inner => ?_
            refine .bind (twin_level depth) fun start => ?_
            rw [← rename_closure]
            exact workers _ _ (.enter _ inner (pairing.levels_refl start))
          · exact .fail
      | evaluator id => exact twin_callEvaluator workers permits.1 id permits.2 present
      | scope id => exact called fun _ _ => permits
      | _ => exact called fun _ same => nomatch same
  | _ => exact .fail

theorem twin_readMember
    (value : Value) {name : String} (visible : pairing.Shows value name) :
    Twin pairing (rename pairing.numbers) (readMember value name)
      (readMember (value.rename pairing.numbers) name) := by
  refine .bind (Access.twin_member? value visible) fun found => ?_
  cases found with
  | none =>
      rw [className_rename]
      exact .throw
  | some found => exact .pure rfl

/-- One piece of work ends alike. -/
theorem twin_step
    (workers : WorkersTwin pairing worker other) {task twin : Task}
    (tasks : Task.Twin pairing task twin) (permits : pairing.Permits task) :
    Twin pairing (rename pairing.numbers) (step worker task) (step other twin) := by
  cases tasks with
  | @evaluate evaluator scope item depth deeper levels =>
      have sites : Site.Twin pairing ⟨evaluator, scope, depth⟩
          ⟨evaluator, pairing.numbers.scopes scope, deeper⟩ := ⟨⟨rfl, levels⟩, rfl⟩
      obtain ⟨meets, speaks⟩ := permits
      have evaluated : Twin pairing (rename pairing.numbers)
          (Action.current item >>= formAt worker ⟨evaluator, scope, depth⟩)
          (Action.current (item.rename pairing.numbers) >>=
            formAt other ⟨evaluator, pairing.numbers.scopes scope, deeper⟩) := by
        exact .current_bind item fun heap =>
          twin_formAt workers sites meets _ fun name isSymbol =>
            speaks name (isSymbol_current isSymbol)
      refine .get_bind fun left right like => ?_
      have cutOff (slack : pairing.slack) :
          Twin pairing (rename pairing.numbers)
            (if left.maxDepth evaluator < depth then
              throw (.depthExceeded (left.maxDepth evaluator))
            else
              Action.current item >>= formAt worker ⟨evaluator, scope, depth⟩)
            (if right.maxDepth evaluator < deeper then
              throw (.depthExceeded (right.maxDepth evaluator))
            else
              Action.current (item.rename pairing.numbers) >>=
                formAt other ⟨evaluator, pairing.numbers.scopes scope, deeper⟩) := by
        have notAbove : depth ≤ deeper := levels.le
        by_cases tooDeep : right.maxDepth evaluator < deeper
        · rw [if_pos tooDeep]
          exact .limit ⟨slack, trivial, fun _ same => nomatch same⟩
        · have lower : right.maxDepth evaluator ≤ left.maxDepth evaluator := by
            rcases like.maxDepth_le evaluator with same | ⟨-, lower⟩
            · exact Int.le_of_eq same
            · exact lower
          rw [if_neg tooDeep, if_neg (by omega)]
          exact evaluated
      rcases levels with rfl | ⟨slack, -⟩
      · rcases like.maxDepth_le evaluator with same | ⟨lowered, -⟩
        · rw [same]
          dsimp only
          split
          · exact .throw
          · exact evaluated
        · exact cutOff (pairing.lowers lowered)
      · exact cutOff slack
  | read value name => exact twin_readMember value permits
  | enter closure args levels => exact twin_invoke workers levels args permits
  | call function args => exact twin_call workers function args permits

end Parts

end Eval

/-! ## Runs -/

/-- Whether a watch looks out for all work that the pairing does not permit. -/
def Pairing.CoveredBy (pairing : Pairing) (watch : Watch) : Prop :=
  ∀ task around heap, watch (task :: around) heap = false → pairing.Permits task

/-- How a watch over the right run answers one over the left run that stops with an alarm:
it tells of something where that does, unless nothing is said of such runs, and only
there. -/
def Pairing.Answers (pairing : Pairing) (watch second : Watch) (alarm other : Fault) : Prop :=
  ∀ (task twin : Task) (around others : List Task) (left right : Heap),
    Task.Twin pairing task twin →
      (watch (task :: around) left = true → alarm = pairing.alarm ∨
        second (twin :: others) right = true ∧ other = alarm) ∧
      (watch (task :: around) left = false → second (twin :: others) right = false)

namespace Eval

variable {pairing : Pairing}

/-- Whether the right run may have a budget of so many frames when the left one has one. -/
def FramesTwin (pairing : Pairing) (frames fewer : Nat) : Prop :=
  frames = fewer ∨ pairing.Deeper ∧ fewer ≤ frames

/-- A run that meets nothing but what the pairing permits and another run of the same
with other numbers end alike. -/
theorem watched_twin
    {watch second : Watch} {alarm other : Fault} (covered : pairing.CoveredBy watch)
    (answers : pairing.Answers watch second alarm other)
    {frames fewer : Nat} (budgets : FramesTwin pairing frames fewer)
    (around others : List Task) :
    WorkersTwin pairing (watched watch alarm frames around)
      (watched second other fewer others) := by
  induction fewer generalizing frames around others with
  | zero =>
      intro task twin _
      rcases budgets with rfl | ⟨⟨slack, level⟩, -⟩
      · exact .fail
      · exact .limit ⟨slack, trivial, fun lowered => absurd lowered level⟩
  | succ fewer inductionHypothesis =>
      intro task twin tasks
      obtain ⟨frames, rfl⟩ : ∃ less, frames = less + 1 := by
        rcases budgets with rfl | ⟨-, enough⟩
        · exact ⟨fewer, rfl⟩
        · exact ⟨frames - 1, by omega⟩
      have inner : FramesTwin pairing frames fewer := by
        rcases budgets with same | ⟨deeper, enough⟩
        · exact .inl (by omega)
        · exact .inr ⟨deeper, by omega⟩
      intro before after like
      obtain ⟨whenMet, whenQuiet⟩ := answers task twin around others before after tasks
      rw [perform_watched_succ, perform_watched_succ]
      cases met : watch (task :: around) before with
      | true =>
          rw [if_pos rfl]
          rcases whenMet met with rfl | ⟨metToo, rfl⟩
          · exact .alarm before _
          · rw [metToo, if_pos rfl]
            exact .fault _ before after like
      | false =>
          have permits := covered task around before met
          rw [whenQuiet met]
          exact twin_step (inductionHypothesis inner (task :: around) (twin :: others)) tasks
            permits before after like

theorem workers_twin
    {watch : Watch} (covered : pairing.CoveredBy watch)
    {frames fewer : Nat} (budgets : FramesTwin pairing frames fewer) (around : List Task) :
    WorkersTwin pairing (watched watch pairing.alarm frames around) (solve fewer) := by
  have answers : pairing.Answers watch .never pairing.alarm pairing.alarm :=
    fun _ _ _ _ _ _ _ => ⟨fun _ => .inl rfl, fun _ => rfl⟩
  have twin := watched_twin covered answers budgets around []
  rw [watched_never] at twin
  exact twin

end Eval

end CueScript
