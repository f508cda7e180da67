import CueScript.Proofs.Symbols.LetForm
import CueScript.Proofs.Symbols.Unheld
import CueScript.Proofs.Twin.Identity

/-!
# Bindings one inside the other

A `let` binds all its names in one scope, which is filled while the values are evaluated.
So it differs from a `let` of some of its pairs around a `let` of the others only if
something gets hold of that scope before it is full.
-/

namespace CueScript

/-! ## What is said beside another run -/

/-- A scope is asked for its variables or for the scope around it, or an operation of a scope
or of an evaluator is called. -/
def looksIntoScopes : Watch
  | .read (.scope _) name :: _, _ => decide (name ∈ ["vars", "parent"])
  | .call (.member (.scope _) _) _ :: _, _ => true
  | .call (.member (.evaluator _) _) _ :: _, _ => true
  | _, _ => false

/-- Work begins in a scope that is adrift. -/
def entersAdrift (adrift : Adrift) : Watch
  | .evaluate _ scope _ _ :: _, _ => adrift.scopes scope
  | .read (.closure _ _ _ _ _ inside _) _ :: _, _ => adrift.scopes inside
  | .enter (.closure _ _ _ _ _ inside _) _ _ :: _, _ => adrift.scopes inside
  | _, _ => false

/-- The bounds within which there is all that is not adrift. -/
def Adrift.others (adrift : Adrift) : Bounds :=
  { Bounds.anything with
    scopes := fun id => ¬ adrift.scopes id
    tables := fun id => ¬ adrift.tables id }

/-- What is not adrift does not lead to what is. -/
theorem Adrift.others_governs (adrift : Adrift) :
    (Regime.loose adrift.others).Governs looksIntoScopes
      (looksIntoScopes.or (entersAdrift adrift)) where
  grammar := Bounds.grammar_of_total (fun _ => ⟨trivial, fun _ _ => trivial⟩)
    (fun _ => trivial) trivial
  spared _ around task heap _ within _ unmet := by
    refine ⟨?_, task.ready_of_total (fun _ => trivial) fun _ => trivial⟩
    rw [Watch.or, unmet, Bool.false_or]
    cases task with
    | evaluate evaluator scope item depth => exact Bool.eq_false_iff.mpr within.2.1
    | read value name =>
        cases value with
        | closure id shown params rest body inside owner =>
            exact Bool.eq_false_iff.mpr within.2.2.1
        | _ => rfl
    | enter closure args depth =>
        cases closure with
        | closure id shown params rest body inside owner =>
            exact Bool.eq_false_iff.mpr within.1.2.2.1
        | _ => rfl
    | call function args => rfl
  kept _ _ _ _ _ _ _ _ _ _ _ _ _ := trivial

namespace Heap.Unheld

open Eval

variable {heap : Heap} {scope table : Nat} {adrift : Adrift}
  (unheld : heap.Unheld scope table adrift) (alarm : Fault)
  (share : Share (heap.vacating scope table) (heap.table table))

theorem besides_narrower (heap : Heap) (adrift : Adrift) (scope : Nat) :
    (heap.besides adrift scope).Narrower adrift.others where
  stores _ := id
  scopes _ known := known.2.1
  evaluators _ := id
  births _ := id
  code _ := id
  contents _ _ := id
  escapes := id

/-- What is not adrift does not lead to what is. -/
theorem within_others (unheld : heap.Unheld scope table adrift) : heap.Within adrift.others where
  tables id entries kept isTable :=
    Value.entriesWithin_widen (besides_narrower heap adrift scope) entries
      (unheld.tables id entries kept isTable)
  stores id store _ isStore := (unheld.stores id store isStore).1.2
  scopes id inner kept isInner := by
    obtain ⟨varsWithin, outersKnown⟩ := unheld.scopes id inner kept isInner
    have narrower := besides_narrower heap adrift scope
    refine ⟨?_, fun each member => (outersKnown each member).2.1⟩
    cases isVars : inner.vars with
    | table own =>
        rw [isVars] at varsWithin
        exact varsWithin.2
    | inside holder =>
        rw [isVars] at varsWithin
        exact Value.within_widen narrower holder varsWithin
    | absent given =>
        rw [isVars] at varsWithin
        exact Value.within_widen narrower given varsWithin
  views entry member := ⟨fun _ => (unheld.views entry member).1.2, fun _ => trivial⟩
  losses birth left _ isLeft :=
    ⟨trivial, Value.allWithin_widen (besides_narrower heap adrift scope) left
      (unheld.losses (birth, left) (Entries.mem_of_find? isLeft))⟩
  kept _ _ _ _ _ _ := trivial
  freshTables id above isAdrift := Nat.not_lt.mpr above ((unheld.there id).2 isAdrift)
  freshScopes id above isAdrift := Nat.not_lt.mpr above ((unheld.there id).1 isAdrift)
  freshBirths _ _ := trivial
  freshContents _ _ _ := trivial

/-- What does not look into scopes and is not adrift does not tell a scope from two. -/
theorem covered :
    (unheld.pairing alarm share).CoveredBy (looksIntoScopes.or (entersAdrift adrift)) := by
  intro task around heap unmet
  obtain ⟨notInto, notAdrift⟩ := Bool.or_eq_false_iff.mp unmet
  cases task with
  | evaluate evaluator scope item depth =>
      exact ⟨ne_true_of_eq_false notAdrift, fun name _ => .inr ⟨name, rfl, trivial⟩⟩
  | read value name =>
      cases value with
      | store id => exact fun isApart => isApart.elim
      | evaluator id => exact fun lowered => lowered.elim
      | scope id =>
          have notThere : name ∉ ["vars", "parent"] := of_decide_eq_false notInto
          simp only [List.mem_cons, List.not_mem_nil, or_false, not_or] at notThere
          exact ⟨.inr notThere.1, .inr notThere.2⟩
      | closure id shown params rest body inside owner =>
          exact .inl (ne_true_of_eq_false notAdrift)
      | _ => exact trivial
  | enter closure args depth =>
      cases closure with
      | closure id shown params rest body inside owner => exact ne_true_of_eq_false notAdrift
      | _ => exact trivial
  | call function args =>
      cases function with
      | member receiver operation =>
          cases receiver with
          | scope id => cases notInto
          | evaluator id => cases notInto
          | _ => exact trivial
      | _ => exact trivial

variable {frames fewer : Nat} {depth deeper : Int}

theorem workers
    (enough : fewer ≤ frames) (around : List Task) :
    WorkersTwin (unheld.pairing alarm share)
      (watched (looksIntoScopes.or (entersAdrift adrift)) alarm frames around) (solve fewer) :=
  workers_twin (unheld.covered alarm share) (.inr ⟨⟨trivial, id⟩, enough⟩) around

/-- The scope and the inner one of two are the same place in the two runs. -/
theorem sites (le : depth ≤ deeper) (evaluator : Nat) :
    Site.Twin (unheld.pairing alarm share) ⟨evaluator, scope, depth⟩
      ⟨evaluator, heap.scopes.size, deeper⟩ :=
  ⟨⟨rfl, .inr ⟨trivial, le⟩⟩, (vacated_self _ _).symm⟩

/-- Bindings fill the scope as they fill the inner one of two. -/
theorem bindAll_shared
    (enough : fewer ≤ frames) (around : List Task) (le : depth ≤ deeper) (evaluator : Nat)
    {pairs : List (String × Value)}
    (fixed : ∀ pair ∈ pairs, pair.2.rename (heap.vacating scope table) = pair.2)
    {left right : Heap} (alike : left.Like (unheld.pairing alarm share) right) :
    ∃ last, TwinEnds (unheld.pairing alarm last) (fun result => result)
      ((bindAll (watched (looksIntoScopes.or (entersAdrift adrift)) alarm frames around)
        ⟨evaluator, scope, depth⟩ pairs).perform left)
      ((bindAll (solve fewer) ⟨evaluator, heap.scopes.size, deeper⟩ pairs).perform right) := by
  induction pairs generalizing left right share with
  | nil => exact ⟨share, .value _ left right alike⟩
  | cons pair rest inductionHypothesis =>
      obtain ⟨name, item⟩ := pair
      have ends := twin_form (unheld.workers alarm share enough around)
        (unheld.sites alarm share le evaluator) item left right alike
      rw [show item.rename (unheld.pairing alarm share).numbers = item from
        fixed (name, item) List.mem_cons_self] at ends
      rw [bindAll, bindAll, Action.perform_bind, Action.perform_bind]
      generalize (form (watched _ _ _ _) _ item).perform left = first at ends ⊢
      generalize (form (solve fewer) _ item).perform right = second at ends ⊢
      cases ends with
      | value value before other alikeStill =>
          obtain ⟨after, later, defines, definesToo, shared⟩ :=
            unheld.define_put alarm share alikeStill name value
          have further := inductionHypothesis (share.put name value)
            (fun each member => fixed each (List.mem_cons_of_mem _ member)) shared
          simp only
          rw [Action.perform_bind_ok defines, Action.perform_bind_ok definesToo]
          exact further
      | fault fault before other alikeStill => exact ⟨share, .fault fault before other alikeStill⟩
      | alarm before other => exact ⟨share, .alarm before _⟩
      | limit fault cuts other after => exact ⟨share, .limit fault cuts _ after⟩

/-- What goes on where nothing leads to what is adrift does not come to it. -/
theorem rest_of_alarm
    (unheld : heap.Unheld scope table adrift) {bounds : Bounds}
    (narrower : bounds.Narrower adrift.others) (frames : Nat) (around : List Task)
    (alarm : Fault) (evaluator birth : Nat) (depth : Int) {pairs : List (String × Value)}
    {forms : List Value} (pairsWithin : ∀ pair ∈ pairs, pair.2.Within bounds)
    (formsWithin : ∀ item ∈ forms, item.Within bounds) :
    SameUnless alarm adrift.others (fun _ => True)
      (do
        let worker := watched looksIntoScopes alarm frames around
        bindAll worker ⟨evaluator, scope, depth⟩ pairs
        bodyOf worker ⟨evaluator, scope, depth⟩ birth forms)
      (do
        let worker := watched (looksIntoScopes.or (entersAdrift adrift)) alarm frames around
        bindAll worker ⟨evaluator, scope, depth⟩ pairs
        bodyOf worker ⟨evaluator, scope, depth⟩ birth forms)
      heap := by
  have governs := adrift.others_governs
  have inside : Site.Within adrift.others ⟨evaluator, scope, depth⟩ := ⟨unheld.kept, trivial⟩
  refine SameUnless.bind (bindAll_of_alarm governs frames unheld.within_others ?_
    (fun _ _ => trivial) alarm) fun _ start _ startWithin _ => ?_
  · intro pair member
    exact ⟨trivial, unheld.kept, Value.within_widen narrower pair.2 (pairsWithin pair member),
      trivial⟩
  · refine bodyOf_of_alarm governs frames startWithin inside ?_ ?_ (fun _ => trivial) alarm
    · exact fun item member =>
        ⟨Value.within_widen narrower item (formsWithin item member), trivial⟩
    · intro later left laterWithin isLeft item member
      have leftWithin := (laterWithin.losses birth left trivial isLeft).2
      exact ⟨Value.allWithin_iff.mp leftWithin item member, trivial⟩

/-- What is bound further and evaluated in the scope ends as if it were done in one opened
inside it, unless that ends at a limit. -/
theorem rest_shared
    (enough : fewer ≤ frames) (around : List Task) (le : depth ≤ deeper) (evaluator birth : Nat)
    {pairs : List (String × Value)} {forms : List Value}
    (fixed : ∀ pair ∈ pairs, pair.2.rename (heap.vacating scope table) = pair.2)
    (fixedForms : forms.map (Value.rename (heap.vacating scope table)) = forms)
    {left : Except Fault Value × Heap}
    (ran : (do
        let worker := watched (looksIntoScopes.or (entersAdrift adrift)) alarm frames around
        bindAll worker ⟨evaluator, scope, depth⟩ pairs
        bodyOf worker ⟨evaluator, scope, depth⟩ birth forms).perform heap = left)
    (quiet : ∀ after, left ≠ (.error alarm, after)) (whole : left.2.left? birth = none) :
    ∃ last, TwinEnds (unheld.pairing alarm last) (Value.rename (heap.vacating scope table)) left
      ((bindAround (solve fewer) ⟨evaluator, scope, deeper⟩ pairs forms).perform heap) := by
  obtain ⟨outer, isScope⟩ := unheld.isScope
  have binds := unheld.bindAll_shared alarm unheld.share enough around le evaluator fixed
    (unheld.like alarm isScope)
  obtain ⟨last, ends⟩ := binds
  refine ⟨last, ?_⟩
  unfold bindAround
  rw [Action.perform_bind_ok (Heap.perform_childScope isScope []), Action.perform_bind]
  rw [Action.perform_bind] at ran
  simp only [Site.within]
  generalize (bindAll (watched _ _ _ _) _ pairs).perform heap = first at ends ran
  generalize (bindAll (solve fewer) _ pairs).perform _ = second at ends ⊢
  cases ends with
  | value _ before other alike =>
      simp only at ran ⊢
      subst ran
      have same := perform_bodyOf_whole quiet whole
      rw [same]
      have body := twin_bodyFrom (unheld.workers alarm last enough around)
        (unheld.sites alarm last le evaluator) .nil forms before other alike
      rw [show forms.map (Value.rename (unheld.pairing alarm last).numbers) = forms from
        fixedForms] at body
      exact body
  | fault fault before other alike =>
      subst ran
      exact .fault fault before other alike
  | alarm before other => exact absurd ran.symm (quiet before)
  | limit fault cuts other after => exact .limit fault cuts _ after

end Heap.Unheld

namespace Eval

theorem bindAll_append
    (worker : Worker) (site : Site) (first second : List (String × Value)) :
    bindAll worker site (first ++ second) =
      bindAll worker site first >>= fun _ => bindAll worker site second := by
  induction first with
  | nil => rfl
  | cons pair rest inductionHypothesis =>
      obtain ⟨name, item⟩ := pair
      simp only [List.cons_append, bindAll, inductionHypothesis, bind_assoc]

theorem special_letIn_append
    (worker : Worker) (site : Site) (birth : Nat) (first second : List (String × Value))
    (forms : List Value) :
    special worker site birth (.letIn (first ++ second) forms) =
      (do
        let inside ← Action.childScope site.scope []
        bindAll worker (site.within inside) first
        bindAll worker (site.within inside) second
        bodyOf worker (site.within inside) birth forms) := by
  simp only [special, bindAll_append, bind_assoc]

theorem bindAround_singleton
    (worker : Worker) (site : Site) (pairs : List (String × Value)) (item : Value) :
    bindAround worker site pairs [item] =
      (do
        let inside ← Action.childScope site.scope []
        bindAll worker (site.within inside) pairs
        form worker (site.within inside) item) := by
  simp only [bindAround, bodyFrom, bind_pure]

end Eval

/-- The bounds within which there are the scopes that a heap has. -/
def Heap.earlier (heap : Heap) : Bounds :=
  { Bounds.anything with scopes := fun id => id < heap.scopes.size }

theorem Heap.scope_of_childScope
    {heap opened : Heap} {parent inside : Nat} {vars : ValueEntries}
    (opens : (Action.childScope parent vars).perform heap = (.ok inside, opened)) :
    inside = heap.scopes.size := by
  rw [Heap.perform_childScope_eq] at opens
  split at opens
  · exact (Except.ok.inj (Prod.mk.inj opens).1).symm
  · cases opens

/-- The scopes that were there before keep their numbers. -/
theorem Heap.Unheld.vacating_fixes_earlier
    {heap opened bound : Heap} {parent inside table : Nat} {adrift : Adrift}
    {vars : ValueEntries} (unheld : bound.Unheld inside table adrift)
    (opens : (Action.childScope parent vars).perform heap = (.ok inside, opened)) :
    (bound.vacating inside table).Fixes heap.earlier where
  births _ := rfl
  scopes _ id earlier := by
    have isNew := Heap.scope_of_childScope opens
    have below := unheld.scope_lt
    change id < heap.scopes.size at earlier
    exact vacated_of_lt (by omega) (by omega)

/-- Whether nothing leads to a scope but for what was opened since and is out of reach itself. -/
def Heap.UnheldSince (later heap : Heap) (scope : Nat) : Prop :=
  ∃ table adrift, later.Unheld scope table adrift ∧
    ∀ id, adrift.scopes id → heap.scopes.size ≤ id

/-- What was there earlier is not adrift if all that is adrift came since. -/
theorem Adrift.earlier_narrower
    {heap : Heap} {adrift : Adrift} (since : ∀ id, adrift.scopes id → heap.scopes.size ≤ id) :
    heap.earlier.Narrower adrift.others where
  stores _ := id
  scopes id earlier isAdrift := Nat.not_lt.mpr (since id isAdrift) earlier
  evaluators _ := id
  births _ := id
  code _ := id
  contents _ _ := id
  escapes := id

/-- Whether two runs end alike but for the numbers of scopes: with the same value or fault,
and with the same in all stores. -/
structure EndsAlike (ρ : Renaming) (first second : Except Fault Value × Heap) : Prop where
  outcome : second.1 = first.1.map (Value.rename ρ)
  names : second.2.stores.map Store.name = first.2.stores.map Store.name
  entries : ∀ id, second.2.entries id = (first.2.entries id).map (Value.renameEntry ρ)

/-- Whether a `let` is split into one of its first pairs around one of the others and its
body. -/
structure LetForm.Splits (whole outer inner : LetForm) : Prop where
  pairs : whole.pairs = outer.pairs ++ inner.pairs
  around : outer.forms = [inner.form]
  body : inner.forms = whole.forms

theorem TwinEnds.endsAlike
    {pairing : Pairing} {first second : Except Fault Value × Heap}
    (ends : TwinEnds pairing (Value.rename pairing.numbers) first second)
    (quiet : ∀ after, first ≠ (.error pairing.alarm, after))
    (unlimited : ∀ fault, second.1 = .error fault → ¬ fault.IsLimit) :
    EndsAlike pairing.numbers first second := by
  have names {left right : Heap} (like : left.Like pairing right) :
      right.stores.map Store.name = left.stores.map Store.name := by
    rw [like.stores, Array.map_map]
    rfl
  cases ends with
  | value result left right like => exact ⟨rfl, names like, like.entries⟩
  | fault fault left right like => exact ⟨rfl, names like, like.entries⟩
  | alarm left other => exact absurd rfl (quiet left)
  | limit fault cuts other right => exact absurd cuts.2.1 (unlimited fault rfl)

theorem EndsAlike.refl (ending : Except Fault Value × Heap) :
    EndsAlike .identity ending ending := by
  constructor
  · obtain ⟨outcome, heap⟩ := ending
    cases outcome with
    | error fault => rfl
    | ok value => exact congrArg Except.ok (Value.rename_identity value).symm
  · rfl
  · intro id
    exact (Value.map_renameEntry_identity _).symm

namespace LetForm

open Eval

/-- What may be met in a `let` may be met in its parts. -/
theorem parts_within (binding : LetForm) {bounds : Bounds} (within : binding.form.Within bounds) :
    (∀ pair ∈ binding.pairs, pair.2.Within bounds) ∧
      ∀ item ∈ binding.forms, item.Within bounds := by
  have isForm : SpecialForm.ofForm? "let" (.symbol "let" :: binding.bindings :: binding.forms) =
      some (.ok (.letIn binding.pairs binding.forms)) := congrArg some binding.shape
  exact SpecialForm.all_within within.2 isForm

/-- In a scope that nothing leads to, the rest of a `let` goes on as a `let` of its own. -/
theorem rest_endsAlike
    (inner : LetForm) {bound : Heap} {scope table : Nat} {adrift : Adrift}
    (unheld : bound.Unheld scope table adrift)
    {bounds : Bounds} (fixes : (bound.vacating scope table).Fixes bounds)
    (narrower : bounds.Narrower adrift.others)
    (pairsWithin : ∀ pair ∈ inner.pairs, pair.2.Within bounds)
    (formsWithin : ∀ item ∈ inner.forms, item.Within bounds)
    {frames evaluator birth : Nat} {around : List Task} {depth : Int} {alarm : Fault}
    {left : Except Fault Value × Heap}
    (ran : (do
        let worker := watched looksIntoScopes alarm frames around
        bindAll worker ⟨evaluator, scope, depth⟩ inner.pairs
        bodyOf worker ⟨evaluator, scope, depth⟩ birth inner.forms).perform bound = left)
    (quiet : ∀ after, left ≠ (.error alarm, after)) (whole : left.2.left? birth = none)
    (wholeInner : inner.IsWhole ((solve frames
      (.evaluate evaluator scope inner.form depth)).perform bound).2)
    (unlimited : ∀ fault, ((solve frames
      (.evaluate evaluator scope inner.form depth)).perform bound).1 = .error fault →
        ¬ fault.IsLimit) :
    EndsAlike (bound.vacating scope table) left
      ((solve frames (.evaluate evaluator scope inner.form depth)).perform bound) := by
  cases frames with
  | zero => exact absurd trivial (unlimited _ rfl)
  | succ fewer =>
      by_cases deep : bound.maxDepth evaluator < depth
      · rw [solve, perform_evaluate, if_pos deep] at unlimited
        exact absurd trivial (unlimited _ rfl)
      · rw [inner.perform_solve fewer deep wholeInner] at unlimited ⊢
        have fixed : ∀ pair ∈ inner.pairs,
            pair.2.rename (bound.vacating scope table) = pair.2 :=
          fun pair member => fixes.rename_eq pair.2 (pairsWithin pair member)
        have fixedForms : inner.forms.map (Value.rename (bound.vacating scope table)) =
            inner.forms :=
          Heap.Settled.map_eq_of_forall fun item member =>
            fixes.rename_eq item (formsWithin item member)
        have ranToo := (unheld.rest_of_alarm narrower (fewer + 1) around alarm evaluator birth
          depth pairsWithin formsWithin fun after stopped => quiet after (ran.symm.trans stopped)).1
        obtain ⟨last, ends⟩ := unheld.rest_shared alarm (Nat.le_succ fewer) around
          (Int.le_add_one (Int.le_refl depth)) evaluator birth fixed fixedForms
          (ranToo.trans ran) quiet whole
        exact ends.endsAlike quiet unlimited

/-- A `let` that is up to date is evaluated to what its bindings and its body are, also where
a watch looks on. -/
theorem perform_watched_form
    (binding : LetForm) (frames : Nat) {heap : Heap} {evaluator : Nat} {depth : Int}
    (upToDate : heap.current binding.form = binding.form)
    (shallow : ¬ heap.maxDepth evaluator < depth) (alarm : Fault) (scope : Nat) :
    ∃ around, (watched looksIntoScopes alarm (frames + 1) []
        (.evaluate evaluator scope binding.form depth)).perform heap =
      (special (watched looksIntoScopes alarm frames around) ⟨evaluator, scope, depth + 1⟩
        binding.birth (.letIn binding.pairs binding.forms)).perform heap := by
  have isForm : SpecialForm.ofForm? "let" (.symbol "let" :: binding.bindings :: binding.forms) =
      some (.ok (.letIn binding.pairs binding.forms)) := congrArg some binding.shape
  refine ⟨[.evaluate evaluator scope binding.form depth], ?_⟩
  rw [perform_watched_succ]
  change (step _ _).perform heap = _
  rw [perform_evaluate_shallow _ shallow, upToDate, form, formAt_of_ofForm isForm]
  rfl

/-- Whether nothing leads to the scope of a `let` when its names are bound. -/
def KeepsScope (binding : LetForm) (frames : Nat) (site : Site) (heap : Heap) : Prop :=
  ∀ inside opened bound,
    (Action.childScope site.scope []).perform heap = (.ok inside, opened) →
    (bindAll (solve frames) (site.inner.within inside) binding.pairs).perform opened =
      (.ok ⟨⟩, bound) →
    bound.UnheldSince heap inside

/-- The first pairs are bound alike, whatever follows. -/
theorem Splits.endsAlike_of_quiet
    {whole outer inner : LetForm} (splits : whole.Splits outer inner) (frames : Nat)
    {evaluator scope : Nat} {depth : Int} {heap : Heap} {alarm : Fault}
    (upToDate : heap.current whole.form = whole.form)
    (known : whole.form.Within heap.earlier)
    (quiet : ∀ after, (watched looksIntoScopes alarm (frames + 1) []
      (.evaluate evaluator scope whole.form depth)).perform heap ≠ (.error alarm, after))
    (wholeKept : whole.IsWhole ((solve (frames + 1)
      (.evaluate evaluator scope whole.form depth)).perform heap).2)
    (outerKept : outer.IsWhole ((solve (frames + 1)
      (.evaluate evaluator scope outer.form depth)).perform heap).2)
    (innerKept : inner.IsWhole ((solve (frames + 1)
      (.evaluate evaluator scope outer.form depth)).perform heap).2)
    (keeps : outer.KeepsScope frames ⟨evaluator, scope, depth⟩ heap)
    (unlimited : ∀ fault, ((solve (frames + 1)
      (.evaluate evaluator scope outer.form depth)).perform heap).1 = .error fault →
        ¬ fault.IsLimit) :
    ∃ ρ : Renaming, ρ.Fixes heap.earlier ∧
      EndsAlike ρ
        ((solve (frames + 1) (.evaluate evaluator scope whole.form depth)).perform heap)
        ((solve (frames + 1) (.evaluate evaluator scope outer.form depth)).perform heap) := by
  by_cases deep : heap.maxDepth evaluator < depth
  · rw [solve, perform_evaluate, if_pos deep] at unlimited
    exact absurd trivial (unlimited _ rfl)
  · obtain ⟨around, same⟩ := whole.perform_watched_form frames upToDate deep alarm scope
    rw [outer.perform_solve frames deep outerKept, splits.around, bindAround_singleton]
      at unlimited innerKept ⊢
    rw [← watched_of_quiet quiet] at wholeKept ⊢
    rw [same, splits.pairs, special_letIn_append] at quiet wholeKept ⊢
    rcases opens : (Action.childScope scope []).perform heap with ⟨fault | inside, opened⟩
    · rw [Action.perform_bind_error opens, Action.perform_bind_error opens]
      exact ⟨.identity, Renaming.identity_fixes _, .refl _⟩
    · rw [Action.perform_bind_ok opens] at quiet wholeKept unlimited innerKept ⊢
      rw [Action.perform_bind_ok opens]
      simp only [Site.within] at quiet wholeKept unlimited innerKept ⊢
      have first := bindAll_of_quiet fun after stopped =>
        quiet after (Action.perform_bind_error stopped)
      rcases binds : (bindAll (solve frames) ⟨evaluator, inside, depth + 1⟩
        outer.pairs).perform opened with ⟨fault | _, bound⟩
      · rw [Action.perform_bind_error (first.trans binds), Action.perform_bind_error binds]
        exact ⟨.identity, Renaming.identity_fixes _, .refl _⟩
      · obtain ⟨table, adrift, isUnheld, since⟩ := keeps inside opened bound opens binds
        rw [Action.perform_bind_ok (first.trans binds), ← splits.body] at quiet wholeKept ⊢
        rw [Action.perform_bind_ok binds] at unlimited innerKept ⊢
        have fixes := isUnheld.vacating_fixes_earlier opens
        obtain ⟨pairsWithin, formsWithin⟩ := whole.parts_within known
        have within : (∀ pair ∈ inner.pairs, pair.2.Within heap.earlier) ∧
            ∀ item ∈ inner.forms, item.Within heap.earlier := by
          rw [splits.body]
          refine ⟨fun pair member => pairsWithin pair ?_, formsWithin⟩
          rw [splits.pairs]
          exact List.mem_append_right outer.pairs member
        exact ⟨_, fixes, inner.rest_endsAlike isUnheld fixes (Adrift.earlier_narrower since)
          within.1 within.2 rfl quiet wholeKept.1 innerKept unlimited⟩

/-- How the evaluation of a `let` at a site ends. -/
def ending (binding : LetForm) (site : Site) (heap : Heap) : Except Fault Value × Heap :=
  (perform (.evaluate site.evaluator site.scope binding.form site.depth)).perform heap

/-- A `let` of some pairs around some forms. -/
def ofPairs (pairs : List (String × Value)) (forms : List Value) : LetForm where
  birth := 0
  bindings := .vector (pairs.flatMap fun each => [.symbol each.1, each.2]) 0
  pairs := pairs
  forms := forms
  shape := by
    have bound : SpecialForm.bindingPairs (pairs.flatMap fun each => [.symbol each.1, each.2]) =
        .ok pairs := by
      induction pairs with
      | nil => rfl
      | cons pair rest inductionHypothesis =>
          change SpecialForm.bindingPairs (.symbol pair.1 :: pair.2 :: rest.flatMap _) = _
          rw [SpecialForm.bindingPairs, inductionHypothesis]
          rfl
    simp [SpecialForm.asLet, SpecialForm.bindings, bound, Value.sequence?]

theorem splits_ofPairs (first second : List (String × Value)) (forms : List Value) :
    (ofPairs (first ++ second) forms).Splits (ofPairs first [(ofPairs second forms).form])
      (ofPairs second forms) := ⟨rfl, rfl, rfl⟩

/-- `((fn [x] x) 1)`. -/
def called : Value :=
  .list [.list [.symbol "fn", .vector [.symbol "x"] 0, .symbol "x"] 0, .int 1] 0

/-- The heap when what `called` gives is bound to `a`: the last scope is the one of the call,
and nothing leads to it any more. -/
def calledBound : Heap where
  tables := #[[], [(.str "a", .int 1)], [(.str "x", .int 1)]]
  views := []
  stores := #[]
  scopes := #[⟨.table 0, []⟩, ⟨.table 1, [0]⟩, ⟨.table 2, [1, 0]⟩]
  evaluators := #[]
  losses := []
  births := rootHeap.births + 1

theorem unheld_calledBound :
    calledBound.Unheld 1 1 { scopes := fun id => id == 2, tables := fun id => id == 2 } where
  isScope := ⟨[0], rfl⟩
  kept := by decide
  there id := by
    simp only [beq_iff_eq]
    constructor
    · rintro rfl
      decide
    · rintro rfl
      decide
  tables id entries kept isTable := by
    match id, isTable with
    | 0, isTable =>
      cases isTable
      trivial
    | 1, isTable =>
      cases isTable
      exact ⟨⟨trivial, trivial⟩, trivial⟩
    | 2, isTable => exact absurd rfl kept
  losses := nofun
  scopes id inner kept isInner := by
    match id, isInner with
    | 0, isInner =>
      cases isInner
      exact ⟨⟨by decide, by decide⟩, nofun⟩
    | 1, isInner =>
      cases isInner
      refine ⟨⟨by decide, by decide⟩, fun outer member => ?_⟩
      cases List.mem_singleton.mp member
      exact ⟨by decide, by decide, by decide⟩
    | 2, isInner => exact absurd rfl kept
  stores id store isStore := by simp [calledBound] at isStore
  views := nofun
  alone id outer kept isOther := by
    match id, isOther with
    | 0, isOther => cases isOther
    | 1, isOther => rfl
    | 2, isOther => exact absurd rfl kept

instance (outcome : Except Fault Value) (fault : Fault) : Decidable (outcome = .error fault) :=
  match outcome with
  | .ok _ => .isFalse nofun
  | .error other => decidable_of_iff (other = fault) ⟨congrArg _, Except.error.inj⟩

/-- `(fn [] x)`. -/
def lateName : Value := .list [.symbol "fn", .vector [] 0, .symbol "x"] 0

end LetForm

end CueScript
