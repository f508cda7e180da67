import CueScript.SpecialForm

/-!
# Parts of special forms

`SpecialForm.All` says of what a special form is taken apart into that the quoted form
and the forms to evaluate are of some kind.  They are of the kind that the items of the
list and the items of its bindings are of.
-/

namespace CueScript

namespace SpecialForm

/-- Whether the quoted form and the forms to evaluate are of some kind. -/
def All (quoted evaluated : Value → Prop) : SpecialForm → Prop
  | .quote form => quoted form
  | .ifThen test yes no =>
      evaluated test ∧ evaluated yes ∧ ∀ each, no = some each → evaluated each
  | .when test body => evaluated test ∧ ∀ form ∈ body, evaluated form
  | .whenNot test body => evaluated test ∧ ∀ form ∈ body, evaluated form
  | .and forms => ∀ form ∈ forms, evaluated form
  | .or forms => ∀ form ∈ forms, evaluated form
  | .sequence body => ∀ form ∈ body, evaluated form
  | .letIn bindings body =>
      (∀ pair ∈ bindings, evaluated pair.2) ∧ ∀ form ∈ body, evaluated form
  | .whenLet _ test body => evaluated test ∧ ∀ form ∈ body, evaluated form
  | .ifLet _ test yes no =>
      evaluated test ∧ evaluated yes ∧ ∀ each, no = some each → evaluated each
  | .cond clauses => ∀ clause ∈ clauses, evaluated clause.1 ∧ evaluated clause.2
  | .function _ _ _ body => ∀ form ∈ body, evaluated form

variable {p q : Value → Prop}

theorem All.and
    {furtherQ furtherP : Value → Prop} {parts : SpecialForm}
    (all : parts.All q p) (further : parts.All furtherQ furtherP) :
    parts.All (fun form => q form ∧ furtherQ form) (fun form => p form ∧ furtherP form) := by
  have both {forms : List Value} (first : ∀ form ∈ forms, p form)
      (second : ∀ form ∈ forms, furtherP form) :
      ∀ form ∈ forms, p form ∧ furtherP form :=
    fun form member => ⟨first form member, second form member⟩
  cases parts with
  | quote form => exact ⟨all, further⟩
  | ifThen test yes no =>
      exact ⟨⟨all.1, further.1⟩, ⟨all.2.1, further.2.1⟩,
        fun each same => ⟨all.2.2 each same, further.2.2 each same⟩⟩
  | when test body => exact ⟨⟨all.1, further.1⟩, both all.2 further.2⟩
  | whenNot test body => exact ⟨⟨all.1, further.1⟩, both all.2 further.2⟩
  | and forms => exact both all further
  | or forms => exact both all further
  | sequence body => exact both all further
  | letIn bindings body =>
      exact ⟨fun pair member => ⟨all.1 pair member, further.1 pair member⟩,
        both all.2 further.2⟩
  | whenLet name test body => exact ⟨⟨all.1, further.1⟩, both all.2 further.2⟩
  | ifLet name test yes no =>
      exact ⟨⟨all.1, further.1⟩, ⟨all.2.1, further.2.1⟩,
        fun each same => ⟨all.2.2 each same, further.2.2 each same⟩⟩
  | cond clauses =>
      exact fun clause member =>
        ⟨⟨(all clause member).1, (further clause member).1⟩,
          (all clause member).2, (further clause member).2⟩
  | function name params rest body => exact both all further

theorem All.quotes
    {furtherQ : Value → Prop} {parts : SpecialForm}
    (all : parts.All q p) (implies : ∀ form, q form → furtherQ form) :
    parts.All furtherQ p := by
  cases parts with
  | quote form => exact implies form all
  | _ => exact all

theorem bindingPairs_all
    {items : List Value} {pairs : List (String × Value)}
    (all : ∀ item ∈ items, p item)
    (isPairs : bindingPairs items = .ok pairs) :
    ∀ pair ∈ pairs, p pair.2 := by
  fun_induction bindingPairs items generalizing pairs with
  | case1 name form rest inductionHypothesis =>
      cases later : bindingPairs rest with
      | error fault =>
          rw [later] at isPairs
          cases isPairs
      | ok others =>
          rw [later] at isPairs
          cases isPairs
          have restAll : ∀ item ∈ rest, p item := fun item member =>
            all item (List.mem_cons_of_mem _ (List.mem_cons_of_mem _ member))
          intro pair member
          rcases List.mem_cons.mp member with rfl | member
          · exact all form (List.mem_cons_of_mem _ List.mem_cons_self)
          · exact inductionHypothesis restAll later pair member
  | case2 => cases isPairs
  | case3 =>
      cases isPairs
      intro pair member
      cases member

theorem bindings_all
    {form : List Value} {pairs : List (String × Value)}
    (bindingsFit : ∀ vector items, form[1]? = some vector → vector.sequence? = some items →
      ∀ item ∈ items, p item)
    (isPairs : bindings form = .ok pairs) :
    ∀ pair ∈ pairs, p pair.2 := by
  unfold bindings at isPairs
  split at isPairs
  · rename_i vector _
    split at isPairs
    · rename_i items isSequence
      split at isPairs
      · exact bindingPairs_all (bindingsFit vector items rfl isSequence) isPairs
      · cases isPairs
    · cases isPairs
  · cases isPairs

theorem clausePairs_all
    {items : List Value} (all : ∀ item ∈ items, p item) :
    ∀ clause ∈ clausePairs items, p clause.1 ∧ p clause.2 := by
  fun_induction clausePairs items with
  | case1 test form rest inductionHypothesis =>
      intro clause member
      rcases List.mem_cons.mp member with rfl | member
      · exact ⟨all test List.mem_cons_self,
          all form (List.mem_cons_of_mem _ List.mem_cons_self)⟩
      · refine inductionHypothesis (fun item isItem => ?_) clause member
        exact all item (List.mem_cons_of_mem _ (List.mem_cons_of_mem _ isItem))
  | case2 =>
      intro clause member
      cases member

theorem functionOf_all
    {name : String} {items : List Value} {parts : SpecialForm}
    (all : ∀ item ∈ items, p item)
    (isFunction : functionOf name items = .ok parts) :
    parts.All q p := by
  unfold functionOf at isFunction
  split at isFunction
  · cases isFunction
  · rename_i vector body
    split at isFunction
    · cases isFunction
    · rename_i names _
      cases isNames : parameters names with
      | error fault =>
          rw [isNames] at isFunction
          cases isFunction
      | ok found =>
          rw [isNames] at isFunction
          cases isFunction
          exact fun form member => all form (List.mem_cons_of_mem _ member)

theorem asFunction_all
    {form : List Value} {parts : SpecialForm}
    (all : ∀ item ∈ form, p item)
    (isParts : asFunction form = .ok parts) :
    parts.All q p := by
  have tailAll : ∀ item ∈ form.tail, p item := fun item member =>
    all item (List.mem_of_mem_tail member)
  unfold asFunction at isParts
  split at isParts
  · rename_i name others isTail
    refine functionOf_all (fun item member => tailAll item ?_) isParts
    rw [isTail]
    exact List.mem_cons_of_mem _ member
  · exact functionOf_all tailAll isParts

theorem exists_of_functionOf
    {name : String} {items : List Value} {parts : SpecialForm}
    (isFunction : functionOf name items = .ok parts) :
    ∃ name params rest body, parts = .function name params rest body := by
  unfold functionOf at isFunction
  split at isFunction
  · cases isFunction
  · split at isFunction
    · cases isFunction
    · rename_i names _
      cases isNames : parameters names with
      | error fault =>
          rw [isNames] at isFunction
          cases isFunction
      | ok found =>
          rw [isNames] at isFunction
          cases isFunction
          exact ⟨_, _, _, _, rfl⟩

theorem exists_of_asFunction
    {form : List Value} {parts : SpecialForm}
    (isParts : asFunction form = .ok parts) :
    ∃ name params rest body, parts = .function name params rest body := by
  unfold asFunction at isParts
  split at isParts
  · exact exists_of_functionOf isParts
  · exact exists_of_functionOf isParts

theorem asIf_all
    {form : List Value} {parts : SpecialForm}
    (all : ∀ item ∈ form, p item)
    (isParts : asIf form = .ok parts) :
    parts.All q p := by
  unfold asIf at isParts
  split at isParts
  · cases isParts
    simp only [List.mem_cons, List.not_mem_nil, or_false, forall_eq_or_imp, forall_eq] at all
    exact ⟨all.2.1, all.2.2, fun _ same => nomatch same⟩
  · cases isParts
    simp only [List.mem_cons, List.not_mem_nil, or_false, forall_eq_or_imp, forall_eq] at all
    refine ⟨all.2.1, all.2.2.1, ?_⟩
    rintro _ ⟨⟩
    exact all.2.2.2
  · cases isParts

theorem asGuarded_all
    {name : String} {make : Value → List Value → SpecialForm}
    {form : List Value} {parts : SpecialForm}
    (makes : ∀ test body, p test → (∀ form ∈ body, p form) → (make test body).All q p)
    (all : ∀ item ∈ form, p item)
    (isParts : asGuarded name make form = .ok parts) :
    parts.All q p := by
  unfold asGuarded at isParts
  split at isParts
  · rename_i test body
    cases isParts
    refine makes test body ?_ fun form member => ?_
    · exact all test (List.mem_cons_of_mem _ List.mem_cons_self)
    · exact all form (List.mem_cons_of_mem _ (List.mem_cons_of_mem _ member))
  · cases isParts

theorem asLet_all
    {form : List Value} {parts : SpecialForm}
    (bindingsFit : ∀ vector items, form[1]? = some vector → vector.sequence? = some items →
      ∀ item ∈ items, p item)
    (all : ∀ item ∈ form, p item)
    (isParts : asLet form = .ok parts) :
    parts.All q p := by
  unfold asLet at isParts
  cases isPairs : bindings form with
  | error fault =>
      rw [isPairs] at isParts
      cases isParts
  | ok pairs =>
      rw [isPairs] at isParts
      cases isParts
      exact ⟨bindings_all bindingsFit isPairs,
        fun item member => all item (List.mem_of_mem_drop member)⟩

theorem asWhenLet_all
    {form : List Value} {parts : SpecialForm}
    (bindingsFit : ∀ vector items, form[1]? = some vector → vector.sequence? = some items →
      ∀ item ∈ items, p item)
    (all : ∀ item ∈ form, p item)
    (isParts : asWhenLet form = .ok parts) :
    parts.All q p := by
  unfold asWhenLet at isParts
  cases isPairs : bindings form with
  | error fault =>
      rw [isPairs] at isParts
      cases isParts
  | ok pairs =>
      rw [isPairs] at isParts
      have pairsFit := bindings_all bindingsFit isPairs
      simp only [bind, Except.bind] at isParts
      split at isParts
      · cases isParts
        exact ⟨pairsFit _ List.mem_cons_self,
          fun item member => all item (List.mem_of_mem_drop member)⟩
      · cases isParts

theorem asIfLet_all
    {form : List Value} {parts : SpecialForm}
    (bindingsFit : ∀ vector items, form[1]? = some vector → vector.sequence? = some items →
      ∀ item ∈ items, p item)
    (all : ∀ item ∈ form, p item)
    (isParts : asIfLet form = .ok parts) :
    parts.All q p := by
  unfold asIfLet at isParts
  cases isPairs : bindings form with
  | error fault =>
      rw [isPairs] at isParts
      cases isParts
  | ok pairs =>
      rw [isPairs] at isParts
      have pairsFit := bindings_all bindingsFit isPairs
      simp only [bind, Except.bind] at isParts
      split at isParts
      · cases isParts
        refine ⟨pairsFit _ List.mem_cons_self, ?_, fun _ same => nomatch same⟩
        exact all _ (List.mem_cons_of_mem _ (List.mem_cons_of_mem _ List.mem_cons_self))
      · cases isParts
        simp only [List.mem_cons, List.not_mem_nil, or_false, forall_eq_or_imp,
          forall_eq] at all
        refine ⟨pairsFit _ List.mem_cons_self, all.2.2.1, ?_⟩
        rintro _ ⟨⟩
        exact all.2.2.2
      · cases isParts

/-- The heads of lists that bind the values of forms. -/
def binds (head : String) : Bool := ["let", "when-let", "if-let"].contains head

/-- The parts of a list are of the same kind as its items and as the items of its
bindings; the parts of a quotation can be of another kind. -/
theorem ofForm_all
    {head : String} {form : List Value} {parts : SpecialForm}
    (quotes : head = "quote" → ∀ item ∈ form, q item)
    (bindingsFit : binds head = true → ∀ vector items, form[1]? = some vector →
      vector.sequence? = some items → ∀ item ∈ items, p item)
    (all : head ≠ "quote" → ∀ item ∈ form, p item)
    (isParts : ofForm? head form = some (.ok parts)) :
    parts.All q p := by
  have tailAll : head ≠ "quote" → ∀ item ∈ form.tail, p item := fun other item member =>
    all other item (List.mem_of_mem_tail member)
  unfold ofForm? at isParts
  split at isParts <;> simp only [Option.some.injEq, reduceCtorEq] at isParts
  · unfold asQuote at isParts
    split at isParts
    · cases isParts
      exact quotes rfl _ (List.mem_cons_of_mem _ List.mem_cons_self)
    · cases isParts
  · exact asIf_all (all (by decide)) isParts
  · refine asGuarded_all ?_ (all (by decide)) isParts
    exact fun _ _ testFits bodyFits => ⟨testFits, bodyFits⟩
  · refine asGuarded_all ?_ (all (by decide)) isParts
    exact fun _ _ testFits bodyFits => ⟨testFits, bodyFits⟩
  · cases isParts
    exact tailAll (by decide)
  · cases isParts
    exact tailAll (by decide)
  · cases isParts
    exact tailAll (by decide)
  · exact asLet_all (bindingsFit (by decide)) (all (by decide)) isParts
  · exact asWhenLet_all (bindingsFit (by decide)) (all (by decide)) isParts
  · exact asIfLet_all (bindingsFit (by decide)) (all (by decide)) isParts
  · unfold asCond at isParts
    split at isParts
    · cases isParts
      exact clausePairs_all (tailAll (by decide))
    · cases isParts
  · exact asFunction_all (all (by decide)) isParts

end SpecialForm

end CueScript
