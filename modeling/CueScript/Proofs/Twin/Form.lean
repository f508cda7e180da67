import CueScript.Expansion
import CueScript.Proofs.Shape.Outline
import CueScript.Proofs.Twin.Heap
import CueScript.SpecialForm

/-!
# Special forms under other numbers

A renamed list is taken apart as the list is: as the same special form with renamed
parts, or with the same fault.
-/

namespace CueScript

open Value

namespace Malformation

/-- What is wrong with a list, under other numbers. -/
def rename (ρ : Renaming) : Malformation → Malformation
  | unbindable name => .unbindable (name.rename ρ)
  | badParameter parameter => .badParameter (parameter.rename ρ)
  | why => why

end Malformation

namespace ShapeFault

/-- Why a list is no special form, under other numbers. -/
def rename (ρ : Renaming) : ShapeFault → ShapeFault
  | arity name expected got => .arity name expected got
  | malformed why => .malformed (why.rename ρ)

theorem toFault_rename
    {pairing : Pairing} {left right : Heap} (like : left.Like pairing right)
    (form : List Value) (fault : ShapeFault) :
    (fault.rename pairing.numbers).toFault right
        (form.map (Value.rename pairing.numbers)) =
      fault.toFault left form := by
  cases fault with
  | arity name expected got => rfl
  | malformed why =>
      have head : right.source ((form.map (Value.rename pairing.numbers)).headD .nil) =
          left.source (form.headD .nil) := by
        cases form with
        | nil => exact like.source .nil
        | cons first rest => exact like.source first
      have whole : right.source (.list (form.map (Value.rename pairing.numbers)) 0) =
          left.source (.list form 0) := by
        have same := like.source (.list form 0)
        rw [rename_list, pairing.numbers.births_zero] at same
        exact same
      have reason : (why.rename pairing.numbers).text right = why.text left := by
        cases why with
        | unbindable name => simp only [Malformation.rename, Malformation.text, like.source]
        | badParameter name => simp only [Malformation.rename, Malformation.text, like.source]
        | _ => rfl
      simp only [rename, toFault, head, whole, reason]

end ShapeFault

namespace SpecialForm

variable (ρ : Renaming)

/-- A special form with renamed parts. -/
def rename : SpecialForm → SpecialForm
  | quote form => .quote (form.rename ρ)
  | ifThen test yes no => .ifThen (test.rename ρ) (yes.rename ρ) (no.map (Value.rename ρ))
  | when test body => .when (test.rename ρ) (body.map (Value.rename ρ))
  | whenNot test body => .whenNot (test.rename ρ) (body.map (Value.rename ρ))
  | and forms => .and (forms.map (Value.rename ρ))
  | or forms => .or (forms.map (Value.rename ρ))
  | sequence body => .sequence (body.map (Value.rename ρ))
  | letIn bindings body => .letIn (bindings.map (renameMember ρ)) (body.map (Value.rename ρ))
  | whenLet name test body => .whenLet name (test.rename ρ) (body.map (Value.rename ρ))
  | ifLet name test yes no =>
      .ifLet name (test.rename ρ) (yes.rename ρ) (no.map (Value.rename ρ))
  | cond clauses => .cond (clauses.map (renameEntry ρ))
  | function name params rest body => .function name params rest (body.map (Value.rename ρ))

/-- What taking a list apart gives, under other numbers. -/
def renameResult {α : Type} (image : α → α) :
    Except ShapeFault α → Except ShapeFault α
  | .ok parts => .ok (image parts)
  | .error fault => .error (fault.rename ρ)

theorem bindingPairs_rename (items : List Value) :
    bindingPairs (items.map (Value.rename ρ)) =
      renameResult ρ (List.map (renameMember ρ)) (bindingPairs items) := by
  fun_induction bindingPairs items with
  | case1 name form rest inductionHypothesis =>
      simp only [List.map_cons, rename_symbol, bindingPairs, inductionHypothesis]
      cases bindingPairs rest <;> rfl
  | case2 name form rest notSymbol =>
      cases name with
      | symbol name => exact (notSymbol name rfl).elim
      | _ => rfl
  | case3 items notPairs notOther =>
      rcases items with _ | ⟨first, _ | ⟨second, rest⟩⟩
      · rfl
      · cases first <;> rfl
      · exact (notOther first second rest rfl).elim

theorem bindings_rename (form : List Value) :
    bindings (form.map (Value.rename ρ)) =
      renameResult ρ (List.map (renameMember ρ)) (bindings form) := by
  rcases form with _ | ⟨head, _ | ⟨vector, rest⟩⟩
  · rfl
  · rfl
  · simp only [List.map_cons, bindings, sequence_rename]
    cases vector.sequence? with
    | none => rfl
    | some items =>
        simp only [Option.map_some, List.length_map, bindingPairs_rename]
        split <;> rfl

theorem clausePairs_rename (forms : List Value) :
    clausePairs (forms.map (Value.rename ρ)) = (clausePairs forms).map (renameEntry ρ) := by
  fun_induction clausePairs forms with
  | case1 test form rest inductionHypothesis =>
      simp only [List.map_cons, clausePairs, inductionHypothesis, renameEntry_mk]
  | case2 forms notPair =>
      rcases forms with _ | ⟨first, _ | ⟨second, rest⟩⟩
      · rfl
      · rfl
      · exact (notPair first second rest rfl).elim

theorem parameters_rename (items : List Value) :
    parameters (items.map (Value.rename ρ)) =
      renameResult ρ (fun parts => parts) (parameters items) := by
  fun_induction parameters items with
  | case1 => rfl
  | case2 rest => simp [parameters, renameResult, pure, Except.pure]
  | case3 others notOne =>
      rcases others with _ | ⟨first, _ | ⟨second, rest⟩⟩
      · rfl
      · cases first with
        | symbol rest => exact (notOne rest rfl).elim
        | _ => rfl
      · cases first <;> rfl
  | case4 name others notRest inductionHypothesis =>
      simp only [List.map_cons, rename_symbol, parameters, if_neg notRest, inductionHypothesis]
      cases parameters others <;> rfl
  | case5 other rest notSymbol =>
      cases other with
      | symbol name => exact (notSymbol name rfl).elim
      | _ => rfl

theorem functionOf_rename (name : String) (parts : List Value) :
    functionOf name (parts.map (Value.rename ρ)) =
      renameResult ρ (rename ρ) (functionOf name parts) := by
  cases parts with
  | nil => rfl
  | cons vector body =>
      simp only [List.map_cons, functionOf, sequence_rename]
      cases vector.sequence? with
      | none => rfl
      | some items =>
          simp only [Option.map_some, parameters_rename]
          cases parameters items <;> rfl

theorem asLet_rename (form : List Value) :
    asLet (form.map (Value.rename ρ)) = renameResult ρ (rename ρ) (asLet form) := by
  simp only [asLet, bindings_rename, ← List.map_drop]
  cases bindings form <;> rfl

theorem asWhenLet_rename (form : List Value) :
    asWhenLet (form.map (Value.rename ρ)) = renameResult ρ (rename ρ) (asWhenLet form) := by
  simp only [asWhenLet, bindings_rename, ← List.map_drop]
  cases bindings form with
  | error fault => rfl
  | ok pairs =>
      rcases pairs with _ | ⟨⟨name, test⟩, _ | ⟨second, rest⟩⟩ <;> rfl

theorem asIfLet_rename (form : List Value) :
    asIfLet (form.map (Value.rename ρ)) = renameResult ρ (rename ρ) (asIfLet form) := by
  simp only [asIfLet, bindings_rename]
  cases bindings form with
  | error fault => rfl
  | ok pairs =>
      rcases pairs with _ | ⟨⟨name, test⟩, _ | ⟨second, others⟩⟩
      · rfl
      · rcases form with _ | ⟨head, _ | ⟨vector, _ | ⟨yes, _ | ⟨no, _ | ⟨next, rest⟩⟩⟩⟩⟩ <;> rfl
      · rfl

theorem asFunction_rename (form : List Value) :
    asFunction (form.map (Value.rename ρ)) = renameResult ρ (rename ρ) (asFunction form) := by
  have unnamedRenamed (parts : List Value) := functionOf_rename ρ unnamed parts
  unfold asFunction
  rw [← List.map_tail]
  cases form.tail with
  | nil => rfl
  | cons first parts =>
      cases first with
      | symbol name => exact functionOf_rename ρ name parts
      | _ => exact unnamedRenamed (_ :: parts)

/-- A renamed list is the same special form with renamed parts. -/
theorem ofForm_rename (head : String) (form : List Value) :
    ofForm? head (form.map (Value.rename ρ)) =
      (ofForm? head form).map (renameResult ρ (rename ρ)) := by
  have tailRenamed : (form.map (Value.rename ρ)).tail = form.tail.map (Value.rename ρ) :=
    List.map_tail.symm
  unfold ofForm?
  split
  · rcases form with _ | ⟨first, _ | ⟨second, _ | ⟨third, rest⟩⟩⟩ <;>
      simp [asQuote, renameResult, rename, ShapeFault.rename, throw, throwThe,
        MonadExceptOf.throw, pure, Except.pure]
  · rcases form with _ | ⟨first, _ | ⟨second, _ | ⟨third, _ | ⟨fourth, _ | ⟨next, rest⟩⟩⟩⟩⟩ <;>
      simp [asIf, renameResult, rename, ShapeFault.rename, throw, throwThe,
        MonadExceptOf.throw, pure, Except.pure]
  · rcases form with _ | ⟨first, _ | ⟨second, rest⟩⟩ <;> rfl
  · rcases form with _ | ⟨first, _ | ⟨second, rest⟩⟩ <;> rfl
  · rw [tailRenamed]
    rfl
  · rw [tailRenamed]
    rfl
  · rw [tailRenamed]
    rfl
  · rw [asLet_rename]
    rfl
  · rw [asWhenLet_rename]
    rfl
  · rw [asIfLet_rename]
    rfl
  · unfold asCond
    rw [tailRenamed, List.length_map, clausePairs_rename]
    simp only [Option.map_some]
    split <;> rfl
  · rw [asFunction_rename]
    rfl
  · rfl

end SpecialForm

theorem expand_rename (ρ : Renaming) (head : String) (args : List Value) :
    expand? head (args.map (Value.rename ρ)) = (expand? head args).map (Value.rename ρ) := by
  unfold expand?
  cases abbreviations.lookup head with
  | none => rfl
  | some symbols => simp [ρ.births_zero, Function.comp_def]

end CueScript
