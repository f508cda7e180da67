import Mathlib
import CueScript.Proofs.Extract.Snippet

/-!
# What a symbol means

A convenience symbol means the same whatever else a text mentions: the text is compiled and
called as if its symbols were bound to what comes of texts that are one symbol each.  This is
so for tables whose trees keep to themselves, such as those of the standard catalog, as long as
the trees take no items from lists.
-/

namespace CueScript

/-! ## The tables of the standard catalog -/

/-- Where the trees of a table are as they are read and mention no barred name, they keep to
themselves. -/
theorem ExpressionSource.keepsToItself_of_trees
    {source : ExpressionSource} (heap : Heap) (data : Nat → Prop)
    (distinct : (Entries.keys source.table).Nodup)
    (areTrees : ∀ entry ∈ source.table, entry.2.extract.IsTree ∧
      entry.2.extract.IsTreeWithout (source.barred entry.1) fun birth => birth = 0) :
    source.KeepsToItself heap data where
  distinct := distinct
  known entry member ρ _ := Value.rename_of_isTree ρ _ (areTrees entry member).1
  trees entry member :=
    Value.isTreeWithout_widen (fun _ => Or.inl) _ (areTrees entry member).2

namespace Catalog

open Standard

/-- Whether a catalog has the lineage of the standard one, and the trees of each kind keep to
themselves. -/
def IsOrderly (catalog : Catalog) : Prop :=
  catalog.lineage = [(.deviceUpdate, []), (.beat, [.deviceUpdate]),
    (.mixerStatus, [.deviceUpdate]), (.cdjStatus, [.deviceUpdate])] ∧
  ∀ kind ∈ EventKind.all, (Entries.keys (catalog.resolve kind)).Nodup ∧
    ∀ entry ∈ catalog.resolve kind, entry.2.extract.IsTree ∧
      entry.2.extract.IsTreeWithout
        (ExpressionSource.barred ⟨"", catalog.resolve kind, false, none, {}, none⟩ entry.1)
        fun birth => birth = 0

instance : DecidablePred IsOrderly := fun _ => inferInstanceAs (Decidable (_ ∧ _))

theorem any_isOrderly :
    ((setsOf layout []).toOption.any fun catalog => decide catalog.IsOrderly) = true := by
  decide +kernel

/-- The texts of the standard catalog make an orderly catalog. -/
theorem isOrderly_standard : standard.IsOrderly := by
  have read := any_isOrderly
  cases built : setsOf layout [] with
  | error fault =>
      rw [built] at read
      cases read
  | ok catalog =>
      rw [built] at read
      have orderly : catalog.IsOrderly := of_decide_eq_true read
      have registered : catalog.lineage.unregistered? = none := by
        rw [orderly.1]
        decide +kernel
      have acyclic : catalog.lineage.cycle? = none := by
        rw [orderly.1]
        unfold Lineage.cycle?
        cbv
      have valid : catalog.validate = .ok () := by
        unfold validate
        rw [registered, acyclic]
        rfl
      have isBuilt : build? layout = .ok catalog := by
        unfold build?
        rw [built]
        change (validate catalog >>= fun _ => pure catalog) = _
        rw [valid]
        rfl
      unfold standard
      rw [isBuilt]
      exact orderly

/-- The trees of the standard catalog keep to themselves. -/
theorem keepsToItself_standard
    {source : ExpressionSource} {kind : EventKind}
    (isTable : source.table = standard.resolve kind) (heap : Heap) (data : Nat → Prop) :
    source.KeepsToItself heap data := by
  obtain ⟨distinct, areTrees⟩ := isOrderly_standard.2 kind (EventKind.mem_all kind)
  refine ExpressionSource.keepsToItself_of_trees heap data (isTable ▸ distinct) ?_
  intro entry member
  rw [isTable] at member
  have isTree := areTrees entry member
  rwa [show ExpressionSource.barred ⟨"", standard.resolve kind, false, none, {}, none⟩ =
    source.barred by
      funext own
      simp only [ExpressionSource.barred, isTable]] at isTree

end Catalog

namespace Expression

/-! ## Calls -/

/-- Compile an expression and call it once; its failure is raised. -/
def callOnce (source : ExpressionSource) (globals : Nat) (arguments : Arguments) :
    StateM Heap (Except Report Value) := do
  match (← compile source globals).outcome with
  | .ok expression => expression.callStrictly arguments
  | .error report => return .error report

/-- Whether a call evaluates the body of some forms with the symbols bound to some values.  The
trees have used up numbers before, and so what comes of the body may have other ones. -/
def EvaluatesBody (expression : Expression) (arguments : Arguments) (forms : List Value)
    (heap compiled : Heap) (values : String → Value) : Prop :=
  ∃ (bound : List (String × Value)) (births next : Nat) (τ : Renaming),
    bound.map Prod.fst = expression.boundSymbols ∧
    (∀ entry ∈ bound, ∃ ρ : Renaming, ρ.Keeps heap ∧ entry.2 = (values entry.1).rename ρ) ∧
    compiled.births ≤ births ∧ τ.Keeps { compiled with births } ∧
    let evaluated := (expression.evaluateBody arguments bound
      ((bodyTree forms).tellApart next).1).perform { compiled with births }
    let called := (expression.callStrictly arguments).run compiled
    called.1 = (evaluated.1.map (Value.rename τ)).mapError expression.callReport ∧
      ∀ id, called.2.entries id = (evaluated.2.entries id).map (Value.renameEntry τ)

section Alone

variable {source : ExpressionSource} {forms : List Value} {heap : Heap} {globals : Nat}
  {arguments : Arguments} {name text : String}

theorem boundSymbols_compiledExpression :
    (compiledExpression source forms globals heap).boundSymbols =
      (symbolsOf source forms).map Prod.fst := by
  simp only [boundSymbols, compiledExpression, ofParts, symbolsOf, List.map_map]
  rfl

theorem run_callOnce
    (shallow : 0 ≤ source.config.maxDepth) (settled : heap.Settled)
    (formed : formsOf heap source.text.toList source.label = .ok forms) :
    (callOnce source globals arguments).run heap =
      ((compiledExpression source forms globals heap).callStrictly arguments).run
        (compiledHeap source forms heap) := by
  obtain ⟨isExpression, isHeap⟩ :=
    @compile_eq source forms heap globals shallow (fun _ => settled.unlost) formed
  rw [← isHeap]
  change (match ((compile source globals).run heap).1.outcome with
    | .ok expression => expression.callStrictly arguments
    | .error report => return .error report).run ((compile source globals).run heap).2 = _
  rw [isExpression]

/-- What comes of a text that is one symbol. -/
theorem run_callOnce_single
    (shallow : 0 ≤ source.config.maxDepth) (settled : heap.Settled)
    (isRead : read text.toList = .ok [.symbol name]) :
    (callOnce (source.withText text) globals arguments).run heap =
      match ranAlone source heap globals arguments text name with
      | (.ok value, after) => (.ok value, after)
      | (.error fault, after) =>
          (.error ((compiledExpression source forms globals heap).callReport fault), after) := by
  have ran := @run_callOnce (source.withText text) [.symbol name] heap globals arguments shallow
    settled (formsOf_single isRead _)
  rw [ran, run_callStrictly]
  rfl

theorem ranAlone_of_ok
    (shallow : 0 ≤ source.config.maxDepth) (settled : heap.Settled)
    (isRead : read text.toList = .ok [.symbol name]) {value : Value}
    (isOk : ((callOnce (source.withText text) globals arguments).run heap).1 = .ok value) :
    (ranAlone source heap globals arguments text name).1 = .ok value ∧
      (ranAlone source heap globals arguments text name).2 =
        ((callOnce (source.withText text) globals arguments).run heap).2 := by
  rw [@run_callOnce_single source [] heap globals arguments name text shallow settled isRead]
    at isOk ⊢
  generalize ranAlone source heap globals arguments text name = ran at isOk ⊢
  obtain ⟨_ | value, after⟩ := ran
  · cases isOk
  · cases isOk
    exact ⟨rfl, rfl⟩

theorem ranAlone_of_error
    (shallow : 0 ≤ source.config.maxDepth) (settled : heap.Settled)
    (isRead : read text.toList = .ok [.symbol name]) {report : Report}
    (isError : ((callOnce (source.withText text) globals arguments).run heap).1 =
      .error report) :
    ∃ fault, (ranAlone source heap globals arguments text name).1 = .error fault ∧
      (compiledExpression source forms globals heap).callReport fault = report := by
  rw [@run_callOnce_single source forms heap globals arguments name text shallow settled isRead]
    at isError
  generalize ranAlone source heap globals arguments text name = ran at isError ⊢
  obtain ⟨fault | _, after⟩ := ran
  · cases isError
    exact ⟨fault, rfl, rfl⟩
  · cases isError

end Alone

theorem received_apart : received.Apart where
  views := rfl
  unnumbered := rfl
  stores := received_settled.stores
  owners id other store another isStore isAnother _ := by
    have isFirst : received.stores = #[⟨Session.globalsName, 0⟩] := rfl
    rw [isFirst, List.getElem?_toArray] at isStore isAnother
    rcases id with _ | id <;> cases isStore
    rcases other with _ | other <;> cases isAnother
    rfl
  scopes id scope isScope := by
    have noScopes : received.scopes = #[] := rfl
    rw [noScopes] at isScope
    cases isScope

theorem received_holds : received.HoldsData (fun _ => False) beat.event where
  known := received_knows.2
  within := ⟨trivial, trivial⟩
  given _ none := none.elim
  losses _ _ none := none.elim

/-- Two symbols for the speed of a beat and one for what a beat has not. -/
def lettersTable : BindingTable :=
  [("a", bindingOf "a" (.list [.symbol ".bpm", .symbol Reference.eventSymbol] 0)),
    ("b", bindingOf "b" (.list [.symbol "inc",
      .list [.symbol ".bpm", .symbol Reference.eventSymbol] 0] 0)),
    ("c", bindingOf "c" (.list [.symbol ".pitch", .symbol Reference.eventSymbol] 0))]

/-- A text with these symbols. -/
def letters (text : String) : ExpressionSource := { text := text, table := lettersTable }

theorem lettersTable_trees :
    (Entries.keys lettersTable).Nodup ∧
      ∀ entry ∈ lettersTable, entry.2.extract.IsTree ∧
        entry.2.extract.IsTreeWithout ((letters "").barred entry.1) fun birth => birth = 0 := by
  decide +kernel

theorem letters_keepsToItself (text : String) :
    (letters text).KeepsToItself received fun _ => False :=
  ExpressionSource.keepsToItself_of_trees received _ lettersTable_trees.1 lettersTable_trees.2

theorem letters_formed :
    formsOf received (letters "[a b]").text.toList (letters "[a b]").label =
        .ok [.vector [.symbol "a", .symbol "b"] 0] ∧
      formsOf received (letters "[a c]").text.toList (letters "[a c]").label =
        .ok [.vector [.symbol "a", .symbol "c"] 0] ∧
      ∀ name ∈ ["a", "b", "c"], read name.toList = .ok [.symbol name] := by
  have both : (letters "[a b]").text.toList = ['[', 'a', ' ', 'b', ']'] ∧
      (letters "[a c]").text.toList = ['[', 'a', ' ', 'c', ']'] := by
    decide +kernel
  have single : "a".toList = ['a'] ∧ "b".toList = ['b'] ∧ "c".toList = ['c'] := by
    decide +kernel
  refine ⟨by rw [both.1]; rfl, by rw [both.2]; rfl, ?_⟩
  intro name member
  simp only [List.mem_cons, List.not_mem_nil, or_false] at member
  rcases member with rfl | rfl | rfl
  · rw [single.1]
    rfl
  · rw [single.2.1]
    rfl
  · rw [single.2.2]
    rfl

/-- Texts of one letter have the speed, a number after it and no value. -/
theorem letters_alone :
    (∀ name ∈ ["a", "b"],
      ((callOnce (letters name) 0 beat).run received).1.isOk = true ∧
        ((callOnce (letters name) 0 beat).run received).2.losses.isEmpty = true) ∧
      ((callOnce (letters "c") 0 beat).run received).1.isOk = false := by
  have ran (name : String) (member : name ∈ ["a", "b", "c"]) :=
    @run_callOnce (letters name) [.symbol name] received 0 beat
      (show 0 ≤ Config.maxDepth {} by decide) received_settled
      (formsOf_single (letters_formed.2.2 name member) _)
  have symbols :
      symbolsOf (letters "a") [.symbol "a"] =
          [("a", .list [.symbol ".bpm", .symbol Reference.eventSymbol] 0)] ∧
        symbolsOf (letters "b") [.symbol "b"] =
          [("b", .list [.symbol "inc",
            .list [.symbol ".bpm", .symbol Reference.eventSymbol] 0] 0)] ∧
        symbolsOf (letters "c") [.symbol "c"] =
          [("c", .list [.symbol ".pitch", .symbol Reference.eventSymbol] 0)] := by
    unfold symbolsOf referencesOf
    refine ⟨?_, ?_, ?_⟩ <;> cbv
  refine ⟨fun name member => ?_, ?_⟩
  · simp only [List.mem_cons, List.not_mem_nil, or_false] at member
    rcases member with rfl | rfl
    · rw [ran "a" (by decide)]
      simp only [compiledExpression, functionOf, compiledHeap, builtHeap, rootedHeap, toldHeap,
        treeOf, synthesize_eq, symbols.1, ofParts]
      decide +kernel
    · rw [ran "b" (by decide)]
      simp only [compiledExpression, functionOf, compiledHeap, builtHeap, rootedHeap, toldHeap,
        treeOf, synthesize_eq, symbols.2.1, ofParts]
      decide +kernel
  · rw [ran "c" (by decide)]
    simp only [compiledExpression, functionOf, compiledHeap, builtHeap, rootedHeap, toldHeap,
      treeOf, synthesize_eq, symbols.2.2, ofParts]
    decide +kernel

theorem letters_symbols :
    (symbolsOf (letters "[a b]") [.vector [.symbol "a", .symbol "b"] 0]).map Prod.fst =
        ["a", "b"] ∧
      (symbolsOf (letters "[a c]") [.vector [.symbol "a", .symbol "c"] 0]).map Prod.fst =
        ["a", "c"] := by
  unfold symbolsOf referencesOf
  constructor <;> cbv

/-- A heap in which a beat with a list has arrived. -/
def listReceived : Heap := (Action.newId.perform received).2

/-- The beat with a list. -/
def listBeat : Arguments where
  event := .event 2 .record [("xs", .list [.int 1, .int 2, .int 3] 3)]

theorem listReceived_settled : listReceived.Settled where
  births := by decide
  tables id entries isTable entry member := by
    have isFirst : listReceived.tables = #[[]] := rfl
    rw [isFirst, List.getElem?_toArray] at isTable
    rcases id with _ | id <;> cases isTable
    cases member
  views _ member := nomatch member
  losses _ member := nomatch member
  stores := received_settled.stores
  scopes id scope isScope := by
    have noScopes : listReceived.scopes = #[] := rfl
    rw [noScopes] at isScope
    cases isScope

/-- A symbol that takes an item from a list of the event, and one that counts the items. -/
def taking (text : String) : ExpressionSource where
  text := text
  table :=
    [("a", bindingOf "a" (.list [.symbol "forget!",
      .list [.symbol ".xs", .symbol Reference.eventSymbol] 0, .int 1] 0)),
      ("b", bindingOf "b" (.list [.symbol "count",
        .list [.symbol ".xs", .symbol Reference.eventSymbol] 0] 0))]

/-- Whether a result is a number. -/
def isNumber (number : Int) : Except Report Value → Bool
  | .ok (.int other) => other == number
  | _ => false

/-- Whether a result is `nil`. -/
def isNil : Except Report Value → Bool
  | .ok .nil => true
  | _ => false

end Expression

end CueScript
