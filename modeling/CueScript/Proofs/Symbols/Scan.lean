import Mathlib.Data.List.Permutation
import CueScript.Proofs.Entries
import CueScript.Proofs.Run.Compile
import CueScript.Session

/-!
# Which symbols are bound

An expression binds the convenience symbols that its text mentions, and no others.
`Value.Mentions` says by the shape of a tree what it is to mention a symbol; the scan goes
through a walk of the nodes instead.  The names of a table are different from each other,
so the sorted references are determined by which of them are mentioned, and two tables
that agree on what a text mentions compile to the same.

The tables of a catalog do list every name once: what is inherited is laid over by name.
-/

namespace CueScript

namespace Value

/-- A symbol that is no keyword stands somewhere in a tree. -/
inductive Mentions (name : String) : Value → Prop
  | symbol : name.toList.head? ≠ some ':' → Mentions name (.symbol name)
  | list {items : List Value} {birth : Nat} {item : Value} :
      item ∈ items → Mentions name item → Mentions name (.list items birth)
  | vector {items : List Value} {birth : Nat} {item : Value} :
      item ∈ items → Mentions name item → Mentions name (.vector items birth)
  | quoted {form : Value} : Mentions name form → Mentions name (.quoted form)

theorem spellsKeyword_iff {name : String} :
    spellsKeyword name = true ↔ name.toList.head? = some ':' := by
  unfold spellsKeyword
  cases name.toList with
  | nil => simp
  | cons first rest =>
      by_cases colon : first = ':'
      · simp [colon]
      · simp [colon]

theorem mem_postOrderAll {node : Value} {items : List Value} :
    node ∈ postOrderAll items ↔ ∃ item ∈ items, node ∈ postOrder item := by
  induction items with
  | nil => simp [postOrderAll]
  | cons first rest inductionHypothesis => simp [postOrderAll, inductionHypothesis]

theorem mem_postOrder_of_mentions
    {name : String} {tree : Value} (mentions : Mentions name tree) :
    .symbol name ∈ postOrder tree ∧ name.toList.head? ≠ some ':' := by
  induction mentions with
  | symbol noKeyword => exact ⟨by simp [postOrder], noKeyword⟩
  | list member _ inductionHypothesis =>
      rw [postOrder]
      exact ⟨List.mem_append_left _ (mem_postOrderAll.mpr ⟨_, member, inductionHypothesis.1⟩),
        inductionHypothesis.2⟩
  | vector member _ inductionHypothesis =>
      rw [postOrder]
      exact ⟨List.mem_append_left _ (mem_postOrderAll.mpr ⟨_, member, inductionHypothesis.1⟩),
        inductionHypothesis.2⟩
  | quoted _ inductionHypothesis =>
      rw [postOrder]
      exact ⟨List.mem_append_left _ inductionHypothesis.1, inductionHypothesis.2⟩

mutual

theorem mentions_of_mem_postOrder {name : String} (noKeyword : name.toList.head? ≠ some ':') :
    ∀ tree : Value, .symbol name ∈ postOrder tree → Mentions name tree
  | .list items birth, walked => by
      rw [postOrder, List.mem_append] at walked
      rcases walked with inside | own
      · obtain ⟨item, member, mentions⟩ := mentions_of_mem_postOrderAll noKeyword items inside
        exact .list member mentions
      · exact nomatch List.mem_singleton.mp own
  | .vector items birth, walked => by
      rw [postOrder, List.mem_append] at walked
      rcases walked with inside | own
      · obtain ⟨item, member, mentions⟩ := mentions_of_mem_postOrderAll noKeyword items inside
        exact .vector member mentions
      · exact nomatch List.mem_singleton.mp own
  | .quoted form, walked => by
      rw [postOrder, List.mem_append] at walked
      rcases walked with inside | own
      · exact .quoted (mentions_of_mem_postOrder noKeyword form inside)
      · exact nomatch List.mem_singleton.mp own
  | .symbol other, walked => by
      have same : Value.symbol name = .symbol other := by simpa [postOrder] using walked
      cases same
      exact .symbol noKeyword
  | .nil, walked | .bool _, walked | .int _, walked | .float _ _, walked | .str _, walked
  | .keyword _, walked | .tuple _, walked | .map _ _, walked
  | .closure _ _ _ _ _ _ _, walked | .builtin _, walked | .instanceTest _ _, walked
  | .store _, walked | .event _ _ _, walked | .kind _, walked | .constant _, walked
  | .unset _, walked | .method _ _, walked | .member _ _, walked | .scope _, walked
  | .evaluator _, walked | .settings _, walked => by simp [postOrder] at walked

theorem mentions_of_mem_postOrderAll
    {name : String} (noKeyword : name.toList.head? ≠ some ':') :
    ∀ items : List Value, .symbol name ∈ postOrderAll items →
      ∃ item ∈ items, Mentions name item
  | [], walked => by simp [postOrderAll] at walked
  | first :: rest, walked => by
      rw [postOrderAll, List.mem_append] at walked
      rcases walked with inFirst | inRest
      · exact ⟨first, List.mem_cons_self, mentions_of_mem_postOrder noKeyword first inFirst⟩
      · obtain ⟨item, member, mentions⟩ := mentions_of_mem_postOrderAll noKeyword rest inRest
        exact ⟨item, List.mem_cons_of_mem _ member, mentions⟩

end

/-- The walk finds the symbols that a tree mentions. -/
theorem mem_symbolNames_iff {name : String} {tree : Value} :
    name ∈ symbolNames tree ↔ Mentions name tree := by
  rw [symbolNames, List.mem_filterMap]
  constructor
  · rintro ⟨node, walked, named⟩
    cases node with
    | symbol other =>
        by_cases keyword : spellsKeyword other = true
        · simp [symbolName?, keyword] at named
        · simp only [symbolName?, keyword, Bool.false_eq_true, if_false,
            Option.some.injEq] at named
          subst named
          exact mentions_of_mem_postOrder (fun colon => keyword (spellsKeyword_iff.mpr colon))
            tree walked
    | _ => simp [symbolName?] at named
  · intro mentions
    obtain ⟨walked, noKeyword⟩ := mem_postOrder_of_mentions mentions
    refine ⟨.symbol name, walked, ?_⟩
    have plain : ¬ spellsKeyword name = true := fun colon =>
      noKeyword (spellsKeyword_iff.mp colon)
    simp [symbolName?, plain]

end Value

/-- Some of several trees mentions a symbol. -/
def MentionedIn (forms : List Value) (name : String) : Prop :=
  ∃ form ∈ forms, form.Mentions name

/-! ## Tables -/

namespace BindingTable

/-- The names of an overlay are different from each other, whatever is laid over. -/
theorem nodup_overlay
    {table : BindingTable} (distinct : (Entries.keys table).Nodup) (winning : BindingTable) :
    (Entries.keys (Catalog.overlay table winning)).Nodup := by
  unfold Catalog.overlay Entries.putAll
  induction winning generalizing table with
  | nil => exact distinct
  | cons entry rest inductionHypothesis =>
      exact inductionHypothesis (Entries.nodup_put distinct)

/-- The tables that a catalog gives list every name once. -/
theorem nodup_resolve (catalog : Catalog) (kind : EventKind) :
    (Entries.keys (catalog.resolve kind)).Nodup := by
  unfold Catalog.resolve
  cases EventKind.all.length with
  | zero => exact List.nodup_nil
  | succ generations =>
      rw [Catalog.flattenWithin]
      cases catalog.find? kind with
      | none => exact List.nodup_nil
      | some own =>
          refine nodup_overlay ?_ own.bindings
          have kept : ∀ (parents : List EventKind) (merged : BindingTable),
              (Entries.keys merged).Nodup →
                (Entries.keys (parents.foldl (fun merged parent =>
                  Catalog.overlay merged (catalog.flattenWithin generations parent))
                  merged)).Nodup := by
            intro parents
            induction parents with
            | nil => exact fun _ distinct => distinct
            | cons parent rest inductionHypothesis =>
                exact fun merged distinct =>
                  inductionHypothesis _ (nodup_overlay distinct _)
          exact kept own.parents [] List.nodup_nil

/-- The tree under a name of a table. -/
def extract? (table : BindingTable) (name : String) : Option Value :=
  (Entries.find? (· == ·) name table).map Binding.extract

end BindingTable

/-! ## The scan -/

namespace Reference

variable {forms : List Value} {table : BindingTable}

/-- A reference for the tree of a symbol. -/
def ofTree (safe : Bool) (name : String) (tree : Value) : Reference :=
  ⟨name, if safe then nullSafe tree else tree⟩

theorem used_iff {entry : String × Binding} :
    entry ∈ table.filter (fun each => (forms.flatMap Value.symbolNames).contains each.1) ↔
      entry ∈ table ∧ MentionedIn forms entry.1 := by
  rw [List.mem_filter, List.contains_iff_mem, List.mem_flatMap]
  simp only [Value.mem_symbolNames_iff, MentionedIn]

/-- The scan lists the names in increasing order. -/
theorem scan_pairwise
    (distinct : (Entries.keys table).Nodup) (safe : Bool) :
    (scan forms table safe).Pairwise fun earlier later => earlier.name < later.name := by
  let used := table.filter fun each => (forms.flatMap Value.symbolNames).contains each.1
  have usedDistinct : (used.map Prod.fst).Nodup := distinct.sublist (List.filter_sublist.map _)
  have inOrder : (used.mergeSort fun a b => decide (a.1 ≤ b.1)).Pairwise
      fun a b => a.1 ≤ b.1 := by
    have sorted := @List.pairwise_mergeSort _ (fun a b : String × Binding => decide (a.1 ≤ b.1))
      (fun a b c first second => by
        simp only [decide_eq_true_eq] at first second ⊢
        exact String.le_trans first second)
      (fun a b => by
        simp only [Bool.or_eq_true, decide_eq_true_eq]
        exact String.le_total a.1 b.1) used
    exact sorted.imp fun le => by simpa using le
  have sortedDistinct : (used.mergeSort fun a b => decide (a.1 ≤ b.1)).Pairwise
      fun a b => a.1 ≠ b.1 :=
    List.pairwise_map.mp
      (((List.mergeSort_perm used fun a b => decide (a.1 ≤ b.1)).map Prod.fst).nodup_iff.mpr
        usedDistinct)
  change ((used.mergeSort fun a b => decide (a.1 ≤ b.1)).map fun entry =>
    ofBinding safe entry.2 entry.1).Pairwise _
  rw [List.pairwise_map]
  exact (inOrder.and sortedDistinct).imp fun both =>
    String.not_le.mp fun reversed => both.2 (String.le_antisymm both.1 reversed)

/-- The scan lists the symbols of the table that are mentioned. -/
theorem mem_scan_iff
    (distinct : (Entries.keys table).Nodup) {safe : Bool} {reference : Reference} :
    reference ∈ scan forms table safe ↔
      MentionedIn forms reference.name ∧
        ∃ tree, BindingTable.extract? table reference.name = some tree ∧
          reference = ofTree safe reference.name tree := by
  simp only [scan, List.mem_map, List.mem_mergeSort, used_iff]
  constructor
  · rintro ⟨⟨name, binding⟩, ⟨member, mentioned⟩, rfl⟩
    refine ⟨mentioned, binding.extract, ?_, rfl⟩
    exact congrArg (Option.map Binding.extract) (Entries.find?_of_mem distinct member)
  · rintro ⟨mentioned, tree, found, made⟩
    obtain ⟨binding, bound, rfl⟩ := Option.map_eq_some_iff.mp found
    exact ⟨(reference.name, binding), ⟨Entries.mem_of_find? bound, mentioned⟩, made.symm⟩

/-- Tables that agree on what is mentioned give the same references. -/
theorem scan_congr
    {other : BindingTable} (distinct : (Entries.keys table).Nodup)
    (otherDistinct : (Entries.keys other).Nodup)
    (agree : ∀ name, MentionedIn forms name →
      BindingTable.extract? other name = BindingTable.extract? table name)
    (safe : Bool) :
    scan forms other safe = scan forms table safe := by
  have inOrder := @scan_pairwise forms _ distinct safe
  have otherInOrder := @scan_pairwise forms _ otherDistinct safe
  have nodupOfOrder : ∀ {references : List Reference},
      references.Pairwise (fun earlier later => earlier.name < later.name) →
        references.Nodup := by
    intro references ordered
    refine ordered.imp fun less same => ?_
    subst same
    exact String.lt_irrefl _ less
  have members : ∀ reference, reference ∈ scan forms other safe ↔
      reference ∈ scan forms table safe := by
    intro reference
    rw [mem_scan_iff distinct, mem_scan_iff otherDistinct]
    constructor
    · rintro ⟨mentioned, tree, found, made⟩
      exact ⟨mentioned, tree, (agree _ mentioned).symm.trans found, made⟩
    · rintro ⟨mentioned, tree, found, made⟩
      exact ⟨mentioned, tree, (agree _ mentioned).trans found, made⟩
  have permuted : (scan forms other safe).Perm (scan forms table safe) :=
    (List.perm_ext_iff_of_nodup (nodupOfOrder otherInOrder) (nodupOfOrder inOrder)).mpr members
  refine permuted.eq_of_pairwise ?_ otherInOrder inOrder
  intro first second _ _ less greater
  exact absurd (String.lt_trans less greater) (String.lt_irrefl _)

end Reference

/-! ## Compiling -/

/-- A request with another table. -/
def ExpressionSource.withTable (source : ExpressionSource) (table : BindingTable) :
    ExpressionSource :=
  { source with table := table }

namespace Expression

/-- Compile an expression and call it, if it compiles. -/
def compileAndCall (source : ExpressionSource) (globals : Nat) (arguments : Arguments)
    (strict : Bool) : StateM Heap (Compilation × Option CallAnswer) := do
  let compilation ← compile source globals
  match compilation.outcome with
  | .error _ => return (compilation, none)
  | .ok expression =>
      let answer ← Session.callAnswer expression arguments strict
      return (compilation, some answer)

/-- Compiling depends on a table only through the symbols that the text mentions. -/
theorem compile_congr
    {source : ExpressionSource} {table : BindingTable}
    (distinct : (Entries.keys source.table).Nodup)
    (otherDistinct : (Entries.keys table).Nodup)
    (agree : ∀ forms, read source.text.toList = .ok forms → ∀ name, MentionedIn forms name →
      BindingTable.extract? table name = BindingTable.extract? source.table name)
    (globals : Nat) :
    compile (source.withTable table) globals = compile source globals := by
  funext heap
  cases formed : formsOf heap source.text.toList source.label with
  | error report =>
      have otherFormed : formsOf heap (source.withTable table).text.toList
          (source.withTable table).label = .error report := formed
      simp only [compile, get, getThe, MonadStateOf.get, StateT.get, bind, StateT.bind, pure,
        formed, otherFormed]
  | ok forms =>
      have otherFormed : formsOf heap (source.withTable table).text.toList
          (source.withTable table).label = .ok forms := formed
      have sameReferences : Reference.scan forms (source.withTable table).table
          (source.withTable table).nullSafe =
            Reference.scan forms source.table source.nullSafe :=
        Reference.scan_congr distinct otherDistinct (agree forms (read_of_formsOf formed).1) _
      simp only [compile, get, getThe, MonadStateOf.get, StateT.get, bind, StateT.bind, pure,
        formed, otherFormed, sameReferences]
      rfl

/-- The form of an expression is the tree that is synthesized, told apart. -/
theorem form_of_build
    {source : ExpressionSource} {forms : List Value} {heap made : Heap} {form function : Value}
    (built : (build source forms).perform heap = (.ok (form, function), made)) :
    form = ((synthesize forms (referencesOf source forms)).tellApart heap.births).1 := by
  rw [perform_build, Action.perform_bind] at built
  split at built
  · rw [Action.perform_bind] at built
    split at built
    · cases built
      rfl
    · cases built
  · cases built

/-- An expression binds exactly the symbols of its table that its text mentions, each once
and in the order of their names, and whatever a table says of other symbols makes no
difference to compiling and calling. -/
theorem compile_binds_mentioned
    {source : ExpressionSource} {globals : Nat} {heap : Heap} {expression : Expression}
    (distinct : (Entries.keys source.table).Nodup)
    (compiled : ((compile source globals).run heap).1.outcome = .ok expression) :
    ∃ forms, read source.text.toList = .ok forms ∧
      expression.references.Pairwise (fun earlier later => earlier.name < later.name) ∧
      (∀ reference, reference ∈ expression.references ↔
        MentionedIn forms reference.name ∧
          ∃ tree, BindingTable.extract? source.table reference.name = some tree ∧
            reference = .ofTree source.nullSafe reference.name tree) ∧
      (∃ next, expression.form =
        ((synthesize forms expression.references).tellApart next).1) ∧
      ∀ table : BindingTable, (Entries.keys table).Nodup →
        (∀ name, MentionedIn forms name →
          BindingTable.extract? table name = BindingTable.extract? source.table name) →
        ((compile (source.withTable table) globals).run heap).1.outcome =
            .ok expression ∧
          ∀ arguments strict,
            compileAndCall (source.withTable table) globals arguments strict =
              compileAndCall source globals arguments strict := by
  obtain ⟨forms, form, function, made, isRead, -, built, rfl, -⟩ := exists_of_compile compiled
  refine ⟨forms, isRead, Reference.scan_pairwise distinct source.nullSafe, ?_, ?_, ?_⟩
  · intro reference
    exact Reference.mem_scan_iff distinct
  · exact ⟨heap.births, form_of_build built⟩
  · intro table otherDistinct agree
    have same : compile (source.withTable table) globals = compile source globals := by
      refine compile_congr distinct otherDistinct ?_ globals
      intro others otherRead name mentioned
      cases isRead.symm.trans otherRead
      exact agree name mentioned
    refine ⟨?_, ?_⟩
    · rw [same]
      exact compiled
    · intro arguments strict
      rw [compileAndCall, same]
      rfl

/-- A binding of a tree. -/
def bindingOf (name : String) (tree : Value) : Binding := ⟨name, "", "", tree⟩

/-- An expression that mentions one symbol in a vector and one in quoted data. -/
def twoMentioned : ExpressionSource where
  text := "[b '(a :c)]"
  table :=
    [("c", bindingOf "c" (.int 1)), ("b", bindingOf "b" (.str "loud")),
      ("a", bindingOf "a" (.symbol "status"))]
  nullSafe := true

/-- The same symbols, but another tree for the one that is not mentioned. -/
def twoMentionedTable : BindingTable :=
  [("a", bindingOf "a" (.symbol "status")), ("c", bindingOf "c" (.list [.symbol "locals"] 0)),
    ("b", bindingOf "b" (.str "loud"))]

/-- A heap with a store to share. -/
def sharing : Heap := (Heap.empty.openStore Session.globalsName []).2

theorem compile_binds_twoMentioned :
    ∃ expression,
      ((compile twoMentioned 0).run sharing).1.outcome = .ok expression ∧
        expression.boundSymbols = ["a", "b"] ∧
        ((compile (twoMentioned.withTable twoMentionedTable) 0).run sharing).1.outcome =
          .ok expression := by
  have distinct : (Entries.keys twoMentioned.table).Nodup := by decide +kernel
  have otherDistinct : (Entries.keys twoMentionedTable).Nodup := by decide +kernel
  let form : Value :=
    .vector [.symbol "b", .quoted (.list [.symbol "a", .symbol ":c"] 0)] 0
  have characters : twoMentioned.text.toList =
      ['[', 'b', ' ', '\'', '(', 'a', ' ', ':', 'c', ')', ']'] := by
    decide +kernel
  have isRead : read twoMentioned.text.toList = .ok [form] := by
    rw [characters]
    rfl
  have formed : formsOf sharing twoMentioned.text.toList twoMentioned.label = .ok [form] := by
    rw [formsOf, isRead]
    rfl
  have scanned : referencesOf twoMentioned [form] =
      [.ofTree true "a" (.symbol "status"), .ofTree true "b" (.str "loud")] := by
    unfold referencesOf
    cbv
  have builds : ((build twoMentioned [form]).perform sharing).1.isOk = true := by
    rw [perform_build, toldHeap, scanned]
    decide +kernel
  rcases built : (build twoMentioned [form]).perform sharing with ⟨outcome, made⟩
  rw [built] at builds
  cases outcome with
  | error fault => cases builds
  | ok parts =>
      obtain ⟨compiled, -⟩ := compile_of_ok 0 formed built
      obtain ⟨forms, otherRead, -, -, -, alike⟩ := compile_binds_mentioned distinct compiled
      cases isRead.symm.trans otherRead
      have agree : ∀ name, MentionedIn [form] name →
          BindingTable.extract? twoMentionedTable name =
            BindingTable.extract? twoMentioned.table name := by
        rintro name ⟨tree, member, mentions⟩
        have walked := Value.mem_symbolNames_iff.mpr mentions
        rw [List.mem_singleton.mp member] at walked
        have oneOfTwo : name = "b" ∨ name = "a" := by
          simpa [form, Value.symbolNames, Value.postOrder, Value.postOrderAll,
            Value.symbolName?, Value.spellsKeyword] using walked
        rcases oneOfTwo with rfl | rfl
        · rfl
        · rfl
      refine ⟨_, compiled, ?_, (alike _ otherDistinct agree).1⟩
      rw [boundSymbols, ofParts, scanned]
      rfl

end Expression

end CueScript
