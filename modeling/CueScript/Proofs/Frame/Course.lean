import CueScript.Proofs.Frame.Code

/-!
# Between calls

A program that uses expressions calls them, fills stores and opens others, gives numbers
to events and compiles further expressions.  As long as its calls read members of events
only, an expression stays in force: its function is a closure over a scope that holds
functions of the language, and the lists in its code hold code.
-/

namespace CueScript

/-- Whether a value leads nowhere: it is a text or a function of the language. -/
def Value.isPlain : Value → Bool
  | .str _ => true
  | .builtin _ => true
  | .instanceTest .. => true
  | _ => false

theorem ValueEntries.mem_contents_cons
    {probe : Value} {entry : Value × Value} {rest : ValueEntries} :
    probe ∈ ValueEntries.contents (entry :: rest) ↔
      (probe = entry.1 ∨ probe = entry.2) ∨ probe ∈ ValueEntries.contents rest := by
  simp [ValueEntries.contents, or_assoc]

theorem Entries.mem_contents_put
    {key value probe : Value} {entries : ValueEntries}
    (member : probe ∈ ValueEntries.contents (put Value.sameKey key value entries)) :
    probe ∈ ValueEntries.contents entries ∨ probe = key ∨ probe = value := by
  induction entries with
  | nil => simpa [ValueEntries.contents, put] using member
  | cons entry rest inductionHypothesis =>
      obtain ⟨stored, old⟩ := entry
      rw [put] at member
      split at member
      · rcases ValueEntries.mem_contents_cons.mp member with (rfl | rfl) | later
        · exact .inl (ValueEntries.mem_contents_cons.mpr (.inl (.inl rfl)))
        · exact .inr (.inr rfl)
        · exact .inl (ValueEntries.mem_contents_cons.mpr (.inr later))
      · rcases ValueEntries.mem_contents_cons.mp member with here | later
        · exact .inl (ValueEntries.mem_contents_cons.mpr (.inl here))
        · exact (inductionHypothesis later).imp_left fun inside =>
            ValueEntries.mem_contents_cons.mpr (.inr inside)

namespace Heap

/-! ## Scopes that stay -/

/-- Whether a heap in which everything is apart has become another such, with all scopes and
what is in them. -/
structure Retains (before after : Heap) : Prop where
  apart : after.Apart
  scopes : ∀ (id : Nat) (scope : Scope),
    before.scopes[id]? = some scope → after.scopes[id]? = some scope
  tables : ∀ table < before.tables.size,
    (∀ (id : Nat) (store : Store), before.stores[id]? = some store → store.table ≠ table) →
      after.tables[table]? = before.tables[table]?

theorem KeepsScopes.retains {before after : Heap} (keeps : before.KeepsScopes after) :
    before.Retains after :=
  ⟨keeps.apart, keeps.scopes, keeps.tables⟩

variable {heap : Heap}

theorem Apart.retains_setEntries (apart : heap.Apart) (id : Nat) (entries : ValueEntries) :
    heap.Retains (heap.setEntries id entries) := by
  unfold setEntries
  split
  · rename_i store isStore
    refine ⟨apart.of_same rfl rfl rfl rfl (Nat.le_of_eq (by simp [setTable])),
      fun _ _ isScope => isScope, fun table _ unowned => ?_⟩
    simp only [setTable, Array.getElem?_modify]
    rw [if_neg (unowned id store isStore)]
  · exact ⟨apart, fun _ _ isScope => isScope, fun _ _ _ => rfl⟩

theorem Apart.retains_openStore (apart : heap.Apart) (name : String) (entries : ValueEntries) :
    heap.Retains (heap.openStore name entries).2 :=
  ⟨apart.openStore name entries, fun _ _ isScope => isScope, fun _ below _ =>
    getElem?_push_of_lt below entries⟩

theorem Apart.retains_births (apart : heap.Apart) (births : Nat) :
    heap.Retains { heap with births } :=
  ⟨apart.of_same rfl rfl rfl rfl (Nat.le_refl _), fun _ _ isScope => isScope, fun _ _ _ => rfl⟩

theorem Knows.mono
    {other : Heap} {value : Value} (known : heap.Knows value) (births : heap.births ≤ other.births)
    (scopes : heap.scopes.size ≤ other.scopes.size)
    (tables : heap.tables.size ≤ other.tables.size) :
    other.Knows value :=
  fun ρ keeps => known ρ
    ⟨fun number below => keeps.births number (Nat.lt_of_lt_of_le below births),
      fun number below => keeps.scopes number (Nat.lt_of_lt_of_le below scopes),
      fun number below => keeps.tables number (Nat.lt_of_lt_of_le below tables)⟩

theorem Settled.births_le
    (settled : heap.Settled) {births : Nat} (le : heap.births ≤ births) :
    { heap with births }.Settled := by
  have later {value : Value} (known : heap.Knows value) :
      Knows { heap with births } value :=
    known.mono le (Nat.le_refl _) (Nat.le_refl _)
  constructor
  · exact Nat.lt_of_lt_of_le settled.births le
  · exact fun id entries isTable entry member =>
      (settled.tables id entries isTable entry member).imp later later
  · exact fun entry member => (settled.views entry member).imp_left (Nat.lt_of_lt_of_le · le)
  · exact fun entry member => ⟨Nat.lt_of_lt_of_le (settled.losses entry member).1 le,
      fun item inside => later ((settled.losses entry member).2 item inside)⟩
  · exact settled.stores
  · intro id scope isScope
    obtain ⟨varsKnown, outerKnown⟩ := settled.scopes id scope isScope
    refine ⟨?_, outerKnown⟩
    obtain ⟨vars, outer⟩ := scope
    cases vars with
    | table table => exact varsKnown
    | inside holder => exact later varsKnown
    | absent given => exact later varsKnown

theorem Retains.trans {first second third : Heap}
    (former : first.Retains second) (latter : second.Retains third)
    (stores : second.stores = first.stores) (count : first.tables.size ≤ second.tables.size) :
    first.Retains third where
  apart := latter.apart
  scopes id scope isScope := latter.scopes id scope (former.scopes id scope isScope)
  tables table below unowned := by
    have later := latter.tables table (Nat.lt_of_lt_of_le below count)
    rw [stores] at later
    exact (later unowned).trans (former.tables table below unowned)

end Heap

namespace Expression

/-! ## Compiling -/

section Rooted

variable (source : ExpressionSource) (forms : List Value) (heap : Heap)

theorem toldHeap_le_rootedHeap :
    (toldHeap source forms heap).births ≤ (rootedHeap source forms heap).births := by
  unfold rootedHeap openRoot rootVars
  cases source.lineage with
  | none => exact Nat.le_refl _
  | some lineage => exact Nat.le_succ _

theorem le_rootedHeap : heap.births ≤ (rootedHeap source forms heap).births := by
  have toldLe := toldHeap_le_rootedHeap source forms heap
  rw [toldHeap_births] at toldLe
  have firstLe := Value.tellApart_le (heap.births + 1) (treeOf source forms)
  omega

/-- The outermost scope of an expression holds functions of the language. -/
theorem rootedHeap_tables :
    ∃ vars, (rootedHeap source forms heap).tables = heap.tables.push vars ∧
      ∀ value ∈ ValueEntries.contents vars,
        value.isPlain = true ∧ (rootedHeap source forms heap).Knows value := by
  have builtins (later : Heap) : ∀ value ∈ ValueEntries.contents
      (Builtin.table.map fun entry => (Value.str entry.1, Value.builtin entry.2)),
        value.isPlain = true ∧ later.Knows value := by
    intro value member
    obtain ⟨entry, isEntry, inEntry⟩ := List.mem_flatMap.mp member
    obtain ⟨each, -, rfl⟩ := List.mem_map.mp isEntry
    simp only [List.mem_cons, List.not_mem_nil, or_false] at inEntry
    rcases inEntry with rfl | rfl <;> exact ⟨rfl, fun _ _ => rfl⟩
  unfold rootedHeap openRoot rootVars
  cases source.lineage with
  | none => exact ⟨_, rfl, builtins _⟩
  | some lineage =>
      refine ⟨_, rfl, fun value member => ?_⟩
      rcases Entries.mem_contents_put member with inside | rfl | rfl
      · exact builtins _ value inside
      · exact ⟨rfl, fun _ _ => rfl⟩
      · refine ⟨rfl, fun ρ keeps => congrArg (Value.instanceTest · lineage) ?_⟩
        exact keeps.births _ (Nat.lt_succ_self _)

end Rooted

/-! ### What is known of -/

theorem settled_empty : Heap.empty.Settled where
  births := by decide
  tables _ _ isTable := nomatch isTable
  views _ member := nomatch member
  losses _ member := nomatch member
  stores _ _ isStore := nomatch isStore
  scopes _ _ isScope := nomatch isScope

section Settled

variable {heap : Heap} (settled : heap.Settled) (source : ExpressionSource) (forms : List Value)

include settled

/-- Making the site of an expression leaves a heap that knows of everything in it. -/
theorem settled_rootedHeap : (rootedHeap source forms heap).Settled := by
  obtain ⟨vars, isTables, plain⟩ := rootedHeap_tables source forms heap
  have births := le_rootedHeap source forms heap
  have isScopes := rootedHeap_scopes source forms heap
  have tableCount : (rootedHeap source forms heap).tables.size = heap.tables.size + 1 := by
    rw [isTables, Array.size_push]
  have scopeCount : (rootedHeap source forms heap).scopes.size = heap.scopes.size + 1 := by
    rw [isScopes, Array.size_push]
  have later {value : Value} (known : heap.Knows value) :
      (rootedHeap source forms heap).Knows value :=
    known.mono births (by omega) (by omega)
  constructor
  · exact Nat.lt_of_lt_of_le settled.births births
  · intro id entries isTable entry member
    rw [isTables, Array.getElem?_push] at isTable
    split at isTable
    · cases isTable
      obtain ⟨key, value⟩ := ValueEntries.mem_contents member
      exact ⟨(plain _ key).2, (plain _ value).2⟩
    · exact (settled.tables id entries isTable entry member).imp later later
  · intro entry member
    rw [rootedHeap_views] at member
    have known := settled.views entry member
    omega
  · intro entry member
    rw [rootedHeap_losses] at member
    obtain ⟨below, known⟩ := settled.losses entry member
    exact ⟨Nat.lt_of_lt_of_le below births, fun item inside => later (known item inside)⟩
  · intro id store isStore
    rw [rootedHeap_stores] at isStore
    have below := settled.stores id store isStore
    omega
  · intro id scope isScope
    rw [isScopes, Array.getElem?_push] at isScope
    split at isScope
    · cases isScope
      exact ⟨by rw [tableCount]; exact Nat.lt_succ_self _, fun _ member => nomatch member⟩
    · obtain ⟨vars, outer⟩ := scope
      obtain ⟨varsKnown, outerKnown⟩ := settled.scopes id _ isScope
      refine ⟨?_, fun each member => ?_⟩
      · cases vars with
        | table table =>
            exact Nat.lt_of_lt_of_le varsKnown (by omega)
        | inside holder => exact later varsKnown
        | absent given => exact later varsKnown
      · have below := outerKnown each member
        omega

omit source forms in
/-- A store may be opened with entries that are known. -/
theorem settled_openStore
    (name : String) {entries : ValueEntries}
    (known : ∀ entry ∈ entries, heap.Knows entry.1 ∧ heap.Knows entry.2) :
    (heap.openStore name entries).2.Settled := by
  have later {value : Value} (known : heap.Knows value) :
      (heap.openStore name entries).2.Knows value :=
    known.mono (Nat.le_refl _) (Nat.le_refl _) (by simp [Heap.openStore, Heap.openTable])
  have tableCount : (heap.openStore name entries).2.tables.size = heap.tables.size + 1 :=
    Array.size_push ..
  constructor
  · exact settled.births
  · intro id found isTable entry member
    change (heap.tables.push entries)[id]? = some found at isTable
    rw [Array.getElem?_push] at isTable
    split at isTable
    · cases isTable
      exact (known entry member).imp later later
    · exact (settled.tables id found isTable entry member).imp later later
  · intro entry member
    have below := settled.views entry member
    exact ⟨below.1, by omega⟩
  · intro entry member
    obtain ⟨below, known⟩ := settled.losses entry member
    exact ⟨below, fun item inside => later (known item inside)⟩
  · intro id store isStore
    change (heap.stores.push ⟨name, heap.tables.size⟩)[id]? = some store at isStore
    rw [Array.getElem?_push] at isStore
    split at isStore
    · cases isStore
      simp only
      omega
    · have below := settled.stores id store isStore
      omega
  · intro id scope isScope
    obtain ⟨varsKnown, outerKnown⟩ := settled.scopes id scope isScope
    refine ⟨?_, outerKnown⟩
    obtain ⟨vars, outer⟩ := scope
    cases vars with
    | table table => exact Nat.lt_of_lt_of_le varsKnown (by omega)
    | inside holder => exact later varsKnown
    | absent given => exact later varsKnown

end Settled

/-! ### Scopes that stay -/

/-- Making the site of an expression keeps everything apart. -/
theorem retains_rootedHeap
    {heap : Heap} (apart : heap.Apart) (source : ExpressionSource) (forms : List Value) :
    heap.Retains (rootedHeap source forms heap) := by
  obtain ⟨vars, isTables, -⟩ := rootedHeap_tables source forms heap
  have stores := rootedHeap_stores source forms heap
  have scopes := rootedHeap_scopes source forms heap
  have size : (rootedHeap source forms heap).tables.size = heap.tables.size + 1 := by
    rw [isTables, Array.size_push]
  constructor
  · constructor
    · exact (rootedHeap_views source forms heap).trans apart.views
    · rw [Heap.left?, rootedHeap_losses]
      exact apart.unnumbered
    · intro id store isStore
      rw [size]
      exact Nat.lt_succ_of_lt (apart.stores id store (stores ▸ isStore))
    · rw [stores]
      exact apart.owners
    · intro id scope isScope
      rw [scopes, Array.getElem?_push] at isScope
      rw [stores, size]
      split at isScope
      · cases isScope
        exact ⟨_, rfl, Nat.lt_succ_self _, fun other store isStore =>
          Nat.ne_of_lt (apart.stores other store isStore)⟩
      · obtain ⟨table, isTable, below, unowned⟩ := apart.scopes id scope isScope
        exact ⟨table, isTable, Nat.lt_succ_of_lt below, unowned⟩
  · intro id scope isScope
    rw [scopes, Heap.getElem?_push_of_lt (Array.getElem?_eq_some_iff.mp isScope).1]
    exact isScope
  · intro table below _
    rw [isTables, Heap.getElem?_push_of_lt below]

theorem retains_compiledHeap
    {heap : Heap} (apart : heap.Apart) (source : ExpressionSource) (forms : List Value) :
    heap.Retains (compiledHeap source forms heap) := by
  have rooted := retains_rootedHeap apart source forms
  obtain ⟨vars, isTables, -⟩ := rootedHeap_tables source forms heap
  have count : heap.tables.size ≤ (rootedHeap source forms heap).tables.size := by
    rw [isTables, Array.size_push]
    exact Nat.le_succ _
  have built := rooted.trans
    (rooted.apart.retains_births ((rootedHeap source forms heap).births + 1))
    (rootedHeap_stores source forms heap) count
  exact built.trans (built.apart.retains_openStore (source.label ++ " locals") [])
    (rootedHeap_stores source forms heap) count

/-- Compiling leaves a heap that knows of everything in it. -/
theorem settled_compiledHeap
    {heap : Heap} (settled : heap.Settled) (source : ExpressionSource) (forms : List Value) :
    (compiledHeap source forms heap).Settled :=
  settled_openStore
    ((settled_rootedHeap settled source forms).births_le (Nat.le_succ _))
    (source.label ++ " locals") fun _ member => nomatch member

/-- If a source may not be nested at all, compiling only makes its site. -/
theorem perform_build_of_deep
    {source : ExpressionSource} {forms : List Value} {heap : Heap}
    (deep : ¬ 0 ≤ source.config.maxDepth) :
    (build source forms).perform heap =
      (.error (.depthExceeded source.config.maxDepth), rootedHeap source forms heap) := by
  have maxDepth : (rootedHeap source forms heap).maxDepth heap.evaluators.size =
      source.config.maxDepth := by
    simp only [Heap.maxDepth, Heap.config, rootedHeap_evaluators, Array.getElem?_push_size]
  rw [perform_build, Action.perform_bind_ok (perform_openRoot source forms heap)]
  refine Action.perform_bind_error ?_
  change (Eval.step (Eval.solve 99999) (.evaluate heap.evaluators.size heap.scopes.size _
    0)).perform _ = _
  rw [Eval.perform_evaluate, maxDepth, if_pos (Int.not_le.mp deep)]

/-- What compiles may be nested. -/
theorem shallow_of_compile
    {source : ExpressionSource} {globals : Nat} {heap : Heap} {expression : Expression}
    (compiled : ((compile source globals).run heap).1.outcome = .ok expression) :
    0 ≤ source.config.maxDepth := by
  obtain ⟨forms, formed⟩ := formsOf_of_compile compiled
  refine Decidable.byContradiction fun deep => ?_
  rw [(compile_of_error globals formed (perform_build_of_deep deep)).1] at compiled
  cases compiled

/-- The three ways in which compiling can go. -/
theorem compile_cases
    {heap : Heap} (settled : heap.Settled) (source : ExpressionSource) (globals : Nat) :
    ((compile source globals).run heap).2 = heap ∨
      ∃ forms, formsOf heap source.text.toList source.label = .ok forms ∧
        (((compile source globals).run heap).2 = rootedHeap source forms heap ∨
          ((compile source globals).run heap).2 = compiledHeap source forms heap) := by
  cases formed : formsOf heap source.text.toList source.label with
  | error report => exact .inl (compile_of_unfit globals formed).2
  | ok forms =>
      refine .inr ⟨forms, rfl, ?_⟩
      by_cases shallow : 0 ≤ source.config.maxDepth
      · exact .inr (compile_eq globals shallow (fun _ => settled.unlost) formed).2
      · exact .inl (compile_of_error globals formed (perform_build_of_deep shallow)).2

end Expression

/-! ## What a program does -/

/-- Whether lists with some numbers hold code wherever they are in a heap. -/
structure Heap.SharesCode (code : Nat → Prop) (heap : Heap) : Prop where
  unnumbered : ¬ code 0
  within : heap.Within (.ofCode code)

/-- The heaps that a program which uses expressions leads to.  What it does are pieces of
work that read members of events only, above all calls; it gives numbers to events that
arrive, opens stores, replaces their entries and compiles further sources.  Whatever it
hands over has the lists of code as they are. -/
inductive Heap.Course (code : Nat → Prop) (first : Heap) : Heap → Prop
  | start : first.Course code first
  | work {heap : Heap} {task : Task} (course : first.Course code heap)
      (taskWithin : task.Within (.ofCode code))
      (never : Eval.NeverMeets leavesEvents task heap) :
      first.Course code ((Eval.perform task).perform heap).2
  | number {heap : Heap} (course : first.Course code heap) (count : Nat) :
      first.Course code { heap with births := heap.births + count }
  | openStore {heap : Heap} (course : first.Course code heap) (name : String)
      {entries : ValueEntries} (entriesWithin : Value.EntriesWithin (.ofCode code) entries) :
      first.Course code (heap.openStore name entries).2
  | fill {heap : Heap} (course : first.Course code heap) (id : Nat) {entries : ValueEntries}
      (entriesWithin : Value.EntriesWithin (.ofCode code) entries) :
      first.Course code (heap.setEntries id entries)
  | compile {heap : Heap} (course : first.Course code heap) (settled : heap.Settled)
      (source : ExpressionSource) (globals : Nat)
      (tableWithin : Expression.TableWithin (.ofCode code) source.table) :
      first.Course code ((Expression.compile source globals).run heap).2

namespace Heap

variable {code : Nat → Prop} {heap : Heap}

theorem Within.births
    {bounds : Bounds} (within : heap.Within bounds) {births : Nat} (le : heap.births ≤ births) :
    { heap with births }.Within bounds :=
  { within with
    freshBirths := fun birth fresh => within.freshBirths birth (Nat.le_trans le fresh)
    freshContents := fun birth item fresh =>
      within.freshContents birth item (Nat.le_trans le fresh) }

namespace SharesCode

theorem lists_zero (shares : heap.SharesCode code) (items : List Value) :
    (Bounds.ofCode code).Lists 0 items :=
  Value.lists_ofCode shares.unnumbered items

theorem stable
    (shares : heap.SharesCode code) (birth : Nat) (item : Value) (next : Nat)
    (contents : (Bounds.ofCode code).contents birth item) :
    (Bounds.ofCode code).contents birth (item.tellApart next).1 :=
  fun known => Value.isCode_tellApart shares.unnumbered next item (contents known)

theorem rootedHeap
    (shares : heap.SharesCode code) {source : ExpressionSource} {forms : List Value}
    (tableWithin : Expression.TableWithin (.ofCode code) source.table)
    (areTrees : Value.AllTrees forms) :
    (Expression.rootedHeap source forms heap).SharesCode code := by
  refine ⟨shares.unnumbered, ?_⟩
  have treeWithin := Expression.within_synthesize shares.lists_zero areTrees
    (Expression.within_scan shares.lists_zero tableWithin forms source.nullSafe)
  have told := (Expression.becomes_tellApart shares.stable shares.within treeWithin).2
  have opened := (told.equip (heap.evaluators.push ⟨source.config, 0⟩)).within
  exact (Expression.openRoot_keeps opened heap.evaluators.size source.lineage).becomes.within

end SharesCode

end Heap

namespace Expression

/-- Whether the function of an expression is what compiling has made of it. -/
structure InForce (expression : Expression) (code : Nat → Prop) (heap : Heap) : Prop where
  apart : heap.Apart
  shares : heap.SharesCode code
  function : ∃ (id : Nat) (bound : Value) (root table owner : Nat) (vars : ValueEntries),
    expression.function =
        .closure id SpecialForm.unnamed parameters none [bound] root owner ∧
      bound.IsCode code ∧ bound.Within (.ofCode code) ∧
      heap.scopes[root]? = some ⟨.table table, []⟩ ∧ heap.tables[table]? = some vars ∧
      ∀ value ∈ ValueEntries.contents vars, value.isPlain = true

namespace InForce

variable {expression : Expression} {code : Nat → Prop} {heap after : Heap}

/-- An expression stays in force as long as its scope does and the lists of code hold
code. -/
theorem of_retains
    (inForce : expression.InForce code heap) (retains : heap.Retains after)
    (within : after.Within (.ofCode code)) :
    expression.InForce code after := by
  obtain ⟨id, bound, root, table, owner, vars, isFunction, isCode, boundWithin, isScope, isTable,
    plain⟩ := inForce.function
  obtain ⟨_, isVars, below, unowned⟩ := inForce.apart.scopes root _ isScope
  cases isVars
  refine ⟨retains.apart, ⟨inForce.shares.unnumbered, within⟩, id, bound, root, table, owner, vars,
    isFunction, isCode, boundWithin, retains.scopes root _ isScope, ?_, plain⟩
  rw [retains.tables table below unowned, isTable]

/-- An expression stays in force whatever a program does. -/
theorem of_course
    (inForce : expression.InForce code heap) (course : heap.Course code after) :
    expression.InForce code after := by
  induction course with
  | start => exact inForce
  | work course taskWithin never current =>
      have keeps := Eval.perform_keeps current.shares.lists_zero (fun _ => trivial)
        (fun _ => trivial) trivial current.shares.within taskWithin
      exact current.of_retains (never.keepsScopes current.apart).retains keeps.becomes.within
  | number course count current =>
      exact current.of_retains (current.apart.retains_births _)
        (current.shares.within.births (Nat.le_add_right _ _))
  | openStore course name entriesWithin current =>
      exact current.of_retains (current.apart.retains_openStore name _)
        (current.shares.within.openStore name entriesWithin)
  | fill course id entriesWithin current =>
      exact current.of_retains (current.apart.retains_setEntries id _)
        (current.shares.within.setEntries trivial entriesWithin).within
  | @compile before course settled source globals tableWithin current =>
      rcases compile_cases settled source globals with same | ⟨forms, formed, isHeap⟩
      · rw [same]
        exact current
      · have areTrees := allTrees_of_read (read_of_formsOf formed).1
        have rooted := (current.shares.rootedHeap tableWithin areTrees).within
        rcases isHeap with isHeap | isHeap
        · rw [isHeap]
          exact current.of_retains (retains_rootedHeap current.apart source forms) rooted
        · rw [isHeap]
          exact current.of_retains (retains_compiledHeap current.apart source forms)
            ((rooted.births (Nat.le_succ _)).openStore _ trivial)

end InForce

/-! ### Expressions that are compiled -/

theorem within_of_isPlain
    {bounds : Bounds} {value : Value} (plain : value.isPlain = true) :
    value.Within bounds := by
  cases value with
  | str _ | builtin _ | instanceTest _ _ => exact trivial
  | _ => cases plain

theorem isCodeTree_treeOf
    {shared : Nat → Prop} {source : ExpressionSource} {forms : List Value}
    (areCode : ∀ entry ∈ source.table, entry.2.extract.IsCodeTree shared)
    (areTrees : Value.AllTrees forms) :
    (treeOf source forms).IsCodeTree shared := by
  have body : (bodyTree forms).IsCodeTree shared :=
    Value.isCodeTree_of_isTree _ ⟨rfl, trivial, areTrees⟩
  have symbols : ∀ each ∈ symbolsOf source forms, each.2.IsCodeTree shared := by
    intro each member
    obtain ⟨reference, isReference, rfl⟩ := List.mem_map.mp member
    obtain ⟨entry, isUsed, rfl⟩ := List.mem_map.mp isReference
    have isEntry : entry ∈ source.table := (List.mem_filter.mp (List.mem_mergeSort.mp isUsed)).1
    have isCode := areCode entry isEntry
    cases isSafe : source.nullSafe with
    | false => exact isCode
    | true => exact ⟨.inl rfl, trivial, trivial, isCode, trivial⟩
  have pairs : Value.AllCodeTrees shared (boundPairs (symbolsOf source forms)) := by
    rw [Value.allCodeTrees_iff]
    intro item member
    obtain ⟨each, isSymbol, inPair⟩ := List.mem_flatMap.mp member
    rcases List.mem_cons.mp inPair with rfl | inPair
    · exact trivial
    · rw [List.mem_singleton.mp inPair]
      exact symbols each isSymbol
  unfold treeOf boundTree
  split
  · exact body
  · exact ⟨.inl rfl, trivial, ⟨.inl rfl, pairs⟩, body, trivial⟩

/-- The numbers of the lists of code of an expression that is compiled: those which the
trees of its table share, and new ones. -/
def numbersOfCode (source : ExpressionSource) (globals : Nat) (shared : Nat → Prop) (heap : Heap)
    (birth : Nat) : Prop :=
  shared birth ∨
    heap.births ≤ birth ∧ birth < ((compile source globals).run heap).2.births

section Compiled

variable {shared code : Nat → Prop} {source : ExpressionSource} {forms : List Value} {heap : Heap}

/-- In the heap in which a source has become a function, lists of code hold code. -/
theorem within_builtHeap
    (within : { heap with births := (builtHeap source forms heap).births }.Within
      (.ofCode code)) :
    (builtHeap source forms heap).Within (.ofCode code) := by
  obtain ⟨vars, isTables, plain⟩ := rootedHeap_tables source forms heap
  have varsWithin : Value.EntriesWithin (.ofCode code) vars := by
    rw [Value.entriesWithin_iff]
    intro entry member
    exact (ValueEntries.mem_contents member).imp
      (fun inside => within_of_isPlain (plain _ inside).1)
      fun inside => within_of_isPlain (plain _ inside).1
  have becomes := (@Heap.Within.openScope (.ofCode code) _ (within.openTable varsWithin).within
    (.table heap.tables.size) none trivial fun _ same => nomatch same).2
  have isViews := rootedHeap_views source forms heap
  have isLosses := rootedHeap_losses source forms heap
  have isStores := rootedHeap_stores source forms heap
  have isScopes := rootedHeap_scopes source forms heap
  unfold builtHeap at becomes ⊢
  generalize rootedHeap source forms heap = rooted at *
  obtain ⟨tables, views, stores, scopes, evaluators, losses, births⟩ := rooted
  cases isTables
  cases isViews
  cases isLosses
  cases isStores
  cases isScopes
  exact (becomes.equip evaluators).within

/-- What compiles is in force. -/
theorem inForce_of_compile
    {globals : Nat} {expression : Expression} (settled : heap.Settled) (apart : heap.Apart)
    (shares : heap.SharesCode shared)
    (areCode : ∀ entry ∈ source.table, entry.2.extract.IsCodeTree shared)
    (compiled : ((compile source globals).run heap).1.outcome = .ok expression) :
    expression.InForce (numbersOfCode source globals shared heap)
      ((compile source globals).run heap).2 := by
  have shallow := shallow_of_compile compiled
  obtain ⟨forms, formed⟩ := formsOf_of_compile compiled
  have areTrees := allTrees_of_read (read_of_formsOf formed).1
  obtain ⟨isExpression, isHeap⟩ := compile_eq globals shallow (fun _ => settled.unlost) formed
  cases isExpression.symm.trans compiled
  have old (birth : Nat) (below : birth < heap.births)
      (known : numbersOfCode source globals shared heap birth) : shared birth :=
    known.resolve_right fun fresh => absurd below (Nat.not_lt.mpr fresh.1)
  have toldLe := toldHeap_le_rootedHeap source forms heap
  rw [toldHeap_births] at toldLe
  have births := le_rootedHeap source forms heap
  have lastIs : ((compile source globals).run heap).2.births =
      (rootedHeap source forms heap).births + 1 := by
    rw [isHeap]
    rfl
  have later (birth : Nat) (known : numbersOfCode source globals shared heap birth) :
      birth < (builtHeap source forms heap).births := by
    change birth < (rootedHeap source forms heap).births + 1
    rcases known with isShared | fresh
    · have below : birth < heap.births := by
        refine Nat.lt_of_not_le fun above => ?_
        exact shares.within.freshContents birth (.store 0) above isShared
      omega
    · rw [← lastIs]
      exact fresh.2
  have within := within_builtHeap
    (settled.within_ofCode shares.within (fun _ => .inl) old later)
  have fresh (birth : Nat) (above : heap.births + 1 ≤ birth)
      (below : birth < ((treeOf source forms).tellApart (heap.births + 1)).2) :
      numbersOfCode source globals shared heap birth :=
    .inr ⟨Nat.le_of_succ_le above, by rw [lastIs]; omega⟩
  have told := Value.code_tellApart (fun _ => .inl) (heap.births + 1) (treeOf source forms)
    (isCodeTree_treeOf areCode areTrees) fresh
  obtain ⟨vars, isTables, plain⟩ := rootedHeap_tables source forms heap
  rw [isHeap]
  refine ⟨(retains_compiledHeap apart source forms).apart, ⟨?_, within.openStore _ trivial⟩, _, _,
    heap.scopes.size, heap.tables.size, heap.evaluators.size, vars, rfl, ?_,
    ?_, compiledHeap_scope source forms heap, ?_,
    fun value member => (plain value member).1⟩
  · rintro (isShared | fresh)
    · exact shares.unnumbered isShared
    · exact absurd settled.births (Nat.not_lt.mpr fresh.1)
  · unfold Heap.current
    split
    · exact told.1
    · exact Value.isCode_current _ _ told.1
  · have noViews := (rootedHeap_views source forms heap).trans apart.views
    have same := @Heap.current_of_losses (rootedHeap source forms heap)
      (builtHeap source forms heap) noViews noViews rfl
    rw [← same]
    exact within.current told.2
  · change ((rootedHeap source forms heap).tables.push [])[heap.tables.size]? = some vars
    rw [isTables, Heap.getElem?_push_of_lt (by simp), Array.getElem?_push_size]

end Compiled

end Expression

end CueScript
