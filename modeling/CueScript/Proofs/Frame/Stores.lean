import CueScript.Proofs.Frame.Scopes
import CueScript.Proofs.Run.Compile
import CueScript.Proofs.Twin.Settled

/-!
# Stores out of reach

A call writes only to stores that it can reach: from the function that is called and its
arguments by way of what stores, maps, lists, events and closures hold.  Everything that
it makes or finds on the way is within this reach, whatever is called back.
-/

namespace CueScript

/-- The keys and values of entries. -/
def ValueEntries.contents (entries : ValueEntries) : List Value :=
  entries.flatMap fun entry => [entry.1, entry.2]

theorem ValueEntries.mem_contents
    {entries : ValueEntries} {entry : Value × Value} (member : entry ∈ entries) :
    entry.1 ∈ entries.contents ∧ entry.2 ∈ entries.contents := by
  constructor <;> exact List.mem_flatMap.mpr ⟨entry, member, by simp⟩

/-- The number of a list or a map. -/
def Value.number? : Value → Option Nat
  | .list _ birth => some birth
  | .vector _ birth => some birth
  | .map _ birth => some birth
  | _ => none

namespace Heap

/-- What the variables of a scope lead to. -/
def variablesParts (heap : Heap) : Variables → List Value
  | .table table => ValueEntries.contents (heap.table table)
  | .inside holder => [holder]
  | .absent given => [given]

/-- The items that are left of the list with a number, if it has lost any. -/
def leftParts (heap : Heap) (birth : Nat) : List Value := (heap.left? birth).getD []

/-- What a value leads to in one step: the items of a list and those it has left, the keys
and values of maps and stores, the members of events and their results, the body and the
scope of a closure, and the variables of a scope and the scopes around it. -/
def parts (heap : Heap) : Value → List Value
  | .list items birth => items ++ heap.leftParts birth
  | .vector items birth => items ++ heap.leftParts birth
  | .quoted form => [form]
  | .tuple items => items
  | .map entries birth => ValueEntries.contents entries ++ heap.leftParts birth
  | .closure _ _ _ _ body scope _ => .scope scope :: body
  | .store id =>
      match heap.stores[id]? with
      | some store => ValueEntries.contents (heap.table store.table)
      | none => []
  | .event _ _ members => members.map Prod.snd
  | .method _ result => [result]
  | .member receiver _ => [receiver]
  | .scope id =>
      match heap.scopes[id]? with
      | some scope => heap.variablesParts scope.vars ++ scope.outer.map .scope
      | none => []
  | _ => []

/-- What can be reached from some values. -/
inductive Reaches (heap : Heap) (roots : List Value) : Value → Prop
  | root {value : Value} (member : value ∈ roots) : Reaches heap roots value
  | part {whole value : Value} (reached : Reaches heap roots whole)
      (member : value ∈ heap.parts whole) : Reaches heap roots value

/-- Whether a list or a map with a number can be reached from some values. -/
def ReachesNumber (heap : Heap) (roots : List Value) (birth : Nat) : Prop :=
  ∃ value, heap.Reaches roots value ∧ value.number? = some birth

/-- What can be met in a run that begins with some values: what can be reached from them
and what is made later. -/
def reach (heap : Heap) (roots : List Value) : Bounds where
  stores id := heap.Reaches roots (.store id)
  scopes id := heap.Reaches roots (.scope id) ∨ heap.scopes.size ≤ id
  evaluators _ := True
  tables table :=
    (∃ id store, heap.Reaches roots (.store id) ∧ heap.stores[id]? = some store ∧
      store.table = table) ∨
    (∃ id scope, heap.Reaches roots (.scope id) ∧ heap.scopes[id]? = some scope ∧
      scope.vars = .table table) ∨
    heap.tables.size ≤ table
  births birth := heap.ReachesNumber roots birth ∨ heap.births ≤ birth ∨ birth = 0
  losable _ := True
  code _ := True

variable {heap : Heap} {roots : List Value}

mutual

/-- What is reached is within reach. -/
theorem within_reach (value : Value) (reached : heap.Reaches roots value) :
    value.Within (heap.reach roots) := by
  cases value with
  | list items birth =>
      have inside := allWithin_reach items fun item member =>
        reached.part (List.mem_append_left (heap.leftParts birth) member)
      exact ⟨⟨.inl ⟨_, reached, rfl⟩, fun _ _ => trivial⟩, inside⟩
  | vector items birth =>
      have inside := allWithin_reach items fun item member =>
        reached.part (List.mem_append_left (heap.leftParts birth) member)
      exact ⟨⟨.inl ⟨_, reached, rfl⟩, fun _ _ => trivial⟩, inside⟩
  | quoted form => exact within_reach form (reached.part List.mem_cons_self)
  | tuple items => exact allWithin_reach items fun item member => reached.part member
  | map entries birth =>
      have inside := entriesWithin_reach entries fun item member =>
        reached.part (List.mem_append_left (heap.leftParts birth) member)
      exact ⟨.inl ⟨_, reached, rfl⟩, inside⟩
  | closure id name params rest body inside owner =>
      have scope : heap.Reaches roots (.scope inside) := reached.part List.mem_cons_self
      have forms := allWithin_reach body fun form member =>
        reached.part (show form ∈ Value.scope inside :: body from List.mem_cons_of_mem _ member)
      exact ⟨forms, fun _ _ => trivial, .inl scope, trivial, trivial⟩
  | store id => exact reached
  | event id origin members =>
      exact membersWithin_reach members fun first member =>
        reached.part (List.mem_map_of_mem member)
  | method id result => exact within_reach result (reached.part List.mem_cons_self)
  | member receiver name => exact within_reach receiver (reached.part List.mem_cons_self)
  | scope id => exact ⟨.inl reached, trivial⟩
  | evaluator id => exact ⟨trivial, trivial⟩
  | _ => exact trivial

theorem allWithin_reach
    (items : List Value) (reached : ∀ item ∈ items, heap.Reaches roots item) :
    Value.AllWithin (heap.reach roots) items := by
  cases items with
  | nil => exact trivial
  | cons item rest =>
      exact ⟨within_reach item (reached item List.mem_cons_self),
        allWithin_reach rest fun other member => reached other (List.mem_cons_of_mem item member)⟩

theorem entriesWithin_reach
    (entries : List (Value × Value))
    (reached : ∀ value ∈ ValueEntries.contents entries, heap.Reaches roots value) :
    Value.EntriesWithin (heap.reach roots) entries := by
  cases entries with
  | nil => exact trivial
  | cons entry rest =>
      exact ⟨entryWithin_reach entry (ValueEntries.mem_contents List.mem_cons_self |>.imp
          (reached entry.1) (reached entry.2)),
        entriesWithin_reach rest fun value member =>
          reached value (List.mem_cons_of_mem entry.1 (List.mem_cons_of_mem entry.2 member))⟩

theorem entryWithin_reach
    (entry : Value × Value)
    (reached : heap.Reaches roots entry.1 ∧ heap.Reaches roots entry.2) :
    Value.EntryWithin (heap.reach roots) entry := by
  cases entry with
  | mk key value => exact ⟨within_reach key reached.1, within_reach value reached.2⟩

theorem membersWithin_reach
    (members : List (String × Value))
    (reached : ∀ first ∈ members, heap.Reaches roots first.2) :
    Value.MembersWithin (heap.reach roots) members := by
  cases members with
  | nil => exact trivial
  | cons first rest =>
      exact ⟨memberWithin_reach first (reached first List.mem_cons_self),
        membersWithin_reach rest fun other member =>
          reached other (List.mem_cons_of_mem first member)⟩

theorem memberWithin_reach
    (first : String × Value) (reached : heap.Reaches roots first.2) :
    Value.MemberWithin (heap.reach roots) first := by
  cases first with
  | mk name value => exact within_reach value reached

end

/-- The items that are left of a list within reach are reached. -/
theorem reaches_left
    (unlost : ∀ birth, heap.births ≤ birth → heap.left? birth = none)
    (unnumbered : heap.left? 0 = none) {birth : Nat} (known : (heap.reach roots).births birth)
    {item : Value} (member : item ∈ heap.leftParts birth) :
    heap.Reaches roots item := by
  rcases known with ⟨value, reached, isNumber⟩ | fresh | rfl
  · refine reached.part ?_
    cases value <;> cases isNumber <;> exact List.mem_append_right _ member
  · rw [leftParts, unlost birth fresh] at member
    cases member
  · rw [leftParts, unnumbered] at member
    cases member

/-- In a heap in which everything is apart, what is reached leads to nothing out of
reach. -/
theorem Apart.within_reach
    (apart : heap.Apart) (unlost : ∀ birth, heap.births ≤ birth → heap.left? birth = none) :
    heap.Within (heap.reach roots) where
  tables table entries known isTable := by
    have held : heap.table table = entries := by
      rw [Heap.table, isTable]
      rfl
    refine entriesWithin_reach entries fun value member => ?_
    rw [← held] at member
    rcases known with ⟨id, store, reached, isStore, rfl⟩ | ⟨id, scope, reached, isScope, isVars⟩ |
      fresh
    · refine reached.part ?_
      simp only [parts, isStore]
      exact member
    · refine reached.part ?_
      simp only [parts, isScope, isVars, variablesParts]
      exact List.mem_append_left _ member
    · rw [Array.getElem?_eq_none fresh] at isTable
      cases isTable
  stores id store known isStore := .inl ⟨id, store, known, isStore, rfl⟩
  scopes id scope known isScope := by
    have reached : heap.Reaches roots (.scope id) := by
      refine known.resolve_right fun fresh => ?_
      rw [Array.getElem?_eq_none fresh] at isScope
      cases isScope
    obtain ⟨table, isVars, -, -⟩ := apart.scopes id scope isScope
    constructor
    · rw [isVars]
      exact .inr (.inl ⟨id, scope, reached, isScope, isVars⟩)
    · intro each member
      refine .inl (reached.part ?_)
      simp only [parts, isScope]
      exact List.mem_append_right _ (List.mem_map_of_mem member)
  views entry member := by
    rw [apart.views] at member
    cases member
  losses birth left known isLeft := by
    refine ⟨trivial, allWithin_reach left fun item member =>
      reaches_left unlost apart.unnumbered known ?_⟩
    rw [leftParts, isLeft]
    exact member
  kept _ _ _ _ _ _ := trivial
  freshTables _ fresh := .inr (.inr fresh)
  freshScopes _ fresh := .inr fresh
  freshBirths _ fresh := .inr (.inl fresh)
  freshContents _ _ _ := trivial

/-- The table of a store out of reach is out of reach. -/
theorem Apart.not_tables_reach
    (apart : heap.Apart) {id : Nat} {store : Store} (isStore : heap.stores[id]? = some store)
    (unreached : ¬ heap.Reaches roots (.store id)) :
    ¬ (heap.reach roots).tables store.table := by
  rintro (⟨other, another, reached, isOther, same⟩ | ⟨other, scope, reached, isScope, isVars⟩ |
    fresh)
  · have sameStore := apart.owners other id another store isOther isStore same
    exact unreached (sameStore ▸ reached)
  · obtain ⟨table, isTable, -, unowned⟩ := apart.scopes other scope isScope
    cases isVars.symm.trans isTable
    exact unowned id store isStore rfl
  · exact absurd (apart.stores id store isStore) (Nat.not_lt.mpr fresh)

end Heap

/-! ## What is left of lists -/

namespace Heap

variable {heap other : Heap}

/-- Where no map is a view, what lists hold now depends only on what they have lost. -/
theorem present_of_losses
    (noViews : heap.views = []) (noOtherViews : other.views = [])
    (losses : other.losses = heap.losses) :
    other.present = heap.present := by
  have same (budget : Nat) (path : List Nat) :
      other.holdings budget path = heap.holdings budget path := by
    induction budget generalizing path with
    | zero => rfl
    | succ budget inductionHypothesis =>
        simp only [holdings, left?, viewed?, noViews, noOtherViews, losses, inductionHypothesis,
          Entries.find?, Option.map_none]
  rw [present, present, noViews, noOtherViews, losses, same]

theorem current_of_losses
    (noViews : heap.views = []) (noOtherViews : other.views = [])
    (losses : other.losses = heap.losses) (value : Value) :
    other.current value = heap.current value := by
  simp only [current, isUnchanged, noViews, noOtherViews, losses,
    present_of_losses noViews noOtherViews losses]

theorem entries_of_losses
    (noViews : heap.views = []) (noOtherViews : other.views = [])
    (losses : other.losses = heap.losses) {id : Nat} {store : Store}
    (isStore : heap.stores[id]? = some store) (isOther : other.stores[id]? = some store)
    (table : other.tables[store.table]? = heap.tables[store.table]?) :
    other.entries id = heap.entries id := by
  simp only [entries, isStore, isOther, Heap.table, table, isUnchanged, noViews, noOtherViews,
    losses, present_of_losses noViews noOtherViews losses]

end Heap

/-! ## Pieces of work -/

namespace Eval

/-- A piece of work writes to no store that it cannot reach, and no list that it cannot
reach loses items. -/
theorem perform_leaves
    {task : Task} {heap : Heap} {roots : List Value} (apart : heap.Apart)
    (settled : heap.Settled) (within : task.Within (heap.reach roots)) :
    (∀ (id : Nat) (store : Store), heap.stores[id]? = some store →
      ¬ heap.Reaches roots (.store id) →
        ((perform task).perform heap).2.tables[store.table]? = heap.tables[store.table]?) ∧
    ∀ birth, 0 < birth → birth < heap.births → ¬ heap.ReachesNumber roots birth →
      ((perform task).perform heap).2.left? birth = heap.left? birth := by
  have unnumbered : ∀ items, (heap.reach roots).Lists 0 items :=
    fun items => ⟨.inr (.inr rfl), fun _ _ => trivial⟩
  have keeps : (perform task).Keeps (heap.reach roots) (Value.Within (heap.reach roots)) heap :=
    perform_keeps unnumbered (fun _ => trivial) (fun _ => trivial) trivial
      (apart.within_reach fun _ => settled.unlost) within
  constructor
  · intro id store isStore unreached
    exact keeps.becomes.extend.tables _ (apart.not_tables_reach isStore unreached)
  · intro birth numbered old unreached
    refine keeps.becomes.extend.losses birth ?_
    rintro (reached | fresh | rfl)
    · exact unreached reached
    · exact absurd old (Nat.not_lt.mpr fresh)
    · exact absurd numbered (Nat.lt_irrefl 0)

end Eval

end CueScript
