import CueScript.Proofs.Run.Agree
import CueScript.Proofs.Twin.Change

/-!
# Twin actions

`Twin pairing image left right` says of two actions that, from two heaps that are alike
on, they end alike: with a value and its image and with heaps that are alike again, or
with the same fault.  Nothing is said where the left run stops with the alarm.  Where the
right run may be nested deeper, it may also end at a limit.

There is a rule for every way in which actions are made.
-/

namespace CueScript

/-- Whether a fault tells that a limit of nesting is reached. -/
def Fault.IsLimit : Fault → Prop
  | .depthExceeded _ => True
  | .failed .stackExhausted => True
  | _ => False

/-- Whether the right run may end with a fault where the left one does not: with one that
tells of a limit.  Where only the limits of evaluators are lower, it is one of those. -/
def Pairing.Cuts (pairing : Pairing) (fault : Fault) : Prop :=
  pairing.slack ∧ fault.IsLimit ∧ (pairing.lowered → fault ≠ .failed .stackExhausted)

variable {α β : Type}

/-- How the left and the right one of twins end. -/
inductive TwinEnds (pairing : Pairing) (image : α → β) :
    Except Fault α × Heap → Except Fault β × Heap → Prop
  | value (result : α) (left right : Heap) (like : left.Like pairing right) :
      TwinEnds pairing image (.ok result, left) (.ok (image result), right)
  | fault (fault : Fault) (left right : Heap) (like : left.Like pairing right) :
      TwinEnds pairing image (.error fault, left) (.error fault, right)
  | alarm (left : Heap) (other : Except Fault β × Heap) :
      TwinEnds pairing image (.error pairing.alarm, left) other
  | limit (fault : Fault) (cuts : pairing.Cuts fault) (other : Except Fault α × Heap)
      (right : Heap) :
      TwinEnds pairing image other (.error fault, right)

theorem TwinEnds.of_ok
    {pairing : Pairing} {image : α → β} {value : α} {other : β} {left right : Heap}
    (ends : TwinEnds pairing image (.ok value, left) (.ok other, right)) :
    other = image value ∧ left.Like pairing right := by
  generalize isLeft : (Except.ok value, left) = first at ends
  generalize isRight : (Except.ok other, right) = second at ends
  cases ends with
  | value result first second like =>
      cases isLeft
      cases isRight
      exact ⟨rfl, like⟩
  | fault => cases isLeft
  | alarm => cases isLeft
  | limit => cases isRight

theorem TwinEnds.of_quiet
    {pairing : Pairing} {image : α → β} {ending : Except Fault α × Heap}
    {other : Except Fault β × Heap} (ends : TwinEnds pairing image ending other)
    (straight : ¬ pairing.slack) (quiet : ∀ after, ending ≠ (.error pairing.alarm, after)) :
    ending.2.Like pairing other.2 ∧ other.1 = ending.1.map image := by
  cases ends with
  | value result left right like => exact ⟨like, rfl⟩
  | fault fault left right like => exact ⟨like, rfl⟩
  | alarm left other => exact absurd rfl (quiet left)
  | limit fault cuts => exact absurd cuts.1 straight

/-- Whether two actions end alike from heaps on that are alike. -/
def Twin (pairing : Pairing) (image : α → β) (left : Action α) (right : Action β) : Prop :=
  ∀ before other : Heap, before.Like pairing other →
    TwinEnds pairing image (left.perform before) (right.perform other)

namespace Twin

variable {pairing : Pairing}

/-! ## Rules -/

theorem pure
    {image : α → β} {value : α} {other : β} (same : other = image value) :
    Twin pairing image (pure value) (pure other) := by
  intro before after like
  rw [same]
  exact .value value before after like

theorem throw {image : α → β} {fault : Fault} :
    Twin pairing image (throw fault) (throw fault) :=
  fun before other like => .fault fault before other like

theorem fail {image : α → β} {failure : Failure} :
    Twin pairing image (Action.fail failure) (Action.fail failure) := throw

theorem limit
    {image : α → β} {left : Action α} {fault : Fault}
    (cuts : pairing.Cuts fault) :
    Twin pairing image left (MonadExcept.throw fault) :=
  fun _ other _ => .limit fault cuts _ other

theorem bind
    {γ δ : Type} {image : α → β} {last : γ → δ}
    {first : Action α} {other : Action β} {next : α → Action γ} {later : β → Action δ}
    (head : Twin pairing image first other)
    (tail : ∀ value, Twin pairing last (next value) (later (image value))) :
    Twin pairing last (first >>= next) (other >>= later) := by
  intro before after like
  have ends := head before after like
  rw [Action.perform_bind, Action.perform_bind]
  generalize first.perform before = left at ends ⊢
  generalize other.perform after = right at ends ⊢
  cases ends with
  | value result left right like => exact tail result left right like
  | fault fault left right like => exact .fault fault left right like
  | alarm left other => exact .alarm left _
  | limit fault cuts other right => exact .limit fault cuts _ right

/-- The heap is looked at. -/
theorem get_bind
    {image : α → β} {next : Heap → Action α} {later : Heap → Action β}
    (tail : ∀ left right : Heap, left.Like pairing right →
      Twin pairing image (next left) (later right)) :
    Twin pairing image ((get : Action Heap) >>= next) ((get : Action Heap) >>= later) :=
  fun before other like => tail before other like before other like

theorem change
    {image : α → β} {operation : Heap → α × Heap} {other : Heap → β × Heap}
    (alike : ∀ left right : Heap, left.Like pairing right →
      (other right).1 = image (operation left).1 ∧
        (operation left).2.Like pairing (other right).2) :
    Twin pairing image (Action.change operation) (Action.change other) := by
  intro before after like
  obtain ⟨same, changed⟩ := alike before after like
  rw [Action.perform_change, Action.perform_change, same]
  exact .value _ _ _ changed

theorem modify
    {revise other : Heap → Heap}
    (alike : ∀ left right : Heap, left.Like pairing right →
      (revise left).Like pairing (other right)) :
    Twin pairing (fun result => result) (modify revise : Action PUnit)
      (modify other : Action PUnit) :=
  fun before after like => .value PUnit.unit _ _ (alike before after like)

theorem ofExcept
    {image : α → β} {result : Except Failure α} {other : Except Failure β}
    (same : other = result.map image) :
    Twin pairing image (Action.ofExcept result) (Action.ofExcept other) := by
  rw [same]
  cases result with
  | ok value => exact pure rfl
  | error failure => exact fail

theorem reading
    {image : α → β} {operation : Heap → Except Failure α} {other : Heap → Except Failure β}
    (alike : ∀ left right : Heap, left.Like pairing right →
      other right = (operation left).map image) :
    Twin pairing image (Action.reading operation) (Action.reading other) :=
  get_bind fun left right like => ofExcept (alike left right like)

/-- A text that does not depend on numbers is read. -/
theorem readingSame
    {operation other : Heap → Except Failure α}
    (alike : ∀ left right : Heap, left.Like pairing right → other right = operation left) :
    Twin pairing (fun result => result) (Action.reading operation) (Action.reading other) :=
  reading fun left right like => by
    rw [alike left right like]
    cases operation left <;> rfl

/-! ## Actions that read and change the heap -/

theorem newId : Twin pairing pairing.numbers.births Action.newId Action.newId :=
  change fun _ _ like => ⟨like.nextBirth_zero.symm, like.skip 1⟩

theorem newFloat (number : Binary64) :
    Twin pairing (Value.rename pairing.numbers) (Action.newFloat number)
      (Action.newFloat number) := by
  unfold Action.newFloat
  split
  · exact bind newId fun _ => pure rfl
  · exact pure (by simp [pairing.numbers.births_zero])

theorem newList (items : List Value) :
    Twin pairing (Value.rename pairing.numbers) (Action.newList items)
      (Action.newList (items.map (Value.rename pairing.numbers))) :=
  bind newId fun birth => pure (Value.rename_list pairing.numbers items birth).symm

theorem newMap (entries : ValueEntries) :
    Twin pairing (Value.rename pairing.numbers) (Action.newMap entries)
      (Action.newMap (entries.map (Value.renameEntry pairing.numbers))) :=
  bind newId fun birth => pure (Value.rename_map pairing.numbers entries birth).symm

theorem current (value : Value) :
    Twin pairing (Value.rename pairing.numbers) (Action.current value)
      (Action.current (value.rename pairing.numbers)) :=
  get_bind fun _ _ like => pure (like.current value)

/-- What follows is told of which value the present one is. -/
theorem current_bind
    {image : α → β} {next : Value → Action α} {later : Value → Action β} (value : Value)
    (tail : ∀ heap : Heap, Twin pairing image (next (heap.current value))
      (later ((heap.current value).rename pairing.numbers))) :
    Twin pairing image (Action.current value >>= next)
      (Action.current (value.rename pairing.numbers) >>= later) := by
  intro before other like
  have found := tail before before other like
  rw [← like.current] at found
  exact found

theorem currentItems (items : List Value) :
    Twin pairing (List.map (Value.rename pairing.numbers)) (Action.currentItems items)
      (Action.currentItems (items.map (Value.rename pairing.numbers))) :=
  get_bind fun _ _ like => pure (like.currentItems items)

theorem upcoming (birth done : Nat) (rest : List Value) :
    Twin pairing (List.map (Value.rename pairing.numbers))
      (Action.upcoming birth done rest)
      (Action.upcoming (pairing.numbers.births birth) done
        (rest.map (Value.rename pairing.numbers))) := by
  refine get_bind fun left right like => ?_
  rw [like.left_items]
  cases left.left? birth with
  | none => exact pure rfl
  | some held => exact pure (List.map_drop ..).symm

theorem equal (a b : Value) :
    Twin pairing (fun result => result) (Action.equal a b)
      (Action.equal (a.rename pairing.numbers) (b.rename pairing.numbers)) :=
  bind (current a) fun left => bind (current b) fun right =>
    pure (Value.equal_rename pairing.numbers left right)

theorem shown (value : Value) :
    Twin pairing (fun result => result) (Action.shown value)
      (Action.shown (value.rename pairing.numbers)) :=
  readingSame fun _ _ like => like.shown value

theorem source (value : Value) :
    Twin pairing (fun result => result) (Action.source value)
      (Action.source (value.rename pairing.numbers)) :=
  readingSame fun _ _ like => like.source value

theorem display (value : Value) :
    Twin pairing (fun result => result) (Action.display value)
      (Action.display (value.rename pairing.numbers)) :=
  readingSame fun _ _ like => like.display value

/-! ## Scopes -/

theorem scopeInside
    (together : ¬ pairing.apart) {vars : Variables}
    (kept : ∀ table, vars = .table table → pairing.aside table = none) {parent : Nat}
    (meets : pairing.Meets parent) :
    Twin pairing pairing.numbers.scopes (Action.scopeInside parent vars)
      (Action.scopeInside (pairing.numbers.scopes parent) (vars.rename pairing.numbers)) := by
  refine get_bind fun left right like => ?_
  rw [like.canOpenInside meets]
  split
  · exact change fun _ _ alike =>
      alike.openScope kept (fun isApart => absurd isApart together) (some parent)
        fun _ isParent => Option.some.inj isParent ▸ meets
  · exact fail

theorem scopeOf (together : ¬ pairing.apart) (value : Value) :
    Twin pairing pairing.numbers.scopes (Action.scopeOf value)
      (Action.scopeOf (value.rename pairing.numbers)) := by
  have given (holder : Value) :
      Twin pairing pairing.numbers.scopes
        (Action.change fun heap => heap.openScope (.absent holder) none)
        (Action.change fun heap =>
          heap.openScope (.absent (holder.rename pairing.numbers)) none) :=
    change fun _ _ like => like.openScope (fun _ same => Variables.noConfusion same)
      (fun isApart => absurd isApart together) none fun _ isParent => nomatch isParent
  cases value with
  | scope id => exact pure rfl
  | _ =>
      have opened := given
      simp only [Action.scopeOf, Value.rename]
      exact opened _

/-- A scope with variables in a table of their own is opened.  What follows may set its
variables. -/
theorem childScope_bind
    {image : α → β} {next : Nat → Action α} {later : Nat → Action β}
    {parent : Nat} (meets : pairing.Meets parent) (vars : ValueEntries)
    (tail : ∀ scope, pairing.Owns scope →
      Twin pairing image (next scope) (later (pairing.numbers.scopes scope))) :
    Twin pairing image (Action.childScope parent vars >>= next)
      (Action.childScope (pairing.numbers.scopes parent)
        (vars.map (Value.renameEntry pairing.numbers)) >>= later) := by
  intro before other like
  obtain ⟨sameTable, opened⟩ := like.openTable vars
  have kept : ∀ table, Variables.table before.tables.size = .table table →
      pairing.aside table = none := by
    rintro _ ⟨⟩
    exact like.newTable_kept
  have own : pairing.apart → ∃ table,
      Variables.table before.tables.size = .table table ∧
        table < (before.openTable vars).2.tables.size ∧
          ∀ (id : Nat) (store : Store), (before.openTable vars).2.stores[id]? = some store →
            store.table ≠ table := by
    intro isApart
    refine ⟨before.tables.size, rfl, by simp [Heap.openTable], fun id store isStore => ?_⟩
    have below := (like.apart isApart).stores id store isStore
    omega
  have inside := opened.openScope kept own (some parent) fun _ isParent =>
    Option.some.inj isParent ▸ meets
  have canOpen := opened.canOpenInside meets
  have run (heap : Heap) (parent : Nat) (vars : ValueEntries) :
      (Action.childScope parent vars).perform heap =
        if (heap.openTable vars).2.canOpenInside parent then
          (.ok ((heap.openTable vars).2.openScope (.table heap.tables.size) (some parent)).1,
            ((heap.openTable vars).2.openScope (.table heap.tables.size) (some parent)).2)
        else
          (.error (.failed .noAttribute), (heap.openTable vars).2) := by
    change (Action.scopeInside parent (.table heap.tables.size)).perform
      (heap.openTable vars).2 = _
    rw [Action.scopeInside, Action.perform_get_bind]
    split <;> rfl
  rw [Action.perform_bind, Action.perform_bind, run, run, canOpen]
  cases (before.openTable vars).2.canOpenInside parent with
  | true =>
      have scopeOwned : pairing.Owns before.scopes.size := .inr like.scopeCount
      have after := tail before.scopes.size scopeOwned
      simp only [Option.map_some, Variables.rename, like.nextTable_zero] at inside
      rw [like.nextScope_zero] at after
      exact after _ _ inside.2
  | false => exact .fault _ _ _ opened

theorem define
    {scope : Nat} (owns : pairing.Owns scope) (key value : Value) :
    Twin pairing (fun result => result) (Action.define scope key value)
      (Action.define (pairing.numbers.scopes scope) (key.rename pairing.numbers)
        (value.rename pairing.numbers)) := by
  intro before other like
  have sameDefined := like.defined owns key value
  unfold Action.define Action.reading
  simp only [bind_assoc, Action.perform_get_bind, sameDefined]
  cases isDefined : before.defined scope key value with
  | error failure => exact .fault _ _ _ like
  | ok revised =>
      obtain ⟨table, entries⟩ := revised
      exact .value _ _ _ (like.setTable (like.defined_kept owns isDefined) entries)

theorem lookup
    {key : Value} (speaks : pairing.Speaks key) {scope : Nat} (meets : pairing.Meets scope) :
    Twin pairing (Value.rename pairing.numbers) (Action.lookup scope key)
      (Action.lookup (pairing.numbers.scopes scope) (key.rename pairing.numbers)) := by
  refine bind (reading fun _ _ like => like.lookup speaks meets) fun found => ?_
  cases found with
  | some value => exact pure rfl
  | none => exact bind (display key) fun _ => throw

/-! ## Calls -/

theorem atHostDepth
    {image : α → β} {left : Action α} {right : Action β} {depth deeper : Int}
    (levels : pairing.Levels depth deeper) (evaluator : Nat)
    (twin : Twin pairing image left right) :
    Twin pairing image (Action.atHostDepth evaluator depth left)
      (Action.atHostDepth evaluator deeper right) := by
  intro before other like
  have ends := twin _ _ (like.setHostDepth levels evaluator)
  have back (inner outer : Heap) (inside : inner.Like pairing outer) :=
    inside.setHostDepth (like.hostDepths evaluator) evaluator
  rw [Action.perform_atHostDepth, Action.perform_atHostDepth]
  generalize left.perform _ = first at ends ⊢
  generalize right.perform _ = second at ends ⊢
  cases ends with
  | value result inner outer inside => exact .value result _ _ (back inner outer inside)
  | fault fault inner outer inside => exact .fault fault _ _ (back inner outer inside)
  | alarm inner other => exact .alarm _ _
  | limit fault cuts other outer => exact .limit fault cuts _ _

end Twin

end CueScript
