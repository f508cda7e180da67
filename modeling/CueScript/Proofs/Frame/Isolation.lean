import CueScript.Proofs.Frame.Course
import CueScript.Proofs.Symbols.Scan

/-!
# Isolation of stores

A call of a compiled expression leaves every store as it is that cannot be reached from
the event and the stores it is given: the function itself leads to no store.  So stores
that are given to a call protect the expression's own, and those of other expressions are
safe unless they have been made reachable.
-/

namespace CueScript

namespace Heap

variable {code : Nat → Prop} {heap : Heap}

/-- What a piece of code leads to is code. -/
theorem SharesCode.parts
    (shares : heap.SharesCode code) {whole : Value}
    (isCode : whole.IsCode code) (within : whole.Within (.ofCode code)) :
    ∀ part ∈ heap.parts whole, part.IsCode code ∧ part.Within (.ofCode code) := by
  have left {birth : Nat} (known : code birth) :
      ∀ part ∈ heap.leftParts birth, part.IsCode code ∧ part.Within (.ofCode code) := by
    intro part member
    unfold leftParts at member
    cases isLeft : heap.left? birth with
    | none =>
        rw [isLeft] at member
        cases member
    | some items =>
        rw [isLeft] at member
        have itemsWithin := (shares.within.losses birth items trivial isLeft).2
        exact ⟨shares.within.kept birth items trivial isLeft part member known,
          Value.allWithin_iff.mp itemsWithin part member⟩
  intro part member
  cases whole with
  | list items birth =>
      rcases List.mem_append.mp member with inside | inside
      · exact ⟨within.1.2 part inside isCode, Value.allWithin_iff.mp within.2 part inside⟩
      · exact left isCode part inside
  | vector items birth =>
      rcases List.mem_append.mp member with inside | inside
      · exact ⟨within.1.2 part inside isCode, Value.allWithin_iff.mp within.2 part inside⟩
      · exact left isCode part inside
  | quoted form =>
      rw [List.mem_singleton.mp member]
      exact ⟨isCode, within⟩
  | symbol _ | int _ | float _ _ | str _ => cases member
  | _ => exact isCode.elim

end Heap

namespace Expression

variable {expression : Expression} {code : Nat → Prop} {heap : Heap} {roots : List Value}

/-- What a call is given. -/
def handed (expression : Expression) (arguments : Arguments) : List Value :=
  [arguments.event, .store (arguments.locals.getD expression.locals),
    .store (arguments.globals.getD expression.globals)]

/-- Whether a value is a part of a function in force: the function, its scope, what that
holds, or code. -/
def IsOwnPart (expression : Expression) (code : Nat → Prop) (root : Nat) (value : Value) : Prop :=
  value = expression.function ∨ value = .scope root ∨ value.isPlain = true ∨
    value.IsCode code ∧ value.Within (.ofCode code)

/-- What can be reached by way of a function in force only is a part of it. -/
theorem InForce.reaches
    (inForce : expression.InForce code heap) (roots : List Value) :
    ∃ root, ∀ value, heap.Reaches (expression.function :: roots) value →
      heap.Reaches roots value ∨ expression.IsOwnPart code root value := by
  obtain ⟨id, bound, root, table, owner, vars, isFunction, isCode, boundWithin, isScope, isTable,
    plain⟩ := inForce.function
  refine ⟨root, fun value reached => ?_⟩
  induction reached with
  | root member =>
      rcases List.mem_cons.mp member with rfl | member
      · exact .inr (.inl rfl)
      · exact .inl (.root member)
  | @part whole value reached member own =>
      rcases own with reached | own
      · exact .inl (reached.part member)
      refine .inr ?_
      rcases own with rfl | rfl | isPlain | ⟨wholeCode, wholeWithin⟩
      · rw [isFunction] at member
        simp only [Heap.parts, List.mem_cons, List.not_mem_nil, or_false] at member
        rcases member with rfl | rfl
        · exact .inr (.inl rfl)
        · exact .inr (.inr (.inr ⟨isCode, boundWithin⟩))
      · simp only [Heap.parts, isScope, List.map_nil, List.append_nil, Heap.variablesParts,
          Heap.table, isTable, Option.getD_some] at member
        exact .inr (.inr (.inl (plain value member)))
      · cases whole with
        | str _ | builtin _ | instanceTest _ _ => cases member
        | _ => cases isPlain
      · exact .inr (.inr (.inr (inForce.shares.parts wholeCode wholeWithin value member)))

/-- A function in force leads to no store. -/
theorem InForce.reaches_store
    (inForce : expression.InForce code heap) {id : Nat}
    (reached : heap.Reaches (expression.function :: roots) (.store id)) :
    heap.Reaches roots (.store id) := by
  obtain ⟨root, cases⟩ := inForce.reaches roots
  refine (cases _ reached).resolve_right ?_
  obtain ⟨_, _, _, _, _, _, isFunction, -⟩ := inForce.function
  rintro (same | same | isPlain | ⟨isCode, -⟩)
  · rw [isFunction] at same
    cases same
  · cases same
  · cases isPlain
  · exact isCode.elim

/-- A function in force leads only to lists of code. -/
theorem InForce.reachesNumber
    (inForce : expression.InForce code heap) {birth : Nat} (other : ¬ code birth)
    (reached : heap.ReachesNumber (expression.function :: roots) birth) :
    heap.ReachesNumber roots birth := by
  obtain ⟨root, cases⟩ := inForce.reaches roots
  obtain ⟨value, isReached, isNumber⟩ := reached
  refine ⟨value, (cases _ isReached).resolve_right ?_, isNumber⟩
  obtain ⟨_, _, _, _, _, _, isFunction, -⟩ := inForce.function
  rintro (rfl | rfl | isPlain | ⟨isCode, -⟩)
  · rw [isFunction] at isNumber
    cases isNumber
  · cases isNumber
  · cases value <;> cases isNumber <;> cases isPlain
  · cases value with
    | list _ _ | vector _ _ =>
        cases isNumber
        exact other isCode
    | map _ _ => exact isCode.elim
    | _ => cases isNumber

/-- A call of a compiled expression that reads members of events only leaves every store as
it is that cannot be reached from the event and the stores it is given, whatever comes of the
call and whatever a program has done since the expression was compiled.  Lists out of reach
that are not of the expression's code lose no items, either. -/
theorem run_leaves_unreached
    {shared : Nat → Prop} {source : ExpressionSource} {globals : Nat} {before heap : Heap}
    {expression : Expression} (settled : before.Settled) (apart : before.Apart)
    (shares : before.SharesCode shared)
    (areCode : ∀ entry ∈ source.table, entry.2.extract.IsCodeTree shared)
    (compiled : ((compile source globals).run before).1.outcome = .ok expression)
    (course : ((compile source globals).run before).2.Course
      (numbersOfCode source globals shared before) heap)
    (heapSettled : heap.Settled) {arguments : Arguments}
    (never : Eval.NeverMeets leavesEvents (expression.callTask arguments) heap) :
    let after := ((expression.run arguments).run heap).2
    let given := expression.handed arguments
    after.stores = heap.stores ∧
      (∀ (id : Nat) (store : Store), heap.stores[id]? = some store →
        ¬ heap.Reaches given (.store id) →
          after.tables[store.table]? = heap.tables[store.table]? ∧
            (after.losses = heap.losses → after.entries id = heap.entries id)) ∧
      ∀ birth, 0 < birth → birth < heap.births →
        ¬ numbersOfCode source globals shared before birth → ¬ heap.ReachesNumber given birth →
          after.left? birth = heap.left? birth := by
  have inForce := (inForce_of_compile settled apart shares areCode compiled).of_course course
  have keeps := never.keepsScopes inForce.apart
  have within : (expression.callTask arguments).Within
      (heap.reach (expression.function :: expression.handed arguments)) := by
    have reached (value : Value)
        (member : value ∈ expression.function :: expression.handed arguments) :
        heap.Reaches (expression.function :: expression.handed arguments) value := .root member
    have functionWithin := Heap.within_reach _ (reached _ List.mem_cons_self)
    have handedWithin := Heap.allWithin_reach (expression.handed arguments) fun item member =>
      reached item (List.mem_cons_of_mem _ member)
    exact ⟨functionWithin, handedWithin⟩
  obtain ⟨stores, lists⟩ := Eval.perform_leaves inForce.apart heapSettled within
  refine ⟨keeps.stores, fun id store isStore unreached => ?_, ?_⟩
  · have same := stores id store isStore fun reached => unreached (inForce.reaches_store reached)
    refine ⟨same, fun losses => ?_⟩
    refine Heap.entries_of_losses inForce.apart.views keeps.apart.views losses isStore ?_ same
    exact keeps.stores ▸ isStore
  · intro birth numbered old other unreached
    exact lists birth numbered old fun reached => unreached (inForce.reachesNumber other reached)

/-! ### Two stores -/

/-- A heap with a store to share and another one. -/
def keeping : Heap := (sharing.openStore "other" [(.str "kept", .int 1)]).2

theorem keeping_settled : keeping.Settled := by
  have shared : sharing.Settled :=
    settled_openStore settled_empty _ fun _ member => absurd member List.not_mem_nil
  refine settled_openStore shared "other" fun entry member => ?_
  rw [List.mem_singleton.mp member]
  exact ⟨fun _ _ => rfl, fun _ _ => rfl⟩

/-- A source that writes to the store that is shared. -/
def writingSource : ExpressionSource where
  text := "(store! globals \"seen\" 2)"
  table := []

/-- The forms of `(store! globals "seen" 2)`. -/
def writingForms : List Value :=
  [.list [.symbol "store!", .symbol "globals", .str "seen", .int 2] 0]

theorem formed_writing :
    formsOf keeping writingSource.text.toList writingSource.label = .ok writingForms := by
  have characters : writingSource.text.toList =
      ['(', 's', 't', 'o', 'r', 'e', '!', ' ', 'g', 'l', 'o', 'b', 'a', 'l', 's', ' ', '"', 's',
        'e', 'e', 'n', '"', ' ', '2', ')'] := by
    decide +kernel
  rw [characters]
  rfl

/-- What a call that is given empty stores can reach. -/
theorem reaches_empty
    {given : List Value} (empty : ∀ value ∈ given, heap.parts value = []) {value : Value}
    (reached : heap.Reaches given value) :
    value ∈ given := by
  induction reached with
  | root member => exact member
  | part reached member isGiven =>
      rw [empty _ isGiven] at member
      cases member

theorem run_leaves_unreached_kept :
    ∃ expression,
      ((compile writingSource 0).run keeping).1.outcome = .ok expression ∧
        let called := (expression.run {}).run ((compile writingSource 0).run keeping).2
        called.2.tables[0]?.map List.length = some 1 ∧
          called.2.tables[1]? = some [(.str "kept", .int 1)] := by
  have noSymbols : symbolsOf writingSource writingForms = [] := by
    simp [symbolsOf, referencesOf, Reference.scan, writingSource]
  obtain ⟨compiled, isHeap⟩ := compile_eq 0 (by decide) (fun _ => keeping_settled.unlost)
    formed_writing
  refine ⟨_, compiled, ?_⟩
  have called : (((Eval.watched leavesEvents (.malformed "") Eval.frameLimit []
      ((compiledExpression writingSource writingForms 0 keeping).callTask {})).perform
        (compiledHeap writingSource writingForms keeping)).1.isOk,
      ((Eval.watched leavesEvents (.malformed "") Eval.frameLimit []
        ((compiledExpression writingSource writingForms 0 keeping).callTask {})).perform
          (compiledHeap writingSource writingForms keeping)).2.tables[0]?.map List.length) =
        (true, some 1) := by
    simp only [compiledExpression, functionOf, compiledHeap, builtHeap, rootedHeap, toldHeap,
      treeOf_of_no_symbols noSymbols, synthesize_eq, ofParts]
    decide +kernel
  obtain ⟨isOk, written⟩ := Prod.mk.inj called
  have never : Eval.NeverMeets leavesEvents
      ((compiledExpression writingSource writingForms 0 keeping).callTask {})
      (compiledHeap writingSource writingForms keeping) := .of_isOk isOk
  have apart : keeping.Apart := (Heap.apart_empty.openStore _ _).openStore _ _
  have shares : keeping.SharesCode fun _ => False :=
    ⟨id, (Bounds.heapWithin_anything keeping).widen ⟨rfl, rfl, rfl, rfl⟩ (fun _ known => known)
      (fun _ known => known) (fun _ _ _ known => known.elim) (fun known => known)
      (fun _ _ _ known => known)⟩
  have noCode : ∀ entry ∈ writingSource.table, entry.2.extract.IsCodeTree fun _ => False :=
    fun _ member => absurd member List.not_mem_nil
  have compiledSettled := settled_compiledHeap keeping_settled writingSource writingForms
  rw [← isHeap] at never compiledSettled
  obtain ⟨-, stores, -⟩ := run_leaves_unreached keeping_settled apart shares noCode compiled
    .start compiledSettled never
  rw [isHeap] at never
  rw [isHeap] at stores ⊢
  rw [never] at written
  refine ⟨written, (stores 1 ⟨"other", 1⟩ rfl fun reached => ?_).1⟩
  have isGiven := reaches_empty (fun value member => ?_) reached
  · simp [handed, compiledExpression, ofParts, keeping, sharing, Heap.openStore, Heap.openTable,
      Heap.empty] at isGiven
  · simp only [handed, List.mem_cons, List.not_mem_nil, or_false] at member
    rcases member with rfl | rfl | rfl <;> rfl

end Expression

end CueScript
