import CueScript.Proofs.Entries
import CueScript.Proofs.Symbols.Body
import CueScript.Proofs.Twin.Evaluation

/-!
# Trees that are evaluated only when there is an event

A null-safe expression puts the tree of each symbol in a list that tests the event.
Without an event the symbols are bound to `nil` and no tree is evaluated.  With an event
the list does what the tree does, one level deeper and with a number of its own.
-/

namespace CueScript

open Value

namespace Reference

/-- A tree that is evaluated only when there is an event, in a list with a number. -/
def guard (birth : Nat) (tree : Value) : Value :=
  .list [.symbol "when", .symbol eventSymbol, tree] birth

theorem tellApart_nullSafe (next : Nat) (tree : Value) :
    (nullSafe tree).tellApart next =
      (guard (tree.tellApart next).2 (tree.tellApart next).1, (tree.tellApart next).2 + 1) := by
  simp only [nullSafe, guard, tellApart, tellItemsApart, numbered, if_pos]

theorem current_guard
    {heap : Heap} {birth : Nat} (unlost : heap.left? birth = none) (tree : Value) :
    heap.current (guard birth tree) = guard birth (heap.current tree) := by
  simp only [guard, Heap.current_list unlost, List.map_cons, List.map_nil, Heap.current_symbol]

end Reference

open Reference

namespace Eval

/-! ## Evaluating a guarded tree -/

theorem perform_evaluate_current
    {frames owner scope : Nat} {tree : Value} {depth : Int} (heap : Heap) :
    (solve frames (.evaluate owner scope (heap.current tree) depth)).perform heap =
      (solve frames (.evaluate owner scope tree depth)).perform heap := by
  cases frames with
  | zero => rfl
  | succ frames => rw [solve, perform_evaluate, perform_evaluate, Heap.current_current]

/-- The event is looked up. -/
theorem perform_event
    {frames owner scope : Nat} {depth : Int} {heap : Heap} {event : Value}
    (shallow : ¬ heap.maxDepth owner < depth)
    (isEvent : heap.lookup? scope (.str eventSymbol) = .ok (some event)) :
    (solve (frames + 1) (.evaluate owner scope (.symbol eventSymbol) depth)).perform heap =
      (.ok event, heap) := by
  rw [solve, perform_evaluate_shallow _ shallow, Heap.current_symbol]
  change (Action.reading (fun heap => heap.lookup? scope (.str eventSymbol)) >>= _).perform
    heap = _
  unfold Action.reading
  simp only [bind_assoc, Action.perform_get_bind, isEvent]
  rfl

/-- A guarded tree is evaluated one level deeper if there is an event, and else it is
`nil`. -/
theorem perform_guard
    {frames owner scope birth : Nat} {tree : Value} {depth : Int} {heap : Heap} {event : Value}
    (shallow : ¬ heap.maxDepth owner < depth + 1)
    (unlost : heap.left? birth = none)
    (isEvent : heap.lookup? scope (.str eventSymbol) = .ok (some event)) :
    (solve (frames + 2) (.evaluate owner scope (guard birth tree) depth)).perform heap =
      if event.isTrue then
        (solve (frames + 1) (.evaluate owner scope tree (depth + 1))).perform heap
      else
        (.ok .nil, heap) := by
  have lessShallow : ¬ heap.maxDepth owner < depth := by omega
  rw [solve, perform_evaluate_shallow _ lessShallow, current_guard unlost]
  change (solve (frames + 1) (.evaluate owner scope (.symbol eventSymbol) (depth + 1)) >>=
    fun value =>
      if value.isTrue then
        bodyOf (solve (frames + 1)) ⟨owner, scope, depth + 1⟩ birth [heap.current tree]
      else
        pure .nil).perform heap = _
  rw [Action.perform_bind_ok (perform_event shallow isEvent)]
  split
  · rw [perform_bodyOf _ unlost]
    exact perform_evaluate_current heap
  · rfl

end Eval

/-! ## Without an event -/

namespace Entries

theorem mem_of_find
    {vars : ValueEntries} {key value : Value} (found : find? sameKey key vars = some value) :
    ∃ entry ∈ vars, entry.2 = value := by
  induction vars with
  | nil => cases found
  | cons first rest inductionHypothesis =>
      obtain ⟨stored, old⟩ := first
      rw [find?] at found
      split at found
      · cases found
        exact ⟨_, List.mem_cons_self, rfl⟩
      · obtain ⟨entry, member, same⟩ := inductionHypothesis found
        exact ⟨entry, List.mem_cons_of_mem _ member, same⟩

end Entries

namespace Eval

/-- Guarded trees are not evaluated where there is no event: their symbols are bound to
`nil`. -/
theorem perform_bindAll_absent
    {heap : Heap} {outer : List Nat} {owner frames : Nat} {depth : Int}
    (shallow : ¬ heap.maxDepth owner < depth + 1)
    (absent : ∀ vars : ValueEntries, (∀ entry ∈ vars, entry.2 = .nil) →
      (heap.opened vars outer).lookup? heap.scopes.size (.str eventSymbol) =
        .ok (some .nil))
    (symbols : List (String × Value))
    (guarded : ∀ each ∈ symbols, ∃ birth tree,
      each.2 = guard birth tree ∧ heap.left? birth = none)
    (vars : ValueEntries) (areNil : ∀ entry ∈ vars, entry.2 = .nil) :
    (bindAll (solve (frames + 2)) ⟨owner, heap.scopes.size, depth⟩ symbols).perform
        (heap.opened vars outer) =
      (.ok ⟨⟩, heap.opened
        (Entries.putAll sameKey (symbols.map fun each => (.str each.1, .nil)) vars) outer) := by
  induction symbols generalizing vars with
  | nil => rfl
  | cons each rest inductionHypothesis =>
      obtain ⟨name, form⟩ := each
      obtain ⟨birth, tree, rfl, unlost⟩ := guarded _ List.mem_cons_self
      have skipped : (Eval.form (solve (frames + 2)) ⟨owner, heap.scopes.size, depth⟩
          (guard birth tree)).perform (heap.opened vars outer) =
            (.ok .nil, heap.opened vars outer) :=
        @perform_guard _ _ _ _ _ _ (heap.opened vars outer) _ shallow unlost
          (absent vars areNil)
      have later := inductionHypothesis
        (fun each member => guarded each (List.mem_cons_of_mem _ member))
        (Entries.put sameKey (.str name) .nil vars) fun entry member =>
          (Entries.mem_put member).elim (areNil entry) id
      rw [bindAll, Action.perform_bind_ok skipped,
        Action.perform_bind_ok (Heap.perform_define heap vars outer name .nil), later]
      rfl

end Eval

namespace Expression

/-- Where an expression is called without an event, its symbols are bound to `nil`. -/
theorem lookup_absent
    {heap : Heap} {params : ValueEntries} {root : Nat}
    (noEvent : Entries.find? sameKey (.str eventSymbol) params = some .nil)
    (vars : ValueEntries) (areNil : ∀ entry ∈ vars, entry.2 = .nil) :
    ((heap.opened params [root]).opened vars [heap.scopes.size, root]).lookup?
      (heap.opened params [root]).scopes.size (.str eventSymbol) = .ok (some .nil) := by
  rw [Heap.lookup_opened]
  cases found : Entries.find? sameKey (.str eventSymbol) vars with
  | some value =>
      obtain ⟨entry, member, rfl⟩ := Entries.mem_of_find found
      simp only [areNil entry member]
  | none =>
      have isScope : ((heap.opened params [root]).opened vars
          [heap.scopes.size, root]).scopes[heap.scopes.size]? =
            some ⟨.table heap.tables.size, [root]⟩ := by
        unfold Heap.opened
        rw [Array.getElem?_push, if_neg (by rw [Array.size_push]; omega),
          Array.getElem?_push_size]
      have isTable : ((heap.opened params [root]).opened vars
          [heap.scopes.size, root]).table heap.tables.size = params := by
        unfold Heap.table Heap.opened
        rw [Array.getElem?_push, if_neg (by rw [Array.size_push]; omega),
          Array.getElem?_push_size, Option.getD_some]
      simp only [Heap.firstValueIn?, isScope, Heap.valueIn?, isTable, ValueEntries.get?,
        ValueEntries.withKey, Value.isKey, if_true, noEvent]
      rfl

/-- Every symbol has a guarded tree, with a number from one on. -/
def AllGuarded (next : Nat) (symbols : List (String × Value)) : Prop :=
  ∀ each ∈ symbols, ∃ birth tree, each.2 = guard birth tree ∧ next ≤ birth

theorem allGuarded_told (next : Nat) (symbols : List (String × Value)) :
    AllGuarded next
      (tellSymbolsApart next (symbols.map fun each => (each.1, nullSafe each.2))).1 := by
  induction symbols generalizing next with
  | nil => exact fun _ member => nomatch member
  | cons each rest inductionHypothesis =>
      obtain ⟨name, tree⟩ := each
      simp only [List.map_cons, tellSymbolsApart, tellApart_nullSafe]
      have told := tellApart_le next tree
      intro later member
      rcases List.mem_cons.mp member with rfl | member
      · exact ⟨_, _, rfl, told⟩
      · obtain ⟨birth, inner, isGuard, above⟩ := inductionHypothesis _ later member
        exact ⟨birth, inner, isGuard, by omega⟩

theorem AllGuarded.current
    {heap : Heap} {next : Nat} (unlost : ∀ birth, next ≤ birth → heap.left? birth = none)
    {symbols : List (String × Value)} (guarded : AllGuarded next symbols) :
    AllGuarded next (symbols.map fun each => (each.1, heap.current each.2)) := by
  intro later member
  obtain ⟨each, isOne, rfl⟩ := List.mem_map.mp member
  obtain ⟨birth, tree, isGuard, above⟩ := guarded each isOne
  refine ⟨birth, heap.current tree, ?_, above⟩
  simp only [isGuard, current_guard (unlost birth above)]

/-- Where there is no event, a body with guarded trees around it is evaluated with their
symbols bound to `nil`. -/
theorem perform_letIn_absent
    {heap : Heap} {params : ValueEntries} (root frames : Nat) {owner birth : Nat} (depth : Int)
    (noEvent : Entries.find? sameKey (.str eventSymbol) params = some .nil)
    (shallow : ¬ heap.maxDepth owner < depth + 1)
    {symbols : List (String × Value)}
    (guarded : ∀ each ∈ symbols, ∃ birth tree,
      each.2 = guard birth tree ∧ heap.left? birth = none)
    (unlost : heap.left? birth = none) (body : Value) :
    (Eval.special (Eval.solve (frames + 2)) ⟨owner, heap.scopes.size, depth⟩ birth
        (.letIn symbols [body])).perform (heap.opened params [root]) =
      (Action.childScope heap.scopes.size
          (Entries.putAll sameKey (symbols.map fun each => (.str each.1, .nil)) []) >>=
        fun inner => Eval.solve (frames + 2) (.evaluate owner inner body depth)).perform
          (heap.opened params [root]) := by
  have isScope := Heap.opened_scope heap params [root]
  have bound := @Eval.perform_bindAll_absent (heap.opened params [root]) _ _ frames _ shallow
    (lookup_absent noEvent) symbols guarded [] fun _ member => nomatch member
  change (Action.childScope heap.scopes.size [] >>= fun inner =>
    Eval.bindAll (Eval.solve (frames + 2)) ⟨owner, inner, depth⟩ symbols >>= fun _ =>
      Eval.bodyOf (Eval.solve (frames + 2)) ⟨owner, inner, depth⟩ birth [body]).perform _ = _
  rw [Action.perform_bind_ok (Heap.perform_childScope isScope []), Action.perform_bind_ok bound,
    Action.perform_bind_ok (Heap.perform_childScope isScope _)]
  exact Eval.perform_bodyOf _ (by exact unlost) _ body

/-! ## The numbers of guarded trees -/

/-- The numbers at which the trees of symbols end when they are told apart. -/
def treeEnds (next : Nat) : List (String × Value) → List Nat
  | [] => []
  | (_, tree) :: rest =>
      (tree.tellApart next).2 :: treeEnds (tree.tellApart next).2 rest

theorem le_treeEnds {next : Nat} {symbols : List (String × Value)} :
    ∀ mark ∈ treeEnds next symbols, next ≤ mark := by
  induction symbols generalizing next with
  | nil => exact fun _ member => nomatch member
  | cons each rest inductionHypothesis =>
      obtain ⟨name, tree⟩ := each
      have told := tellApart_le next tree
      intro mark member
      rcases List.mem_cons.mp member with rfl | member
      · exact told
      · exact Nat.le_trans told (inductionHypothesis mark member)

theorem treeEnds_le {next : Nat} {symbols : List (String × Value)} :
    ∀ mark ∈ treeEnds next symbols, mark ≤ (tellSymbolsApart next symbols).2 := by
  induction symbols generalizing next with
  | nil => exact fun _ member => nomatch member
  | cons each rest inductionHypothesis =>
      intro mark member
      rcases List.mem_cons.mp member with rfl | member
      · exact tellSymbolsApart_le _ rest
      · exact inductionHypothesis mark member

theorem length_treeEnds (next : Nat) (symbols : List (String × Value)) :
    (treeEnds next symbols).length = symbols.length := by
  induction symbols generalizing next with
  | nil => rfl
  | cons each rest inductionHypothesis =>
      rw [treeEnds, List.length_cons, List.length_cons, inductionHypothesis]

/-- Symbols with trees, and the same symbols with the trees guarded, in lists with numbers
that stand for none. -/
inductive Guards (ρ : Renaming) : List (String × Value) → List (String × Value) → Prop
  | nil : Guards ρ [] []
  | cons {name : String} {tree : Value} {birth : Nat} {symbols guarded : List (String × Value)}
      (new : ∀ number, ρ.births number ≠ birth) (rest : Guards ρ symbols guarded) :
      Guards ρ ((name, tree) :: symbols) ((name, guard birth (tree.rename ρ)) :: guarded)

/-- Guarded trees get the numbers of the trees, shifted by the lists around those
before. -/
theorem guards_told
    {ρ : Renaming} (next ahead : Nat) (symbols : List (String × Value))
    (known : ∀ each ∈ symbols, each.2.rename ρ = each.2)
    (before : ∀ number < next, ρ.births number < next + ahead)
    (after : ∀ number, next ≤ number →
      ρ.births number = shifted (treeEnds next symbols) number + ahead) :
    Guards ρ (tellSymbolsApart next symbols).1
        (tellSymbolsApart (next + ahead)
          (symbols.map fun each => (each.1, nullSafe each.2))).1 ∧
      (tellSymbolsApart (next + ahead)
          (symbols.map fun each => (each.1, nullSafe each.2))).2 =
        (tellSymbolsApart next symbols).2 + ahead + symbols.length := by
  induction symbols generalizing next ahead with
  | nil => exact ⟨.nil, rfl⟩
  | cons each rest inductionHypothesis =>
      obtain ⟨name, tree⟩ := each
      have told := tellApart_le next tree
      have moved : Moved ρ ahead next (tree.tellApart next).2 := by
        intro number above below
        rw [after number above, shifted_before]
        intro mark member
        rcases List.mem_cons.mp member with rfl | member
        · exact below
        · exact Nat.lt_of_lt_of_le below (le_treeEnds mark member)
      have beyond (number : Nat) (above : (tree.tellApart next).2 ≤ number) :
          ρ.births number =
            shifted (treeEnds (tree.tellApart next).2 rest) number + (ahead + 1) := by
        rw [after number (Nat.le_trans told above)]
        simp only [treeEnds, shifted, List.countP_cons, decide_eq_true above, if_true]
        omega
      have sameTree := tellApart_rename next ahead tree moved
      rw [known (name, tree) List.mem_cons_self] at sameTree
      obtain ⟨guards, last⟩ := inductionHypothesis _ _
        (fun each member => known each (List.mem_cons_of_mem _ member))
        (fun number below => by
          by_cases early : number < next
          · have bound := before number early
            omega
          · rw [moved number (Nat.le_of_not_lt early) below]
            omega)
        beyond
      have new (number : Nat) : ρ.births number ≠ (tree.tellApart next).2 + ahead := by
        by_cases early : number < next
        · have bound := before number early
          omega
        · by_cases inside : number < (tree.tellApart next).2
          · rw [moved number (Nat.le_of_not_lt early) inside]
            omega
          · rw [beyond number (Nat.le_of_not_lt inside), shifted]
            omega
      simp only [List.map_cons, tellSymbolsApart, tellApart_nullSafe, sameTree,
        List.length_cons]
      rw [Nat.add_assoc _ ahead 1]
      exact ⟨.cons new guards, by rw [last]; omega⟩

/-- A list with a number that stands for none has lost nothing. -/
theorem left_of_new
    {pairing : Pairing} {left right : Heap} (like : left.Like pairing right) {birth : Nat}
    (new : ∀ number, pairing.numbers.births number ≠ birth) :
    right.left? birth = none := by
  rw [Heap.left?, like.losses]
  generalize left.losses = losses
  induction losses with
  | nil => rfl
  | cons entry rest inductionHypothesis =>
      obtain ⟨number, held⟩ := entry
      simpa [Entries.find?, new number] using inductionHypothesis

theorem Guards.current
    {pairing : Pairing} {left right : Heap} (like : left.Like pairing right)
    {symbols guarded : List (String × Value)}
    (guards : Guards pairing.numbers symbols guarded) :
    Guards pairing.numbers (symbols.map fun each => (each.1, left.current each.2))
      (guarded.map fun each => (each.1, right.current each.2)) := by
  induction guards with
  | nil => exact .nil
  | cons new rest inductionHypothesis =>
      simp only [List.map_cons, current_guard (left_of_new like new), like.current]
      exact .cons new inductionHypothesis

end Expression

/-! ## With an event -/

/-- Whether the event that is seen in a scope counts as one. -/
def Heap.hasEvent (heap : Heap) (scope : Nat) : Bool :=
  match heap.lookup? scope (.str eventSymbol) with
  | .ok (some found) => found.isTrue
  | _ => false

namespace Eval

/-- A guarded tree that is nested too deeply, or its test is. -/
theorem perform_guard_limited
    {frames owner scope birth : Nat} {tree : Value} {depth : Int} {heap : Heap}
    (unlost : heap.left? birth = none)
    (limited : frames < 2 ∨ heap.maxDepth owner < depth + 1) :
    ∃ fault : Fault, fault.IsLimit ∧
      (solve frames (.evaluate owner scope (guard birth tree) depth)).perform heap =
        (.error fault, heap) := by
  rcases frames with _ | frames
  · exact ⟨.failed .stackExhausted, trivial, rfl⟩
  rw [solve, perform_evaluate]
  split
  · exact ⟨.depthExceeded _, trivial, rfl⟩
  rw [current_guard unlost]
  have test : ∃ fault : Fault, fault.IsLimit ∧
      (solve frames (.evaluate owner scope (.symbol eventSymbol) (depth + 1))).perform heap =
        (.error fault, heap) := by
    rcases frames with _ | frames
    · exact ⟨.failed .stackExhausted, trivial, rfl⟩
    · have deep : heap.maxDepth owner < depth + 1 := limited.resolve_left (by omega)
      exact ⟨.depthExceeded _, trivial, by rw [solve, perform_evaluate, if_pos deep]⟩
  obtain ⟨fault, isLimit, failed⟩ := test
  exact ⟨fault, isLimit, Action.perform_bind_error failed⟩

section Guarded

variable {pairing : Pairing} {watch : Watch}

/-- Where there is an event, a guarded tree does what the tree does, unless it reaches a
limit. -/
theorem twin_guarded
    (covered : pairing.CoveredBy watch) (deeper : pairing.Deeper)
    (speaks : pairing.Speaks (.str eventSymbol))
    {frames fewer : Nat} (budget : fewer ≤ frames) {around : List Task}
    {owner scope birth : Nat} {tree : Value} {depth : Int}
    (new : ∀ number, pairing.numbers.births number ≠ birth)
    (hasEvent : ∀ heap : Heap,
      watch (.evaluate owner scope tree depth :: around) heap = false →
        heap.hasEvent scope = true) :
    Twin pairing (rename pairing.numbers)
      (watched watch pairing.alarm frames around (.evaluate owner scope tree depth))
      (solve fewer (.evaluate owner (pairing.numbers.scopes scope)
        (guard birth (tree.rename pairing.numbers)) depth)) := by
  intro before other like
  have unlost := Expression.left_of_new like new
  by_cases limited : fewer < 2 ∨ other.maxDepth owner < depth + 1
  · obtain ⟨fault, isLimit, failed⟩ := perform_guard_limited unlost limited
    rw [failed]
    exact .limit fault ⟨deeper.1, isLimit, fun lowered => absurd lowered deeper.2⟩ _ other
  obtain ⟨enough, shallow⟩ := not_or.mp limited
  obtain ⟨fewer, rfl⟩ := Nat.exists_eq_add_of_le' (Nat.le_of_not_lt enough)
  obtain ⟨frames, rfl⟩ : ∃ less, frames = less + 1 := ⟨frames - 1, by omega⟩
  cases met : watch (.evaluate owner scope tree depth :: around) before with
  | true =>
      rw [perform_watched_succ, met, if_pos rfl]
      exact .alarm before _
  | false =>
      have isTrue := hasEvent before met
      unfold Heap.hasEvent at isTrue
      have found := like.lookup speaks (covered _ around before met).1
      split at isTrue
      · rename_i present isPresent
        rw [isPresent] at found
        rw [perform_guard shallow unlost found, isTrue_rename, if_pos isTrue]
        exact workers_twin covered (.inr ⟨deeper, by omega⟩) around _ _
          (.evaluate owner scope tree (.inr ⟨deeper.1, by omega⟩)) before other like
      · cases isTrue

/-- Guarded trees are bound as the trees are. -/
theorem twin_bindAll_guarded
    (covered : pairing.CoveredBy watch) (deeper : pairing.Deeper)
    (speaks : pairing.Speaks (.str eventSymbol)) (frames : Nat) (around : List Task)
    {owner scope : Nat} {depth : Int} (owns : pairing.Owns scope)
    {symbols guarded : List (String × Value)}
    (guards : Expression.Guards pairing.numbers symbols guarded)
    (hasEvent : ∀ each ∈ symbols, ∀ heap : Heap,
      watch (.evaluate owner scope each.2 depth :: around) heap = false →
        heap.hasEvent scope = true) :
    Twin pairing (fun result => result)
      (bindAll (watched watch pairing.alarm frames around) ⟨owner, scope, depth⟩ symbols)
      (bindAll (solve frames) ⟨owner, pairing.numbers.scopes scope, depth⟩ guarded) := by
  induction guards with
  | nil => exact .pure rfl
  | @cons name tree birth _ _ new _ inductionHypothesis =>
      refine .bind (twin_guarded covered deeper speaks (Nat.le_refl frames) new
        (hasEvent _ List.mem_cons_self)) fun value => ?_
      refine .bind (.define owns (.str name) value) fun _ => ?_
      exact inductionHypothesis fun each member => hasEvent each (List.mem_cons_of_mem _ member)

/-- A body with guarded trees bound around it does what it does with the trees. -/
theorem twin_letIn_guarded
    (covered : pairing.CoveredBy watch) (deeper : pairing.Deeper)
    (speaks : pairing.Speaks (.str eventSymbol)) (frames : Nat) (around : List Task)
    (owner : Nat) {scope : Nat} (meets : pairing.Meets scope) (birth : Nat) (depth : Int)
    (body : Value)
    {symbols guarded : List (String × Value)}
    (guards : Expression.Guards pairing.numbers symbols guarded)
    (hasEvent : ∀ inner, ∀ each ∈ symbols, ∀ heap : Heap,
      watch (.evaluate owner inner each.2 depth :: around) heap = false →
        heap.hasEvent inner = true) :
    Twin pairing (rename pairing.numbers)
      (special (watched watch pairing.alarm frames around) ⟨owner, scope, depth⟩ birth
        (.letIn symbols [body]))
      (special (solve frames) ⟨owner, pairing.numbers.scopes scope, depth⟩
        (pairing.numbers.births birth) (.letIn guarded [body.rename pairing.numbers])) := by
  have workers := workers_twin covered (.inl (Eq.refl frames)) around
  refine .childScope_bind meets [] fun inner owns => ?_
  refine .bind (twin_bindAll_guarded covered deeper speaks frames around owns guards
    (hasEvent inner)) fun _ => ?_
  have sites : Site.Twin pairing ⟨owner, inner, depth⟩
      ⟨owner, pairing.numbers.scopes inner, depth⟩ :=
    ⟨⟨rfl, pairing.levels_refl depth⟩, rfl⟩
  exact twin_bodyOf workers sites birth [body]

end Guarded

end Eval

end CueScript
