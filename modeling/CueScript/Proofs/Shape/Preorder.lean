import CueScript.Proofs.Reader.Openings
import CueScript.SpecialForm.Check

/-!
# The shape check as a walk through lists

`Value.metLists` gives the lists of a tree in the order in which they are opened, each
with whether it is quoted data.  The shape check goes through these lists up to the
first one that is a special form of the wrong shape, and the number of lists it has seen
tells which one that is.
-/

namespace CueScript

/-- A list that a walk meets, and whether it is quoted data. -/
structure MetList where
  quoted : Bool
  items : List Value
  birth : Nat

namespace MetList

/-- The list as a tree. -/
def node (met : MetList) : Value := .list met.items met.birth

/-- What is wrong with a list; nothing is wrong with quoted data. -/
def fault? (met : MetList) : Option ShapeFault :=
  if met.quoted then none else ShapeCheck.faultOf met.items

end MetList

namespace Value

mutual

/-- The lists in a tree, every list before those in it.  What stands in a quotation is
quoted. -/
def metLists (quoted : Bool) : Value → List MetList
  | .list items birth =>
      ⟨quoted, items, birth⟩ :: metListsAll (quoted || ShapeCheck.isQuotation items) items
  | .vector items _ => metListsAll quoted items
  | .quoted form => metLists true form
  | _ => []

/-- The lists in trees, one tree after the other. -/
def metListsAll (quoted : Bool) : List Value → List MetList
  | [] => []
  | item :: rest => metLists quoted item ++ metListsAll quoted rest

end

mutual

/-- The walk meets all lists in their order. -/
theorem map_node_metLists (quoted : Bool) (tree : Value) :
    (metLists quoted tree).map MetList.node = listNodes tree := by
  cases tree with
  | list items birth =>
      rw [metLists, listNodes, List.map_cons, map_node_metListsAll]
      rfl
  | vector items birth => rw [metLists, listNodes, map_node_metListsAll]
  | quoted form => rw [metLists, listNodes, map_node_metLists]
  | _ => rfl

theorem map_node_metListsAll (quoted : Bool) (trees : List Value) :
    (metListsAll quoted trees).map MetList.node = listNodesAll trees := by
  cases trees with
  | nil => rfl
  | cons item rest =>
      rw [metListsAll, listNodesAll, List.map_append, map_node_metLists,
        map_node_metListsAll]

end

end Value

namespace ShapeCheck

/-- How far a check has come that has seen some lists and goes on through others. -/
def through (seen : Nat) : List MetList → ShapeCheck
  | [] => ⟨seen, none⟩
  | met :: rest =>
      match met.fault? with
      | some fault => ⟨seen + 1, some (met.items, fault)⟩
      | none => through (seen + 1) rest

theorem through_append (seen : Nat) (first second : List MetList) :
    through seen (first ++ second) =
      match (through seen first).fault with
      | some _ => through seen first
      | none => through (through seen first).listsSeen second := by
  induction first generalizing seen with
  | nil => rfl
  | cons met rest inductionHypothesis =>
      cases fault : met.fault? with
      | some _ => simp only [List.cons_append, through, fault]
      | none => simp only [List.cons_append, through, fault, inductionHypothesis]

mutual

/-- Checking a tree goes through its lists. -/
theorem visit_eq_through (quoted : Bool) (seen : Nat) (tree : Value) :
    visit quoted ⟨seen, none⟩ tree = through seen (Value.metLists quoted tree) := by
  cases tree with
  | list items birth =>
      cases quoted with
      | true => exact visitAll_eq_through true (seen + 1) items
      | false =>
          cases fault : faultOf items with
          | some _ => simp [visit, Value.metLists, through, MetList.fault?, fault, count]
          | none =>
              simp only [visit, Value.metLists, through, MetList.fault?, fault, count]
              exact visitAll_eq_through (isQuotation items) (seen + 1) items
  | vector items birth => rw [visit, Value.metLists, visitAll_eq_through]
  | quoted form => rw [visit, Value.metLists, visit_eq_through]
  | _ => rfl

theorem visitAll_eq_through (quoted : Bool) (seen : Nat) (trees : List Value) :
    visitAll quoted ⟨seen, none⟩ trees = through seen (Value.metListsAll quoted trees) := by
  cases trees with
  | nil => rfl
  | cons item rest =>
      rw [visitAll, Value.metListsAll, through_append, visit_eq_through]
      cases fault : (through seen (Value.metLists quoted item)).fault with
      | some _ => rfl
      | none =>
          have soFar : through seen (Value.metLists quoted item) =
              ⟨(through seen (Value.metLists quoted item)).listsSeen, none⟩ := by
            rw [← fault]
          rw [soFar]
          exact visitAll_eq_through quoted _ rest

end

/-- A check that goes through lists some of which are misshapen ends at the first of
these. -/
theorem through_of_misshapen
    {seen : Nat} {lists : List MetList}
    (contains : ∃ met ∈ lists, met.fault?.isSome) :
    ∃ (index : Nat) (met : MetList) (fault : ShapeFault),
      lists[index]? = some met ∧ met.fault? = some fault ∧
        (∀ (other : Nat) (otherMet : MetList),
          lists[other]? = some otherMet → otherMet.fault?.isSome → index ≤ other) ∧
        through seen lists = ⟨seen + index + 1, some (met.items, fault)⟩ := by
  induction lists generalizing seen with
  | nil =>
      obtain ⟨met, member, -⟩ := contains
      cases member
  | cons met rest inductionHypothesis =>
      cases fault : met.fault? with
      | some found =>
          refine ⟨0, met, found, rfl, fault, fun _ _ _ _ => Nat.zero_le _, ?_⟩
          simp only [through, fault, Nat.add_zero]
      | none =>
          have later : ∃ met ∈ rest, met.fault?.isSome := by
            obtain ⟨other, member, misshapen⟩ := contains
            rcases List.mem_cons.mp member with rfl | member
            · rw [fault] at misshapen
              cases misshapen
            · exact ⟨other, member, misshapen⟩
          obtain ⟨index, found, reason, atIndex, isFault, first, result⟩ :=
            @inductionHypothesis (seen + 1) later
          refine ⟨index + 1, found, reason, atIndex, isFault, ?_, ?_⟩
          · intro other otherMet atOther misshapen
            cases other with
            | zero =>
                rw [List.getElem?_cons_zero, Option.some.injEq] at atOther
                subst atOther
                rw [fault] at misshapen
                cases misshapen
            | succ other =>
                have order := first other otherMet atOther misshapen
                omega
          · simp only [through, fault, result]
            congr 1
            omega

/-- The result of checking the forms of an expression. -/
theorem run_eq_through (forms : List Value) :
    run forms = through 0 (Value.metListsAll false forms) :=
  visitAll_eq_through false 0 forms

end ShapeCheck

end CueScript
