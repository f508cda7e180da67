import CueScript.Failure
import CueScript.Value.Equality

/-!
# Order of values

Numbers are ordered exactly, texts by code points, lists and tuples by their
first items that do not match, or else by length.  Values of different types have
no order.
-/

namespace CueScript

/-- The four order relations. -/
inductive Comparison where
  | less
  | greater
  | atMost
  | atLeast
  deriving DecidableEq, Repr

namespace Comparison

/-- Whether the relation holds of two things in this order. -/
def holds : Comparison → Ordering → Bool
  | less, order => order.isLT
  | greater, order => order.isGT
  | atMost, order => order.isLE
  | atLeast, order => order.isGE

end Comparison

namespace Value

/-- The order of two texts by code points. -/
def orderTexts (a b : String) : Ordering := compareOfLessAndEq a b

mutual

/-- Whether an order relation holds between two values. -/
def compares (relation : Comparison) (a b : Value) : Except Failure Bool :=
  match a with
  | .list items _ =>
      match b with
      | .list others _ => comparesItems relation items others
      | _ => throw .wrongType
  | .tuple items =>
      match b.toTuple? with
      | some others => comparesItems relation items others
      | none => throw .wrongType
  | .quoted form =>
      match b.toTuple? with
      | some (other :: rest) =>
          if form.agrees other then
            pure (relation.holds (compare 1 (rest.length + 1)))
          else
            compares relation form other
      | some [] => pure (relation.holds .gt)
      | none => throw .wrongType
  | .vector items _ =>
      match b.toTuple? with
      | some (.list others _ :: rest) =>
          if matchItems items others then
            pure (relation.holds (compare 1 (rest.length + 1)))
          else
            comparesItems relation items others
      | some (_ :: _) => throw .wrongType
      | some [] => pure (relation.holds .gt)
      | none => throw .wrongType
  | atom =>
      match atom.toNumeric?, b.toNumeric? with
      | some x, some y =>
          match x.compare? y with
          | some order => pure (relation.holds order)
          | none => pure false
      | _, _ =>
          match atom.toText?, b.toText? with
          | some s, some t => pure (relation.holds (orderTexts s t))
          | _, _ => throw .wrongType

/-- Whether an order relation holds between two lists. -/
def comparesItems (relation : Comparison) : List Value → List Value → Except Failure Bool
  | [], [] => pure (relation.holds .eq)
  | [], _ :: _ => pure (relation.holds .lt)
  | _ :: _, [] => pure (relation.holds .gt)
  | item :: rest, other :: others =>
      if item.agrees other then
        comparesItems relation rest others
      else
        compares relation item other

end

end Value

end CueScript
