import CueScript.SpecialForm

/-!
# Checking the shape of special forms

Before expressions run, every special form in them is checked, except in quoted
data.  Lists are counted in the order of their opening parentheses, quoted ones
included, and the check ends at the first fault; the count then tells which list is
at fault.
-/

namespace CueScript

/-- How far a check has come: the number of lists entered so far, and the first list
of the wrong shape. -/
structure ShapeCheck where
  listsSeen : Nat
  fault : Option (List Value × ShapeFault)

namespace ShapeCheck

/-- Nothing checked yet. -/
def start : ShapeCheck := ⟨0, none⟩

/-- Another list is entered. -/
def count (state : ShapeCheck) : ShapeCheck :=
  { state with listsSeen := state.listsSeen + 1 }

/-- What is wrong with a list that is a special form by its head. -/
def faultOf (form : List Value) : Option ShapeFault :=
  match form with
  | .symbol head :: _ =>
      match SpecialForm.ofForm? head form with
      | some (.error fault) => some fault
      | _ => none
  | _ => none

/-- Whether a list quotes what is in it. -/
def isQuotation : List Value → Bool
  | .symbol head :: _ => head == "quote"
  | _ => false

mutual

/-- Check a tree. -/
def visit (quoted : Bool) (state : ShapeCheck) : Value → ShapeCheck
  | .list items _ =>
      let entered := state.count
      if quoted then
        visitAll true entered items
      else
        match faultOf items with
        | some fault => { entered with fault := some (items, fault) }
        | none => visitAll (isQuotation items) entered items
  | .vector items _ => visitAll quoted state items
  | .quoted form => visit true state form
  | _ => state

/-- Check trees one after the other, up to the first fault. -/
def visitAll (quoted : Bool) (state : ShapeCheck) : List Value → ShapeCheck
  | [] => state
  | item :: rest =>
      let next := visit quoted state item
      match next.fault with
      | some _ => next
      | none => visitAll quoted next rest

end

/-- Check the forms of an expression. -/
def run (forms : List Value) : ShapeCheck := visitAll false start forms

end ShapeCheck

end CueScript
