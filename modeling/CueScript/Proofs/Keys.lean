import CueScript.Proofs.Entries
import CueScript.Value.Map

/-!
# Plain keys

`nil`, truth values, integers, strings and keywords are plain keys.  Two of them share an
entry if they are spellings of the same `PlainKey`: truth values count as numbers, and a
keyword is its bare text.
-/

namespace CueScript

/-- What plain keys are spellings of. -/
inductive PlainKey where
  | nil
  | number (number : Int)
  | text (text : String)
  deriving DecidableEq, Repr

namespace Value

/-- What a plain key is a spelling of. -/
def plainKey? : Value → Option PlainKey
  | .nil => some .nil
  | .bool flag => some (.number (if flag then 1 else 0))
  | .int number => some (.number number)
  | .str text => some (.text text)
  | .keyword name => some (.text name)
  | _ => none

/-- A plain key. -/
def IsPlainKey (key : Value) : Prop := key.plainKey?.isSome = true

instance (key : Value) : Decidable key.IsPlainKey :=
  inferInstanceAs (Decidable (key.plainKey?.isSome = true))

theorem isKey_of_isPlainKey
    {key : Value} (plain : key.IsPlainKey) :
    key.isKey = true := by
  cases key with
  | nil | bool | int | str | keyword => rfl
  | _ => cases plain

theorem equal_int_iff {a b : Int} : (Numeric.int a).equal (.int b) = true ↔ a = b := by
  simp [Numeric.equal, Numeric.compare?]

/-- A plain probe shares an entry with a stored plain key if both are spellings of the
same. -/
theorem sameKey_iff_of_plain
    {stored probe : Value} (storedPlain : stored.IsPlainKey) (plain : probe.IsPlainKey) :
    sameKey stored probe = true ↔ stored.plainKey? = probe.plainKey? := by
  cases stored with
  | nil | bool | int | str | keyword =>
      cases probe with
      | nil | bool | int | str | keyword =>
          simp [sameKey, sameBirth, equalAtom, equalText, toNumeric?, toText?, plainKey?,
            equal_int_iff]
      | _ => cases plain
  | _ => cases storedPlain

/-- A string shares an entry with the stored keys that are spellings of its text, whatever
keys there are. -/
theorem sameKey_str_iff {stored : Value} {text : String} :
    sameKey stored (.str text) = true ↔ stored.plainKey? = some (.text text) := by
  cases stored with
  | float number birth =>
      cases number <;> simp [sameKey, sameBirth, equalAtom, toNumeric?, plainKey?]
  | _ => simp [sameKey, sameBirth, equalAtom, equalText, toNumeric?, toText?, plainKey?]

/-- Plain keys are equal if they are spellings of the same. -/
theorem equal_iff_of_plain
    {first second : Value} (firstPlain : first.IsPlainKey) (plain : second.IsPlainKey) :
    first.equal second = true ↔ first.plainKey? = second.plainKey? := by
  rw [← sameKey_iff_of_plain firstPlain plain]
  cases first with
  | nil | bool | int | str | keyword =>
      cases second with
      | nil | bool | int | str | keyword =>
          simp [sameKey, sameBirth, equalAtom, equalText, toNumeric?, toText?, equal]
      | _ => cases plain
  | _ => cases firstPlain

end Value

namespace ValueEntries

variable {vars : ValueEntries} {name other : String} {value : Value}

theorem tells_str (text : String) (stored : List Value) :
    Entries.Tells Value.sameKey Value.plainKey? (.str text) stored :=
  fun _ _ => Value.sameKey_str_iff

/-- A variable that is set has its value, and all others have theirs. -/
theorem find?_put_str :
    Entries.find? Value.sameKey (.str other) (Entries.put Value.sameKey (.str name) value vars) =
      if name = other then some value else Entries.find? Value.sameKey (.str other) vars := by
  rw [Entries.find?_put_of_tells (tells_str name _) (tells_str other _)]
  by_cases same : name = other
  · simp [same]
  · simp [Value.plainKey?, same]

/-- Of variables that are set one after the other, the last one with a name counts. -/
theorem find?_putAll_str (pairs : List (String × Value)) :
    Entries.find? Value.sameKey (.str name)
        (Entries.putAll Value.sameKey (pairs.map fun pair => (.str pair.1, pair.2)) vars) =
      (pairs.reverse.lookup name).or (Entries.find? Value.sameKey (.str name) vars) := by
  induction pairs generalizing vars with
  | nil => rfl
  | cons pair rest inductionHypothesis =>
      obtain ⟨first, firstValue⟩ := pair
      rw [List.map_cons, Entries.putAll, List.foldl_cons, ← Entries.putAll, inductionHypothesis,
        find?_put_str, List.reverse_cons, List.lookup_append, Option.or_assoc]
      congr 1
      by_cases same : first = name
      · simp [same]
      · have different : (name == first) = false := beq_eq_false_iff_ne.mpr (Ne.symm same)
        simp [List.lookup_cons, same, different]

end ValueEntries

end CueScript
