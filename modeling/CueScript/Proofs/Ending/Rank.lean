import CueScript.Builtin.Access

/-!
# How far calls can go

A built-in function may call functions it is given, and these may be built-in functions
again.  So they can nest although nothing is evaluated.  `rank` tells how far that can go:
whatever a built-in function calls, it calls with arguments of a smaller rank.  The first
argument counts little, since it is what other calls have given or what a store holds.
-/

namespace CueScript

open Value

namespace Value

/-! ## What is in a value -/

mutual

/-- How much there is in a value to go through, apart from what stores hold. -/
def extent : Value → Nat
  | .list items _ => extentAll items
  | .vector items _ => 1 + extentAll items
  | .quoted form => 1 + extent form
  | .tuple items => extentAll items
  | .map entries _ => extentKeys entries
  | .str text => 2 * (text.length - 1)
  | .keyword name => 2 * (name.length - 1)
  | .symbol name => 2 * (name.length - 1)
  | _ => 0

/-- The same for the items of a list, each counting by itself. -/
def extentAll : List Value → Nat
  | [] => 0
  | item :: rest => 1 + extent item + extentAll rest

/-- The same for the keys of a map. -/
def extentKeys : List (Value × Value) → Nat
  | [] => 0
  | entry :: rest => 1 + extentKey entry + extentKeys rest

/-- The same for the key of an entry. -/
def extentKey : Value × Value → Nat
  | (key, _) => extent key

end

-- Sums start from the zero of the core library, also beside a library with its own.
attribute [local instance (2000)] Zero.ofOfNat0

/-- How much there is in some values. -/
def extents (items : List Value) : Nat := (items.map extent).sum

@[simp]
theorem extents_nil : extents [] = 0 := rfl

@[simp]
theorem extents_cons (item : Value) (rest : List Value) :
    extents (item :: rest) = item.extent + extents rest := by
  simp [extents]

@[simp]
theorem extents_append (left right : List Value) :
    extents (left ++ right) = extents left + extents right := by
  simp [extents]

theorem extentAll_eq (items : List Value) : extentAll items = items.length + extents items := by
  induction items with
  | nil => rfl
  | cons item rest inductionHypothesis =>
      simp only [extentAll, inductionHypothesis, List.length_cons, extents_cons]
      omega

theorem extentKeys_eq (entries : ValueEntries) :
    extentKeys entries = entries.length + extents (Entries.keys entries) := by
  induction entries with
  | nil => rfl
  | cons entry rest inductionHypothesis =>
      obtain ⟨key, value⟩ := entry
      simp only [extentKeys, extentKey, inductionHypothesis, List.length_cons, Entries.keys,
        List.map_cons, extents_cons]
      omega

theorem extent_le_extents {item : Value} {items : List Value} (member : item ∈ items) :
    item.extent ≤ extents items := by
  induction items with
  | nil => cases member
  | cons first rest inductionHypothesis =>
      rw [extents_cons]
      rcases List.mem_cons.mp member with rfl | member
      · exact Nat.le_add_right _ _
      · exact Nat.le_trans (inductionHypothesis member) (Nat.le_add_left _ _)

theorem extents_ofChars (text : String) : extents (ofChars text) = 0 := by
  unfold ofChars
  induction text.toList with
  | nil => rfl
  | cons c rest inductionHypothesis =>
      rw [List.map_cons, extents_cons, inductionHypothesis]
      simp [extent, Char.toString]

/-- Whether a value is `nil` or stands for none.  There is nothing to go through. -/
def isVoid : Value → Bool
  | .nil => true
  | .unset _ => true
  | _ => false

theorem extent_of_isVoid {value : Value} (void : value.isVoid = true) : value.extent = 0 := by
  cases value with
  | nil => simp [extent]
  | unset id => simp [extent]
  | _ => cases void

/-- What is in the parts that a value is gone through by. -/
structure HoldsParts (value : Value) (parts : List Value) : Prop where
  void : value.isVoid = true → parts = []
  all : parts.length + extents parts ≤ value.extent + 1
  several : 2 ≤ parts.length → parts.length + extents parts.tail ≤ value.extent
  each : ∀ part ∈ parts, part.extent ≤ value.extent
  later : ∀ part ∈ parts.tail, 2 + part.extent ≤ value.extent

theorem HoldsParts.none (value : Value) : HoldsParts value [] where
  void _ := rfl
  all := by simp
  several atLeast := absurd atLeast (by simp)
  each _ member := nomatch member
  later _ member := nomatch member

theorem holdsParts_of_eq
    {value : Value} {parts : List Value} (same : parts.length + extents parts = value.extent) :
    HoldsParts value parts := by
  constructor
  · intro void
    have empty := extent_of_isVoid void
    exact List.eq_nil_of_length_eq_zero (by omega)
  · omega
  · intro _
    cases parts with
    | nil => simp
    | cons first rest =>
        simp only [extents_cons, List.tail_cons] at same ⊢
        omega
  · intro part member
    have upTo := extent_le_extents member
    omega
  · intro part member
    cases parts with
    | nil => cases member
    | cons first rest =>
        have upTo := extent_le_extents member
        have counted := List.length_pos_of_mem member
        simp only [List.tail_cons] at upTo counted
        simp only [List.length_cons, extents_cons] at same
        omega

theorem holdsParts_of_toText
    {value : Value} {text : String} (isText : value.toText? = some text) :
    HoldsParts value (ofChars text) := by
  have extentOf : value.extent = 2 * (text.length - 1) := by
    cases value <;> cases isText <;> rfl
  have count : (ofChars text).length = text.length := by
    simp [ofChars, String.length_toList]
  have small := extents_ofChars text
  constructor
  · intro void
    cases value with
    | nil => cases isText
    | unset id => cases isText
    | _ => cases void
  · omega
  · intro atLeast
    have tailSmall : extents (ofChars text).tail = 0 := by
      cases chars : ofChars text with
      | nil => rfl
      | cons first rest =>
          rw [chars, extents_cons] at small
          exact Nat.eq_zero_of_add_eq_zero_left small
    omega
  · intro part member
    have upTo := extent_le_extents member
    omega
  · intro part member
    have upTo := extent_le_extents (List.mem_of_mem_tail member)
    have counted := List.length_pos_of_mem member
    rw [List.length_tail] at counted
    omega

/-! ## The rank of arguments -/

/-- Whether a value is a text, a keyword or `nil`, or stands for none.  None of them has an
operation that built-in functions look for. -/
def isInert : Value → Bool
  | .nil => true
  | .unset _ => true
  | .str _ => true
  | .keyword _ => true
  | _ => false

/-- How much there is to go through in more than one argument.  Nothing calls a text, and
what is looked up is behind where it is looked up. -/
def weight : List Value → Nat
  | [.str _, _] => 0
  | [.keyword _, value] => 1 + value.extent
  | args => args.length + extents args.tail

/-- How far built-in functions can call others, beginning with some arguments. -/
def rank : List Value → Nat
  | [] => 0
  | [first] => if first.isInert then 1 else 2
  | [first, second] =>
      if second.isVoid then if first.isInert then 1 else 2 else 3 + weight [first, second]
  | args => 3 + weight args

theorem weight_le (args : List Value) : weight args ≤ args.length + extents args.tail := by
  unfold weight
  split
  · exact Nat.zero_le _
  · simp
  · exact Nat.le_refl _

theorem rank_le (args : List Value) : rank args ≤ 3 + (args.length + extents args.tail) := by
  unfold rank
  split
  · exact Nat.zero_le _
  · split <;> simp
  · rename_i first second
    have upTo := weight_le [first, second]
    split
    · simp only [List.length_cons, List.length_nil]
      split <;> omega
    · exact Nat.add_le_add_left upTo 3
  · exact Nat.add_le_add_left (weight_le _) 3

theorem rank_single_le (first : Value) : rank [first] ≤ 2 := by
  simp only [rank]
  split <;> omega

theorem isInert_of_isVoid {value : Value} (void : value.isVoid = true) :
    value.isInert = true := by
  cases value with
  | nil => rfl
  | unset id => rfl
  | _ => cases void

theorem rank_void
    (first : Value) {second : Value} (void : second.isVoid = true) :
    rank [first, second] = if first.isInert then 1 else 2 := by
  simp only [rank, void, if_true]

theorem rank_void_le
    (first : Value) {second : Value} (void : second.isVoid = true) : rank [first, second] ≤ 2 := by
  rw [rank_void first void]
  split <;> omega

theorem rank_single_of_isInert {first : Value} (inert : first.isInert = true) :
    rank [first] = 1 := by
  simp only [rank, inert, if_true]

theorem rank_single_of_plain {first : Value} (notInert : first.isInert = false) :
    rank [first] = 2 := by
  simp only [rank, notInert, Bool.false_eq_true, if_false]

theorem rank_pos (first : Value) (rest : List Value) : 0 < rank (first :: rest) := by
  unfold rank
  split
  · cases ‹first :: rest = []›
  · split <;> simp
  · split
    · split <;> simp
    · omega
  · omega

theorem rank_pair
    (first : Value) {second : Value} (notVoid : second.isVoid = false) :
    rank [first, second] = 3 + weight [first, second] := by
  simp only [rank, notVoid, Bool.false_eq_true, if_false]

theorem rank_of_several {args : List Value} (several : 3 ≤ args.length) :
    rank args = 3 + (args.length + extents args.tail) := by
  match args with
  | first :: second :: third :: rest => simp [rank, weight]

theorem weight_pair_of_plain
    {first : Value} (second : Value) (notInert : first.isInert = false) :
    weight [first, second] = 2 + second.extent := by
  cases first with
  | nil => cases notInert
  | str text => cases notInert
  | keyword name => cases notInert
  | _ => simp [weight]

theorem weight_pair_of_callable
    {first : Value} (second : Value) (callable : Access.isCallable first = true) :
    1 + second.extent ≤ weight [first, second] := by
  cases first with
  | str text => cases callable
  | keyword name => exact Nat.le_refl _
  | _ => simp [weight]

theorem rank_text_le (text : String) (value : Value) : rank [.str text, value] ≤ 3 := by
  cases void : value.isVoid with
  | true => exact Nat.le_succ_of_le (rank_void_le _ void)
  | false =>
      rw [rank_pair _ void]
      exact Nat.le_refl 3

/-- Without the first of several arguments, the rank is smaller. -/
theorem rank_lt_cons (first : Value) {rest : List Value} (several : 2 ≤ rest.length) :
    rank rest < rank (first :: rest) := by
  refine Nat.lt_of_le_of_lt (rank_le rest) ?_
  rw [rank_of_several (by simpa using several)]
  cases rest with
  | nil => simp at several
  | cons second others =>
      simp only [List.length_cons, List.tail_cons, extents_cons]
      omega

theorem rank_pair_lt (other first second third : Value) :
    rank [other, third] < rank [first, second, third] := by
  refine Nat.lt_of_le_of_lt (rank_le [other, third]) ?_
  rw [rank_of_several (by simp)]
  simp only [List.length_cons, List.length_nil, List.tail_cons, extents_cons, extents_nil]
  omega

/-- Where the last argument is replaced by what is in it, the rank is smaller. -/
theorem rank_spread_lt
    {first last : Value} {args parts : List Value}
    (callable : Access.isCallable first = true) (isLast : args.getLast? = some last)
    (holds : last.HoldsParts parts) :
    rank (args.dropLast ++ parts) < rank (first :: args) := by
  obtain ⟨front, rfl⟩ := List.getLast?_eq_some_iff.mp isLast
  rw [List.dropLast_concat]
  cases front with
  | nil =>
      cases void : last.isVoid with
      | true =>
          rw [holds.void void]
          exact rank_pos first _
      | false =>
          change rank parts < rank [first, last]
          rw [rank_pair first void]
          have above := weight_pair_of_callable last callable
          match parts, holds with
          | [], _ =>
              simp only [rank]
              omega
          | [part], _ => exact Nat.lt_of_le_of_lt (rank_single_le part) (by omega)
          | part :: next :: others, holds =>
              have several := holds.several (by simp)
              have upTo := rank_le (part :: next :: others)
              omega
  | cons second others =>
      have all := holds.all
      refine Nat.lt_of_le_of_lt (rank_le _) ?_
      rw [rank_of_several (by simp)]
      simp only [List.cons_append, List.length_cons, List.length_append, List.tail_cons,
        extents_cons, extents_append, extents_nil, List.length_nil]
      omega

/-- The arguments of a call with a place to look in are above those with the key. -/
theorem rank_lt_of_two
    {first second key default : Value} (notInert : first.isInert = false)
    (isKey : key = second ∨ ∃ name, key = .keyword name) (noDefault : default.isVoid = true) :
    rank [key, default] < rank [first, second] := by
  cases void : second.isVoid with
  | true =>
      have inert : key.isInert = true := by
        rcases isKey with rfl | ⟨name, rfl⟩
        · exact isInert_of_isVoid void
        · rfl
      rw [rank_void key noDefault, rank_void first void, inert, notInert]
      simp
  | false =>
      rw [rank_pair first void]
      exact Nat.lt_of_le_of_lt (rank_void_le key noDefault) (by omega)

end Value

end CueScript
