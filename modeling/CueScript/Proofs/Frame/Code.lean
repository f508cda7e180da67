import CueScript.Proofs.Frame.Stores
import CueScript.Proofs.Symbols.Body

/-!
# Lists of code

The lists in the code of an expression can be values, too, and expressions with one table
share those of its trees.  They can lose items, but all they ever hold is code, as long as
nothing else has a list with the number of one of them.
-/

namespace CueScript

namespace Value

/-- Whether a value is a piece of code, which is a list only if that has one of some
numbers. -/
def IsCode (code : Nat → Prop) : Value → Prop
  | .symbol _ => True
  | .int _ => True
  | .float _ _ => True
  | .str _ => True
  | .list _ birth => code birth
  | .vector _ birth => code birth
  | .quoted form => IsCode code form
  | _ => False

mutual

/-- Whether a value is a tree of code: its lists have no numbers yet or are shared and have
some of the given ones. -/
def IsCodeTree (shared : Nat → Prop) : Value → Prop
  | .symbol _ => True
  | .int _ => True
  | .float _ _ => True
  | .str _ => True
  | .list items birth => (birth = 0 ∨ shared birth) ∧ AllCodeTrees shared items
  | .vector items birth => (birth = 0 ∨ shared birth) ∧ AllCodeTrees shared items
  | .quoted form => IsCodeTree shared form
  | _ => False

/-- The same for the items of a list. -/
def AllCodeTrees (shared : Nat → Prop) : List Value → Prop
  | [] => True
  | item :: rest => IsCodeTree shared item ∧ AllCodeTrees shared rest

end

variable {code shared : Nat → Prop}

theorem allCodeTrees_iff {items : List Value} :
    AllCodeTrees shared items ↔ ∀ item ∈ items, IsCodeTree shared item := by
  induction items with
  | nil => simp [AllCodeTrees]
  | cons item rest inductionHypothesis => simp [AllCodeTrees, inductionHypothesis]

mutual

theorem isCodeTree_of_isTree (value : Value) (isTree : IsTree value) :
    IsCodeTree shared value := by
  cases value with
  | list items birth => exact ⟨.inl isTree.1, allCodeTrees_of_allTrees items isTree.2⟩
  | vector items birth => exact ⟨.inl isTree.1, allCodeTrees_of_allTrees items isTree.2⟩
  | quoted form => exact isCodeTree_of_isTree form isTree
  | symbol _ | int _ | float _ _ | str _ => exact trivial
  | _ => exact isTree.elim

theorem allCodeTrees_of_allTrees (items : List Value) (areTrees : AllTrees items) :
    AllCodeTrees shared items := by
  cases items with
  | nil => exact trivial
  | cons item rest =>
      exact ⟨isCodeTree_of_isTree item areTrees.1, allCodeTrees_of_allTrees rest areTrees.2⟩

end

theorem isCode_current (holdings : Holdings) (value : Value) (isCode : IsCode code value) :
    IsCode code (value.current holdings) := by
  cases value with
  | list items birth =>
      rw [current]
      split <;> exact isCode
  | vector items birth =>
      rw [current]
      split <;> exact isCode
  | quoted form => exact isCode_current holdings form isCode
  | symbol _ | int _ | float _ _ | str _ => exact trivial
  | _ => exact isCode.elim

theorem isCode_widen
    {wide : Nat → Prop} (wider : ∀ birth, code birth → wide birth) (value : Value)
    (isCode : IsCode code value) :
    IsCode wide value := by
  cases value with
  | list items birth => exact wider birth isCode
  | vector items birth => exact wider birth isCode
  | quoted form => exact isCode_widen wider form isCode
  | symbol _ | int _ | float _ _ | str _ => exact trivial
  | _ => exact isCode.elim

/-- Telling apart changes no number of a list. -/
theorem isCode_tellApart
    (numbered : ¬ code 0) (next : Nat) (value : Value) (isCode : IsCode code value) :
    IsCode code (tellApart next value).1 := by
  cases value with
  | list items birth =>
      have given : birth ≠ 0 := fun zero => numbered (zero ▸ isCode)
      simp only [tellApart, Value.numbered, if_neg given]
      exact isCode
  | vector items birth =>
      have given : birth ≠ 0 := fun zero => numbered (zero ▸ isCode)
      simp only [tellApart, Value.numbered, if_neg given]
      exact isCode
  | quoted form => exact isCode_tellApart numbered next form isCode
  | float number birth => cases number <;> exact trivial
  | symbol _ | int _ | str _ => exact trivial
  | _ => exact isCode.elim

end Value

/-- Everything may be met, but lists with some numbers hold code. -/
def Bounds.ofCode (code : Nat → Prop) : Bounds :=
  { Bounds.anything with
    contents := fun birth item => code birth → item.IsCode code
    contents_current := fun _ item holdings isCode known =>
      Value.isCode_current holdings item (isCode known) }

namespace Value

variable {code shared : Nat → Prop}

theorem lists_ofCode {birth : Nat} (other : ¬ code birth) (items : List Value) :
    (Bounds.ofCode code).Lists birth items :=
  ⟨trivial, fun _ _ known => absurd known other⟩

/-! ## Trees that are told apart -/

theorem numbered_code
    {birth next : Nat} (given : birth = 0 ∨ code birth)
    (fresh : ∀ number, next ≤ number → number < (numbered birth next).2 → code number) :
    code (numbered birth next).1 := by
  unfold numbered at fresh ⊢
  split
  · rename_i zero
    rw [if_pos zero] at fresh
    exact fresh next (Nat.le_refl _) (Nat.lt_succ_self _)
  · exact given.resolve_left ‹_›

mutual

/-- A tree of code that has been told apart is code, and so is all that is in it. -/
theorem code_tellApart
    (wider : ∀ birth, shared birth → code birth) (next : Nat) (tree : Value)
    (isTree : IsCodeTree shared tree)
    (fresh : ∀ birth, next ≤ birth → birth < (tellApart next tree).2 → code birth) :
    IsCode code (tellApart next tree).1 ∧
      Within (.ofCode code) (tellApart next tree).1 := by
  cases tree with
  | list items birth =>
      obtain ⟨areCode, within⟩ := code_tellItemsApart wider next items isTree.2
        fun number above below => fresh number above
          (Nat.lt_of_lt_of_le below (numbered_le birth _))
      have own : code (numbered birth (tellItemsApart next items).2).1 :=
        numbered_code (isTree.1.imp_right (wider birth)) fun number above below =>
          fresh number (Nat.le_trans (tellItemsApart_le next items) above) below
      exact ⟨own, ⟨trivial, fun item member _ => areCode item member⟩, within⟩
  | vector items birth =>
      obtain ⟨areCode, within⟩ := code_tellItemsApart wider next items isTree.2
        fun number above below => fresh number above
          (Nat.lt_of_lt_of_le below (numbered_le birth _))
      have own : code (numbered birth (tellItemsApart next items).2).1 :=
        numbered_code (isTree.1.imp_right (wider birth)) fun number above below =>
          fresh number (Nat.le_trans (tellItemsApart_le next items) above) below
      exact ⟨own, ⟨trivial, fun item member _ => areCode item member⟩, within⟩
  | quoted form => exact code_tellApart wider next form isTree fresh
  | float number birth => cases number <;> exact ⟨trivial, trivial⟩
  | symbol _ | int _ | str _ => exact ⟨trivial, trivial⟩
  | _ => exact isTree.elim

theorem code_tellItemsApart
    (wider : ∀ birth, shared birth → code birth) (next : Nat) (trees : List Value)
    (areTrees : AllCodeTrees shared trees)
    (fresh : ∀ birth, next ≤ birth → birth < (tellItemsApart next trees).2 → code birth) :
    (∀ item ∈ (tellItemsApart next trees).1, IsCode code item) ∧
      AllWithin (.ofCode code) (tellItemsApart next trees).1 := by
  cases trees with
  | nil => exact ⟨(fun _ member => nomatch member), trivial⟩
  | cons tree rest =>
      obtain ⟨isCode, within⟩ := code_tellApart wider next tree areTrees.1
        fun birth above below => fresh birth above
          (Nat.lt_of_lt_of_le below (tellItemsApart_le _ rest))
      obtain ⟨areCode, restWithin⟩ := code_tellItemsApart wider _ rest areTrees.2
        fun birth above below => fresh birth (Nat.le_trans (tellApart_le next tree) above) below
      refine ⟨fun item member => ?_, within, restWithin⟩
      rcases List.mem_cons.mp member with rfl | later
      · exact isCode
      · exact areCode item later

end

/-! ## Values that are known -/

/-- Whether further numbers of lists of code are among those that a renaming moves. -/
structure Widens (σ : Renaming) (shared code : Nat → Prop) : Prop where
  wider : ∀ birth, shared birth → code birth
  unmoved : ∀ birth, σ.births birth = birth → code birth → shared birth

variable {σ : Renaming}

theorem lists_widen
    (widens : Widens σ shared code) {birth : Nat} {items : List Value}
    (same : σ.births birth = birth)
    (lists : (Bounds.ofCode shared).Lists birth items) :
    (Bounds.ofCode code).Lists birth items :=
  ⟨trivial, fun item member known =>
    isCode_widen widens.wider item (lists.2 item member (widens.unmoved birth same known))⟩

mutual

/-- What has only numbers that were given out before is not concerned by further numbers of
lists of code. -/
theorem within_ofCode_widen
    (widens : Widens σ shared code) (value : Value) (same : value.rename σ = value)
    (within : Within (.ofCode shared) value) :
    Within (.ofCode code) value := by
  cases value with
  | list items birth =>
      rw [rename_list] at same
      obtain ⟨sameItems, sameBirth⟩ := list.inj same
      exact ⟨lists_widen widens sameBirth within.1,
        allWithin_ofCode_widen widens items sameItems within.2⟩
  | vector items birth =>
      rw [rename_vector] at same
      obtain ⟨sameItems, sameBirth⟩ := vector.inj same
      exact ⟨lists_widen widens sameBirth within.1,
        allWithin_ofCode_widen widens items sameItems within.2⟩
  | quoted form =>
      rw [rename_quoted] at same
      exact within_ofCode_widen widens form (quoted.inj same) within
  | tuple items =>
      rw [rename_tuple] at same
      exact allWithin_ofCode_widen widens items (tuple.inj same) within
  | map entries birth =>
      rw [rename_map] at same
      exact ⟨trivial, entriesWithin_ofCode_widen widens entries (map.inj same).1 within.2⟩
  | closure id name params rest body inside owner =>
      rw [rename_closure] at same
      obtain ⟨-, -, -, -, sameBody, -, -⟩ := closure.inj same
      exact ⟨allWithin_ofCode_widen widens body sameBody within.1, fun _ _ => trivial, trivial,
        trivial, trivial⟩
  | event id origin members =>
      rw [rename_event] at same
      exact membersWithin_ofCode_widen widens members (event.inj same).2.2 within
  | method id result =>
      rw [rename_method] at same
      exact within_ofCode_widen widens result (method.inj same).2 within
  | member receiver name =>
      rw [rename_member] at same
      exact within_ofCode_widen widens receiver (member.inj same).1 within
  | scope id => exact ⟨trivial, trivial⟩
  | evaluator id => exact ⟨trivial, trivial⟩
  | _ => exact trivial

theorem allWithin_ofCode_widen
    (widens : Widens σ shared code) (items : List Value) (same : items.map (rename σ) = items)
    (within : AllWithin (.ofCode shared) items) :
    AllWithin (.ofCode code) items := by
  cases items with
  | nil => exact trivial
  | cons item rest =>
      obtain ⟨first, others⟩ := List.cons.inj same
      exact ⟨within_ofCode_widen widens item first within.1,
        allWithin_ofCode_widen widens rest others within.2⟩

theorem entriesWithin_ofCode_widen
    (widens : Widens σ shared code) (entries : List (Value × Value))
    (same : entries.map (renameEntry σ) = entries)
    (within : EntriesWithin (.ofCode shared) entries) :
    EntriesWithin (.ofCode code) entries := by
  cases entries with
  | nil => exact trivial
  | cons entry rest =>
      obtain ⟨first, others⟩ := List.cons.inj same
      exact ⟨entryWithin_ofCode_widen widens entry first within.1,
        entriesWithin_ofCode_widen widens rest others within.2⟩

theorem entryWithin_ofCode_widen
    (widens : Widens σ shared code) (entry : Value × Value)
    (same : renameEntry σ entry = entry)
    (within : EntryWithin (.ofCode shared) entry) :
    EntryWithin (.ofCode code) entry := by
  cases entry with
  | mk key value =>
      rw [renameEntry_mk] at same
      obtain ⟨sameKey, sameValue⟩ := Prod.mk.inj same
      exact ⟨within_ofCode_widen widens key sameKey within.1,
        within_ofCode_widen widens value sameValue within.2⟩

theorem membersWithin_ofCode_widen
    (widens : Widens σ shared code) (members : List (String × Value))
    (same : members.map (renameMember σ) = members)
    (within : MembersWithin (.ofCode shared) members) :
    MembersWithin (.ofCode code) members := by
  cases members with
  | nil => exact trivial
  | cons first rest =>
      obtain ⟨here, others⟩ := List.cons.inj same
      exact ⟨memberWithin_ofCode_widen widens first here within.1,
        membersWithin_ofCode_widen widens rest others within.2⟩

theorem memberWithin_ofCode_widen
    (widens : Widens σ shared code) (first : String × Value)
    (same : renameMember σ first = first)
    (within : MemberWithin (.ofCode shared) first) :
    MemberWithin (.ofCode code) first := by
  cases first with
  | mk name value =>
      rw [renameMember_mk] at same
      exact within_ofCode_widen widens value (Prod.mk.inj same).2 within

end

end Value

/-! ## Heaps -/

namespace Heap

variable {code shared : Nat → Prop} {heap : Heap}

/-- The renaming that moves the numbers that a heap has not given out. -/
def freshNumbers (heap : Heap) (positive : 0 < heap.births) : Renaming :=
  .shifting [heap.births] [] [] fun mark member => by
    rw [List.mem_singleton.mp member]
    exact positive

theorem freshNumbers_keeps (positive : 0 < heap.births) :
    (heap.freshNumbers positive).Keeps heap where
  births _ below := shifted_before fun mark member => by
    rw [List.mem_singleton.mp member]
    exact below
  scopes _ _ := rfl
  tables _ _ := rfl

theorem lt_of_freshNumbers
    {positive : 0 < heap.births} {birth : Nat}
    (same : (heap.freshNumbers positive).births birth = birth) :
    birth < heap.births := by
  refine Nat.lt_of_not_le fun later => ?_
  have moved : (heap.freshNumbers positive).births birth = birth + 1 :=
    shifted_after fun mark member => by
      rw [List.mem_singleton.mp member]
      exact later
  omega

/-- Once lists of code have been given further numbers, everything is as the lists of code
ask for. -/
theorem Settled.within_ofCode
    (settled : heap.Settled) (within : heap.Within (.ofCode shared))
    (wider : ∀ birth, shared birth → code birth)
    (old : ∀ birth < heap.births, code birth → shared birth)
    {next : Nat} (later : ∀ birth, code birth → birth < next) :
    { heap with births := next }.Within (.ofCode code) := by
  have keeps := freshNumbers_keeps settled.births
  have widens : Value.Widens (heap.freshNumbers settled.births) shared code :=
    ⟨wider, fun birth same => old birth (lt_of_freshNumbers same)⟩
  have known (value : Value) (known : heap.Knows value)
      (valueWithin : value.Within (.ofCode shared)) : value.Within (.ofCode code) :=
    Value.within_ofCode_widen widens value (known _ keeps) valueWithin
  constructor
  · intro id entries _ isTable
    exact Value.entriesWithin_ofCode_widen widens entries
      (Settled.renameEntries_eq (settled.tables id entries isTable) keeps)
      (within.tables id entries trivial isTable)
  · exact fun _ _ _ _ => trivial
  · intro id scope _ isScope
    refine ⟨?_, fun _ _ => trivial⟩
    have varsKnown := (settled.scopes id scope isScope).1
    have varsWithin := (within.scopes id scope trivial isScope).1
    cases isVars : scope.vars with
    | table id => exact trivial
    | inside holder =>
        rw [isVars] at varsKnown varsWithin
        exact known holder varsKnown varsWithin
    | absent given =>
        rw [isVars] at varsKnown varsWithin
        exact known given varsKnown varsWithin
  · exact fun _ _ => Iff.rfl
  · intro birth left _ isLeft
    obtain ⟨below, leftKnown⟩ := settled.losses _ (mem_losses isLeft)
    have leftWithin := (within.losses birth left trivial isLeft).2
    refine ⟨trivial, Value.allWithin_iff.mpr fun item member => ?_⟩
    exact known item (leftKnown item member) (Value.allWithin_iff.mp leftWithin item member)
  · intro birth left _ isLeft item member isCode
    have below := (settled.losses _ (mem_losses isLeft)).1
    exact Value.isCode_widen wider item
      (within.kept birth left trivial isLeft item member (old birth below isCode))
  · exact fun _ _ => trivial
  · exact fun _ _ => trivial
  · exact fun _ _ => trivial
  · exact fun birth item fresh isCode => absurd (later birth isCode) (Nat.not_lt.mpr fresh)

end Heap

end CueScript
