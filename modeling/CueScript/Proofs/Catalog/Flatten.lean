import Mathlib
import CueScript.Catalog.Resolver
import CueScript.Proofs.Catalog.Build
import CueScript.Proofs.Symbols.Scan

/-!
# Effective symbols and ancestors

The table of a kind is laid together from those of its parents and from its own symbols.  It
has the symbols of the kind and of all its ancestors, and those of its parents in the order in
which the parents are named.
-/

namespace CueScript

namespace BindingTable

/-- The symbol with a name. -/
def find? (table : BindingTable) (name : String) : Option Binding :=
  Entries.find? (· == ·) name table

theorem find?_overlay
    {winning : BindingTable} (distinct : (Entries.keys winning).Nodup) (table : BindingTable)
    (name : String) :
    find? (Catalog.overlay table winning) name = (find? winning name).or (find? table name) := by
  unfold Catalog.overlay Entries.putAll
  induction winning generalizing table with
  | nil => rfl
  | cons entry rest inductionHypothesis =>
      obtain ⟨key, binding⟩ := entry
      obtain ⟨notLater, restDistinct⟩ := List.nodup_cons.mp distinct
      rw [List.foldl_cons, inductionHypothesis restDistinct]
      unfold find?
      rw [Entries.find?_put, Entries.find?]
      by_cases same : key = name
      · have absent : Entries.find? (· == ·) name rest = none :=
          Option.not_isSome_iff_eq_none.mp fun isSome =>
            notLater (same ▸ Entries.isSome_find?_iff.mp isSome)
        simp [same, absent]
      · simp [same]

end BindingTable

namespace Catalog

open Relation

variable {catalog : Catalog}

/-- A catalog that can be built: each name is listed once for a kind, all parents are listed and
no kind inherits from itself. -/
structure IsBuilt (catalog : Catalog) : Prop where
  names : ∀ entry ∈ catalog, (Entries.keys entry.2.bindings).Nodup
  accepted : catalog.validate = .ok ()

/-- A kind has an own symbol with a name. -/
def Registers (catalog : Catalog) (kind : EventKind) (name : String) : Prop :=
  ∃ own, catalog.find? kind = some own ∧ name ∈ Entries.keys own.bindings

theorem IsBuilt.acyclic (built : catalog.IsBuilt) : catalog.lineage.Acyclic := by
  rw [← Lineage.cycle?_eq_none_iff]
  have accepted := built.accepted
  unfold validate at accepted
  split at accepted
  · cases accepted
  · split at accepted
    · cases accepted
    · assumption

theorem inherits_iff {kind parent : EventKind} :
    catalog.lineage.Inherits kind parent ↔
      ∃ own, catalog.find? kind = some own ∧ parent ∈ own.parents := by
  unfold Lineage.Inherits
  have same : catalog.lineage.parents kind =
      ((catalog.find? kind).map BindingSet.parents).getD [] := by
    unfold Lineage.parents
    congr 1
    induction catalog with
    | nil => rfl
    | cons entry rest inductionHypothesis =>
        obtain ⟨listed, own⟩ := entry
        unfold lineage find? at inductionHypothesis ⊢
        by_cases isKind : kind = listed
        · simp [Entries.find?, isKind]
        · simp [List.lookup_cons, Entries.find?, beq_false_of_ne isKind, Ne.symm isKind,
            inductionHypothesis]
  rw [same]
  cases catalog.find? kind with
  | none => simp
  | some own => simp

/-! ## Generations -/

/-- Where a kind has as many ancestors as there are kinds that have not been met on the way to
it, going back another generation finds nothing new. -/
theorem flattenWithin_succ
    (acyclic : catalog.lineage.Acyclic) {generations : Nat} {kind : EventKind}
    {met : List EventKind} (leads : ∀ each ∈ met, TransGen catalog.lineage.Inherits each kind)
    (enough : (Lineage.unseen met).length ≤ generations) :
    catalog.flattenWithin (generations + 1) kind = catalog.flattenWithin generations kind := by
  have fresh : kind ∉ met := fun isMet => acyclic kind (leads kind isMet)
  induction generations generalizing kind met with
  | zero =>
      have none : Lineage.unseen met = [] := List.eq_nil_of_length_eq_zero (Nat.le_zero.mp enough)
      have isUnseen : kind ∈ Lineage.unseen met := by
        simp [Lineage.unseen, EventKind.mem_all, fresh]
      rw [none] at isUnseen
      cases isUnseen
  | succ generations inductionHypothesis =>
      rw [flattenWithin, flattenWithin]
      cases found : catalog.find? kind with
      | none => rfl
      | some own =>
          have parentsAlike : ∀ (merged : BindingTable), ∀ parent ∈ own.parents,
              overlay merged (catalog.flattenWithin (generations + 1) parent) =
                overlay merged (catalog.flattenWithin generations parent) := by
            intro merged parent isParent
            have inherits : catalog.lineage.Inherits kind parent :=
              inherits_iff.mpr ⟨own, found, isParent⟩
            have leadsFurther : ∀ each ∈ met ++ [kind],
                TransGen catalog.lineage.Inherits each parent := by
              intro each isMet
              rcases List.mem_append.mp isMet with earlier | last
              · exact (leads each earlier).tail inherits
              · exact List.mem_singleton.mp last ▸ .single inherits
            have fewer := Lineage.length_unseen_lt fresh
            rw [inductionHypothesis leadsFurther (by omega) fun isMet =>
              acyclic parent (leadsFurther parent isMet)]
          exact congrArg (overlay · own.bindings) (List.foldl_ext _ _ [] parentsAlike)

/-- The table of a kind is laid together from those of its parents and from its own symbols. -/
theorem resolve_eq (acyclic : catalog.lineage.Acyclic) (kind : EventKind) :
    catalog.resolve kind =
      match catalog.find? kind with
      | none => []
      | some own =>
          overlay (own.parents.foldl (fun merged parent => overlay merged (catalog.resolve parent))
            []) own.bindings :=
  (flattenWithin_succ acyclic (fun _ isMet => absurd isMet List.not_mem_nil) (Nat.le_refl _)).symm

/-- Of several tables that are laid over one another the last one with a name gives it. -/
theorem find?_foldl_overlay
    {tableOf : EventKind → BindingTable} (distinct : ∀ kind, (Entries.keys (tableOf kind)).Nodup)
    (parents : List EventKind) (merged : BindingTable) (name : String) :
    BindingTable.find? (parents.foldl (fun merged parent => overlay merged (tableOf parent)) merged)
        name =
      (parents.reverse.findSome? fun parent => (tableOf parent).find? name).or
        (merged.find? name) := by
  induction parents generalizing merged with
  | nil => rfl
  | cons parent rest inductionHypothesis =>
      rw [List.foldl_cons, inductionHypothesis, BindingTable.find?_overlay (distinct parent),
        List.reverse_cons, List.findSome?_append, Option.or_assoc, List.findSome?_singleton]

namespace IsBuilt

/-- A symbol of a kind is its own one if it has one, and else that of the parent named last that
has one. -/
theorem find?_resolve
    (built : catalog.IsBuilt) {kind : EventKind} {own : BindingSet}
    (found : catalog.find? kind = some own) (name : String) :
    BindingTable.find? (catalog.resolve kind) name =
      (own.bindings.find? name).or
        (own.parents.reverse.findSome? fun parent =>
          BindingTable.find? (catalog.resolve parent) name) := by
  have distinct : (Entries.keys own.bindings).Nodup :=
    built.names (kind, own) (Entries.mem_of_find? found)
  rw [resolve_eq built.acyclic, found]
  change BindingTable.find? (overlay _ own.bindings) name = _
  rw [BindingTable.find?_overlay distinct, find?_foldl_overlay fun parent =>
    BindingTable.nodup_resolve catalog parent]
  exact congrArg _ (Option.or_none)

theorem resolve_of_unlisted
    (built : catalog.IsBuilt) {kind : EventKind} (unlisted : catalog.find? kind = none) :
    catalog.resolve kind = [] := by
  rw [resolve_eq built.acyclic, unlisted]

/-- A kind has the symbols that it or a kind that it inherits from has of its own. -/
theorem mem_resolve_iff
    (built : catalog.IsBuilt) {kind : EventKind} {name : String} :
    name ∈ Entries.keys (catalog.resolve kind) ↔
      ∃ origin, ReflTransGen catalog.lineage.Inherits kind origin ∧
        catalog.Registers origin name := by
  have grounded := built.acyclic.grounded kind
  induction grounded with
  | intro kind _ inductionHypothesis =>
      cases found : catalog.find? kind with
      | none =>
          rw [built.resolve_of_unlisted found]
          refine iff_of_false List.not_mem_nil ?_
          rintro ⟨origin, reached, own, registered, -⟩
          rcases ReflTransGen.cases_head reached with rfl | ⟨parent, isParent, -⟩
          · rw [found] at registered
            cases registered
          · obtain ⟨listed, isListed, -⟩ := inherits_iff.mp isParent
            rw [found] at isListed
            cases isListed
      | some own =>
          rw [← Entries.isSome_find?_iff]
          change (BindingTable.find? (catalog.resolve kind) name).isSome = true ↔ _
          rw [built.find?_resolve found, Option.isSome_or, Bool.or_eq_true,
            List.findSome?_isSome_iff]
          constructor
          · rintro (isOwn | ⟨parent, isParent, isSome⟩)
            · exact ⟨kind, .refl, own, found, Entries.isSome_find?_iff.mp isOwn⟩
            · have inherits : catalog.lineage.Inherits kind parent :=
                inherits_iff.mpr ⟨own, found, List.mem_reverse.mp isParent⟩
              obtain ⟨origin, reached, registers⟩ :=
                (inductionHypothesis parent inherits).mp (Entries.isSome_find?_iff.mp isSome)
              exact ⟨origin, .head inherits reached, registers⟩
          · rintro ⟨origin, reached, registers⟩
            rcases ReflTransGen.cases_head reached with rfl | ⟨parent, isParent, further⟩
            · obtain ⟨listed, isListed, registered⟩ := registers
              rw [found] at isListed
              cases isListed
              exact .inl (Entries.isSome_find?_iff.mpr registered)
            · obtain ⟨listed, isListed, named⟩ := inherits_iff.mp isParent
              rw [found] at isListed
              cases isListed
              exact .inr ⟨parent, List.mem_reverse.mpr named, Entries.isSome_find?_iff.mpr
                ((inductionHypothesis parent isParent).mpr ⟨origin, further, registers⟩)⟩

end IsBuilt

end Catalog

namespace Resolver

/-- Whether the tables that a resolver keeps are those of its catalog. -/
def Sound (resolver : Resolver) : Prop :=
  ∀ kind table, Entries.find? (· == ·) kind resolver.kept = some table →
    table = resolver.catalog.resolve kind

theorem Sound.resolve
    {resolver : Resolver} (sound : resolver.Sound) (kind : EventKind) :
    (resolver.resolve kind).1 = resolver.catalog.resolve kind ∧
      (resolver.resolve kind).2.catalog = resolver.catalog ∧
      (resolver.resolve kind).2.Sound := by
  unfold Resolver.resolve
  cases kept : Entries.find? (· == ·) kind resolver.kept with
  | some table => exact ⟨sound kind table kept, rfl, sound⟩
  | none =>
      refine ⟨rfl, rfl, fun other table isKept => ?_⟩
      change Entries.find? (· == ·) other (Entries.put _ kind _ resolver.kept) = _ at isKept
      rw [Entries.find?_put] at isKept
      split at isKept
      · cases isKept
        rename_i same
        rw [eq_of_beq same]
      · exact sound other table isKept

theorem Sound.answers
    {resolver : Resolver} (sound : resolver.Sound) (kinds : List EventKind) :
    resolver.answers kinds = kinds.map resolver.catalog.resolve := by
  induction kinds generalizing resolver with
  | nil => rfl
  | cons kind rest inductionHypothesis =>
      obtain ⟨answer, sameCatalog, soundAfter⟩ := sound.resolve kind
      change (resolver.resolve kind).1 :: (resolver.resolve kind).2.answers rest = _
      rw [answer, inductionHypothesis soundAfter, sameCatalog]
      rfl

end Resolver

/-! ## What a resolver answers -/

namespace Catalog

variable {catalog : Catalog}

theorem nodup_tableOf
    {symbols : List (String × String × String)} {before table : BindingTable}
    (distinct : (Entries.keys before).Nodup)
    (isMade : BindingSet.tableOf symbols before = .ok table) : (Entries.keys table).Nodup := by
  induction symbols generalizing before with
  | nil =>
      cases isMade
      exact distinct
  | cons first rest inductionHypothesis =>
      obtain ⟨name, code, doc⟩ := first
      unfold BindingSet.tableOf at isMade
      cases outcome : Binding.ofCode name code doc with
      | error fault =>
          rw [outcome] at isMade
          cases isMade
      | ok binding =>
          rw [outcome] at isMade
          exact inductionHypothesis (Entries.nodup_put distinct) isMade

theorem names_setsOf
    {layout : CatalogLayout} {before : Catalog}
    (distinct : ∀ entry ∈ before, (Entries.keys entry.2.bindings).Nodup)
    (isMade : setsOf layout before = .ok catalog) :
    ∀ entry ∈ catalog, (Entries.keys entry.2.bindings).Nodup := by
  induction layout generalizing before with
  | nil =>
      cases isMade
      exact distinct
  | cons first rest inductionHypothesis =>
      obtain ⟨kind, own⟩ := first
      unfold setsOf BindingSet.ofLayout at isMade
      cases outcome : BindingSet.tableOf own.bindings [] with
      | error fault =>
          rw [outcome] at isMade
          cases isMade
      | ok table =>
          rw [outcome] at isMade
          refine inductionHypothesis (fun entry member => ?_) isMade
          rcases Entries.mem_put member with old | new
          · exact distinct entry old
          · rw [new]
            exact @nodup_tableOf _ [] _ List.nodup_nil outcome

/-- A catalog that is made from a layout is one that can be built. -/
theorem isBuilt_of_build
    {layout : CatalogLayout} (isMade : build? layout = .ok catalog) : catalog.IsBuilt := by
  unfold build? at isMade
  cases outcome : setsOf layout [] with
  | error fault =>
      rw [outcome] at isMade
      cases isMade
  | ok made =>
      rw [outcome] at isMade
      cases accepted : validate made with
      | error fault =>
          change (validate made >>= fun _ => pure made) = _ at isMade
          rw [accepted] at isMade
          cases isMade
      | ok nothing =>
          change (validate made >>= fun _ => pure made) = _ at isMade
          rw [accepted] at isMade
          cases isMade
          have names := names_setsOf (fun entry member => absurd member List.not_mem_nil) outcome
          exact ⟨names, accepted⟩

/-- A resolver answers each of any number of requests with the table of the kind.  The table has
exactly the symbols that the kind or one of its ancestors has of its own; each is the one of the
kind itself if it has one, and else that of the parent named last that has one. -/
theorem IsBuilt.answers_agree
    (built : catalog.IsBuilt) (requests : List EventKind) :
    (Resolver.ofCatalog catalog).answers requests = requests.map catalog.resolve ∧
      (∀ kind name, name ∈ Entries.keys (catalog.resolve kind) ↔
        ∃ origin, (origin = kind ∨ origin ∈ catalog.lineage.ancestors kind) ∧
          catalog.Registers origin name) ∧
      (∀ kind own, catalog.find? kind = some own → ∀ name,
        BindingTable.find? (catalog.resolve kind) name =
          (own.bindings.find? name).or (own.parents.reverse.findSome? fun parent =>
            BindingTable.find? (catalog.resolve parent) name)) ∧
      (∀ kind, catalog.find? kind = none → catalog.resolve kind = []) ∧
      ∀ kind target, catalog.lineage.isA (some kind) target = true →
        ∀ name ∈ Entries.keys (catalog.resolve target),
          name ∈ Entries.keys (catalog.resolve kind) := by
  have unasked : (Resolver.ofCatalog catalog).Sound := fun kind table isKept => nomatch isKept
  refine ⟨unasked.answers requests, ?_, fun kind own => built.find?_resolve,
    fun kind => built.resolve_of_unlisted, ?_⟩
  · intro kind name
    rw [built.mem_resolve_iff]
    simp only [Lineage.mem_ancestors_iff, Relation.reflTransGen_iff_eq_or_transGen]
  · intro kind target isTarget name member
    obtain ⟨origin, reached, registers⟩ := built.mem_resolve_iff.mp member
    exact built.mem_resolve_iff.mpr
      ⟨origin, (Lineage.isA_iff.mp isTarget).trans reached, registers⟩

/-- A symbol whose code is a number. -/
def numbered (name : String) (number : Int) : String × Binding :=
  (name, ⟨name, toString number, "", .int number⟩)

/-- Beats inherit from players, mixers and players again, and these from device updates. -/
def diamond : Catalog := [
  (.beat, ⟨[numbered "pitch" 1], [.cdjStatus, .mixerStatus, .cdjStatus]⟩),
  (.mixerStatus, ⟨[numbered "tempo" 2], [.deviceUpdate]⟩),
  (.cdjStatus, ⟨[numbered "tempo" 3], [.deviceUpdate]⟩),
  (.deviceUpdate, ⟨[numbered "pitch" 4, numbered "address" 5], []⟩)]

/-- The tempo of beats is that of players, which are named last, and the pitch is their own. -/
theorem answers_agree_diamond :
    diamond.IsBuilt ∧
      (Resolver.ofCatalog diamond).answers [.beat, .mixerStatus, .beat] =
        [diamond.resolve .beat, diamond.resolve .mixerStatus, diamond.resolve .beat] ∧
      BindingTable.find? (diamond.resolve .beat) "tempo" = some (numbered "tempo" 3).2 ∧
      "address" ∈ Entries.keys (diamond.resolve .beat) := by
  have built : diamond.IsBuilt := ⟨by decide, by cbv⟩
  obtain ⟨answers, names, definitions, -, -⟩ := built.answers_agree [.beat, .mixerStatus, .beat]
  refine ⟨built, answers, ?_, ?_⟩
  · have ofBeat := definitions .beat _ rfl "tempo"
    have ofPlayer := definitions .cdjStatus _ rfl "tempo"
    have lastNamed : (List.findSome? (fun parent =>
        BindingTable.find? (diamond.resolve parent) "tempo")
        [EventKind.cdjStatus, .mixerStatus, .cdjStatus]) = some (numbered "tempo" 3).2 := by
      rw [List.findSome?_cons, ofPlayer]
      rfl
    rw [ofBeat]
    exact lastNamed
  · refine (names .beat "address").mpr ⟨.deviceUpdate, .inr ?_, _, rfl, by decide⟩
    have toPlayer : diamond.lineage.Inherits .beat .cdjStatus := by decide
    have toDevice : diamond.lineage.Inherits .cdjStatus .deviceUpdate := by decide
    exact Lineage.mem_ancestors_iff.mpr (.tail (.single toPlayer) toDevice)

end Catalog

end CueScript
