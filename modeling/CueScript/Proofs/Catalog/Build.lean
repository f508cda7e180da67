import CueScript.Proofs.Catalog.Lineage

/-!
# Which catalogs can be built

A layout becomes a catalog exactly if all code in it reads as one form each, all parents are
listed and no kind inherits from itself.  What is wrong with code is told first, then what is
wrong with single parents, then cycles, in whatever order the kinds are listed.
-/

namespace CueScript

/-- The code of a symbol reads as exactly one form. -/
def ReadsAsOne (code : String) : Prop :=
  ∃ form, read code.toList = .ok [form]

namespace CatalogLayout

/-- All code of a layout reads as one form each. -/
def CodesRead (layout : CatalogLayout) : Prop :=
  ∀ entry ∈ layout, ∀ symbol ∈ entry.2.bindings, ReadsAsOne symbol.2.1

/-- A kind of a layout names another one as its parent. -/
def Inherits (layout : CatalogLayout) (kind parent : EventKind) : Prop :=
  ∃ own, (kind, own) ∈ layout ∧ parent ∈ own.parents

/-- All parents that are named in a layout are listed there. -/
def ParentsListed (layout : CatalogLayout) : Prop :=
  ∀ kind parent, layout.Inherits kind parent → parent ∈ layout.map Prod.fst

/-- No kind of a layout inherits from itself, through however many others. -/
def Acyclic (layout : CatalogLayout) : Prop :=
  ∀ kind, ¬ Relation.TransGen layout.Inherits kind kind

/-- The parents of each kind that is listed. -/
def lineage (layout : CatalogLayout) : Lineage :=
  layout.map fun entry => (entry.1, entry.2.parents)

end CatalogLayout

/-- A layout is refused with a report of a given code. -/
def Catalog.Refuses (layout : CatalogLayout) (code : ErrorCode) : Prop :=
  ∃ fault, build? layout = .error fault ∧
    fault.report.errorClass = .catalog ∧ fault.report.diagnostic.code = code

/-! ## Code -/

theorem CatalogFault.report_class (fault : CatalogFault) :
    fault.report.errorClass = .catalog := by
  cases fault <;> rfl

/-- Whether a fault is told of code that does not read. -/
def CatalogFault.IsUnreadable : CatalogFault → Prop
  | .unreadable .. => True
  | _ => False

theorem CatalogFault.IsUnreadable.code
    {fault : CatalogFault} (unreadable : fault.IsUnreadable) :
    fault.report.diagnostic.code = .invalidBinding := by
  cases fault with
  | unreadable name report => rfl
  | unregistered kind parent => exact unreadable.elim
  | cycle path => exact unreadable.elim

/-- Something is made if some code reads, and else it is told that it does not. -/
def MadeIf {α : Type} (codeReads : Prop) : Except CatalogFault α → Prop
  | .ok _ => codeReads
  | .error fault => fault.IsUnreadable ∧ ¬ codeReads

namespace MadeIf

theorem bind
    {α β : Type} {first second : Prop} {made : Except CatalogFault α}
    {next : α → Except CatalogFault β} (madeFirst : MadeIf first made)
    (madeNext : ∀ built, made = .ok built → MadeIf second (next built)) :
    MadeIf (first ∧ second) (made >>= next) := by
  cases made with
  | error fault => exact ⟨madeFirst.1, fun both => madeFirst.2 both.1⟩
  | ok built =>
      have madeSecond := madeNext built rfl
      change MadeIf (first ∧ second) (next built)
      cases outcome : next built with
      | error fault =>
          rw [outcome] at madeSecond
          exact ⟨madeSecond.1, fun both => madeSecond.2 both.2⟩
      | ok last =>
          rw [outcome] at madeSecond
          exact ⟨madeFirst, madeSecond⟩

theorem readOne (name code doc : String) :
    MadeIf (ReadsAsOne code) (Binding.ofCode name code doc) := by
  unfold Binding.ofCode ReadsAsOne CueScript.readOne
  cases read code.toList with
  | error fault => exact ⟨trivial, fun ⟨form, isRead⟩ => nomatch isRead⟩
  | ok forms =>
      match forms with
      | [] => exact ⟨trivial, fun ⟨form, isRead⟩ => nomatch isRead⟩
      | [only] => exact ⟨only, rfl⟩
      | _ :: _ :: _ => exact ⟨trivial, fun ⟨form, isRead⟩ => nomatch isRead⟩

theorem tableOf (symbols : List (String × String × String)) (built : BindingTable) :
    MadeIf (∀ symbol ∈ symbols, ReadsAsOne symbol.2.1) (BindingSet.tableOf symbols built) := by
  induction symbols generalizing built with
  | nil => exact fun symbol member => absurd member List.not_mem_nil
  | cons first rest inductionHypothesis =>
      rw [List.forall_mem_cons]
      exact (readOne first.1 first.2.1 first.2.2).bind fun binding _ => inductionHypothesis _

theorem ofLayout (own : BindingLayout) :
    MadeIf (∀ symbol ∈ own.bindings, ReadsAsOne symbol.2.1) (BindingSet.ofLayout own) := by
  have made := @MadeIf.bind _ BindingSet _ True _ (fun bindings => pure ⟨bindings, own.parents⟩)
    (tableOf own.bindings []) fun _ _ => trivial
  rw [and_true] at made
  exact made

theorem setsOf (layout : CatalogLayout) (built : Catalog) :
    MadeIf layout.CodesRead (Catalog.setsOf layout built) := by
  induction layout generalizing built with
  | nil => exact fun entry member => absurd member List.not_mem_nil
  | cons first rest inductionHypothesis =>
      have split : CatalogLayout.CodesRead (first :: rest) ↔
          (∀ symbol ∈ first.2.bindings, ReadsAsOne symbol.2.1) ∧
            CatalogLayout.CodesRead rest := List.forall_mem_cons
      rw [split]
      exact (ofLayout first.2).bind fun own _ => inductionHypothesis _

end MadeIf

/-! ## Parents -/

theorem BindingSet.parents_ofLayout
    {own : BindingLayout} {made : BindingSet} (isMade : BindingSet.ofLayout own = .ok made) :
    made.parents = own.parents := by
  unfold BindingSet.ofLayout at isMade
  cases outcome : BindingSet.tableOf own.bindings [] with
  | error fault =>
      rw [outcome] at isMade
      cases isMade
  | ok bindings =>
      rw [outcome] at isMade
      cases isMade
      rfl

theorem Catalog.put_new
    {catalog : Catalog} {kind : EventKind} (fresh : kind ∉ Entries.keys catalog)
    (own : BindingSet) :
    Entries.put (· == ·) kind own catalog = catalog ++ [(kind, own)] := by
  induction catalog with
  | nil => rfl
  | cons entry rest inductionHypothesis =>
      obtain ⟨notFirst, notLater⟩ := List.ne_and_not_mem_of_not_mem_cons fresh
      rw [Entries.put, if_neg fun same => notFirst (eq_of_beq same).symm,
        inductionHypothesis notLater]
      rfl

/-- A catalog is made with the parents of its layout. -/
theorem Catalog.lineage_setsOf
    {layout : CatalogLayout} {built catalog : Catalog}
    (distinct : (Entries.keys built ++ layout.map Prod.fst).Nodup)
    (isMade : Catalog.setsOf layout built = .ok catalog) :
    catalog.lineage = built.lineage ++ layout.lineage := by
  induction layout generalizing built with
  | nil =>
      cases isMade
      exact (List.append_nil _).symm
  | cons first rest inductionHypothesis =>
      obtain ⟨kind, own⟩ := first
      unfold Catalog.setsOf at isMade
      cases outcome : BindingSet.ofLayout own with
      | error fault =>
          rw [outcome] at isMade
          cases isMade
      | ok made =>
          rw [outcome] at isMade
          have fresh : kind ∉ Entries.keys built := fun old =>
            (List.nodup_append.mp distinct).2.2 kind old kind List.mem_cons_self rfl
          have isMadeFurther :
              Catalog.setsOf rest (Entries.put (· == ·) kind made built) = .ok catalog := isMade
          rw [Catalog.put_new fresh] at isMadeFurther
          have keys : Entries.keys (built ++ [(kind, made)]) = Entries.keys built ++ [kind] :=
            List.map_append
          rw [inductionHypothesis (by rw [keys, List.append_assoc]; exact distinct) isMadeFurther]
          have parents := BindingSet.parents_ofLayout outcome
          simp [Catalog.lineage, CatalogLayout.lineage, parents]

theorem Lineage.mem_parents_iff
    {lineage : Lineage} (distinct : (lineage.map Prod.fst).Nodup) {kind parent : EventKind} :
    parent ∈ lineage.parents kind ↔ ∃ own, (kind, own) ∈ lineage ∧ parent ∈ own := by
  induction lineage with
  | nil => simp [Lineage.parents]
  | cons entry rest inductionHypothesis =>
      obtain ⟨first, own⟩ := entry
      obtain ⟨notLater, restDistinct⟩ := List.nodup_cons.mp distinct
      by_cases same : kind = first
      · subst same
        have onlyHere (others : List EventKind) : (kind, others) ∉ rest := fun later =>
          notLater (List.mem_map.mpr ⟨_, later, rfl⟩)
        simp [Lineage.parents, onlyHere]
      · have elsewhere : (kind == first) = false := beq_false_of_ne same
        have passes : Lineage.parents ((first, own) :: rest) kind = Lineage.parents rest kind := by
          simp only [Lineage.parents, List.lookup_cons, elsewhere]
        rw [passes, inductionHypothesis restDistinct]
        simp [same]

namespace CatalogLayout

variable {layout : CatalogLayout}

theorem keys_lineage : layout.lineage.map Prod.fst = layout.map Prod.fst :=
  List.map_map

/-- The parents of a lineage are those of the layout it comes from. -/
theorem inherits_lineage
    (distinct : (layout.map Prod.fst).Nodup) :
    layout.lineage.Inherits = layout.Inherits := by
  funext kind parent
  refine propext ((Lineage.mem_parents_iff (keys_lineage ▸ distinct)).trans ?_)
  constructor
  · rintro ⟨parents, member, isParent⟩
    obtain ⟨⟨kind, own⟩, isEntry, same⟩ := List.mem_map.mp member
    cases same
    exact ⟨own, isEntry, isParent⟩
  · rintro ⟨own, isEntry, isParent⟩
    exact ⟨own.parents, List.mem_map.mpr ⟨_, isEntry, rfl⟩, isParent⟩

theorem unregistered?_eq_none_iff :
    layout.lineage.unregistered? = none ↔ layout.ParentsListed := by
  unfold Lineage.unregistered?
  rw [List.findSome?_eq_none_iff, keys_lineage]
  constructor
  · rintro allListed kind parent ⟨own, isEntry, isParent⟩
    have noneMissing := allListed (kind, own.parents) (List.mem_map.mpr ⟨_, isEntry, rfl⟩)
    have listed := List.find?_eq_none.mp (Option.map_eq_none_iff.mp noneMissing) parent isParent
    simpa using listed
  · intro parentsListed entry member
    obtain ⟨⟨kind, own⟩, isEntry, rfl⟩ := List.mem_map.mp member
    refine Option.map_eq_none_iff.mpr (List.find?_eq_none.mpr fun parent isParent => ?_)
    simpa using parentsListed kind parent ⟨own, isEntry, isParent⟩

theorem cycle?_eq_none_iff
    (distinct : (layout.map Prod.fst).Nodup) :
    layout.lineage.cycle? = none ↔ layout.Acyclic := by
  rw [Lineage.cycle?_eq_none_iff, Lineage.Acyclic, inherits_lineage distinct]
  rfl

end CatalogLayout

/-! ## Layouts in any order -/

namespace CatalogLayout

variable {layout other : CatalogLayout}

theorem codesRead_perm (same : layout.Perm other) : layout.CodesRead ↔ other.CodesRead :=
  forall_congr' fun _ => imp_congr_left same.mem_iff

theorem inherits_perm (same : layout.Perm other) : layout.Inherits = other.Inherits := by
  funext kind parent
  exact propext (exists_congr fun own => and_congr_left' same.mem_iff)

theorem parentsListed_perm (same : layout.Perm other) :
    layout.ParentsListed ↔ other.ParentsListed := by
  unfold ParentsListed
  rw [inherits_perm same]
  exact forall₃_congr fun kind parent _ => (same.map Prod.fst).mem_iff

theorem acyclic_perm (same : layout.Perm other) : layout.Acyclic ↔ other.Acyclic := by
  unfold CatalogLayout.Acyclic
  rw [inherits_perm same]

end CatalogLayout

/-! ## Building -/

namespace Catalog

variable {layout other : CatalogLayout}

theorem refuses_of_unread (unread : ¬ layout.CodesRead) : Refuses layout .invalidBinding := by
  have made := MadeIf.setsOf layout []
  unfold Refuses build?
  cases outcome : setsOf layout [] with
  | ok catalog =>
      rw [outcome] at made
      exact absurd made unread
  | error fault =>
      rw [outcome] at made
      exact ⟨fault, rfl, fault.report_class, made.1.code⟩

/-- Where all code reads, what comes of a layout is what comes of its lineage. -/
theorem build_of_codesRead
    (distinct : (layout.map Prod.fst).Nodup) (codesRead : layout.CodesRead) :
    ∃ catalog : Catalog, catalog.lineage = layout.lineage ∧
      build? layout = catalog.validate.map fun _ => catalog := by
  have made := MadeIf.setsOf layout []
  unfold build?
  cases outcome : setsOf layout [] with
  | error fault =>
      rw [outcome] at made
      exact absurd codesRead made.2
  | ok catalog =>
      refine ⟨catalog, @lineage_setsOf layout [] catalog distinct outcome, ?_⟩
      change (catalog.validate >>= fun _ => pure catalog) = _
      cases catalog.validate with
      | error fault => rfl
      | ok nothing => rfl

theorem refuses_of_unlisted
    (distinct : (layout.map Prod.fst).Nodup) (codesRead : layout.CodesRead)
    (unlisted : ¬ layout.ParentsListed) : Refuses layout .unknownParent := by
  obtain ⟨catalog, sameLineage, built⟩ := build_of_codesRead distinct codesRead
  rw [← CatalogLayout.unregistered?_eq_none_iff, ← sameLineage] at unlisted
  obtain ⟨⟨kind, parent⟩, found⟩ := Option.ne_none_iff_exists'.mp unlisted
  refine ⟨.unregistered kind parent, ?_, rfl, rfl⟩
  rw [built, validate, found]
  rfl

theorem refuses_of_cyclic
    (distinct : (layout.map Prod.fst).Nodup) (codesRead : layout.CodesRead)
    (listed : layout.ParentsListed) (cyclic : ¬ layout.Acyclic) :
    Refuses layout .circularInheritance := by
  obtain ⟨catalog, sameLineage, built⟩ := build_of_codesRead distinct codesRead
  rw [← CatalogLayout.cycle?_eq_none_iff distinct, ← sameLineage] at cyclic
  rw [← CatalogLayout.unregistered?_eq_none_iff, ← sameLineage] at listed
  obtain ⟨path, found⟩ := Option.ne_none_iff_exists'.mp cyclic
  refine ⟨.cycle path, ?_, rfl, rfl⟩
  rw [built, validate, listed]
  simp only [found]
  rfl

theorem exists_of_sound
    (distinct : (layout.map Prod.fst).Nodup) (codesRead : layout.CodesRead)
    (listed : layout.ParentsListed) (acyclic : layout.Acyclic) :
    ∃ catalog, build? layout = .ok catalog := by
  obtain ⟨catalog, sameLineage, built⟩ := build_of_codesRead distinct codesRead
  rw [← CatalogLayout.cycle?_eq_none_iff distinct, ← sameLineage] at acyclic
  rw [← CatalogLayout.unregistered?_eq_none_iff, ← sameLineage] at listed
  refine ⟨catalog, ?_⟩
  rw [built, validate, listed]
  simp only [acyclic]
  rfl

theorem exists_iff_sound
    (distinct : (layout.map Prod.fst).Nodup) :
    (∃ catalog, build? layout = .ok catalog) ↔
      layout.CodesRead ∧ layout.ParentsListed ∧ layout.Acyclic := by
  have notBoth {code : ErrorCode} (refuses : Refuses layout code)
      (built : ∃ catalog, build? layout = .ok catalog) : False := by
    obtain ⟨fault, isFault, -⟩ := refuses
    obtain ⟨catalog, isOk⟩ := built
    rw [isFault] at isOk
    cases isOk
  constructor
  · intro built
    refine Classical.byContradiction fun unsound => ?_
    by_cases codesRead : layout.CodesRead
    · by_cases listed : layout.ParentsListed
      · exact notBoth (refuses_of_cyclic distinct codesRead listed fun acyclic =>
          unsound ⟨codesRead, listed, acyclic⟩) built
      · exact notBoth (refuses_of_unlisted distinct codesRead listed) built
    · exact notBoth (refuses_of_unread codesRead) built
  · rintro ⟨codesRead, listed, acyclic⟩
    exact exists_of_sound distinct codesRead listed acyclic

theorem Refuses.eq
    {code another : ErrorCode} (refuses : Refuses layout code)
    (refusesToo : Refuses layout another) : code = another := by
  obtain ⟨fault, isFault, -, rfl⟩ := refuses
  obtain ⟨same, isSame, -, rfl⟩ := refusesToo
  rw [isFault] at isSame
  cases isSame
  rfl

/-- The code of a report does not tell in which order the kinds are listed. -/
theorem Refuses.perm
    {code : ErrorCode} (distinct : (layout.map Prod.fst).Nodup) (same : layout.Perm other)
    (refuses : Refuses layout code) : Refuses other code := by
  have distinctToo : (other.map Prod.fst).Nodup := (same.map Prod.fst).nodup_iff.mp distinct
  by_cases codesRead : layout.CodesRead
  · have codesReadToo := (CatalogLayout.codesRead_perm same).mp codesRead
    by_cases listed : layout.ParentsListed
    · have listedToo := (CatalogLayout.parentsListed_perm same).mp listed
      by_cases acyclic : layout.Acyclic
      · obtain ⟨fault, isFault, -⟩ := refuses
        obtain ⟨catalog, isOk⟩ := exists_of_sound distinct codesRead listed acyclic
        rw [isFault] at isOk
        cases isOk
      · rw [refuses.eq (refuses_of_cyclic distinct codesRead listed acyclic)]
        exact refuses_of_cyclic distinctToo codesReadToo listedToo
          (mt (CatalogLayout.acyclic_perm same).mpr acyclic)
    · rw [refuses.eq (refuses_of_unlisted distinct codesRead listed)]
      exact refuses_of_unlisted distinctToo codesReadToo
        (mt (CatalogLayout.parentsListed_perm same).mpr listed)
  · rw [refuses.eq (refuses_of_unread codesRead)]
    exact refuses_of_unread (mt (CatalogLayout.codesRead_perm same).mpr codesRead)

/-- A catalog is built exactly if all code reads as one form each, all parents are listed and no
kind inherits from itself.  Otherwise the report says which of these fails first, and it says
the same in whatever order the kinds are listed. -/
theorem build_iff_sound
    (distinct : (layout.map Prod.fst).Nodup) :
    ((∃ catalog, build? layout = .ok catalog) ↔
        layout.CodesRead ∧ layout.ParentsListed ∧ layout.Acyclic) ∧
      (¬ layout.CodesRead → Refuses layout .invalidBinding) ∧
      (layout.CodesRead → ¬ layout.ParentsListed → Refuses layout .unknownParent) ∧
      (layout.CodesRead → layout.ParentsListed → ¬ layout.Acyclic →
        Refuses layout .circularInheritance) ∧
      ∀ other : CatalogLayout, layout.Perm other →
        ((∃ catalog, build? layout = .ok catalog) ↔ ∃ catalog, build? other = .ok catalog) ∧
          ∀ code, Refuses layout code ↔ Refuses other code := by
  refine ⟨exists_iff_sound distinct, refuses_of_unread, refuses_of_unlisted distinct,
    refuses_of_cyclic distinct, fun other same => ?_⟩
  have distinctToo : (other.map Prod.fst).Nodup := (same.map Prod.fst).nodup_iff.mp distinct
  constructor
  · rw [exists_iff_sound distinct, exists_iff_sound distinctToo,
      CatalogLayout.codesRead_perm same, CatalogLayout.parentsListed_perm same,
      CatalogLayout.acyclic_perm same]
  · exact fun code => ⟨.perm distinct same, .perm distinctToo same.symm⟩

/-- Beats inherit from mixers twice, and mixers from beats through players. -/
def tangledLayout : CatalogLayout := [
  (.beat, ⟨[("tempo", "(/ (.bpm status) 100.0)", "")], [.mixerStatus, .mixerStatus]⟩),
  (.mixerStatus, ⟨[("tempo", "(.bpm status)", "")], [.deviceUpdate, .cdjStatus]⟩),
  (.deviceUpdate, ⟨[], []⟩),
  (.cdjStatus, ⟨[("on-air", "'(.is-on-air [status])", "")], [.deviceUpdate, .beat]⟩)]

/-- A cycle is told, whichever kind comes first. -/
theorem build_refuses_tangled :
    (tangledLayout.map Prod.fst).Nodup ∧ Refuses tangledLayout .circularInheritance ∧
      Refuses tangledLayout.reverse .circularInheritance := by
  have distinct : (tangledLayout.map Prod.fst).Nodup := by decide
  obtain ⟨-, -, -, ofCycle, inAnyOrder⟩ := build_iff_sound distinct
  have codesRead : tangledLayout.CodesRead := by
    intro entry isEntry symbol isSymbol
    simp only [tangledLayout, List.mem_cons, List.not_mem_nil, or_false] at isEntry
    rcases isEntry with rfl | rfl | rfl | rfl
    · rw [List.mem_singleton.mp isSymbol]
      exact ⟨_, rfl⟩
    · rw [List.mem_singleton.mp isSymbol]
      exact ⟨_, rfl⟩
    · exact absurd isSymbol List.not_mem_nil
    · rw [List.mem_singleton.mp isSymbol]
      exact ⟨_, rfl⟩
  have listed : tangledLayout.ParentsListed := by
    intro kind parent _
    cases parent <;> decide
  have cyclic : ¬ tangledLayout.Acyclic := by
    intro acyclic
    have toMixer : tangledLayout.Inherits .beat .mixerStatus :=
      ⟨_, List.mem_cons_self, List.mem_cons_self⟩
    have toPlayer : tangledLayout.Inherits .mixerStatus .cdjStatus :=
      ⟨_, List.mem_cons_of_mem _ List.mem_cons_self, List.mem_cons_of_mem _ List.mem_cons_self⟩
    have toBeat : tangledLayout.Inherits .cdjStatus .beat :=
      ⟨⟨[("on-air", "'(.is-on-air [status])", "")], [.deviceUpdate, .beat]⟩, by decide, by decide⟩
    exact acyclic .beat (.tail (.tail (.single toMixer) toPlayer) toBeat)
  have refuses := ofCycle codesRead listed cyclic
  exact ⟨distinct, refuses,
    ((inAnyOrder _ (List.reverse_perm _).symm).2 _).mp refuses⟩

end Catalog

end CueScript
