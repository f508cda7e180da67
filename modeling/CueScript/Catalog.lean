import CueScript.Event.Lineage
import CueScript.Reader

/-!
# Catalogs of convenience symbols

A catalog says which convenience symbols an expression may use for each kind of
event: a name, the code that extracts its value from the event, and a help text.
A kind inherits the symbols of its parents; its own symbols win over inherited
ones, and those of a later parent over those of an earlier one.

`Catalog.build?` accepts a layout when all code reads, every parent is listed and no
kind inherits from itself.
-/

namespace CueScript

/-- A convenience symbol: its name, the code that extracts its value and the same as
a tree, and a help text. -/
structure Binding where
  name : String
  code : String
  doc : String
  extract : Value
  deriving Inhabited

/-- Convenience symbols by name. -/
abbrev BindingTable := Entries String Binding

/-- The own symbols of a kind of event, and the kinds it inherits from. -/
structure BindingSet where
  bindings : BindingTable
  parents : List EventKind
  deriving Inhabited

/-- A catalog: the kinds of event it lists, with their symbols. -/
abbrev Catalog := Entries EventKind BindingSet

/-- The texts from which the own symbols of a kind are made, and its parents. -/
structure BindingLayout where
  /-- Name, code and help text of each symbol. -/
  bindings : List (String × String × String)
  parents : List EventKind
  deriving DecidableEq, Repr, Inhabited

/-- The texts from which a catalog is made. -/
abbrev CatalogLayout := List (EventKind × BindingLayout)

/-- Why a catalog cannot be built. -/
inductive CatalogFault where
  /-- The code of a symbol does not read. -/
  | unreadable (name : String) (report : Report)
  /-- A kind inherits from one that is not listed. -/
  | unregistered (kind parent : EventKind)
  /-- A kind inherits from itself; the path leads to it twice. -/
  | cycle (path : List EventKind)

namespace CatalogFault

/-- The report of a fault. -/
def report : CatalogFault → Report
  | unreadable name cause =>
      (Report.ofFields .catalog .invalidBinding
        ("Extraction code for " ++ Text.quoted name ++ " does not read: " ++ cause.message)
        .plain {}).withCause cause.errorClass.name
  | unregistered kind parent =>
      Report.ofFields .catalog .unknownParent
        (kind.tag ++ " inherits from unregistered type " ++ parent.tag) .plain {}
  | cycle path =>
      Report.ofFields .catalog .circularInheritance
        ("Inheritance cycle: " ++ String.intercalate " -> " (path.map EventKind.tag))
        .plain {}

end CatalogFault

namespace Binding

/-- The file name under which the code of a symbol is read. -/
def filename (name : String) : String := "<binding " ++ name ++ ">"

/-- A convenience symbol whose code is read. -/
def ofCode (name code doc : String) : Except CatalogFault Binding :=
  match readOne code.toList with
  | .ok form => pure ⟨name, code, doc, form⟩
  | .error fault =>
      throw (.unreadable name (fault.report code.toList (filename name)))

end Binding

namespace BindingSet

/-- The symbols of a layout by name; one that comes twice has its first place and
its last meaning. -/
def tableOf : List (String × String × String) → BindingTable →
    Except CatalogFault BindingTable
  | [], built => pure built
  | (name, code, doc) :: rest, built => do
      let binding ← Binding.ofCode name code doc
      tableOf rest (Entries.put (· == ·) name binding built)

/-- The own symbols of a kind from their texts. -/
def ofLayout (layout : BindingLayout) : Except CatalogFault BindingSet := do
  let bindings ← tableOf layout.bindings []
  pure ⟨bindings, layout.parents⟩

end BindingSet

namespace Lineage

/-- The first parent that is not itself listed, with the kind that names it. -/
def unregistered? (lineage : Lineage) : Option (EventKind × EventKind) :=
  lineage.findSome? fun entry =>
    (entry.2.find? fun parent => !(lineage.map Prod.fst).contains parent).map
      fun parent => (entry.1, parent)

mutual

/-- Follow all parents of a kind that was reached by a path.  The kinds that need no
further look are given and returned; a kind that is on its own path is a fault. -/
def checkFrom (lineage : Lineage) (path done : List EventKind) (kind : EventKind) :
    Except (List EventKind) (List EventKind) :=
  if kind ∈ done then
    pure done
  else if _fresh : kind ∈ path then
    throw (path ++ [kind])
  else
    match checkAll lineage (path ++ [kind]) done (lineage.parents kind) with
    | .ok after => pure (after ++ [kind])
    | .error fault => throw fault
termination_by ((unseen path).length, 0)
decreasing_by exact Prod.Lex.left _ _ (length_unseen_lt _fresh)

/-- Follow several kinds, one after the other. -/
def checkAll (lineage : Lineage) (path done : List EventKind) (kinds : List EventKind) :
    Except (List EventKind) (List EventKind) :=
  match kinds with
  | [] => pure done
  | kind :: rest =>
      match checkFrom lineage path done kind with
      | .ok after => checkAll lineage path after rest
      | .error fault => throw fault
termination_by ((unseen path).length, kinds.length + 1)
decreasing_by
  · exact Prod.Lex.right _ (by simp)
  · exact Prod.Lex.right _ (by simp)

end

/-- The path to a kind that inherits from itself, if there is one. -/
def cycle? (lineage : Lineage) : Option (List EventKind) :=
  match checkAll lineage [] [] (lineage.map Prod.fst) with
  | .ok _ => none
  | .error path => some path

end Lineage

namespace Catalog

/-- The own symbols of a kind, if it is listed. -/
def find? (catalog : Catalog) (kind : EventKind) : Option BindingSet :=
  Entries.find? (· == ·) kind catalog

/-- The parents of each kind that is listed. -/
def lineage (catalog : Catalog) : Lineage :=
  catalog.map fun entry => (entry.1, entry.2.parents)

/-- The symbols of all kinds from their texts; a kind that comes twice has its first
place and its last meaning. -/
def setsOf : CatalogLayout → Catalog → Except CatalogFault Catalog
  | [], built => pure built
  | (kind, layout) :: rest, built => do
      let own ← BindingSet.ofLayout layout
      setsOf rest (Entries.put (· == ·) kind own built)

/-- Accept a catalog if every parent is listed and no kind inherits from itself. -/
def validate (catalog : Catalog) : Except CatalogFault Unit :=
  match catalog.lineage.unregistered? with
  | some (kind, parent) => throw (.unregistered kind parent)
  | none =>
      match catalog.lineage.cycle? with
      | some path => throw (.cycle path)
      | none => pure ()

/-- Build a catalog from its layout. -/
def build? (layout : CatalogLayout) : Except CatalogFault Catalog := do
  let catalog ← setsOf layout []
  catalog.validate
  pure catalog

/-! ## Effective symbols -/

/-- The symbols of one table with those of another, which win. -/
def overlay (table : BindingTable) (winning : BindingTable) : BindingTable :=
  Entries.putAll (· == ·) winning table

/-- The symbols of a kind, inherited ones included, going back so many
generations. -/
def flattenWithin (catalog : Catalog) : (generations : Nat) → EventKind → BindingTable
  | 0, _ => []
  | generations + 1, kind =>
      match catalog.find? kind with
      | none => []
      | some own =>
          let inherited := own.parents.foldl
            (fun merged parent =>
              overlay merged (flattenWithin catalog generations parent))
            []
          overlay inherited own.bindings

/-- The symbols that expressions for a kind of event may use.  No line of
inheritance has more kinds than there are. -/
def resolve (catalog : Catalog) (kind : EventKind) : BindingTable :=
  flattenWithin catalog EventKind.all.length kind

end Catalog

end CueScript
