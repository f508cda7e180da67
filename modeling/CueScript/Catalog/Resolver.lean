import CueScript.Catalog.Standard

/-!
# Resolvers

A resolver answers which symbols expressions for a kind of event may use.  It makes the table
of a kind when it is first asked for it and keeps it.
-/

namespace CueScript

/-- A catalog with the tables that have been made from it so far. -/
structure Resolver where
  catalog : Catalog
  kept : Entries EventKind BindingTable

namespace Resolver

/-- A resolver that has not been asked for anything. -/
def ofCatalog (catalog : Catalog) : Resolver := ⟨catalog, []⟩

/-- The resolver of the catalog that comes with the language. -/
def standard : Resolver := ofCatalog Catalog.standard

/-- The symbols that expressions for a kind may use, and the resolver that keeps them. -/
def resolve (resolver : Resolver) (kind : EventKind) : BindingTable × Resolver :=
  match Entries.find? (· == ·) kind resolver.kept with
  | some table => (table, resolver)
  | none =>
      let table := resolver.catalog.resolve kind
      (table, { resolver with kept := Entries.put (· == ·) kind table resolver.kept })

/-- The answers for several kinds, asked for one after the other. -/
def answers (resolver : Resolver) : List EventKind → List BindingTable
  | [] => []
  | kind :: rest =>
      let (table, next) := resolver.resolve kind
      table :: next.answers rest

end Resolver

end CueScript
