/-
Mappings of generated documents.

A generated document is written, with one space a level, and bound like any other, so that it
is checked like any other.  Only hierarchical documents are taken.
-/
import PersistenceMapping.Binder
import PersistenceMapping.Tree.Render

namespace PersistenceMapping

/-- A binder and the mappings of the generated documents that it has bound. -/
structure GeneratedMappings where
  binder : Binder
  /-- The mappings in the order of their documents. -/
  mappings : List Mapping := []

namespace GeneratedMappings

/-- Where generated documents come from. -/
def origin : Origin :=
  { type := .other, name := "generated" }

/-- Binds a generated document and keeps its mapping. -/
def produce (g : GeneratedMappings) (d : Document) :
    Except MappingError Mapping × GeneratedMappings :=
  let (result, binder) := g.binder.bind origin (.ofBytes (d.bytes 1) none)
  match result with
  | .error e => (.error e, { g with binder })
  | .ok binding =>
    match binding.root with
    | .hierarchical m => (.ok m, { binder, mappings := g.mappings ++ [m] })
    | .entity _ => (.error (.transform origin .notHierarchical), { g with binder })

end GeneratedMappings

end PersistenceMapping
