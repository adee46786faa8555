/-
Values as trees of named parts.

An outline is what is shown of a value to somebody who does not know its type: texts, truth
values, numbers, lists and parts with names.  What is not set, and a list of nothing, is no
part of an outline.
-/
namespace PersistenceMapping

/-- A value as a tree of named parts. -/
inductive Outline where
  | text (content : String)
  | flag (value : Bool)
  | number (value : Nat)
  | list (items : List Outline)
  | record (parts : List (String × Outline))

/-- The types whose values have an outline. -/
class Outlined (α : Type) where
  outline : α → Outline

/-- The types whose values are part of an outline, or are left out of it. -/
class OutlinePart (α : Type) where
  part? : α → Option Outline

namespace Outline

instance : Outlined String where
  outline s := .text s

instance : Outlined Bool where
  outline b := .flag b

instance : Outlined UInt32 where
  outline n := .number n.toNat

instance {α : Type} [Outlined α] : OutlinePart α where
  part? a := some (Outlined.outline a)

instance {α : Type} [Outlined α] : OutlinePart (Option α) where
  part? a := a.map Outlined.outline

/-- A list, left out if there is nothing in it. -/
def ofList? : List Outline → Option Outline
  | [] => none
  | items => some (.list items)

instance {α : Type} [Outlined α] : OutlinePart (List α) where
  part? items := ofList? (items.map Outlined.outline)

/-- Parts of an outline, those included that are left out. -/
abbrev Parts := List (String × Option Outline)

/-- A part with its name. -/
def part {α : Type} [OutlinePart α] (name : String) (a : α) : String × Option Outline :=
  (name, OutlinePart.part? a)

/-- The outline of the parts that are not left out. -/
def ofParts (parts : Parts) : Outline :=
  .record (parts.filterMap fun (name, part?) => part?.map (name, ·))

end Outline

end PersistenceMapping
