/-
Columns.

An element says where its value is stored either with one attribute, which names a single
column, or with children, which describe as many as there are.
-/
import PersistenceMapping.Mapping.Element

namespace PersistenceMapping

namespace Mapping

/-- A column of a table. -/
structure Column where
  name : String
  length : Option UInt32 := none
  precision : Option UInt32 := none
  scale : Option UInt32 := none
  notNull : Option Bool := none
  unique : Option Bool := none
  sqlType : Option String := none
  default : Option String := none
  deriving DecidableEq, Repr

/-- The column that an element describes. -/
def Column.ofElement (e : BoundElement) : Column :=
  { name := e.mandatory "name"
    length := e.number? "length"
    precision := e.number? "precision"
    scale := e.number? "scale"
    notNull := e.flag? "not-null"
    unique := e.flag? "unique"
    sqlType := e.attribute? "sql-type"
    default := e.attribute? "default" }

/-- The columns of an element: the one its attribute names, or else those of its children. -/
def columnsOf (e : BoundElement) : List Column :=
  match e.attribute? "column" with
  | some name =>
    [{ name
       length := e.number? "length"
       precision := e.number? "precision"
       scale := e.number? "scale" }]
  | none => (e.childrenNamed "column").map Column.ofElement

end Mapping

end PersistenceMapping
