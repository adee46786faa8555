/-
Names of classes, which may be given with or without their package.
-/
namespace PersistenceMapping

/-- A class name with the package in front, unless it is qualified already or there is no
package. -/
def qualifyClass (name : String) (package : Option String) : String :=
  match package with
  | some package =>
    if package.isEmpty || name.toList.contains '.' then name else package ++ "." ++ name
  | none => name

end PersistenceMapping
