/-
Finding the classes of attribute converters.

A class loader is a function of the name of a class.  What it loads is known by what making an
instance of it gives.
-/
import PersistenceMapping.Error

namespace PersistenceMapping

/-- Why a class is not loaded. -/
inductive LoadFailure where
  | notFound (name : String)
  | other (reason : String)
  deriving DecidableEq, Repr

/-- The text of a failure. -/
def LoadFailure.message : LoadFailure → String
  | notFound name => "class " ++ name ++ " not found"
  | other reason => reason

/-- What making an instance of a class gives: the instance, or why there is none. -/
abbrev Instantiation (α : Type) := Except String α

/-- A way to load classes whose instances are of type `α`. -/
abbrev ClassLoader (α : Type) := String → Except LoadFailure (Instantiation α)

/-! ### Classes by their names -/

/-- Classes by their names, each name once. -/
structure ClassRegistry (α : Type) where
  classes : List (String × Instantiation α) := []

namespace ClassRegistry

variable {α : Type}

/-- Adds a class, in place of the one that had the name. -/
def register (r : ClassRegistry α) (name : String) (made : Instantiation α) : ClassRegistry α :=
  { classes := (name, made) :: r.classes.filter (·.1 != name) }

/-- The number of classes. -/
def size (r : ClassRegistry α) : Nat :=
  r.classes.length

/-- Whether there is no class. -/
def isEmpty (r : ClassRegistry α) : Bool :=
  r.classes.isEmpty

/-- The loader that knows just these classes. -/
def loader (r : ClassRegistry α) : ClassLoader α := fun name =>
  match r.classes.lookup name with
  | some made => .ok made
  | none => .error (.notFound name)

/-- A class is loaded by the name that it was given last. -/
theorem loader_register (r : ClassRegistry α) (name : String) (made : Instantiation α) :
    (r.register name made).loader name = .ok made := by
  simp [loader, register]

/-- Adding a class does not affect the others. -/
theorem loader_register_of_ne (r : ClassRegistry α) {name other : String} (h : other ≠ name)
    (made : Instantiation α) : (r.register name made).loader other = r.loader other := by
  have hl : ∀ l : List (String × Instantiation α),
      (l.filter (·.1 != name)).lookup other = l.lookup other := by
    intro l
    induction l with
    | nil => rfl
    | cons x l ih =>
      by_cases hx : x.1 = name
      · rw [List.filter_cons_of_neg (by simpa using hx), ih, List.lookup_cons]
        have : (other == x.1) = false := by rw [hx]; simpa using h
        rw [this]
      · rw [List.filter_cons_of_pos (by simpa using hx), List.lookup_cons, List.lookup_cons, ih]
  simp only [loader, register, List.lookup_cons, hl]
  have : (other == name) = false := by simpa using h
  rw [this]

end ClassRegistry

/-! ### Converters -/

/-- An attribute converter. -/
structure Converter (α : Type) where
  className : String
  /-- Whether it applies to every attribute of its type. -/
  autoApply : Bool
  value : α
  deriving DecidableEq

/-- Loads the class of a converter and makes an instance of it. -/
def ClassLoader.resolve {α : Type} (loader : ClassLoader α) (className : String)
    (autoApply : Bool) : Except MappingError (Converter α) :=
  match loader className with
  | .error failure => .error (.converter .locate className failure.message)
  | .ok (.error reason) => .error (.converter .instantiate className reason)
  | .ok (.ok value) => .ok { className, autoApply, value }

end PersistenceMapping
