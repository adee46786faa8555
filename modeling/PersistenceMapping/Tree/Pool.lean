/-
Interned strings.

A pool gives every distinct string one number and keeps it for ever; the empty string is
number 0.  A string is looked up among the numbers filed under its hash and then compared
itself, so the choice of hash function decides how far the search goes and nothing else.
-/
namespace PersistenceMapping

/-- The number of an interned string. -/
abbrev StringId := Nat

/-- Distinct strings, numbered in the order in which they came. -/
structure Pool where
  hashOf : String → UInt64
  /-- The strings by number. -/
  entries : Array String
  /-- The numbers of all strings but the empty one, each under the hash of its string. -/
  filed : List (UInt64 × StringId)

namespace Pool

/-- A hash of the characters of a string. -/
def polynomialHash (s : String) : UInt64 :=
  s.toList.foldl (fun h c => h * 31 + c.val.toUInt64) 7

/-- A pool that holds the empty string alone. -/
def empty (hashOf : String → UInt64 := polynomialHash) : Pool :=
  { hashOf, entries := #[""], filed := [] }

/-- The string of a number. -/
def get? (pool : Pool) (id : StringId) : Option String :=
  pool.entries[id]?

/-- The string of a number, empty when there is none. -/
def getD (pool : Pool) (id : StringId) : String :=
  (pool.get? id).getD ""

/-- The number of a string that the pool holds. -/
def find? (pool : Pool) (s : String) : Option StringId :=
  if s.isEmpty then some 0
  else
    let hash := pool.hashOf s
    (pool.filed.find? fun (h, id) => h == hash && pool.get? id == some s).map (·.2)

/-- Adds a string under the next number. -/
def push (pool : Pool) (s : String) : Pool :=
  { pool with
    entries := pool.entries.push s
    filed := (pool.hashOf s, pool.entries.size) :: pool.filed }

/-- The number of a string, which is added if the pool does not hold it. -/
def intern (pool : Pool) (s : String) : StringId × Pool :=
  match pool.find? s with
  | some id => (id, pool)
  | none => (pool.entries.size, pool.push s)

/-- How many strings the pool holds, the empty one included. -/
def size (pool : Pool) : Nat :=
  pool.entries.size

/-- Whether the pool holds the empty string alone. -/
def isEmpty (pool : Pool) : Bool :=
  pool.size ≤ 1

/-- How many bytes the strings of the pool have. -/
def bytesUsed (pool : Pool) : Nat :=
  pool.entries.foldl (fun n s => n + s.utf8ByteSize) 0

end Pool

end PersistenceMapping
