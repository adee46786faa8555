/-
Interned strings in one buffer.

A pool may keep its strings one behind the other in one text.  The number of a string then leads to
its place in that text, which is where the string begins and how long it is, in bytes.  Places and
numbers have 32 bits, so what is said of this layout holds while the strings have fewer than 2 ^ 32
bytes together.

The numbers are filed under the hashes of their strings, all numbers of one hash in the order in
which they came.
-/
import Mathlib.Data.List.Basic
import PersistenceMapping.Tree.Pool

namespace PersistenceMapping

/-- The text between two places, which have to lie between characters. -/
def slice? (text : String) (start stop : Nat) : Option String :=
  if h : start ≤ stop ∧ String.Pos.Raw.IsValid text ⟨start⟩ ∧ String.Pos.Raw.IsValid text ⟨stop⟩ then
    some (text.extract (text.pos ⟨start⟩ h.2.1) (text.pos ⟨stop⟩ h.2.2))
  else none

/-- Where a string stands in the buffer. -/
structure Extent where
  offset : UInt32
  length : UInt32
  deriving DecidableEq, Repr

/-- Distinct strings, numbered in the order in which they came, in one buffer. -/
structure PackedPool where
  hashOf : String → UInt64
  /-- The places of the strings by number. -/
  places : Array Extent
  buffer : String
  /-- The numbers of all strings but the empty one, under the hashes of the strings. -/
  filed : Std.HashMap UInt64 (List UInt32)

namespace PackedPool

/-- A pool that holds the empty string alone. -/
def empty (hashOf : String → UInt64 := Pool.polynomialHash) : PackedPool :=
  { hashOf, places := #[⟨0, 0⟩], buffer := "", filed := ∅ }

/-- The string of a number. -/
def get? (pool : PackedPool) (id : UInt32) : Option String :=
  pool.places[id.toNat]?.bind fun place =>
    slice? pool.buffer place.offset.toNat (place.offset.toNat + place.length.toNat)

/-- The number of a string that the pool holds. -/
def find? (pool : PackedPool) (s : String) : Option UInt32 :=
  if s.isEmpty then some 0
  else (pool.filed.getD (pool.hashOf s) []).find? fun id => pool.get? id == some s

/-- Adds a string at the end of the buffer, under the next number. -/
def push (pool : PackedPool) (s : String) : PackedPool :=
  let hash := pool.hashOf s
  { pool with
    places := pool.places.push ⟨pool.buffer.utf8ByteSize.toUInt32, s.utf8ByteSize.toUInt32⟩
    buffer := pool.buffer ++ s
    filed := pool.filed.insert hash (pool.filed.getD hash [] ++ [pool.places.size.toUInt32]) }

/-- The number of a string, which is added if the pool does not hold it. -/
def intern (pool : PackedPool) (s : String) : UInt32 × PackedPool :=
  match pool.find? s with
  | some id => (id, pool)
  | none => (pool.places.size.toUInt32, pool.push s)

/-- How many strings the pool holds, the empty one included. -/
def size (pool : PackedPool) : Nat :=
  pool.places.size

/-- How many bytes the buffer has. -/
def bytesUsed (pool : PackedPool) : Nat :=
  pool.buffer.utf8ByteSize

/-- The numbers of strings that are interned one after the other, and the pool after it. -/
def internAll (pool : PackedPool) : List String → List UInt32 × PackedPool
  | [] => ([], pool)
  | s :: rest =>
    let (id, pool) := pool.intern s
    let (ids, pool) := pool.internAll rest
    (id :: ids, pool)

end PackedPool

/-- The numbers of strings that are interned one after the other, and the pool after it. -/
def Pool.internAll (pool : Pool) : List String → List StringId × Pool
  | [] => ([], pool)
  | s :: rest =>
    let (id, pool) := pool.intern s
    let (ids, pool) := pool.internAll rest
    (id :: ids, pool)

end PersistenceMapping
