/-
What interning keeps.

A pool that starts empty gives equal numbers to equal strings and different numbers to
different strings, whatever its hash function.  The invariant says why the search under one
hash is enough: every string but the empty one is filed under its hash.

A number keeps its string for ever (`Pool.Extends`), so what a document holds as numbers means
the same after any number of strings have been interned.
-/
import Mathlib.Order.Basic
import PersistenceMapping.Tree.Pool

namespace PersistenceMapping

namespace Pool

/-- What holds of every pool that only `intern` has changed. -/
structure Valid (pool : Pool) : Prop where
  /-- The empty string is number 0. -/
  zero : pool.get? 0 = some ""
  /-- No string has two numbers. -/
  injective : ∀ i j s, pool.get? i = some s → pool.get? j = some s → i = j
  /-- A search under the hash of a string meets its number. -/
  filed : ∀ i s, pool.get? i = some s → s ≠ "" → (pool.hashOf s, i) ∈ pool.filed

/-- Numbers keep their strings. -/
def Extends (pool pool' : Pool) : Prop :=
  ∀ i s, pool.get? i = some s → pool'.get? i = some s

variable {pool pool' pool'' : Pool} {s t : String} {i j : StringId}

theorem Extends.refl (pool : Pool) : pool.Extends pool :=
  fun _ _ h => h

theorem Extends.trans (h : pool.Extends pool') (h' : pool'.Extends pool'') :
    pool.Extends pool'' :=
  fun i s hs => h' i s (h i s hs)

theorem get?_isSome_iff : (∃ s, pool.get? i = some s) ↔ i < pool.size := by
  constructor
  · rintro ⟨s, hs⟩
    exact (Array.getElem?_eq_some_iff.mp hs).1
  · intro hi
    exact ⟨_, Array.getElem?_eq_getElem hi⟩

theorem getD_eq (h : pool.get? i = some s) : pool.getD i = s := by
  simp [getD, h]

theorem Extends.size_le (h : pool.Extends pool') : pool.size ≤ pool'.size := by
  by_contra hlt
  obtain ⟨s, hs⟩ := get?_isSome_iff.mpr (Nat.lt_of_not_le hlt)
  exact Nat.lt_irrefl _ (get?_isSome_iff.mp ⟨s, h _ s hs⟩)

/-- What a number below the size reads as does not change. -/
theorem Extends.getD_eq (h : pool.Extends pool') (hi : i < pool.size) :
    pool'.getD i = pool.getD i := by
  obtain ⟨s, hs⟩ := get?_isSome_iff.mpr hi
  rw [Pool.getD_eq hs, Pool.getD_eq (h i s hs)]

theorem eq_zero_of_get?_empty {hashOf : String → UInt64} (h : (Pool.empty hashOf).get? i = some s) :
    i = 0 :=
  Nat.lt_one_iff.mp (get?_isSome_iff.mp ⟨s, h⟩)

theorem valid_empty (hashOf : String → UInt64) : (Pool.empty hashOf).Valid where
  zero := rfl
  injective i j s hi hj := by rw [eq_zero_of_get?_empty hi, eq_zero_of_get?_empty hj]
  filed i s hi hs := by
    rw [eq_zero_of_get?_empty hi] at hi
    exact absurd (Option.some.inj hi).symm hs

/-! ### Looking a string up -/

theorem get?_of_find? (h : pool.Valid) (hf : pool.find? s = some i) : pool.get? i = some s := by
  unfold find? at hf
  split at hf
  · rename_i hs
    cases hf
    rw [String.isEmpty_iff.mp hs]
    exact h.zero
  · obtain ⟨entry, hentry, rfl⟩ := Option.map_eq_some_iff.mp hf
    have := List.find?_some hentry
    simp only [Bool.and_eq_true, beq_iff_eq] at this
    exact this.2

/-- A string that is not found has no number. -/
theorem get?_ne_of_find?_eq_none (h : pool.Valid) (hf : pool.find? s = none) (i : StringId) :
    pool.get? i ≠ some s := by
  intro hi
  unfold find? at hf
  split at hf
  · cases hf
  · rename_i hs
    have hmem := h.filed i s hi fun hc => hs (String.isEmpty_iff.mpr hc)
    have := List.find?_eq_none.mp (Option.map_eq_none_iff.mp hf) _ hmem
    simp [hi] at this

/-! ### Interning -/

theorem get?_push (pool : Pool) (s : String) (i : StringId) :
    (pool.push s).get? i = if i = pool.size then some s else pool.get? i := by
  simp only [get?, push, Array.getElem?_push]
  rfl

theorem extends_push (pool : Pool) (s : String) : pool.Extends (pool.push s) := by
  intro i t hi
  rw [get?_push, if_neg (Nat.ne_of_lt (get?_isSome_iff.mp ⟨t, hi⟩)), hi]

theorem valid_push (h : pool.Valid) (hs : ∀ i, pool.get? i ≠ some s) : (pool.push s).Valid where
  zero := extends_push pool s 0 "" h.zero
  injective i j t hi hj := by
    rw [get?_push] at hi hj
    by_cases hi' : i = pool.size <;> by_cases hj' : j = pool.size
    · rw [hi', hj']
    · rw [if_pos hi'] at hi
      rw [if_neg hj', ← Option.some.inj hi] at hj
      exact absurd hj (hs j)
    · rw [if_pos hj'] at hj
      rw [if_neg hi', ← Option.some.inj hj] at hi
      exact absurd hi (hs i)
    · rw [if_neg hi'] at hi
      rw [if_neg hj'] at hj
      exact h.injective i j t hi hj
  filed i t hi ht := by
    rw [get?_push] at hi
    by_cases hi' : i = pool.size
    · rw [if_pos hi'] at hi
      rw [hi', ← Option.some.inj hi]
      exact List.mem_cons_self
    · rw [if_neg hi'] at hi
      exact List.mem_cons_of_mem _ (h.filed i t hi ht)

theorem valid_intern (h : pool.Valid) (s : String) : (pool.intern s).2.Valid := by
  unfold intern
  split
  · exact h
  · rename_i hf
    exact valid_push h (get?_ne_of_find?_eq_none h hf)

theorem extends_intern (pool : Pool) (s : String) : pool.Extends (pool.intern s).2 := by
  unfold intern
  split
  · exact .refl pool
  · exact extends_push pool s

/-- The number that interning gives is that of the string. -/
theorem get?_intern (h : pool.Valid) (s : String) :
    (pool.intern s).2.get? (pool.intern s).1 = some s := by
  unfold intern
  split
  · rename_i hf
    exact get?_of_find? h hf
  · rw [get?_push]
    exact if_pos rfl

end Pool

end PersistenceMapping
