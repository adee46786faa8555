/-
A pool in one buffer.

The two ways to keep interned strings, as texts of their own (`Pool`) and one behind the other in
one text (`PackedPool`), agree as long as all strings together have fewer than 2 ^ 32 bytes.  The
buffer is then the strings joined in the order of their numbers, so a string stands behind those
that were there before it (`PackedPool.Packs`); cutting it out again gives the string itself,
however many bytes its characters have, because it is cut where strings meet.

What is filed under a hash is searched for the string itself, so nothing is asked of the hash
function.
-/
import Mathlib.Algebra.BigOperators.Group.Finset.Basic
import Mathlib.Algebra.GroupWithZero.Nat
import Mathlib.Algebra.Order.BigOperators.Group.Finset
import PersistenceMapping.Tree.Packed
import PersistenceMapping.Proofs.Tree.Interned

namespace PersistenceMapping

/-! ### Cutting a text -/

/-- What stands between two texts is cut out as it is. -/
theorem slice?_append (front s back : String) :
    slice? (front ++ s ++ back) front.utf8ByteSize (front.utf8ByteSize + s.utf8ByteSize) =
      some s := by
  have hstart : String.Pos.Raw.IsValid (front ++ s ++ back) ⟨front.utf8ByteSize⟩ :=
    String.Pos.Raw.isValid_iff_exists_append.mpr
      ⟨front, s ++ back, String.append_assoc .., rfl⟩
  have hstop : String.Pos.Raw.IsValid (front ++ s ++ back)
      ⟨front.utf8ByteSize + s.utf8ByteSize⟩ :=
    String.Pos.Raw.isValid_iff_exists_append.mpr
      ⟨front ++ s, back, rfl, by rw [String.Pos.Raw.ext_iff]; simp⟩
  have hcut := ByteArray.extract_append_size_add (a := front.toByteArray)
    (b := s.toByteArray ++ back.toByteArray) (i := 0) (j := s.utf8ByteSize)
  unfold slice?
  rw [dif_pos ⟨Nat.le_add_right .., hstart, hstop⟩]
  congr 1
  rw [← String.toByteArray_inj, String.toByteArray_extract]
  simp only [String.toByteArray_append, ByteArray.append_assoc]
  exact hcut.trans (ByteArray.extract_append_eq_left rfl)

theorem utf8ByteSize_join (l : List String) :
    (String.join l).utf8ByteSize = (l.map (·.utf8ByteSize)).sum := by
  induction l with
  | nil => rfl
  | cons s rest ih => rw [String.join_cons, String.utf8ByteSize_append, ih]; rfl

namespace Pool

variable {pool : Pool} {s : String} {i : StringId}

/-! ### The strings of a pool -/

/-- The strings that a pool holds. -/
def texts (pool : Pool) : Finset String :=
  pool.entries.toList.toFinset

theorem mem_texts : s ∈ pool.texts ↔ ∃ i, pool.get? i = some s := by
  simp only [texts, List.mem_toFinset, List.mem_iff_getElem?, Array.getElem?_toList, get?]

theorem texts_empty (hashOf : String → UInt64) : (empty hashOf).texts = {""} :=
  rfl

theorem Valid.nodup (h : pool.Valid) : pool.entries.toList.Nodup := by
  rw [List.nodup_iff_getElem?_ne_getElem?]
  intro i j hij hj heq
  simp only [Array.getElem?_toList] at heq
  rw [Array.length_toList] at hj
  obtain ⟨s, hs⟩ := get?_isSome_iff.mpr hj
  exact Nat.ne_of_lt hij (h.injective i j s (heq.trans hs) hs)

theorem Valid.empty_mem_texts (h : pool.Valid) : "" ∈ pool.texts :=
  mem_texts.mpr ⟨0, h.zero⟩

theorem bytesUsed_eq_sum (pool : Pool) :
    pool.bytesUsed = (pool.entries.toList.map (·.utf8ByteSize)).sum := by
  rw [bytesUsed, ← Array.foldl_toList, ← Nat.zero_add (List.sum _)]
  generalize 0 = n
  induction pool.entries.toList generalizing n with
  | nil => rfl
  | cons s rest ih => rw [List.foldl_cons, ih, List.map_cons, List.sum_cons, Nat.add_assoc]

theorem Valid.size_eq (h : pool.Valid) : pool.size = (pool.texts.erase "").card + 1 := by
  rw [Finset.card_erase_add_one h.empty_mem_texts, texts, List.toFinset_card_of_nodup h.nodup,
    Array.length_toList, size]

theorem Valid.bytesUsed_eq (h : pool.Valid) :
    pool.bytesUsed = ∑ s ∈ pool.texts.erase "", s.utf8ByteSize := by
  have hempty : ("" : String).utf8ByteSize = 0 := rfl
  rw [Finset.sum_erase _ hempty, texts, List.sum_toFinset _ h.nodup, bytesUsed_eq_sum]

/-- A pool holds at most one string more than it has bytes. -/
theorem Valid.size_le (h : pool.Valid) : pool.size ≤ pool.bytesUsed + 1 := by
  rw [h.size_eq, h.bytesUsed_eq, Finset.card_eq_sum_ones]
  refine Nat.succ_le_succ (Finset.sum_le_sum fun s hs => Nat.pos_of_ne_zero fun hzero => ?_)
  exact (Finset.mem_erase.mp hs).1 (String.utf8ByteSize_eq_zero_iff.mp hzero)

theorem Valid.lt_of_get? (h : pool.Valid) (hbytes : pool.bytesUsed < 2 ^ 32)
    (hi : pool.get? i = some s) : i < 2 ^ 32 :=
  Nat.lt_of_lt_of_le (get?_isSome_iff.mp ⟨s, hi⟩) (h.size_le.trans hbytes)

/-! ### Interning one string after the other -/

theorem texts_intern (h : pool.Valid) (s : String) :
    (pool.intern s).2.texts = insert s pool.texts := by
  unfold intern
  cases hf : pool.find? s with
  | some i => exact (Finset.insert_eq_self.mpr (mem_texts.mpr ⟨i, get?_of_find? h hf⟩)).symm
  | none =>
    ext t
    simp only [texts, push, Array.toList_push, List.mem_toFinset, List.mem_append,
      List.mem_singleton, Finset.mem_insert]
    exact or_comm

theorem valid_internAll (h : pool.Valid) (calls : List String) :
    (pool.internAll calls).2.Valid := by
  induction calls generalizing pool with
  | nil => exact h
  | cons s rest ih => exact ih (valid_intern h s)

theorem extends_internAll (pool : Pool) (calls : List String) :
    pool.Extends (pool.internAll calls).2 := by
  induction calls generalizing pool with
  | nil => exact .refl pool
  | cons s rest ih => exact (extends_intern pool s).trans (ih _)

theorem texts_internAll (h : pool.Valid) (calls : List String) :
    (pool.internAll calls).2.texts = calls.toFinset ∪ pool.texts := by
  induction calls generalizing pool with
  | nil => exact (Finset.empty_union _).symm
  | cons s rest ih =>
    show ((pool.intern s).2.internAll rest).2.texts = _
    rw [ih (valid_intern h s), texts_intern h, List.toFinset_cons, Finset.insert_union,
      Finset.union_insert]

/-- Every number that interning gives keeps the string that it was given for. -/
theorem get?_internAll (h : pool.Valid) (calls : List String) :
    List.Forall₂ (fun s id => (pool.internAll calls).2.get? id = some s) calls
      (pool.internAll calls).1 := by
  induction calls generalizing pool with
  | nil => exact .nil
  | cons s rest ih =>
    exact .cons (extends_internAll _ rest _ s (get?_intern h s)) (ih (valid_intern h s))

theorem texts_internAll_empty (hashOf : String → UInt64) (calls : List String) :
    ((empty hashOf).internAll calls).2.texts.erase "" = calls.toFinset.erase "" := by
  rw [texts_internAll (valid_empty hashOf), texts_empty, Finset.union_comm, ← Finset.insert_eq,
    Finset.erase_insert_eq_erase]

theorem internAll_append (pool : Pool) (calls more : List String) :
    (pool.internAll (calls ++ more)).2 = ((pool.internAll calls).2.internAll more).2 := by
  induction calls generalizing pool with
  | nil => rfl
  | cons s rest ih => exact ih _

theorem bytesUsed_le_internAll (h : pool.Valid) (calls : List String) :
    pool.bytesUsed ≤ (pool.internAll calls).2.bytesUsed := by
  rw [h.bytesUsed_eq, (valid_internAll h calls).bytesUsed_eq, texts_internAll h]
  exact Finset.sum_le_sum_of_subset (Finset.erase_subset_erase _ Finset.subset_union_right)

end Pool

namespace PackedPool

/-! ### A pool and its buffer -/

/-- What a buffer says of the strings that a pool keeps. -/
structure Packs (packed : PackedPool) (pool : Pool) : Prop where
  hashOf : packed.hashOf = pool.hashOf
  size : packed.size = pool.size
  /-- The buffer is the strings one behind the other. -/
  buffer : packed.buffer = String.join pool.entries.toList
  /-- A string begins where those before it end. -/
  places : ∀ i s, pool.get? i = some s → packed.places[i]? =
    some ⟨(String.join (pool.entries.toList.take i)).utf8ByteSize.toUInt32,
      s.utf8ByteSize.toUInt32⟩
  /-- A search under the hash of a string meets its number. -/
  filed : ∀ i s, pool.get? i = some s → s ≠ "" →
    i.toUInt32 ∈ packed.filed.getD (packed.hashOf s) []

variable {packed : PackedPool} {pool : Pool} {s : String}

theorem packs_empty (hashOf : String → UInt64) : (empty hashOf).Packs (.empty hashOf) where
  hashOf := rfl
  size := rfl
  buffer := rfl
  places i s hi := by
    obtain rfl := Pool.eq_zero_of_get?_empty hi
    obtain rfl : "" = s := Option.some.inj hi
    rfl
  filed i s hi hs := by
    obtain rfl := Pool.eq_zero_of_get?_empty hi
    exact absurd (Option.some.inj hi).symm hs

theorem Packs.bytesUsed_eq (h : packed.Packs pool) : packed.bytesUsed = pool.bytesUsed := by
  rw [bytesUsed, h.buffer, utf8ByteSize_join, Pool.bytesUsed_eq_sum]

/-- A number leads to its string while places fit in 32 bits. -/
theorem Packs.get?_eq (h : packed.Packs pool) (hbytes : pool.bytesUsed < 2 ^ 32) (id : UInt32) :
    packed.get? id = pool.get? id.toNat := by
  unfold get?
  cases hi : pool.get? id.toNat with
  | none =>
    have hout : packed.size ≤ id.toNat := h.size ▸ Array.getElem?_eq_none_iff.mp hi
    rw [Array.getElem?_eq_none hout, Option.bind_none]
  | some s =>
    have hentry : pool.entries.toList[id.toNat]? = some s := by rw [Array.getElem?_toList]; exact hi
    obtain ⟨hlt, hs⟩ := List.getElem?_eq_some_iff.mp hentry
    have hjoin : packed.buffer = String.join (pool.entries.toList.take id.toNat) ++ s ++
        String.join (pool.entries.toList.drop (id.toNat + 1)) := by
      rw [h.buffer, String.append_assoc, ← String.join_cons, ← String.join_append, ← hs,
        List.getElem_cons_drop, List.take_append_drop]
    have hsize := congrArg String.utf8ByteSize hjoin
    rw [String.utf8ByteSize_append, String.utf8ByteSize_append] at hsize
    change packed.bytesUsed = _ at hsize
    rw [h.bytesUsed_eq] at hsize
    rw [h.places _ s hi, Option.bind_some, Nat.toUInt32_eq, Nat.toUInt32_eq,
      UInt32.toNat_ofNat_of_lt' (by simp only [UInt32.size]; omega),
      UInt32.toNat_ofNat_of_lt' (by simp only [UInt32.size]; omega), hjoin]
    exact slice?_append _ s _

theorem Packs.find?_eq (h : packed.Packs pool) (hv : pool.Valid)
    (hbytes : pool.bytesUsed < 2 ^ 32) (s : String) :
    (packed.find? s).map (·.toNat) = pool.find? s := by
  unfold find?
  split
  case isTrue hs =>
    unfold Pool.find?
    rw [if_pos hs]
    rfl
  case isFalse hs =>
    cases hf : pool.find? s with
    | none =>
      refine Option.map_eq_none_iff.mpr (List.find?_eq_none.mpr fun id _ hid => ?_)
      rw [h.get?_eq hbytes, beq_iff_eq] at hid
      exact Pool.get?_ne_of_find?_eq_none hv hf _ hid
    | some i =>
      have hi := Pool.get?_of_find? hv hf
      have hnat : i.toUInt32.toNat = i := UInt32.toNat_ofNat_of_lt' (hv.lt_of_get? hbytes hi)
      have hself : (packed.get? i.toUInt32 == some s) = true := by
        rw [h.get?_eq hbytes, hnat, hi, beq_iff_eq]
      -- the search ends at some number of `s`, and `s` has one only
      obtain ⟨id, hid⟩ := Option.isSome_iff_exists.mp <|
        List.find?_isSome (p := fun id => packed.get? id == some s).mpr
          ⟨i.toUInt32, h.filed i s hi fun hc => hs (String.isEmpty_iff.mpr hc), hself⟩
      have hfound := List.find?_some hid
      rw [h.get?_eq hbytes, beq_iff_eq] at hfound
      rw [hid, Option.map_some, hv.injective _ i s hfound hi]

theorem Packs.push (h : packed.Packs pool) (s : String) : (packed.push s).Packs (pool.push s) where
  hashOf := h.hashOf
  size := by
    show (packed.places.push _).size = (pool.entries.push s).size
    rw [Array.size_push, Array.size_push]
    exact congrArg (· + 1) h.size
  buffer := by
    show packed.buffer ++ s = String.join (pool.entries.push s).toList
    rw [h.buffer, Array.toList_push, String.join_append, String.join_cons, String.join_nil,
      String.append_empty]
  places i t hi := by
    show (packed.places.push _)[i]? = _
    rw [Array.getElem?_push]
    rw [Pool.get?_push] at hi
    have hsize : packed.places.size = pool.size := h.size
    rw [hsize]
    change _ = some
      (Extent.mk (String.join ((pool.entries.push s).toList.take i)).utf8ByteSize.toUInt32 _)
    rw [Array.toList_push]
    split at hi
    case isTrue heq =>
      obtain rfl := Option.some.inj hi
      have hlength : pool.entries.toList.length = pool.size := Array.length_toList
      rw [if_pos heq, heq, h.buffer, ← hlength, List.take_left]
    case isFalse hne =>
      have hlt := Pool.get?_isSome_iff.mp ⟨t, hi⟩
      rw [if_neg hne, h.places i t hi, List.take_append_of_le_length (Nat.le_of_lt hlt)]
  filed i t hi ht := by
    show i.toUInt32 ∈ (packed.filed.insert _ _).getD (packed.hashOf t) []
    rw [Std.HashMap.getD_insert]
    rw [Pool.get?_push] at hi
    split at hi
    case isTrue heq =>
      obtain rfl := Option.some.inj hi
      rw [if_pos (beq_self_eq_true _), heq, ← h.size]
      exact List.mem_append_right _ (List.mem_singleton.mpr rfl)
    case isFalse hne =>
      have hmem := h.filed i t hi ht
      split
      case isTrue heq =>
        rw [← beq_iff_eq.mp heq] at hmem
        exact List.mem_append_left _ hmem
      case isFalse => exact hmem

/-- One string interned in both. -/
theorem Packs.intern (h : packed.Packs pool) (hv : pool.Valid)
    (hbytes : (pool.intern s).2.bytesUsed < 2 ^ 32) :
    (packed.intern s).1.toNat = (pool.intern s).1 ∧
      (packed.intern s).2.Packs (pool.intern s).2 := by
  have hnow : pool.bytesUsed < 2 ^ 32 :=
    Nat.lt_of_le_of_lt (Pool.bytesUsed_le_internAll hv [s]) hbytes
  have hnew := (Pool.valid_intern hv s).lt_of_get? hbytes (Pool.get?_intern hv s)
  have hfind := h.find?_eq hv hnow s
  unfold PackedPool.intern
  unfold Pool.intern at hnew ⊢
  rw [← hfind] at hnew ⊢
  cases hf : packed.find? s with
  | some id => exact ⟨rfl, h⟩
  | none =>
    rw [hf] at hnew
    have hsize : packed.places.size = pool.entries.size := h.size
    exact ⟨(UInt32.toNat_ofNat_of_lt' (hsize.trans_lt hnew)).trans hsize, h.push s⟩

/-- Strings interned one after the other in both. -/
theorem Packs.internAll (h : packed.Packs pool) (hv : pool.Valid) {calls : List String}
    (hbytes : (pool.internAll calls).2.bytesUsed < 2 ^ 32) :
    (packed.internAll calls).1.map (·.toNat) = (pool.internAll calls).1 ∧
      (packed.internAll calls).2.Packs (pool.internAll calls).2 := by
  induction calls generalizing packed pool with
  | nil => exact ⟨rfl, h⟩
  | cons s rest ih =>
    have hv' := Pool.valid_intern hv s
    obtain ⟨hid, hpacks⟩ := h.intern hv
      (Nat.lt_of_le_of_lt (Pool.bytesUsed_le_internAll hv' rest) hbytes)
    obtain ⟨hids, hlast⟩ := ih hpacks hv' hbytes
    exact ⟨congrArg₂ List.cons hid hids, hlast⟩

/-! ### What interning promises -/

/-- What numbers say of the strings that they were given for. -/
structure Lossless (calls : List String) (ids : List UInt32) (packed : PackedPool) : Prop where
  /-- Every number leads back to its string. -/
  resolved : List.Forall₂ (fun s id => packed.get? id = some s) calls ids
  /-- Equal numbers are those of equal strings. -/
  injective : ∀ a ∈ calls.zip ids, ∀ b ∈ calls.zip ids, a.2 = b.2 ↔ a.1 = b.1
  /-- The empty string alone is number 0. -/
  zero : ∀ a ∈ calls.zip ids, a.2 = 0 ↔ a.1 = ""
  size : packed.size = (calls.toFinset.erase "").card + 1
  bytes : packed.bytesUsed = ∑ s ∈ calls.toFinset.erase "", s.utf8ByteSize
  /-- The numbers below the size are those that lead to a string. -/
  numbers : ∀ id, id.toNat < packed.size ↔ ∃ s, packed.get? id = some s

theorem Packs.lossless (h : packed.Packs pool) (hv : pool.Valid)
    (hbytes : pool.bytesUsed < 2 ^ 32) {calls : List String} {ids : List UInt32}
    (hget : List.Forall₂ (fun s id => pool.get? id.toNat = some s) calls ids)
    (htexts : pool.texts.erase "" = calls.toFinset.erase "") : Lossless calls ids packed := by
  have hzip : ∀ a ∈ calls.zip ids, pool.get? a.2.toNat = some a.1 :=
    fun a ha => (List.forall₂_iff_zip.mp hget).2 ha
  refine ⟨hget.imp fun s id hid => (h.get?_eq hbytes id).trans hid, fun a ha b hb => ?_,
    fun a ha => ?_, ?_, ?_, fun id => ?_⟩
  · constructor
    · intro heq
      exact Option.some.inj ((hzip a ha).symm.trans (heq ▸ hzip b hb))
    · intro heq
      exact UInt32.toNat_inj.mp (hv.injective _ _ _ (hzip a ha) (heq ▸ hzip b hb))
  · constructor
    · intro heq
      have hself := hzip a ha
      rw [heq] at hself
      exact Option.some.inj (hself.symm.trans hv.zero)
    · intro heq
      exact UInt32.toNat_inj.mp (hv.injective _ _ _ (hzip a ha) (heq ▸ hv.zero))
  · rw [h.size, hv.size_eq, htexts]
  · rw [h.bytesUsed_eq, hv.bytesUsed_eq, htexts]
  · rw [h.size, h.get?_eq hbytes]
    exact Pool.get?_isSome_iff.symm

/-- **Interning keeps strings apart and keeps them for ever**, whatever the hash function, and
also after further calls.  The two ways to keep the strings agree. -/
theorem internAll_lossless {hashOf : String → UInt64} {calls more : List String}
    {ids : List UInt32} {packed : PackedPool}
    (hrun : (empty hashOf).internAll calls = (ids, packed))
    (hbytes : ∑ s ∈ (calls ++ more).toFinset, s.utf8ByteSize < 2 ^ 32) :
    Lossless calls ids packed ∧
      List.Forall₂ (fun s id => (packed.internAll more).2.get? id = some s) calls ids ∧
      ids.map (·.toNat) = ((Pool.empty hashOf).internAll calls).1 ∧
      packed.size = ((Pool.empty hashOf).internAll calls).2.size ∧
      packed.bytesUsed = ((Pool.empty hashOf).internAll calls).2.bytesUsed ∧
      ∀ id, packed.get? id = ((Pool.empty hashOf).internAll calls).2.get? id.toNat := by
  have hempty := Pool.valid_empty hashOf
  have hv := Pool.valid_internAll hempty calls
  have hmore : (((Pool.empty hashOf).internAll calls).2.internAll more).2.bytesUsed < 2 ^ 32 := by
    rw [← Pool.internAll_append, (Pool.valid_internAll hempty _).bytesUsed_eq,
      Pool.texts_internAll_empty, Finset.sum_erase _ String.utf8ByteSize_empty]
    exact hbytes
  have hnow := Nat.lt_of_le_of_lt (Pool.bytesUsed_le_internAll hv more) hmore
  obtain ⟨hids, hpacks⟩ := (packs_empty hashOf).internAll hempty hnow
  rw [hrun] at hids hpacks
  have hlater := (hpacks.internAll hv hmore).2
  have hkept := Pool.get?_internAll hempty calls
  rw [← hids] at hkept
  have hget := List.forall₂_map_right_iff.mp hkept
  refine ⟨hpacks.lossless hv hnow hget (Pool.texts_internAll_empty hashOf calls),
    hget.imp fun s id hid => ?_, hids, hpacks.size, hpacks.bytesUsed_eq, hpacks.get?_eq hnow⟩
  rw [hlater.get?_eq hmore]
  exact Pool.extends_internAll _ more _ s hid

/-- Strings of several bytes and of one hash, before and after further calls. -/
theorem internAll_lossless_colliding :
    let calls := ["ä", "", "b", "ä", "bä"]
    let packed := ((empty fun _ => 0).internAll calls).2
    Lossless calls [1, 0, 2, 1, 3] packed ∧ List.Forall₂
      (fun s id => (packed.internAll ["b", "c"]).2.get? id = some s) calls [1, 0, 2, 1, 3] := by
  intro calls packed
  have hrun : (empty fun _ => 0).internAll calls = ([1, 0, 2, 1, 3], packed) :=
    Prod.ext (by decide +kernel) rfl
  obtain ⟨hlossless, hlater, -⟩ := @internAll_lossless _ _ ["b", "c"] _ _ hrun (by decide)
  exact ⟨hlossless, hlater⟩

end PackedPool

end PersistenceMapping
