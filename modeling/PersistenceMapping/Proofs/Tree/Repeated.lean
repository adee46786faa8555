/-
Repeated attributes.

A start tag may repeat a name.  The builder puts the attributes into the element one after the
other, and an attribute that is there already gets the new value in its old place.  What comes of
it is said here without that order of events: the names in the order in which they come first,
each with the value that comes last (`Attributes.collapsed`).

The builder compares the numbers of interned names.  That this is as good as comparing names is
the only thing that has to do with interning (`stored_collapse`).
-/
import Mathlib.Data.List.Induction
import Mathlib.Data.List.Nodup
import PersistenceMapping.Proofs.Tree.Making

namespace PersistenceMapping

namespace Attributes

/-- Attributes of distinct names: every name where it comes first, with the value that comes
last. -/
def collapsed (attributes : List Attribute) : List Attribute :=
  (attributes.map (·.name)).eraseDups.map fun name =>
    ⟨name, (get? attributes.reverse name).getD ""⟩

/-! ### Putting attributes one after the other -/

theorem set_eq_append {name value : String} {l : List Attribute} (h : name ∉ l.map (·.name)) :
    set name value l = l ++ [⟨name, value⟩] := by
  induction l with
  | nil => rfl
  | cons a l ih =>
      rw [List.map_cons, List.mem_cons, not_or] at h
      rw [set, if_neg (by simpa using Ne.symm h.1), ih h.2, List.cons_append]

/-- A name that is there gets the new value, and the other names keep theirs. -/
theorem set_map {name value : String} {names : List String} (f : String → String)
    (hnodup : names.Nodup) (h : name ∈ names) :
    set name value (names.map fun n => ⟨n, f n⟩) =
      names.map fun n => ⟨n, if n = name then value else f n⟩ := by
  induction names with
  | nil => cases h
  | cons n names ih =>
      rw [List.map_cons, List.map_cons, set]
      rw [List.nodup_cons] at hnodup
      by_cases hn : n = name
      · subst hn
        rw [if_pos (by simp), if_pos rfl]
        congr 1
        refine List.map_congr_left fun m hm => ?_
        have hne : m ≠ n := fun heq => hnodup.1 (heq ▸ hm)
        rw [if_neg hne]
      · rw [if_neg (by simpa using hn), if_neg hn,
          ih hnodup.2 ((List.mem_cons.mp h).resolve_left (Ne.symm hn))]

theorem get?_cons (a : Attribute) (l : List Attribute) (name : String) :
    get? (a :: l) name = if name = a.name then some a.value else get? l name := by
  rw [get?, List.find?_cons]
  by_cases h : name = a.name
  · simp [h]
  · have hne : (a.name == name) = false := by simpa using Ne.symm h
    rw [hne, if_neg h, get?]

theorem get?_eq_none_iff {attributes : List Attribute} {name : String} :
    get? attributes name = none ↔ ∀ a ∈ attributes, a.name ≠ name := by
  simp [get?]

theorem eraseDups_concat (names : List String) (name : String) :
    (names ++ [name]).eraseDups =
      if name ∈ names then names.eraseDups else names.eraseDups ++ [name] := by
  rw [List.eraseDups_append]
  split <;> rename_i h <;> simp [List.removeAll, h, List.eraseDups_cons]

theorem nodup_eraseDups (names : List String) : names.eraseDups.Nodup := by
  induction names using List.reverseRecOn with
  | nil => exact List.nodup_nil
  | append_singleton names name ih =>
      rw [eraseDups_concat]
      split <;> rename_i h
      · exact ih
      · refine List.nodup_append.mpr ⟨ih, List.nodup_singleton name, ?_⟩
        rintro a ha b hb rfl
        exact h (List.mem_eraseDups.mp (List.mem_singleton.mp hb ▸ ha))

/-- One more attribute at the end: it is put into what the others come to. -/
theorem collapsed_concat (l : List Attribute) (a : Attribute) :
    collapsed (l ++ [a]) = set a.name a.value (collapsed l) := by
  have hvalue : ∀ name, (get? (l ++ [a]).reverse name).getD "" =
      if name = a.name then a.value else (get? l.reverse name).getD "" := by
    intro name
    rw [List.reverse_append, List.reverse_singleton, List.singleton_append, get?_cons]
    split <;> rfl
  rw [collapsed, collapsed, List.map_append, List.map_singleton, eraseDups_concat]
  simp only [hvalue]
  split <;> rename_i h
  · exact (set_map _ (nodup_eraseDups _) (List.mem_eraseDups.mpr h)).symm
  · have hnames : ∀ name ∈ (l.map (·.name)).eraseDups, name ≠ a.name := by
      rintro name hname rfl
      exact h (List.mem_eraseDups.mp hname)
    have hnot : a.name ∉ ((l.map (·.name)).eraseDups.map fun name =>
        (⟨name, (get? l.reverse name).getD ""⟩ : Attribute)).map (·.name) := by
      rw [List.map_map]
      intro hmem
      obtain ⟨name, hname, heq⟩ := List.mem_map.mp hmem
      exact hnames name hname heq
    rw [set_eq_append hnot, List.map_append, List.map_singleton, if_pos rfl]
    congr 1
    refine List.map_congr_left fun name hname => ?_
    rw [if_neg (hnames name hname)]

theorem collapsed_eq_foldl (attributes : List Attribute) :
    collapsed attributes = attributes.foldl (fun kept a => set a.name a.value kept) [] := by
  induction attributes using List.reverseRecOn with
  | nil => rfl
  | append_singleton l a ih => rw [collapsed_concat, ih, List.foldl_concat]

end Attributes

namespace Document

/-! ### The same with interned names -/

variable {pool : Pool}

/-- Names have the same number just if they are the same. -/
theorem stored_putStored (hpool : pool.Valid) {name value : StringId} {a : Attribute}
    (ha : Stored pool ⟨name, value⟩ a) {stored : List StoredAttribute}
    {attributes : List Attribute} (h : List.Forall₂ (Stored pool) stored attributes) :
    List.Forall₂ (Stored pool) (putStored name value stored)
      (Attributes.set a.name a.value attributes) := by
  induction h with
  | nil => exact .cons ha .nil
  | @cons first firstRead stored attributes hfirst hrest ih =>
      rw [putStored, Attributes.set]
      by_cases hname : first.name = name
      · have hsame : firstRead.name = a.name := by
          have := hfirst.1
          rw [hname, ha.1] at this
          exact (Option.some.inj this).symm
        rw [if_pos hname, if_pos (by simpa using hsame), hsame]
        exact .cons ha hrest
      · have hother : firstRead.name ≠ a.name := by
          intro heq
          exact hname (hpool.injective _ _ _ hfirst.1 (heq ▸ ha.1))
        rw [if_neg hname, if_neg (by simpa using hother)]
        exact .cons hfirst ih

/-- What is collapsed by number stands for what is collapsed by name. -/
theorem stored_collapse (hpool : pool.Valid) {stored : List StoredAttribute}
    {attributes : List Attribute} (h : List.Forall₂ (Stored pool) stored attributes) :
    List.Forall₂ (Stored pool) (collapse stored) (Attributes.collapsed attributes) := by
  have hfold : ∀ kept keptRead, List.Forall₂ (Stored pool) kept keptRead →
      List.Forall₂ (Stored pool)
        (stored.foldl (fun kept a => putStored a.name a.value kept) kept)
        (attributes.foldl (fun kept a => Attributes.set a.name a.value kept) keptRead) := by
    induction h with
    | nil => exact fun _ _ hkept => hkept
    | cons ha _ ih => exact fun _ _ hkept => ih _ _ (stored_putStored hpool ha hkept)
  rw [Attributes.collapsed_eq_foldl]
  exact hfold [] [] .nil

end Document

end PersistenceMapping
