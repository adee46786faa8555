/-
What holds of a table that has been compiled.

The checks go over the table once and carry along the names that they have seen.  Read off the
whole table, they say that it is consistent (`Consistent`): names are distinct, defaults are
values of their kinds, and what is referred to is declared.

In such a table there is at most one declaration of a name, so looking a name up is the same as
asking for a declaration of that name.
-/
import Mathlib.Data.List.Nodup
import PersistenceMapping.Schema.Compile

namespace PersistenceMapping

/-- Where keys are distinct, looking a key up finds whatever has it. -/
theorem find?_key_eq_some_iff {α β : Type} [BEq β] [LawfulBEq β] {key : α → β} {l : List α}
    (h : (l.map key).Nodup) {k : β} {x : α} :
    l.find? (fun y => key y == k) = some x ↔ x ∈ l ∧ key x = k := by
  constructor
  · intro hfind
    exact ⟨List.mem_of_find?_eq_some hfind, by simpa using List.find?_some hfind⟩
  · rintro ⟨hx, rfl⟩
    induction l with
    | nil => simp at hx
    | cons y l ih =>
        rw [List.map_cons, List.nodup_cons] at h
        rcases List.mem_cons.mp hx with rfl | hx
        · simp
        · have hne : key y ≠ key x := fun hc => h.1 (hc ▸ List.mem_map.mpr ⟨x, hx, rfl⟩)
          rw [List.find?_cons_of_neg (by simpa using hne)]
          exact ih h.2 hx

/-- Where keys are distinct, what is found among chosen entries is what is found at all, if it is
chosen. -/
theorem find?_key_filter {α β : Type} [BEq β] [LawfulBEq β] {key : α → β} {l : List α}
    (h : (l.map key).Nodup) (chosen : α → Bool) (k : β) :
    (l.filter chosen).find? (fun y => key y == k) =
      (l.find? fun y => key y == k).filter chosen := by
  have hchosen : ((l.filter chosen).map key).Nodup := h.sublist (List.filter_sublist.map _)
  ext x
  rw [find?_key_eq_some_iff hchosen, Option.filter_eq_some_iff, find?_key_eq_some_iff h,
    List.mem_filter]
  exact and_right_comm

namespace Schema

variable {elements : List ElementDecl} {root : String} {schema : Schema}

/-- A table whose names are distinct, whose defaults are values of their kinds, and which
declares what it refers to. -/
structure Consistent (elements : List ElementDecl) (root : String) : Prop where
  names : (elements.map (·.name)).Nodup
  attributeNames : ∀ decl ∈ elements, (decl.attributes.map (·.name)).Nodup
  defaults : ∀ decl ∈ elements, ∀ a ∈ decl.attributes, ∀ value, a.default = some value →
    a.kind.accepts value = true
  children : ∀ decl ∈ elements, ∀ child ∈ decl.children, child ∈ elements.map (·.name)
  root : root ∈ elements.map (·.name)

theorem Consistent.eq_of_name (h : Consistent elements root) {decl decl' : ElementDecl}
    (hdecl : decl ∈ elements) (hdecl' : decl' ∈ elements) (hname : decl.name = decl'.name) :
    decl = decl' := by
  have hfind := (find?_key_eq_some_iff h.names).mpr ⟨hdecl, hname⟩
  rw [(find?_key_eq_some_iff h.names).mpr ⟨hdecl', rfl⟩] at hfind
  exact (Option.some.inj hfind).symm

theorem checkAttributes_eq_ok {element : String} {seen : List String}
    {attributes : List AttributeDecl} (h : checkAttributes element seen attributes = .ok ()) :
    (attributes.map (·.name)).Nodup ∧ (∀ a ∈ attributes, a.name ∉ seen) ∧
      ∀ a ∈ attributes, ∀ value, a.default = some value → a.kind.accepts value = true := by
  induction attributes generalizing seen with
  | nil => simp
  | cons a rest ih =>
      rw [checkAttributes] at h
      split at h
      · cases h
      · rename_i hseen
        split at h
        · cases h
        · rename_i hdefault
          obtain ⟨hnodup, hnot, hrest⟩ := ih h
          refine ⟨?_, ?_, ?_⟩
          · refine List.nodup_cons.mpr ⟨fun hmem => ?_, hnodup⟩
            obtain ⟨b, hb, hname⟩ := List.mem_map.mp hmem
            exact hnot b hb (by simp [hname])
          · intro b hb
            rcases List.mem_cons.mp hb with rfl | hb
            · simpa using hseen
            · exact fun hc => hnot b hb (List.mem_cons_of_mem _ hc)
          · intro b hb value hvalue
            rcases List.mem_cons.mp hb with rfl | hb
            · simpa [Option.filter_eq_none_iff, hvalue] using hdefault
            · exact hrest b hb value hvalue

theorem checkElements_eq_ok {seen : List String} (h : checkElements seen elements = .ok ()) :
    (elements.map (·.name)).Nodup ∧ (∀ decl ∈ elements, decl.name ∉ seen) ∧
      ∀ decl ∈ elements, checkAttributes decl.name [] decl.attributes = .ok () := by
  induction elements generalizing seen with
  | nil => simp
  | cons decl rest ih =>
      rw [checkElements] at h
      cases hattributes : checkAttributes decl.name [] decl.attributes with
      | error fault =>
          rw [hattributes] at h
          cases h
      | ok =>
          simp only [hattributes, bind, Except.bind] at h
          split at h
          · cases h
          · rename_i hseen
            obtain ⟨hnodup, hnot, hrest⟩ := ih h
            refine ⟨?_, ?_, ?_⟩
            · refine List.nodup_cons.mpr ⟨fun hmem => ?_, hnodup⟩
              obtain ⟨other, hother, hname⟩ := List.mem_map.mp hmem
              exact hnot other hother (by simp [hname])
            · intro other hother
              rcases List.mem_cons.mp hother with rfl | hother
              · simpa using hseen
              · exact fun hc => hnot other hother (List.mem_cons_of_mem _ hc)
            · intro other hother
              rcases List.mem_cons.mp hother with rfl | hother
              · exact hattributes
              · exact hrest other hother

theorem checkChildren_eq_ok {declared : List String}
    (h : checkChildren declared elements = .ok ()) :
    ∀ decl ∈ elements, ∀ child ∈ decl.children, child ∈ declared := by
  induction elements with
  | nil => simp
  | cons decl rest ih =>
      rw [checkChildren] at h
      split at h
      · cases h
      · rename_i hfind
        intro other hother child hchild
        rcases List.mem_cons.mp hother with rfl | hother
        · simpa using List.find?_eq_none.mp hfind child hchild
        · exact ih h other hother child hchild

/-- A table that compiles is consistent, and the schema is that table. -/
theorem consistent_of_compile (h : compile elements root = .ok schema) :
    Consistent elements root ∧ schema = { root, elements } := by
  unfold compile at h
  cases helements : checkElements [] elements with
  | error fault =>
      rw [helements] at h
      cases h
  | ok =>
      cases hchildren : checkChildren (elements.map (·.name)) elements with
      | error fault =>
          simp only [helements, hchildren, bind, Except.bind] at h
          cases h
      | ok =>
          simp only [helements, hchildren, bind, Except.bind] at h
          split at h
          · rename_i hroot
            obtain ⟨hnames, -, hattributes⟩ := checkElements_eq_ok helements
            refine ⟨⟨hnames, ?_, ?_, checkChildren_eq_ok hchildren, by simpa using hroot⟩, ?_⟩
            · exact fun decl hdecl => (checkAttributes_eq_ok (hattributes decl hdecl)).1
            · exact fun decl hdecl => (checkAttributes_eq_ok (hattributes decl hdecl)).2.2
            · exact (Except.ok.inj h).symm
          · cases h

end Schema

end PersistenceMapping
