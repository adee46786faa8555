/-
The listeners of all classes.

When metadata counts, the listeners of all classes are those that its document has registered up
to then.  A document registers the names that are new (`keepNew`), so these are not all that the
metadata declares: a listener that an earlier document has registered, for one of its classes or
in metadata that did not stand, is left out, and nothing brings it back.

So the list depends on the history before the metadata and on nothing after it
(`listeners_of_counts`).  It is the whole list of the declared names just if all of them are new.
-/
import PersistenceMapping.Proofs.Override.Layers

namespace PersistenceMapping

namespace OverrideRegistry

variable {α : Type} {r r' : OverrideRegistry α} {loader : ClassLoader α}
  {before documents later : List Document} {d : Document} {root metadata : NodeId}
  {g : GlobalDefaults} {name : String}

/-! ### The moment at which metadata counts -/

/-- Metadata that stands makes what its document has registered the listeners of all classes. -/
theorem globals_of_stands
    (h : (after loader before).declareAll before.length (d.metadataDeclarations metadata) =
      (none, r')) :
    r'.globals = some
      { defaults := d.metadataDefaults metadata
        listeners := (d.declaredListeners metadata).eraseDups.filter fun name =>
          ((after loader before).find? name).isNone } := by
  have hdeclared : d.declaredListeners metadata =
      Declaration.names (d.declarationsBeforeDefaults metadata) := by
    rw [← d.names_metadataDeclarations, d.metadataDeclarations_eq, Declaration.names,
      List.filterMap_append]
    exact List.append_nil _
  rw [d.metadataDeclarations_eq, declareAll_append] at h
  rcases hfirst : (after loader before).declareAll before.length
    (d.declarationsBeforeDefaults metadata) with ⟨_ | e, r₁⟩
  · simp only [hfirst, declareAll, declare, Prod.mk.injEq, true_and] at h
    rw [← h, hdeclared, ← namesOf_declareAll hfirst]
  · simp [hfirst] at h

/-- When metadata counts, its document settles what is declared for all classes. -/
theorem Counts.globals (h : Counts loader before d metadata) :
    (after loader (before ++ [d])).globals = some
      { defaults := d.metadataDefaults metadata
        listeners := (d.declaredListeners metadata).eraseDups.filter fun name =>
          ((after loader before).find? name).isNone } := by
  obtain ⟨root, hroot, hmetadata⟩ := h.below
  obtain ⟨r', hstands⟩ := h.stands
  rw [after_concat, globals_add_of_rooted _ hroot, declarationsOf,
    globals_declareAll_append _ _ _ (d.any_isGlobal_unitDeclarations root), h.first,
    Option.isSome_none, if_neg Bool.false_ne_true, d.globalDeclarations_eq root, hmetadata,
    Option.map_some, Option.getD_some, size_documents_after, hstands]
  exact globals_of_stands hstands

/-- What is declared for all classes once is not declared again. -/
theorem globals_add_of_some (h : r.globals = some g) (d : Document) :
    (r.add d).2.globals = some g := by
  rcases hroot : d.rootElement? with _ | root
  · simp only [add, hroot]
    exact h
  · rw [globals_add_of_rooted r hroot, declarationsOf,
      globals_declareAll_append _ _ _ (d.any_isGlobal_unitDeclarations root), h,
      Option.isSome_some, if_pos rfl]
    exact h

theorem globals_after_append (h : (after loader before).globals = some g)
    (later : List Document) : (after loader (before ++ later)).globals = some g := by
  induction later using List.reverseRecOn with
  | nil =>
      rw [List.append_nil]
      exact h
  | append_singleton later d ih =>
      rw [← List.append_assoc, after_concat]
      exact globals_add_of_some ih d

/-! ### Listeners that are left out -/

/-- A declaration that stands among others stood in the registry that those before it left. -/
theorem exists_declare_of_mem {document : Nat} {declaration : Declaration}
    {declarations : List Declaration} (h : r.declareAll document declarations = (none, r'))
    (hmem : declaration ∈ declarations) :
    ∃ first r₁ r₂, r.declareAll document first = (none, r₁) ∧
      r₁.declare document declaration = .ok r₂ := by
  obtain ⟨first, rest, rfl⟩ := List.append_of_mem hmem
  rw [declareAll_append] at h
  rcases hfirst : r.declareAll document first with ⟨_ | e, r₁⟩
  · simp only [hfirst, declareAll] at h
    rcases hdeclare : r₁.declare document declaration with e | r₂
    · simp [hdeclare] at h
    · exact ⟨first, r₁, r₂, hfirst, hdeclare⟩
  · simp [hfirst] at h

/-- In metadata that stands, a name that is known is that of a listener. -/
theorem role_of_stands
    (h : r.declareAll documents.length (d.metadataDeclarations metadata) = (none, r'))
    (hname : name ∈ d.declaredListeners metadata) {registration : Registration}
    (hfind : r.find? name = some registration) : registration.role = .listener := by
  obtain ⟨node, hmem⟩ := Document.exists_of_mem_declaredListeners hname
  obtain ⟨first, r₁, r₂, hfirst, hdeclare⟩ := exists_declare_of_mem h hmem
  have hkept : r.registrations <+: r₁.registrations := by
    rw [(effect_declareAll hfirst).registrations]
    exact prefix_keepNew _ _
  have hfind₁ := find?_of_prefix hkept hfind
  rw [declare] at hdeclare
  simp only [hfind₁] at hdeclare
  by_cases hrole : registration.role = .listener
  · exact hrole
  · rw [if_neg hrole] at hdeclare
    cases hdeclare

/-- What the listeners of all classes are after a document with metadata that counts and after
others that came later. -/
structure Listening (loader : ClassLoader α) (before : List Document) (d : Document)
    (metadata : NodeId) (later : List Document) : Prop where
  /-- They are the declared names, each once and in order, that no earlier document registered. -/
  listed : (after loader (before ++ d :: later)).defaultListeners =
    (d.declaredListeners metadata).eraseDups.filter fun name =>
      ((after loader before).find? name).isNone
  /-- They are all that is declared just if no earlier document registered any of it. -/
  complete : (after loader (before ++ d :: later)).defaultListeners =
      (d.declaredListeners metadata).eraseDups ↔
    ∀ name ∈ d.declaredListeners metadata, (after loader before).find? name = none
  /-- What is left out was registered as a listener by an earlier document. -/
  known : ∀ name ∈ d.declaredListeners metadata,
    name ∉ (after loader (before ++ d :: later)).defaultListeners →
      ∃ registration, (after loader before).find? name = some registration ∧
        registration.role = .listener

/-- The listeners of all classes are settled by the metadata that counts and by the documents
before it, whether or not these were accepted. -/
theorem listeners_of_counts (h : Counts loader before d metadata) (later : List Document) :
    Listening loader before d metadata later := by
  have hlisted : (after loader (before ++ d :: later)).defaultListeners =
      (d.declaredListeners metadata).eraseDups.filter fun name =>
        ((after loader before).find? name).isNone := by
    have hglobals := globals_after_append h.globals later
    rw [List.append_assoc, List.singleton_append] at hglobals
    rw [defaultListeners, hglobals]
    rfl
  refine ⟨hlisted, ?_, ?_⟩
  · rw [hlisted, List.filter_eq_self]
    refine forall_congr' fun name => ?_
    rw [List.mem_eraseDups, Option.isNone_iff_eq_none]
  · intro name hname hout
    rcases hfind : (after loader before).find? name with _ | registration
    · refine absurd ?_ hout
      rw [hlisted, List.mem_filter, List.mem_eraseDups, Option.isNone_iff_eq_none]
      exact ⟨hname, hfind⟩
    · obtain ⟨r', hstands⟩ := h.stands
      exact ⟨registration, rfl, role_of_stands hstands hname hfind⟩

/-- Two new listeners, one of them declared twice, are the listeners of all classes, and a later
document that declares others does not change that. -/
theorem listeners_of_counts_new :
    let declaring (first second third : String) : Document := [
      .createElement "entity-mappings", .append 0 1,
      .createElement "persistence-unit-metadata", .append 1 2,
      .createElement "persistence-unit-defaults", .append 2 3,
      .createElement "entity-listeners", .append 3 4,
      .createElement "entity-listener", .setAttribute 5 "class" first, .append 4 5,
      .createElement "entity-listener", .setAttribute 6 "class" second, .append 4 6,
      .createElement "entity-listener", .setAttribute 7 "class" third, Request.append 4 7].foldl
        (fun d request => request.perform d) (.empty)
    let loader : ClassLoader Unit := fun name => .error (.notFound name)
    Counts loader [] (declaring "A" "B" "A") 2 ∧
      (after loader [declaring "A" "B" "A", declaring "C" "B" "D"]).defaultListeners =
        ["A", "B"] ∧
      Listening loader [] (declaring "A" "B" "A") 2 [declaring "C" "B" "D"] := by
  intro declaring loader
  obtain ⟨hroot, hmetadata, hdeclared⟩ : (declaring "A" "B" "A").rootElement? = some 1 ∧
      (declaring "A" "B" "A").metadata? 1 = some 2 ∧
      (declaring "A" "B" "A").declaredListeners 2 = ["A", "B", "A"] := by
    decide +kernel
  have hstands : ((after loader []).declareAll 0
      ((declaring "A" "B" "A").metadataDeclarations 2)).1 = none := by decide +kernel
  clear_value declaring loader
  have hcounts : Counts loader [] (declaring "A" "B" "A") 2 :=
    ⟨rfl, ⟨1, hroot, hmetadata⟩, _, Prod.ext hstands rfl⟩
  have hlistening := listeners_of_counts hcounts [declaring "C" "B" "D"]
  refine ⟨hcounts, ?_, hlistening⟩
  exact (hlistening.complete.mpr fun name _ => rfl).trans (hdeclared ▸ by decide)

/-- A listener of a class in an earlier document is not among the listeners of all classes, though
the metadata that declares it counts and its document is accepted. -/
theorem listeners_of_counts_known :
    let classes : Document := [.createElement "entity-mappings", .append 0 1,
      .createElement "entity", .setAttribute 2 "class" "A", .append 1 2,
      .createElement "entity-listeners", .append 2 3,
      .createElement "entity-listener", .setAttribute 4 "class" "L", Request.append 3 4].foldl
        (fun d request => request.perform d) (.empty)
    let metadata : Document := [.createElement "entity-mappings", .append 0 1,
      .createElement "persistence-unit-metadata", .append 1 2,
      .createElement "persistence-unit-defaults", .append 2 3,
      .createElement "entity-listeners", .append 3 4,
      .createElement "entity-listener", .setAttribute 5 "class" "L", Request.append 4 5].foldl
        (fun d request => request.perform d) (.empty)
    let loader : ClassLoader Unit := fun name => .error (.notFound name)
    (addAll { loader } [classes, metadata]).1 = [.ok ["A", "L"], .ok []] ∧
      Counts loader [classes] metadata 2 ∧ metadata.declaredListeners 2 = ["L"] ∧
      (after loader [classes, metadata]).defaultListeners = [] := by
  intro classes metadata loader
  obtain ⟨hroot, hmetadata, hdeclared⟩ : metadata.rootElement? = some 1 ∧
      metadata.metadata? 1 = some 2 ∧ metadata.declaredListeners 2 = ["L"] := by decide +kernel
  obtain ⟨hfirst, hstands⟩ : (after loader [classes]).globals = none ∧
      ((after loader [classes]).declareAll 1 (metadata.metadataDeclarations 2)).1 = none := by
    decide +kernel
  obtain ⟨hadded, hlisteners⟩ :
      (addAll { loader } [classes, metadata]).1 = [.ok ["A", "L"], .ok []] ∧
        (after loader [classes, metadata]).defaultListeners = [] := by
    decide +kernel
  clear_value classes metadata loader
  exact ⟨hadded, ⟨hfirst, ⟨1, hroot, hmetadata⟩, _, Prod.ext hstands rfl⟩, hdeclared, hlisteners⟩

end OverrideRegistry

end PersistenceMapping
