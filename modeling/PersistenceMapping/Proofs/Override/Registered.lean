/-
What a document registers.

A declaration registers at most one name, and it registers it only if the name is new.  So the
registrations after some declarations are those from before, followed by the declared ones
whose names were new when their turn came (`keepNew`).  What is said here of one declaration and
of a list of them is all that the history of a registry needs to know about registering: a
document lets the first of its declarations take effect, up to one that cannot stand or to the
end (`add_cases`).
-/
import PersistenceMapping.Proofs.Override.Standing
import PersistenceMapping.Proofs.Tree.Repeated

namespace PersistenceMapping

/-! ### Registrations under new names -/

/-- Registrations, and then those of others whose names are new when their turn comes. -/
def keepNew (known new : List Registration) : List Registration :=
  new.foldl (fun kept registration =>
    if registration.name ∈ kept.map (·.name) then kept else kept ++ [registration]) known

section

variable {known new : List Registration}

@[simp] theorem keepNew_nil (known : List Registration) : keepNew known [] = known :=
  rfl

theorem keepNew_append (known first second : List Registration) :
    keepNew known (first ++ second) = keepNew (keepNew known first) second :=
  List.foldl_append

theorem keepNew_singleton (known : List Registration) (registration : Registration) :
    keepNew known [registration] =
      if registration.name ∈ known.map (·.name) then known else known ++ [registration] :=
  rfl

theorem keepNew_cons (known : List Registration) (registration : Registration)
    (rest : List Registration) :
    keepNew known (registration :: rest) = keepNew (keepNew known [registration]) rest :=
  rfl

/-- What is registered already is kept, and in its place. -/
theorem prefix_keepNew (known new : List Registration) : known <+: keepNew known new := by
  induction new generalizing known with
  | nil => exact List.prefix_rfl
  | cons registration rest ih =>
      rw [keepNew_cons]
      refine List.IsPrefix.trans ?_ (ih _)
      rw [keepNew_singleton]
      split
      · exact List.prefix_rfl
      · exact List.prefix_append _ _

theorem mem_keepNew {registration : Registration} (h : registration ∈ keepNew known new) :
    registration ∈ known ∨ registration ∈ new := by
  induction new generalizing known with
  | nil => exact Or.inl h
  | cons first rest ih =>
      rw [keepNew_cons] at h
      rcases ih h with hkept | hrest
      · rw [keepNew_singleton] at hkept
        split at hkept
        · exact Or.inl hkept
        · rcases List.mem_append.mp hkept with hknown | hfirst
          · exact Or.inl hknown
          · exact Or.inr (by simp [List.mem_singleton.mp hfirst])
      · exact Or.inr (List.mem_cons_of_mem _ hrest)

/-- Every name is registered in the end, whether it was new or not. -/
theorem mem_names_keepNew {name : String} :
    name ∈ (keepNew known new).map (·.name) ↔
      name ∈ known.map (·.name) ∨ name ∈ new.map (·.name) := by
  induction new generalizing known with
  | nil => simp
  | cons first rest ih =>
      rw [keepNew_cons, ih, keepNew_singleton, List.map_cons, List.mem_cons]
      split
      · rename_i hknown
        constructor
        · rintro (h | h)
          · exact Or.inl h
          · exact Or.inr (Or.inr h)
        · rintro (h | rfl | h)
          · exact Or.inl h
          · exact Or.inl hknown
          · exact Or.inr h
      · simp [or_assoc]

theorem nodup_keepNew (h : (known.map (·.name)).Nodup) :
    ((keepNew known new).map (·.name)).Nodup := by
  induction new generalizing known with
  | nil => exact h
  | cons first rest ih =>
      rw [keepNew_cons]
      refine ih ?_
      rw [keepNew_singleton]
      split
      · exact h
      · rename_i hnew
        rw [List.map_append, List.nodup_append]
        refine ⟨h, List.nodup_singleton _, ?_⟩
        rintro name hname other hother rfl
        rw [List.map_singleton, List.mem_singleton] at hother
        exact hnew (hother ▸ hname)

/-- What is kept of new registrations stands behind the known ones, under those of its names that
are not known. -/
theorem exists_keepNew (known new : List Registration) :
    ∃ added, keepNew known new = known ++ added ∧ added ⊆ new ∧
      added.map (·.name) =
        (new.map (·.name)).eraseDups.filter fun name => name ∉ known.map (·.name) := by
  induction new using List.reverseRecOn with
  | nil => exact ⟨[], by simp⟩
  | append_singleton new last ih =>
      obtain ⟨added, hkept, hsub, hnames⟩ := ih
      have hmem : last.name ∈ (keepNew known new).map (·.name) ↔
          last.name ∈ known.map (·.name) ∨ last.name ∈ new.map (·.name) := mem_names_keepNew
      have hsub' : added ⊆ new ++ [last] := List.subset_append_of_subset_left _ hsub
      rw [keepNew_append, keepNew_singleton, List.map_append, List.map_singleton,
        Attributes.eraseDups_concat]
      by_cases hold : last.name ∈ new.map (·.name)
      · rw [if_pos (hmem.mpr (Or.inr hold)), if_pos hold]
        exact ⟨added, hkept, hsub', hnames⟩
      rw [if_neg hold, List.filter_append, ← hnames]
      by_cases hknown : last.name ∈ known.map (·.name)
      · rw [if_pos (hmem.mpr (Or.inl hknown))]
        refine ⟨added, hkept, hsub', ?_⟩
        rw [List.filter_singleton, decide_eq_false (not_not.mpr hknown), hnames]
        exact (List.append_nil _).symm
      · rw [if_neg fun h => (hmem.mp h).elim hknown hold]
        refine ⟨added ++ [last], by rw [hkept, List.append_assoc], ?_, ?_⟩
        · exact List.append_subset.mpr ⟨hsub', List.subset_append_right _ _⟩
        · rw [List.filter_singleton, decide_eq_true hknown, List.map_append]
          rfl

end

/-! ### What a declaration registers -/

namespace Declaration

/-- What a declaration registers, if its name is new. -/
def registration? (document : Nat) : Declaration → Option Registration
  | listener name node => some ⟨name, document, node, .listener⟩
  | mappedClass name node kind _ defaults => some ⟨name, document, node, .mappedClass kind defaults⟩
  | _ => none

/-- What declarations register, each if its name is new. -/
def registrations (document : Nat) (declarations : List Declaration) : List Registration :=
  declarations.filterMap (registration? document)

/-- The names of the classes and listeners that are declared. -/
def names (declarations : List Declaration) : List String :=
  declarations.filterMap fun declaration => (declaration.registration? 0).map (·.name)

theorem registrations_append (document : Nat) (first second : List Declaration) :
    registrations document (first ++ second) =
      registrations document first ++ registrations document second :=
  List.filterMap_append

theorem registrations_singleton (document : Nat) (declaration : Declaration) :
    registrations document [declaration] = (declaration.registration? document).toList := by
  cases declaration <;> rfl

/-- The declared names do not depend on the number of the document. -/
theorem map_name_registrations (document : Nat) (declarations : List Declaration) :
    (registrations document declarations).map (·.name) = names declarations := by
  rw [registrations, names, List.map_filterMap]
  congr 1
  funext declaration
  cases declaration <;> rfl

theorem document_of_mem_registrations {document : Nat} {declarations : List Declaration}
    {registration : Registration} (h : registration ∈ registrations document declarations) :
    registration.document = document := by
  obtain ⟨declaration, -, hdeclaration⟩ := List.mem_filterMap.mp h
  cases declaration <;> simp only [registration?, Option.some.injEq, reduceCtorEq] at hdeclaration
  all_goals rw [← hdeclaration]

end Declaration

namespace OverrideRegistry

variable {α : Type} {r r' : OverrideRegistry α} {document : Nat} {declaration : Declaration}
  {declarations : List Declaration} {name : String} {registration : Registration}

theorem find?_isSome_iff : (r.find? name).isSome = true ↔ name ∈ r.registrations.map (·.name) := by
  simp [find?, List.find?_isSome]

theorem find?_eq_none_iff : r.find? name = none ↔ name ∉ r.registrations.map (·.name) := by
  rw [← find?_isSome_iff, Option.not_isSome_iff_eq_none]

theorem find?_some (h : r.find? name = some registration) :
    registration ∈ r.registrations ∧ registration.name = name :=
  ⟨List.mem_of_find?_eq_some h, by simpa using List.find?_some h⟩

/-- What is found among the first registrations is found among all. -/
theorem find?_of_prefix (hleading : r.registrations <+: r'.registrations)
    (h : r.find? name = some registration) : r'.find? name = some registration := by
  obtain ⟨rest, hrest⟩ := hleading
  rw [find?] at h
  rw [find?, ← hrest, List.find?_append, h, Option.some_or]

/-- A registration is found under its name if the names are distinct. -/
theorem find?_of_mem (hnodup : (r.registrations.map (·.name)).Nodup)
    (h : registration ∈ r.registrations) : r.find? registration.name = some registration := by
  obtain ⟨found, hfound⟩ := Option.isSome_iff_exists.mp
    (find?_isSome_iff.mpr (List.mem_map_of_mem h))
  obtain ⟨hmem, hname⟩ := find?_some hfound
  rw [hfound, List.inj_on_of_nodup_map hnodup hmem h hname]

/-- What declarations that stand have done: registered their names, each if it was new. -/
structure Effect (r r' : OverrideRegistry α) (document : Nat) (declarations : List Declaration) :
    Prop where
  sound : ∀ declaration ∈ declarations, declaration.Sound r.loader
  registrations : r'.registrations =
    keepNew r.registrations (Declaration.registrations document declarations)
  globals : declarations.any Declaration.isGlobal = false → r'.globals = r.globals
  loader : r'.loader = r.loader
  documents : r'.documents = r.documents

theorem Effect.refl (r : OverrideRegistry α) (document : Nat) : Effect r r document [] :=
  ⟨by simp, rfl, fun _ => rfl, rfl, rfl⟩

theorem Effect.trans {r r₁ r₂ : OverrideRegistry α} {first second : List Declaration}
    (h₁ : Effect r r₁ document first) (h₂ : Effect r₁ r₂ document second) :
    Effect r r₂ document (first ++ second) where
  sound := List.forall_mem_append.mpr ⟨h₁.sound, h₁.loader ▸ h₂.sound⟩
  registrations := by
    rw [h₂.registrations, h₁.registrations, ← keepNew_append, Declaration.registrations_append]
  globals h := by
    rw [List.any_append, Bool.or_eq_false_iff] at h
    rw [h₂.globals h.2, h₁.globals h.1]
  loader := h₂.loader.trans h₁.loader
  documents := h₂.documents.trans h₁.documents

/-- A declaration that only asks for something leaves the registrations as they are. -/
theorem Effect.of_sound (hsound : declaration.Sound r.loader)
    (hnone : declaration.registration? document = none)
    (hregistrations : r'.registrations = r.registrations)
    (hglobals : declaration.isGlobal = false → r'.globals = r.globals)
    (hloader : r'.loader = r.loader) (hdocuments : r'.documents = r.documents) :
    Effect r r' document [declaration] where
  sound := by simpa using hsound
  registrations := by
    rw [Declaration.registrations_singleton, hnone, Option.toList_none, keepNew_nil, hregistrations]
  globals h := hglobals (by simpa using h)
  loader := hloader
  documents := hdocuments

/-- A declaration of a new name registers it. -/
theorem Effect.of_new (hsound : declaration.Sound r.loader)
    (hsome : declaration.registration? document = some registration)
    (hnew : r.find? registration.name = none) :
    Effect r { r with registrations := r.registrations ++ [registration] } document
      [declaration] where
  sound := by simpa using hsound
  registrations := by
    rw [Declaration.registrations_singleton, hsome, Option.toList_some, keepNew_singleton,
      if_neg (find?_eq_none_iff.mp hnew)]
  globals _ := rfl
  loader := rfl
  documents := rfl

/-- The effect of one declaration, if it stands. -/
theorem effect_declare (h : r.declare document declaration = .ok r') :
    Effect r r' document [declaration] := by
  cases declaration with
  | access written =>
      rw [declare] at h
      rcases hread : written.read with e | access
      · simp [hread, Except.map] at h
      · simp only [hread, Except.map, Except.ok.injEq] at h
        subst h
        have hsound := written.read_isOk_iff.mp ⟨access, hread⟩
        exact .of_sound hsound rfl rfl (fun _ => rfl) rfl rfl
  | listener name node =>
      rw [declare] at h
      rcases hfind : r.find? name with _ | first
      · simp only [hfind, Except.ok.injEq] at h
        exact h ▸ .of_new trivial rfl hfind
      · -- The name is registered already, and by a listener.
        simp only [hfind] at h
        split at h
        · rw [Except.ok.injEq] at h
          subst h
          have hknown : name ∈ r.registrations.map (·.name) :=
            find?_isSome_iff.mp (by rw [hfind, Option.isSome_some])
          refine ⟨by simp [Declaration.Sound], ?_, fun _ => rfl, rfl, rfl⟩
          exact (if_pos hknown).symm
        · cases h
  | globals defaults =>
      rw [declare, Except.ok.injEq] at h
      subst h
      exact .of_sound trivial rfl rfl (fun hglobal => by cases hglobal) rfl rfl
  | mappedClass name node kind written defaults =>
      rw [declare] at h
      split at h
      · cases h
      rename_i hnew
      rcases hread : written.read with e | access
      · simp [hread, Except.map] at h
      · simp only [hread, Except.map, Except.ok.injEq] at h
        subst h
        have hsound := written.read_isOk_iff.mp ⟨access, hread⟩
        exact .of_new hsound rfl (by simpa using hnew)
  | converter className autoApply =>
      rw [declare, ClassLoader.resolve] at h
      rcases hload : r.loader className with failure | made
      · simp [hload, Except.map] at h
      rcases made with reason | value
      · simp [hload, Except.map] at h
      · simp only [hload, Except.map, Except.ok.injEq] at h
        subst h
        exact .of_sound ⟨value, hload⟩ rfl rfl (fun _ => rfl) rfl rfl

/-- The effect of declarations that all stand. -/
theorem effect_declareAll (h : r.declareAll document declarations = (none, r')) :
    Effect r r' document declarations := by
  induction declarations generalizing r with
  | nil =>
      rw [declareAll, Prod.mk.injEq] at h
      exact h.2 ▸ .refl r document
  | cons declaration rest ih =>
      rw [declareAll] at h
      split at h
      · rename_i r₁ hdeclare
        exact (effect_declare hdeclare).trans (ih h)
      · cases h

/-- Declarations take effect up to the end, or up to one that cannot stand. -/
theorem declareAll_cases (r : OverrideRegistry α) (document : Nat)
    (declarations : List Declaration) :
    (∃ r', r.declareAll document declarations = (none, r')) ∨
      ∃ stood failing rest r' e, declarations = stood ++ failing :: rest ∧
        r.declareAll document stood = (none, r') ∧ r'.declare document failing = .error e ∧
        r.declareAll document declarations = (some e, r') := by
  induction declarations generalizing r with
  | nil => exact Or.inl ⟨r, rfl⟩
  | cons declaration rest ih =>
      rcases hdeclare : r.declare document declaration with e | r₁
      · exact Or.inr ⟨[], declaration, rest, r, e, rfl, rfl, hdeclare,
          by simp [declareAll, hdeclare]⟩
      · have hall : ∀ others, r.declareAll document (declaration :: others) =
            r₁.declareAll document others := fun others => by simp [declareAll, hdeclare]
        rcases ih r₁ with ⟨r', h⟩ | ⟨stood, failing, others, r', e, rfl, hstood, hfailing, h⟩
        · exact Or.inl ⟨r', (hall rest).trans h⟩
        · exact Or.inr ⟨declaration :: stood, failing, others, r', e, rfl,
            (hall stood).trans hstood, hfailing, (hall _).trans h⟩

/-- What adding a document with a root element comes to: the declarations that `stood`, and in
what registry that left its names. -/
structure Stood (r : OverrideRegistry α) (d : Document) (root : NodeId)
    (stood : List Declaration) (r' : OverrideRegistry α) : Prop where
  rooted : d.rootElement? = some root
  declared : stood <+: r.declarationsOf d root
  stands : r.declareAll r.documents.size stood = (none, r')
  kept : (r.add d).2 = { r' with documents := r.documents.push d }

/-- A document without a root element is kept and registers nothing; of one with a root element,
all declarations take effect or those up to one that cannot stand. -/
theorem add_cases (r : OverrideRegistry α) (d : Document) :
    (d.rootElement? = none ∧ (∃ e, (r.add d).1 = .error e) ∧
      (r.add d).2 = { r with documents := r.documents.push d }) ∨
    (∃ root r', Stood r d root (r.declarationsOf d root) r' ∧
      (r.add d).1 = .ok (r'.namesOf r.documents.size)) ∨
    ∃ root stood failing rest r' e, Stood r d root stood r' ∧
      r.declarationsOf d root = stood ++ failing :: rest ∧
      r'.declare r.documents.size failing = .error e ∧ (r.add d).1 = .error e := by
  rcases hroot : d.rootElement? with _ | root
  · have hadd : r.add d = (.error (.tree (.invalidOperation .noRoot)),
        { r with documents := r.documents.push d }) := by simp only [add, hroot]
    exact Or.inl ⟨rfl, by rw [hadd]; exact ⟨⟨_, rfl⟩, rfl⟩⟩
  rcases r.declareAll_cases r.documents.size (r.declarationsOf d root) with
    ⟨r', hall⟩ | ⟨stood, failing, rest, r', e, hsplit, hstood, hfailing, hall⟩
  · have hdocuments := (effect_declareAll hall).documents
    refine Or.inr (Or.inl ⟨root, r', ⟨hroot, List.prefix_rfl, hall, ?_⟩, ?_⟩)
    · simp only [add, hroot, hall, hdocuments]
    · simp only [add, hroot, hall]
  · have hdocuments := (effect_declareAll hstood).documents
    refine Or.inr (Or.inr ⟨root, stood, failing, rest, r', e, ⟨hroot, ?_, hstood, ?_⟩, hsplit,
      hfailing, ?_⟩)
    · exact hsplit ▸ List.prefix_append _ _
    · simp only [add, hroot, hall, hdocuments]
    · simp only [add, hroot, hall]

end OverrideRegistry

end PersistenceMapping
