/-
What a registry keeps of every history.

A history is a list of documents, added one after the other to a new registry, whether or not
all of their declarations stand (`after`).  The invariant that carries everything is that each
registration was made at one moment (`MadeBy`): it was new when its document came, and it comes
from a declaration of that document that stood.  Names are thus registered once, and as nothing
is ever taken away, what is found is found for good.

`Coherent` puts together what follows for lookups and for the answer to each document.
-/
import Mathlib.Data.List.Induction
import PersistenceMapping.Proofs.Override.Tables

namespace PersistenceMapping

namespace OverrideRegistry

variable {α : Type} {loader : ClassLoader α} {documents before later : List Document}
  {d : Document} {root : NodeId} {name : String} {registration : Registration}

/-! ### Histories -/

/-- The registry after documents were added to a new one. -/
def after (loader : ClassLoader α) (documents : List Document) : OverrideRegistry α :=
  (addAll { loader } documents).2

@[simp] theorem after_nil (loader : ClassLoader α) : after loader [] = { loader } :=
  rfl

theorem addAll_concat (r : OverrideRegistry α) (documents : List Document) (d : Document) :
    (r.addAll (documents ++ [d])).2 = ((r.addAll documents).2.add d).2 := by
  induction documents generalizing r with
  | nil => rfl
  | cons first rest ih => exact ih (r.add first).2

theorem after_concat (loader : ClassLoader α) (documents : List Document) (d : Document) :
    after loader (documents ++ [d]) = ((after loader documents).add d).2 :=
  addAll_concat _ documents d

/-- The documents are kept in their order, whether or not they are accepted. -/
theorem documents_after (loader : ClassLoader α) (documents : List Document) :
    (after loader documents).documents = documents.toArray := by
  induction documents using List.reverseRecOn with
  | nil => rfl
  | append_singleton documents d ih =>
      rw [after_concat]
      rcases (after loader documents).add_cases d with
        ⟨-, -, hkept⟩ | ⟨root, r', hstood, -⟩ | ⟨root, stood, failing, rest, r', e, hstood, -⟩
      · rw [hkept, ih, List.push_toArray]
      · rw [hstood.kept, ih, List.push_toArray]
      · rw [hstood.kept, ih, List.push_toArray]

theorem size_documents_after (loader : ClassLoader α) (documents : List Document) :
    (after loader documents).documents.size = documents.length := by
  rw [documents_after, List.size_toArray]

/-- A document registers what is new of the declarations that stand, if any. -/
theorem registrations_concat (loader : ClassLoader α) (documents : List Document) (d : Document) :
    ∃ stood, (after loader (documents ++ [d])).registrations =
        keepNew (after loader documents).registrations
          (Declaration.registrations documents.length stood) ∧
      (stood = [] ∨ ∃ root r', Stood (after loader documents) d root stood r') := by
  rw [after_concat, ← size_documents_after loader documents]
  rcases (after loader documents).add_cases d with
    ⟨-, -, hkept⟩ | ⟨root, r', hstood, -⟩ | ⟨root, stood, failing, rest, r', e, hstood, -⟩
  · exact ⟨[], by rw [hkept]; rfl, Or.inl rfl⟩
  · refine ⟨_, ?_, Or.inr ⟨root, r', hstood⟩⟩
    rw [hstood.kept]
    exact (effect_declareAll hstood.stands).registrations
  · refine ⟨stood, ?_, Or.inr ⟨root, r', hstood⟩⟩
    rw [hstood.kept]
    exact (effect_declareAll hstood.stands).registrations

theorem nodup_names_after (loader : ClassLoader α) (documents : List Document) :
    ((after loader documents).registrations.map (·.name)).Nodup := by
  induction documents using List.reverseRecOn with
  | nil => exact List.nodup_nil
  | append_singleton documents d ih =>
      obtain ⟨stood, hregistrations, -⟩ := registrations_concat loader documents d
      rw [hregistrations]
      exact nodup_keepNew ih

/-- Nothing is taken away. -/
theorem registrations_kept (loader : ClassLoader α) (documents later : List Document) :
    (after loader documents).registrations <+:
      (after loader (documents ++ later)).registrations := by
  induction later using List.reverseRecOn with
  | nil => exact (List.append_nil documents).symm ▸ List.prefix_rfl
  | append_singleton later d ih =>
      obtain ⟨stood, hregistrations, -⟩ := registrations_concat loader (documents ++ later) d
      rw [← List.append_assoc, hregistrations]
      exact ih.trans (prefix_keepNew _ _)

/-! ### The moment of a registration -/

/-- A registration was made when a document was added after others: its name was new, and one of
the declarations that stood is what it comes from. -/
structure MadeBy (loader : ClassLoader α) (before : List Document) (d : Document)
    (registration : Registration) : Prop where
  document : registration.document = before.length
  fresh : (after loader before).find? registration.name = none
  found : (after loader (before ++ [d])).find? registration.name = some registration
  declared : ∃ root stood r', Stood (after loader before) d root stood r' ∧
    registration ∈ Declaration.registrations before.length stood

/-- What a document adds to the registrations was made by it. -/
theorem madeBy_of_mem (loader : ClassLoader α) (d : Document)
    (hmem : registration ∈ (after loader (before ++ [d])).registrations)
    (hnot : registration ∉ (after loader before).registrations) :
    MadeBy loader before d registration := by
  have hnodup := nodup_names_after loader (before ++ [d])
  have hfound := find?_of_mem hnodup hmem
  obtain ⟨stood, hregistrations, hstood⟩ := registrations_concat loader before d
  have hnew : registration ∈ Declaration.registrations before.length stood := by
    rw [hregistrations] at hmem
    exact (mem_keepNew hmem).resolve_left hnot
  refine ⟨Declaration.document_of_mem_registrations hnew, ?_, hfound, ?_⟩
  · -- Another registration of the name before would be the one that is found afterwards.
    rcases hbefore : (after loader before).find? registration.name with _ | other
    · rfl
    · have hother := find?_of_prefix (registrations_kept loader before [d]) hbefore
      rw [hfound, Option.some.injEq] at hother
      exact absurd (hother ▸ (find?_some hbefore).1) hnot
  · rcases hstood with rfl | ⟨root, r', hstood⟩
    · cases hnew
    · exact ⟨root, stood, r', hstood, hnew⟩

/-- Every registration was made by one of the documents. -/
theorem exists_madeBy (h : registration ∈ (after loader documents).registrations) :
    ∃ before d later, documents = before ++ d :: later ∧ MadeBy loader before d registration := by
  induction documents using List.reverseRecOn with
  | nil => cases h
  | append_singleton documents d ih =>
      by_cases hbefore : registration ∈ (after loader documents).registrations
      · obtain ⟨before, d', later, rfl, hmade⟩ := ih hbefore
        exact ⟨before, d', later ++ [d], by simp, hmade⟩
      · exact ⟨documents, d, [], by simp, madeBy_of_mem loader d h hbefore⟩

/-- The element of a registration is in the document that it was made by. -/
theorem MadeBy.isElement (h : MadeBy loader before d registration) :
    d.isElement registration.node = true := by
  obtain ⟨root, stood, r', hstood, hmem⟩ := h.declared
  obtain ⟨package, hdeclares, -⟩ := hstood.declares hmem
  exact hdeclares.isElement.1

theorem MadeBy.element? (h : MadeBy loader before d registration) (later : List Document) :
    (after loader (before ++ d :: later)).element? registration.name =
      some (d, registration.node) := by
  have hfound := find?_of_prefix (registrations_kept loader (before ++ [d]) later) h.found
  rw [List.append_assoc, List.singleton_append] at hfound
  simp [OverrideRegistry.element?, hfound, documents_after, h.document, h.isElement]

theorem MadeBy.length_lt (h : MadeBy loader before d registration)
    (hdocuments : documents = before ++ d :: later) : registration.document < documents.length := by
  rw [h.document, hdocuments, List.length_append, List.length_cons]
  omega

/-! ### What a call registers -/

/-- A document that is yet to be added has registered nothing. -/
theorem namesOf_after (loader : ClassLoader α) (documents : List Document) :
    (after loader documents).namesOf documents.length = [] := by
  rw [namesOf, List.map_eq_nil_iff, List.filter_eq_nil_iff]
  intro registration hmem
  obtain ⟨before, d, later, hdocuments, hmade⟩ := exists_madeBy hmem
  have hlt := hmade.length_lt hdocuments
  rw [beq_iff_eq]
  omega

/-- The names that a document has registered after some of its declarations are those that are
new. -/
theorem namesOf_declareAll {declarations : List Declaration}
    (h : (after loader documents).declareAll documents.length declarations = (none, r')) :
    r'.namesOf documents.length = (Declaration.names declarations).eraseDups.filter fun name =>
      ((after loader documents).find? name).isNone := by
  obtain ⟨added, hkept, hsub, hnames⟩ := exists_keepNew (after loader documents).registrations
    (Declaration.registrations documents.length declarations)
  have hold := namesOf_after loader documents
  rw [namesOf, List.map_eq_nil_iff] at hold
  have hadded : added.filter (·.document == documents.length) = added := by
    rw [List.filter_eq_self]
    intro registration hmem
    rw [beq_iff_eq]
    exact Declaration.document_of_mem_registrations (hsub hmem)
  rw [namesOf, (effect_declareAll h).registrations, hkept, List.filter_append, hold, hadded,
    List.nil_append, hnames, Declaration.map_name_registrations]
  refine List.filter_congr fun name _ => ?_
  rw [Bool.eq_iff_iff, decide_eq_true_iff, Option.isNone_iff_eq_none, find?_eq_none_iff]

/-- The names that a document registers, in the order of their registration, are the new ones
among those declared by what stood. -/
theorem newly_registered {stood : List Declaration} {r' : OverrideRegistry α}
    (h : Stood (after loader documents) d root stood r') (name : String) :
    ((after loader documents).find? name = none ∧
        ((after loader (documents ++ [d])).find? name).isSome = true) ↔
      (after loader documents).find? name = none ∧ name ∈ Declaration.names stood := by
  refine and_congr_right fun hnone => ?_
  rw [find?_isSome_iff, after_concat, h.kept]
  change name ∈ r'.registrations.map (·.name) ↔ _
  rw [(effect_declareAll h.stands).registrations, mem_names_keepNew,
    Declaration.map_name_registrations]
  exact or_iff_right (find?_eq_none_iff.mp hnone)

/-- A document is answered with the names that it has registered, each of them once. -/
theorem namesOf_stood {stood : List Declaration} {r' : OverrideRegistry α}
    (h : Stood (after loader documents) d root stood r') :
    (r'.namesOf documents.length).Nodup ∧
      ∀ name, name ∈ r'.namesOf documents.length ↔
        (after loader documents).find? name = none ∧
          ((after loader (documents ++ [d])).find? name).isSome = true := by
  have hr' : (after loader (documents ++ [d])).registrations = r'.registrations := by
    rw [after_concat, h.kept]
  have hnodup := nodup_names_after loader (documents ++ [d])
  rw [hr'] at hnodup
  refine ⟨hnodup.sublist (List.Sublist.map _ List.filter_sublist), fun name => ?_⟩
  rw [find?_isSome_iff, hr', namesOf, List.mem_map]
  constructor
  · rintro ⟨registration, hmem, rfl⟩
    obtain ⟨hmem, hdocument⟩ := List.mem_filter.mp hmem
    rw [beq_iff_eq] at hdocument
    refine ⟨?_, List.mem_map_of_mem hmem⟩
    -- A registration of this document is none of those from before.
    refine (madeBy_of_mem loader d (hr' ▸ hmem) fun hbefore => ?_).fresh
    obtain ⟨before, d', later, hdocuments, hmade⟩ := exists_madeBy hbefore
    exact absurd hdocument (hmade.length_lt hdocuments).ne
  · rintro ⟨hnone, hname⟩
    obtain ⟨registration, hmem, rfl⟩ := List.mem_map.mp hname
    refine ⟨registration, List.mem_filter.mpr ⟨hmem, ?_⟩, rfl⟩
    rw [beq_iff_eq]
    refine (madeBy_of_mem loader d (hr' ▸ hmem) fun hbefore => ?_).document
    exact find?_eq_none_iff.mp hnone (List.mem_map_of_mem hbefore)

/-! ### Elements that declare names -/

theorem names_declarationsOf (r : OverrideRegistry α) (d : Document) (root : NodeId) :
    Declaration.names (r.declarationsOf d root) = (d.namings root r.globals.isSome).map d.nameOf := by
  rw [← Declaration.map_fst_named?, named_declarationsOf, List.map_map]
  rfl

/-- Where the declarations are cut, the elements that declare names are cut too. -/
theorem exists_namings_of_declarationsOf {r : OverrideRegistry α} {stood rest : List Declaration}
    {failing : Declaration} (h : r.declarationsOf d root = stood ++ failing :: rest) :
    ∃ before here later, d.namings root r.globals.isSome = before ++ (here ++ later) ∧
      Declaration.names stood = before.map d.nameOf ∧
      failing.named?.toList = here.map d.named := by
  have hnamed := r.named_declarationsOf d root
  rw [h, List.filterMap_append, ← List.singleton_append, List.filterMap_append] at hnamed
  obtain ⟨before, behind, hbefore, hstood, hbehind⟩ := List.map_eq_append_iff.mp hnamed.symm
  obtain ⟨here, later, rfl, hfailing, -⟩ := List.map_eq_append_iff.mp hbehind
  refine ⟨before, here, later, hbefore, ?_, ?_⟩
  · rw [← Declaration.map_fst_named?, ← hstood, List.map_map]
    rfl
  · rw [hfailing]
    cases hnone : failing.named? <;> simp [hnone]

/-! ### Tables -/

/-- Over every history, the tables hold what the registry holds. -/
theorem holds_after (loader : ClassLoader α) (documents : List Document) :
    (OverrideTables.after loader documents).Holds (after loader documents) := by
  induction documents using List.reverseRecOn with
  | nil => exact ⟨rfl, rfl, fun _ => rfl, fun _ => rfl, rfl, rfl, rfl⟩
  | append_singleton documents d ih =>
      rw [OverrideTables.after_concat, after_concat]
      refine (ih.add ?_ d).2
      rw [size_documents_after, namesOf_after]

/-- Tables and registry give the same answer to a document. -/
theorem answer_after (loader : ClassLoader α) (documents : List Document) (d : Document) :
    ((OverrideTables.after loader documents).add d).1 = ((after loader documents).add d).1 := by
  refine ((holds_after loader documents).add ?_ d).1
  rw [size_documents_after, namesOf_after]

/-! ### Coherence -/

/-- Where a registration comes from: it was made when a document was added, by an element of that
document with the tag of its role, whose class is qualified to the name. -/
structure Origin (loader : ClassLoader α) (documents : List Document)
    (registration : Registration) (before : List Document) (d : Document) (root : NodeId)
    (package : Option String) : Prop where
  call : ∃ later, documents = before ++ d :: later
  document : registration.document = before.length
  fresh : (after loader before).find? registration.name = none
  found : (after loader (before ++ [d])).find? registration.name = some registration
  element : (after loader documents).element? registration.name = some (d, registration.node)
  rooted : d.rootElement? = some root
  declares : d.Declares root registration.node registration.role package
  tagged : d.isElement registration.node = true ∧
    d.matchesTag registration.role.tag registration.node = true
  named : registration.name = qualifyClass (d.attributeText registration.node "class") package

/-- What can be relied on after documents were added, accepted or not. -/
structure Coherent (loader : ClassLoader α) (documents : List Document) : Prop where
  /-- A name keeps its registration and its element, whatever is added later. -/
  permanent : ∀ name registration later,
    (after loader documents).find? name = some registration →
      (after loader (documents ++ later)).find? name = some registration ∧
        (after loader (documents ++ later)).element? name = (after loader documents).element? name
  /-- The registered names are those that have an element. -/
  found : ∀ name, ((after loader documents).find? name).isSome = true ↔
    ((after loader documents).element? name).isSome = true
  origin : ∀ name registration, (after loader documents).find? name = some registration →
    registration.name = name ∧
      ∃ before d root package, Origin loader documents registration before d root package
  /-- Classes have defaults, listeners have none. -/
  defaults : ∀ name registration, (after loader documents).find? name = some registration →
    (registration.defaults?.isSome = true ↔ registration.role ≠ .listener)
  /-- The tables, each of which is entered by itself, hold what is registered. -/
  tables : (OverrideTables.after loader documents).Holds (after loader documents)
  /-- The tables are in step: a name has a kind if it has an element, and defaults if, besides, it
  is no listener. -/
  step : ∀ name,
    (((OverrideTables.after loader documents).kind? name).isSome = true ↔
      ((OverrideTables.after loader documents).element? name).isSome = true) ∧
    (((OverrideTables.after loader documents).defaults.lookup name).isSome = true ↔
      ∃ kind, (OverrideTables.after loader documents).kind? name = some kind ∧ kind ≠ .listener)
  /-- The names that are collected on the way through a document are the answer to it. -/
  collected : ∀ d, ((OverrideTables.after loader documents).add d).1 =
    ((after loader documents).add d).1
  /-- An accepted document is answered with the names that it registers, and these are all that
  it declares and that were new, in the order of the elements that declare them. -/
  accepted : ∀ d added, ((after loader documents).add d).1 = .ok added →
    added.Nodup ∧
      (∀ name, name ∈ added ↔ (after loader documents).find? name = none ∧
        ((after loader (documents ++ [d])).find? name).isSome = true) ∧
      ∃ root, d.rootElement? = some root ∧ (∀ name, name ∈ added ↔
        (after loader documents).find? name = none ∧
          name ∈ Declaration.names ((after loader documents).declarationsOf d root)) ∧
        added = ((d.namings root (after loader documents).globals.isSome).map d.nameOf).eraseDups.filter
          fun name => ((after loader documents).find? name).isNone
  /-- A document without a root element registers nothing. -/
  rootless : ∀ d, d.rootElement? = none →
    (∃ e, ((after loader documents).add d).1 = .error e) ∧
      (after loader (documents ++ [d])).registrations = (after loader documents).registrations
  /-- Of a document that is not accepted, what is declared before the point of failure is
  registered if it was new, and nothing after it.  The elements that declare names come before that
  point, stand at it or come behind it. -/
  failed : ∀ d root e, d.rootElement? = some root →
    ((after loader documents).add d).1 = .error e →
      ∃ stood failing rest r', (after loader documents).declarationsOf d root =
          stood ++ failing :: rest ∧
        (after loader documents).declareAll documents.length stood = (none, r') ∧
        r'.declare documents.length failing = .error e ∧
        (∃ before here later, d.namings root (after loader documents).globals.isSome =
            before ++ (here ++ later) ∧
          Declaration.names stood = before.map d.nameOf ∧
          failing.named?.toList = here.map d.named) ∧
        ∀ name, ((after loader documents).find? name = none ∧
            ((after loader (documents ++ [d])).find? name).isSome = true) ↔
          (after loader documents).find? name = none ∧ name ∈ Declaration.names stood

theorem origin_of_find? (h : (after loader documents).find? name = some registration) :
    registration.name = name ∧
      ∃ before d root package, Origin loader documents registration before d root package := by
  obtain ⟨hmem, hname⟩ := find?_some h
  obtain ⟨before, d, later, rfl, hmade⟩ := exists_madeBy hmem
  obtain ⟨root, stood, r', hstood, hdeclared⟩ := hmade.declared
  obtain ⟨package, hdeclares, hqualified⟩ := hstood.declares hdeclared
  exact ⟨hname, before, d, root, package, ⟨later, rfl⟩, hmade.document, hmade.fresh, hmade.found,
    hmade.element? later, hstood.rooted, hdeclares, hdeclares.isElement, hqualified⟩

/-- What is registered has an element, and nothing else has one. -/
theorem found_iff (name : String) :
    ((after loader documents).find? name).isSome = true ↔
      ((after loader documents).element? name).isSome = true := by
  constructor
  · intro hsome
    obtain ⟨registration, h⟩ := Option.isSome_iff_exists.mp hsome
    obtain ⟨rfl, before, d, root, package, horigin⟩ := origin_of_find? h
    rw [horigin.element, Option.isSome_some]
  · intro hsome
    obtain ⟨place, hplace⟩ := Option.isSome_iff_exists.mp hsome
    obtain ⟨registration, h, -⟩ := Option.bind_eq_some_iff.mp hplace
    rw [h, Option.isSome_some]

/-- Registries are coherent over every history. -/
theorem coherent_after (loader : ClassLoader α) (documents : List Document) :
    Coherent loader documents where
  permanent name registration later h := by
    have hlater := find?_of_prefix (registrations_kept loader documents later) h
    refine ⟨hlater, ?_⟩
    obtain ⟨hmem, rfl⟩ := find?_some h
    obtain ⟨before, d, between, rfl, hmade⟩ := exists_madeBy hmem
    rw [hmade.element? between, List.append_assoc, List.cons_append, hmade.element?]
  found := found_iff
  origin name registration h := origin_of_find? h
  defaults name registration h := by
    rw [Registration.defaults?]
    cases registration.role <;> simp
  tables := holds_after loader documents
  step name := by
    have hholds := holds_after loader documents
    refine ⟨?_, hholds.isSome_defaults_iff name⟩
    rw [hholds.kind?, hholds.element?, Option.isSome_map]
    exact found_iff name
  collected := answer_after loader documents
  accepted d added h := by
    rcases (after loader documents).add_cases d with
      ⟨-, ⟨e, herror⟩, -⟩ | ⟨root, r', hstood, hok⟩ |
        ⟨root, stood, failing, rest, r', e, -, -, -, herror⟩
    · rw [herror] at h
      cases h
    · rw [hok, Except.ok.injEq, size_documents_after] at h
      obtain ⟨hnodup, hnames⟩ := namesOf_stood hstood
      rw [h] at hnodup hnames
      refine ⟨hnodup, hnames, root, hstood.rooted,
        fun name => (hnames name).trans (newly_registered hstood name), ?_⟩
      have hstands := hstood.stands
      rw [size_documents_after] at hstands
      rw [← h, namesOf_declareAll hstands, names_declarationsOf]
    · rw [herror] at h
      cases h
  rootless d hroot := by
    rcases (after loader documents).add_cases d with
      ⟨-, herror, hkept⟩ | ⟨root, r', hstood, -⟩ | ⟨root, stood, failing, rest, r', e, hstood, -⟩
    · exact ⟨herror, by rw [after_concat, hkept]⟩
    · rw [hstood.rooted] at hroot
      cases hroot
    · rw [hstood.rooted] at hroot
      cases hroot
  failed d root e hroot h := by
    rcases (after loader documents).add_cases d with
      ⟨hnone, -⟩ | ⟨root', r', -, hok⟩ |
        ⟨root', stood, failing, rest, r', e', hstood, hsplit, hfailing, herror⟩
    · rw [hroot] at hnone
      cases hnone
    · rw [hok] at h
      cases h
    · obtain rfl : root' = root := Option.some.inj (hstood.rooted.symm.trans hroot)
      obtain rfl : e' = e := Except.error.inj (herror.symm.trans h)
      rw [size_documents_after] at hfailing
      have hstands := hstood.stands
      rw [size_documents_after] at hstands
      exact ⟨stood, failing, rest, r', hsplit, hstands, hfailing,
        exists_namings_of_declarationsOf hsplit, newly_registered hstood⟩

/-- A listener with the name of a class is not accepted: the class that lists it stays registered, the
class behind it is not reached, and the document before it keeps what it has registered. -/
theorem coherent_after_duplicate :
    let listing (name listener : String) : List Request :=
      [.createElement "entity-mappings", .append 0 1,
        .createElement "entity", .setAttribute 2 "class" name, .append 1 2,
        .createElement "entity-listeners", .append 2 3,
        .createElement "entity-listener", .setAttribute 4 "class" listener, .append 3 4]
    let built (requests : List Request) : Document :=
      requests.foldl (fun d request => request.perform d) .empty
    let first := built (listing "A" "L")
    let second := built (listing "B" "A" ++
      [.createElement "entity", .setAttribute 5 "class" "C", .append 1 5])
    let loader : ClassLoader Unit := fun name => .error (.notFound name)
    (addAll { loader } [first, second]).1 = [.ok ["A", "L"], .error (.duplicateClass "A")] ∧
      Coherent loader [first] ∧ Coherent loader [first, second] ∧
      (after loader [first, second]).registrations.map
          (fun registration => (registration.name, registration.document, registration.kind?)) =
        [("A", 0, some .entity), ("L", 0, none), ("B", 1, some .entity)] ∧
      (OverrideTables.after loader [first, second]).defaults.map (·.1) = ["B", "A"] ∧
      ((after loader [first, second]).find? "A").bind (·.kind?) = some .entity := by
  intro listing built first second loader
  have hfirst : ((after loader [first]).find? "A").bind (·.kind?) = some .entity := by
    decide +kernel
  have hadded : (addAll { loader } [first, second]).1 =
      [.ok ["A", "L"], .error (.duplicateClass "A")] := by decide +kernel
  have hregistered : (after loader [first, second]).registrations.map
      (fun registration => (registration.name, registration.document, registration.kind?)) =
        [("A", 0, some .entity), ("L", 0, none), ("B", 1, some .entity)] := by decide +kernel
  have htables : (OverrideTables.after loader [first, second]).defaults.map (·.1) = ["B", "A"] := by
    decide +kernel
  clear_value first second loader
  have hcoherent := coherent_after loader [first]
  obtain ⟨registration, hfind, hkind⟩ := Option.bind_eq_some_iff.mp hfirst
  have hlater := (hcoherent.permanent "A" registration [second] hfind).1
  exact ⟨hadded, hcoherent, coherent_after loader [first, second], hregistered, htables,
    Option.bind_eq_some_iff.mpr ⟨registration, hlater, hkind⟩⟩

end OverrideRegistry

end PersistenceMapping
