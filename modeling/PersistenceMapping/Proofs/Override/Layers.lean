/-
The layers that the defaults of a class come from.

A class gets its defaults from three layers: its own element, the document that it is declared
in, and the metadata that counts for all documents.  The upper two are put together when the
class is registered, and the lowest one is laid under them when they are asked for, so it does
not matter when that metadata came.

What the layers set is said here in the words of the documents (`Layered`, `Lowest`): the first text
that is not empty counts, and a marker says `true` by being there.  For access values that needs all
that were passed to be legal, which holds because the value of the document is declared before its
classes.

Which metadata counts is settled in one step (`globals_add`): that of a document with metadata
whose declarations all stand, when there was none before.  They stand if the access value is legal
and no listener has the name of a class (`stands_metadataDeclarations_iff`).
-/
import PersistenceMapping.Proofs.Override.History

namespace PersistenceMapping

/-- A text, unless it is empty. -/
def nonEmpty (s : String) : Option String :=
  if s.isEmpty then none else some s

theorem filter_eq_bind_nonEmpty (s : Option String) :
    s.filter (!·.isEmpty) = s.bind nonEmpty := by
  cases s with
  | none => rfl
  | some s =>
      rw [Option.filter_some, Option.bind_some, nonEmpty]
      cases s.isEmpty <;> rfl

theorem nonEmpty_getD (s : Option String) : nonEmpty (s.getD "") = s.bind nonEmpty := by
  cases s <;> rfl

/-- A legal value is the text of the access type that it stands for. -/
theorem text_ofText? {value : String} (h : LegalAccess value) :
    (AccessType.ofText? value).map AccessType.text = nonEmpty value := by
  rcases h with rfl | rfl | rfl <;> decide

namespace Document

variable {α : Type} {loader : ClassLoader α} {d : Document} {root metadata node id : NodeId}

/-- What the first child with a tag says: its trimmed text, unless that is empty. -/
def childText? (d : Document) (id : NodeId) (tag : String) : Option String :=
  (d.optionalChildText id tag).bind nonEmpty

/-- What an attribute says: its value as it stands, unless that is empty. -/
def attributeText? (d : Document) (id : NodeId) (name : String) : Option String :=
  (d.attribute? id name).bind nonEmpty

/-- A value is what a marker says below an element, if there is one: `true` where the marker stands,
and nothing where it does not. -/
def Marks (d : Document) (below : Option NodeId) (tag : String) (value : Option Bool) : Prop :=
  ∀ said, value = some said ↔ said = true ∧ ∃ id ∈ below, ∃ child, child ∈ d.childrenTagged id tag

theorem setting?_eq (d : Document) (id : NodeId) (tag : String) :
    d.setting? id tag = d.childText? id tag :=
  filter_eq_bind_nonEmpty _

theorem marks_marker? (d : Document) (below : Option NodeId) (tag : String) :
    d.Marks below tag (below.bind (d.marker? · tag)) := by
  intro said
  cases below with
  | none => simp
  | some id =>
      rw [Option.bind_some, marker?, optionalChild]
      cases hchildren : d.childrenTagged id tag with
      | nil => simp [hchildren]
      | cons child rest => simp [hchildren, eq_comm]

/-- The access type in the first `access` child is what its text says, if it is legal. -/
theorem text_childAccess? (h : ∀ value ∈ d.childAccessValues id, LegalAccess value) :
    (accessType? (d.childAccess? id)).map AccessType.text = d.childText? id "access" := by
  rw [childAccessValues] at h
  rw [accessType?, childAccess?, childText?]
  rw [optionalChildText] at h ⊢
  cases hchild : d.optionalChild id "access" with
  | none => rfl
  | some child =>
      have hlegal := h (d.trimmedText child) (by simp [hchild])
      simp only [Option.map_some, Option.bind_some]
      rw [text_ofText? hlegal]

/-! ### The lowest layer -/

theorem globalDeclarations_eq (d : Document) (root : NodeId) :
    d.globalDeclarations root = ((d.metadata? root).map d.metadataDeclarations).getD [] :=
  rfl

/-- What metadata sets for the classes of all documents. -/
def metadataDefaults (d : Document) (metadata : NodeId) : MappingDefault :=
  match d.unitDefaults? metadata with
  | none => { metadataComplete := d.marker? metadata "xml-mapping-metadata-complete" }
  | some unit =>
    { access := accessType? (d.childAccess? unit)
      schema := d.setting? unit "schema"
      catalog := d.setting? unit "catalog"
      metadataComplete := d.marker? metadata "xml-mapping-metadata-complete"
      cascadePersist := d.marker? unit "cascade-persist"
      delimitedIdentifiers := d.marker? unit "delimited-identifiers" }

/-- What metadata declares before its defaults. -/
def declarationsBeforeDefaults (d : Document) (metadata : NodeId) : List Declaration :=
  (d.unitDefaults? metadata).toList.flatMap fun unit =>
    ((d.childAccess? unit).map Declaration.access).toList ++ d.listeners none unit

/-- Metadata declares its defaults last. -/
theorem metadataDeclarations_eq (d : Document) (metadata : NodeId) :
    d.metadataDeclarations metadata =
      d.declarationsBeforeDefaults metadata ++ [.globals (d.metadataDefaults metadata)] := by
  rw [metadataDeclarations, declarationsBeforeDefaults, metadataDefaults, unitDefaults?]
  cases d.optionalChild metadata "persistence-unit-defaults" with
  | none => rfl
  | some unit => rw [Option.toList_some, List.flatMap_singleton]

theorem any_isGlobal_declarationsBeforeDefaults (d : Document) (metadata : NodeId) :
    (d.declarationsBeforeDefaults metadata).any Declaration.isGlobal = false := by
  rw [declarationsBeforeDefaults]
  cases d.unitDefaults? metadata with
  | none => rfl
  | some unit =>
      rw [Option.toList_some, List.flatMap_singleton, List.any_append, any_isGlobal_listeners]
      cases d.childAccess? unit <;> rfl

/-- What metadata sets, in the words of the document: texts and markers below it. -/
structure Lowest (d : Document) (metadata : NodeId) (defaults : MappingDefault) : Prop where
  access : defaults.access.map AccessType.text =
    (d.unitDefaults? metadata).bind (d.childText? · "access")
  package : defaults.package = none
  schema : defaults.schema = (d.unitDefaults? metadata).bind (d.childText? · "schema")
  catalog : defaults.catalog = (d.unitDefaults? metadata).bind (d.childText? · "catalog")
  metadataComplete :
    d.Marks (some metadata) "xml-mapping-metadata-complete" defaults.metadataComplete
  cascadePersist : d.Marks (d.unitDefaults? metadata) "cascade-persist" defaults.cascadePersist
  delimitedIdentifiers :
    d.Marks (d.unitDefaults? metadata) "delimited-identifiers" defaults.delimitedIdentifiers

/-- What metadata sets lies below its defaults for the persistence unit, if it has any, except for
one marker. -/
theorem metadataDefaults_eq (d : Document) (metadata : NodeId) :
    d.metadataDefaults metadata =
      { access := (d.unitDefaults? metadata).bind fun unit => accessType? (d.childAccess? unit)
        schema := (d.unitDefaults? metadata).bind (d.setting? · "schema")
        catalog := (d.unitDefaults? metadata).bind (d.setting? · "catalog")
        metadataComplete := d.marker? metadata "xml-mapping-metadata-complete"
        cascadePersist := (d.unitDefaults? metadata).bind (d.marker? · "cascade-persist")
        delimitedIdentifiers :=
          (d.unitDefaults? metadata).bind (d.marker? · "delimited-identifiers") } := by
  rw [metadataDefaults]
  cases d.unitDefaults? metadata <;> rfl

theorem lowest_metadataDefaults
    (h : ∀ declaration ∈ d.metadataDeclarations metadata, declaration.Sound loader) :
    d.Lowest metadata (d.metadataDefaults metadata) := by
  have hlegal := (d.metadataDeclarations_sound metadata loader).mp h
  rw [metadataDefaults_eq]
  refine ⟨?access, rfl, ?schema, ?catalog, d.marks_marker? (some metadata) _,
    d.marks_marker? _ _, d.marks_marker? _ _⟩
  case access =>
    cases hunit : d.unitDefaults? metadata with
    | none => rfl
    | some unit =>
        rw [hunit, Option.toList_some, List.flatMap_singleton] at hlegal
        exact text_childAccess? hlegal
  case schema => exact Option.bind_congr fun unit _ => d.setting?_eq unit "schema"
  case catalog => exact Option.bind_congr fun unit _ => d.setting?_eq unit "catalog"

/-! ### The layers above it -/

/-- What a class gets, in the words of its element and of its document, with the layer below
them. -/
structure Layered (d : Document) (root node : NodeId) (lowest defaults : MappingDefault) :
    Prop where
  access : defaults.access.map AccessType.text =
    (d.attributeText? node "access" <|> d.childText? root "access" <|>
      lowest.access.map AccessType.text)
  package : defaults.package = d.childText? root "package"
  schema : defaults.schema = (d.childText? root "schema" <|> lowest.schema)
  catalog : defaults.catalog = (d.childText? root "catalog" <|> lowest.catalog)
  metadataComplete : defaults.metadataComplete =
    ((d.attributeText? node "metadata-complete").map (fun text => decide (text.toLower = "true")) <|>
      lowest.metadataComplete)
  cascadePersist : defaults.cascadePersist = lowest.cascadePersist
  delimitedIdentifiers : defaults.delimitedIdentifiers = lowest.delimitedIdentifiers

/-- What the element of a class says of annotations. -/
theorem metadataComplete_classDefaults (d : Document) (node : NodeId) :
    (d.classDefaults node).metadataComplete =
      (d.attributeText? node "metadata-complete").map fun text => decide (text.toLower = "true") := by
  rw [classDefaults, attributeText?, filter_eq_bind_nonEmpty]
  refine Option.map_congr fun text _ => ?_
  rw [Bool.eq_iff_iff, equalsIgnoringCase_true, decide_eq_true_iff]

theorem layered_overriddenBy {lowest : MappingDefault} (hpackage : lowest.package = none)
    (hclass : LegalAccess (d.attributeText node "access"))
    (hunit : ∀ value ∈ d.childAccessValues root, LegalAccess value) :
    d.Layered root node lowest
      (lowest.overriddenBy ((d.unitDefaults root).overriddenBy (d.classDefaults node))) where
  access := by
    have hattribute : (d.classDefaults node).access.map AccessType.text =
        d.attributeText? node "access" :=
      (text_ofText? hclass).trans (nonEmpty_getD _)
    have hchild : (d.unitDefaults root).access.map AccessType.text = d.childText? root "access" :=
      text_childAccess? hunit
    simp only [MappingDefault.overriddenBy, Option.orElse_eq_orElse, Option.orElse_eq_or,
      Option.map_or, Option.or_assoc, hattribute, hchild]
  package := by simp [MappingDefault.overriddenBy, unitDefaults, classDefaults, hpackage, setting?_eq]
  schema := by simp [MappingDefault.overriddenBy, unitDefaults, classDefaults, setting?_eq]
  catalog := by simp [MappingDefault.overriddenBy, unitDefaults, classDefaults, setting?_eq]
  metadataComplete := by
    simp only [MappingDefault.overriddenBy, metadataComplete_classDefaults]
    simp [unitDefaults]
  cascadePersist := by simp [MappingDefault.overriddenBy, unitDefaults, classDefaults]
  delimitedIdentifiers := by simp [MappingDefault.overriddenBy, unitDefaults, classDefaults]

end Document

namespace OverrideRegistry

variable {α : Type} {r r' : OverrideRegistry α} {loader : ClassLoader α}
  {documents before : List Document} {d : Document} {root metadata : NodeId} {name : String}
  {registration : Registration} {declaration : Declaration} {declarations stood : List Declaration}
  {document : Nat}

/-! ### Classes that stand -/

/-- The access value of a class is that of its element. -/
theorem written_of_mappedClass {node : NodeId} {kind : ClassKind} {written : WrittenAccess}
    {defaults : MappingDefault}
    (h : .mappedClass name node kind written defaults ∈ d.unitDeclarations root) :
    written = d.attributeAccess node := by
  rw [Document.unitDeclarations_eq] at h
  simp only [List.mem_append, Option.mem_toList, Option.map_eq_some_iff, List.mem_flatMap,
    reduceCtorEq, and_false, exists_false, false_or] at h
  rcases h with ⟨⟨kind', node'⟩, -, h⟩ | hconverter
  · rw [Document.classDeclarations, List.mem_cons] at h
    rcases h with hclass | hlistener
    · cases hclass
      rfl
    · obtain ⟨listener, -, heq⟩ := Document.mem_listeners hlistener
      cases heq
  · obtain ⟨converter, -, heq⟩ := List.mem_map.mp hconverter
    cases heq

/-- What is declared for all documents is no class. -/
theorem mappedClass_not_mem_globalDeclarations {node : NodeId} {kind : ClassKind}
    {written : WrittenAccess} {defaults : MappingDefault} :
    .mappedClass name node kind written defaults ∉ d.globalDeclarations root := by
  rw [Document.globalDeclarations]
  cases d.optionalChild root "persistence-unit-metadata" with
  | none => simp
  | some metadata =>
      intro hmem
      have hclass : (name, kind) ∈ Declaration.classes (d.metadataDeclarations metadata) :=
        List.mem_filterMap.mpr ⟨_, hmem, rfl⟩
      rw [Document.classes_metadataDeclarations] at hclass
      cases hclass

/-- Once a class stands, its access value is known to be legal and so is that of its document,
which is declared before all classes. -/
theorem Stood.legal (h : Stood r d root stood r') {node : NodeId} {kind : ClassKind}
    {written : WrittenAccess} {defaults : MappingDefault}
    (hmem : .mappedClass name node kind written defaults ∈ stood) :
    LegalAccess (d.attributeText node "access") ∧
      ∀ value ∈ d.childAccessValues root, LegalAccess value := by
  have hsound := (effect_declareAll h.stands).sound
  have hdeclared := h.declared
  rw [declarationsOf, Document.unitDeclarations_eq, List.append_assoc,
    ← List.append_assoc] at hdeclared
  have hunit : .mappedClass name node kind written defaults ∈ d.unitDeclarations root := by
    rcases List.mem_append.mp (h.declared.subset hmem) with hglobal | hunit
    · split at hglobal
      · simp at hglobal
      · exact absurd hglobal mappedClass_not_mem_globalDeclarations
    · exact hunit
  constructor
  · have hlegal := hsound _ hmem
    rw [written_of_mappedClass hunit] at hlegal
    exact hlegal
  · -- What stood goes beyond the access value, as there is no class up to there.
    have haccess : ∀ declaration ∈ ((d.childAccess? root).map Declaration.access).toList,
        declaration.Sound r.loader := by
      intro declaration haccess
      rcases List.prefix_or_prefix_of_prefix hdeclared (List.prefix_append _ _) with hshort | hlong
      · rcases List.mem_append.mp (hshort.subset hmem) with hglobal | hclass
        · split at hglobal
          · simp at hglobal
          · exact absurd hglobal mappedClass_not_mem_globalDeclarations
        · simp at hclass
      · exact hsound _ (hlong.subset (List.mem_append_right _ haccess))
    exact Document.childAccess_sound.mp haccess

theorem Stood.legal_of_registered (h : Stood r d root stood r') {node : NodeId} {kind : ClassKind}
    {defaults : MappingDefault} {place : Nat}
    (hmem : ⟨name, place, node, .mappedClass kind defaults⟩ ∈
      Declaration.registrations document stood) :
    LegalAccess (d.attributeText node "access") ∧
      ∀ value ∈ d.childAccessValues root, LegalAccess value := by
  obtain ⟨declaration, hdeclaration, hregistration⟩ := List.mem_filterMap.mp hmem
  cases declaration with
  | mappedClass name' node' kind' written defaults' =>
      cases hregistration
      exact h.legal hdeclaration
  | access | listener | globals | converter => cases hregistration

/-! ### Metadata that stands -/

/-- Listeners can be declared if none of their names is that of a class. -/
theorem declareAll_listeners_iff (r : OverrideRegistry α) (document : Nat) (d : Document)
    (package : Option String) (nodes : List NodeId) :
    (r.declareAll document (nodes.map fun node =>
        .listener (qualifyClass (d.attributeText node "class") package) node)).1 = none ↔
      ∀ node ∈ nodes, ∀ registration,
        r.find? (qualifyClass (d.attributeText node "class") package) = some registration →
          registration.role = .listener := by
  induction nodes generalizing r with
  | nil => simp [declareAll]
  | cons node rest ih =>
      generalize hname : qualifyClass (d.attributeText node "class") package = name
      rw [List.map_cons, List.forall_mem_cons, hname, declareAll, declare]
      rcases hfind : r.find? name with _ | first
      · -- The name is new, and that of a listener from here on.
        show (declareAll _ document _).1 = none ↔ _
        rw [ih]
        refine Iff.trans ?_ (and_iff_right fun _ h => absurd h.symm (Option.some_ne_none _)).symm
        refine forall₂_congr fun node' _ => forall_congr' fun registration => ?_
        rw [find?_register r _ hfind]
        split
        · rename_i heq
          have hnone : r.find? (qualifyClass (d.attributeText node' "class") package) = none :=
            (congrArg r.find? heq).trans hfind
          rw [hnone]
          refine iff_of_true (fun h => ?_) fun h => absurd h.symm (Option.some_ne_none _)
          rw [← Option.some.inj h]
        · exact Iff.rfl
      · by_cases hrole : first.role = .listener
        · simp only [if_pos hrole]
          refine (ih r).trans (and_iff_right fun registration h => ?_).symm
          rwa [← Option.some.inj h]
        · simp only [if_neg hrole]
          exact iff_of_false (Option.some_ne_none _) fun h => hrole (h.1 first rfl)

/-- An access value that is declared changes nothing, and stands if it is legal. -/
theorem declareAll_access (r : OverrideRegistry α) (document : Nat) (d : Document) (id : NodeId) :
    r.declareAll document ((d.childAccess? id).map Declaration.access).toList = (none, r) ∧
        (∀ value ∈ d.childAccessValues id, LegalAccess value) ∨
      (∃ e, r.declareAll document ((d.childAccess? id).map Declaration.access).toList =
          (some e, r)) ∧
        ¬∀ value ∈ d.childAccessValues id, LegalAccess value := by
  have hsound : (∀ declaration ∈ ((d.childAccess? id).map Declaration.access).toList,
      declaration.Sound r.loader) ↔ _ := Document.childAccess_sound
  rw [← hsound]
  cases d.childAccess? id with
  | none => exact Or.inl ⟨rfl, by simp⟩
  | some written =>
      rw [Option.map_some, Option.toList_some, List.forall_mem_singleton, declareAll, declare]
      have hlegal := written.read_isOk_iff
      rcases hread : written.read with e | access
      · exact Or.inr ⟨⟨e, rfl⟩, fun h => by simpa [hread] using hlegal.mpr h⟩
      · exact Or.inl ⟨rfl, hlegal.mp ⟨access, hread⟩⟩

/-- Metadata stands if its access value is legal and none of its listeners has the name of a
class. -/
theorem stands_metadataDeclarations_iff (r : OverrideRegistry α) (document : Nat) (d : Document)
    (metadata : NodeId) :
    (∃ r', r.declareAll document (d.metadataDeclarations metadata) = (none, r')) ↔
      (∀ value ∈ (d.unitDefaults? metadata).toList.flatMap d.childAccessValues,
          LegalAccess value) ∧
        ∀ name ∈ d.declaredListeners metadata, ∀ registration,
          r.find? name = some registration → registration.role = .listener := by
  rw [d.metadataDeclarations_eq, declareAll_append, Document.declarationsBeforeDefaults,
    Document.declaredListeners]
  rcases d.unitDefaults? metadata with _ | unit
  · exact iff_of_true ⟨_, rfl⟩ ⟨List.forall_mem_nil _, List.forall_mem_nil _⟩
  rw [Option.toList_some, List.flatMap_singleton, List.flatMap_singleton, List.flatMap_singleton,
    declareAll_append, List.forall_mem_map]
  rcases r.declareAll_access document d unit with ⟨haccess, hlegal⟩ | ⟨⟨e, haccess⟩, hillegal⟩
  · -- The access value stands, so that it is for the listeners to stand.
    simp only [haccess, Document.listeners_eq]
    rw [and_iff_right hlegal]
    refine Iff.trans ?_ (r.declareAll_listeners_iff document d none (d.listenerElements unit))
    generalize r.declareAll document ((d.listenerElements unit).map _) = result
    rcases result with ⟨_ | e, r'⟩
    · exact iff_of_true ⟨_, rfl⟩ rfl
    · refine iff_of_false ?_ (Option.some_ne_none e)
      rintro ⟨_, h⟩
      cases h
  · rw [haccess]
    refine iff_of_false ?_ fun h => hillegal h.1
    rintro ⟨_, h⟩
    cases h

/-! ### Which metadata counts -/

theorem globals_declareAll (r : OverrideRegistry α) (document : Nat)
    (h : declarations.any Declaration.isGlobal = false) :
    (r.declareAll document declarations).2.globals = r.globals := by
  rcases r.declareAll_cases document declarations with
    ⟨r', hall⟩ | ⟨stood, failing, rest, r', e, rfl, hstood, -, hall⟩
  · rw [hall]
    exact (effect_declareAll hall).globals h
  · rw [hall]
    rw [List.any_append, Bool.or_eq_false_iff] at h
    exact (effect_declareAll hstood).globals h.1

/-- Metadata that is looked at counts just if all that it declares stands. -/
theorem globals_metadataDeclarations (hnone : r.globals = none) (document : Nat)
    (g : MappingDefault) :
    (r.declareAll document (d.metadataDeclarations metadata)).2.globals.map (·.defaults) = some g ↔
      (∃ r', r.declareAll document (d.metadataDeclarations metadata) = (none, r')) ∧
        g = d.metadataDefaults metadata := by
  have hglobals := r.globals_declareAll document (d.any_isGlobal_declarationsBeforeDefaults metadata)
  rw [d.metadataDeclarations_eq, declareAll_append]
  rcases hall : r.declareAll document (d.declarationsBeforeDefaults metadata) with ⟨_ | e, r'⟩
  · simp [declareAll, declare, eq_comm]
  · rw [hall] at hglobals
    have hnone' : r'.globals = none := hglobals.trans hnone
    simp [hnone']

theorem globals_declareAll_append (r : OverrideRegistry α) (document : Nat)
    (first : List Declaration) {second : List Declaration}
    (h : second.any Declaration.isGlobal = false) :
    (r.declareAll document (first ++ second)).2.globals =
      (r.declareAll document first).2.globals := by
  rw [declareAll_append]
  rcases r.declareAll document first with ⟨_ | e, r'⟩
  · exact globals_declareAll r' document h
  · rfl

theorem globals_add_of_rooted (r : OverrideRegistry α) (hroot : d.rootElement? = some root) :
    (r.add d).2.globals =
      (r.declareAll r.documents.size (r.declarationsOf d root)).2.globals := by
  simp only [add, hroot]
  split <;> rename_i hall <;> rw [hall]

/-- The metadata of a document counts from then on, if there was none before and all that it
declares stands. -/
theorem globals_add (r : OverrideRegistry α) (d : Document) (g : MappingDefault) :
    (r.add d).2.globals.map (·.defaults) = some g ↔
      r.globals.map (·.defaults) = some g ∨
        r.globals = none ∧ ∃ root metadata, d.rootElement? = some root ∧
          d.metadata? root = some metadata ∧
          (∃ r', r.declareAll r.documents.size (d.metadataDeclarations metadata) = (none, r')) ∧
          g = d.metadataDefaults metadata := by
  rcases hroot : d.rootElement? with _ | root
  · have hkept : (r.add d).2.globals = r.globals := by simp only [add, hroot]
    simp [hkept]
  rw [r.globals_add_of_rooted hroot, declarationsOf,
    globals_declareAll_append _ _ _ (d.any_isGlobal_unitDeclarations root)]
  rcases hglobals : r.globals with _ | global
  · -- Nothing counted before, so it is for the metadata of this document to stand.
    rw [Option.isSome_none, if_neg Bool.false_ne_true, d.globalDeclarations_eq root]
    rcases hmetadata : d.metadata? root with _ | metadata
    · simp [declareAll, hglobals, hmetadata]
    · rw [Option.map_some, Option.getD_some, globals_metadataDeclarations hglobals]
      simp [hmetadata]
  · rw [Option.isSome_some, if_pos rfl]
    simp [declareAll, hglobals]

/-- The metadata of a document that was added after others counts: there was none before, and all
that it declares stands. -/
structure Counts (loader : ClassLoader α) (before : List Document) (d : Document)
    (metadata : NodeId) : Prop where
  first : (after loader before).globals = none
  below : ∃ root, d.rootElement? = some root ∧ d.metadata? root = some metadata
  stands : ∃ r', (after loader before).declareAll before.length (d.metadataDeclarations metadata) =
    (none, r')

/-- The lowest layer is that of the metadata that counts. -/
theorem globals_after (loader : ClassLoader α) (documents : List Document) (g : MappingDefault) :
    (after loader documents).globals.map (·.defaults) = some g ↔
      ∃ before d later metadata, documents = before ++ d :: later ∧
        Counts loader before d metadata ∧ g = d.metadataDefaults metadata := by
  induction documents using List.reverseRecOn with
  | nil => simp
  | append_singleton documents d ih =>
      rw [after_concat, globals_add, ih, size_documents_after]
      constructor
      · rintro (⟨before, d', later, metadata, rfl, hcounts, hg⟩ |
          ⟨hnone, root, metadata, hroot, hmetadata, hstands, hg⟩)
        · exact ⟨before, d', later ++ [d], metadata, by simp, hcounts, hg⟩
        · exact ⟨documents, d, [], metadata, by simp,
            ⟨hnone, ⟨root, hroot, hmetadata⟩, hstands⟩, hg⟩
      · rintro ⟨before, d', later, metadata, hdocuments, hcounts, hg⟩
        rcases List.eq_nil_or_concat later with rfl | ⟨later, last, rfl⟩
        · obtain ⟨rfl, heq⟩ := List.append_inj' hdocuments rfl
          cases heq
          obtain ⟨root, hroot, hmetadata⟩ := hcounts.below
          exact Or.inr ⟨hcounts.first, root, metadata, hroot, hmetadata, hcounts.stands, hg⟩
        · rw [List.concat_eq_append, ← List.cons_append, ← List.append_assoc] at hdocuments
          obtain ⟨rfl, -⟩ := List.append_inj' hdocuments rfl
          exact Or.inl ⟨before, d', later, metadata, rfl, hcounts, hg⟩

/-- Metadata counts if that of no earlier document does, its access value is legal, and none of its
listeners has the name of a class. -/
theorem counts_iff (hroot : d.rootElement? = some root)
    (hmetadata : d.metadata? root = some metadata) :
    Counts loader before d metadata ↔
      (∀ earlier d' between metadata', before = earlier ++ d' :: between →
        ¬Counts loader earlier d' metadata') ∧
      (∀ value ∈ (d.unitDefaults? metadata).toList.flatMap d.childAccessValues,
        LegalAccess value) ∧
      ∀ name ∈ d.declaredListeners metadata, ∀ registration,
        (after loader before).find? name = some registration → registration.role = .listener := by
  have hfirst : (after loader before).globals = none ↔
      ∀ earlier d' between metadata', before = earlier ++ d' :: between →
        ¬Counts loader earlier d' metadata' := by
    constructor
    · intro hnone earlier d' between metadata' hbefore hcounts
      have hglobals := (globals_after loader before _).mpr
        ⟨earlier, d', between, metadata', hbefore, hcounts, rfl⟩
      rw [hnone] at hglobals
      cases hglobals
    · intro hnot
      rcases hglobals : (after loader before).globals with _ | g
      · rfl
      · obtain ⟨earlier, d', between, metadata', hbefore, hcounts, -⟩ :=
          (globals_after loader before g.defaults).mp (by rw [hglobals]; rfl)
        exact absurd hcounts (hnot earlier d' between metadata' hbefore)
  rw [← hfirst, ← stands_metadataDeclarations_iff (after loader before) before.length]
  exact ⟨fun h => ⟨h.first, h.stands⟩, fun h => ⟨h.1, ⟨root, hroot, hmetadata⟩, h.2⟩⟩

/-! ### Asking for defaults -/

theorem defaultsOf_none (r : OverrideRegistry α) :
    r.defaultsOf none = (r.globals.map (·.defaults)).getD {} := by
  rw [defaultsOf]
  cases r.globals <;> simp [MappingDefault.overrideWith]

theorem defaultsOf_some (r : OverrideRegistry α) (name : String) :
    r.defaultsOf (some name) =
      (r.defaultsOf none).overrideWith ((r.find? name).bind (·.defaults?)) := by
  simp [defaultsOf, MappingDefault.overrideWith]

/-- What is known of the defaults after documents were added, accepted or not. -/
structure NarrowestFirst (loader : ClassLoader α) (documents : List Document) : Prop where
  /-- A class gets what its element says, else what its document says, else what all get. -/
  classes : ∀ name registration kind, (after loader documents).find? name = some registration →
    registration.kind? = some kind →
      ∃ d root, documents[registration.document]? = some d ∧ d.rootElement? = some root ∧
        registration.node ∈ d.childrenTagged root kind.tag ∧
        (after loader documents).element? name = some (d, registration.node) ∧
        d.Layered root registration.node ((after loader documents).defaultsOf none)
          ((after loader documents).defaultsOf (some name))
  /-- Listeners and unknown names get what all get. -/
  others : ∀ name, (∀ registration, (after loader documents).find? name = some registration →
      registration.kind? = none) →
    (after loader documents).defaultsOf (some name) = (after loader documents).defaultsOf none
  /-- Metadata counts, if that of no earlier document does, its access value is legal and none of its
  listeners has the name of a class. -/
  counts : ∀ before d later root metadata, documents = before ++ d :: later →
    d.rootElement? = some root → d.metadata? root = some metadata →
      (Counts loader before d metadata ↔
        (∀ earlier d' between metadata', before = earlier ++ d' :: between →
          ¬Counts loader earlier d' metadata') ∧
        (∀ value ∈ (d.unitDefaults? metadata).toList.flatMap d.childAccessValues,
          LegalAccess value) ∧
        ∀ name ∈ d.declaredListeners metadata, ∀ registration,
          (after loader before).find? name = some registration → registration.role = .listener)
  /-- All get what the metadata that counts says. -/
  counted : ∀ before d later metadata, documents = before ++ d :: later →
    Counts loader before d metadata →
      d.Lowest metadata ((after loader documents).defaultsOf none)
  /-- If none counts, all get nothing. -/
  uncounted : (∀ before d later metadata, documents = before ++ d :: later →
      ¬Counts loader before d metadata) →
    (after loader documents).defaultsOf none = {}

/-- The lowest layer has no package. -/
theorem package_defaultsOf_none (loader : ClassLoader α) (documents : List Document) :
    ((after loader documents).defaultsOf none).package = none := by
  rw [defaultsOf_none]
  rcases hglobals : (after loader documents).globals.map (·.defaults) with _ | g
  · rw [hglobals]
    rfl
  · obtain ⟨before, d, later, metadata, -, -, rfl⟩ := (globals_after loader documents g).mp hglobals
    rw [hglobals, Option.getD_some, Document.metadataDefaults_eq]

/-- Defaults come from the narrowest layer that sets them, whatever the order of documents. -/
theorem narrowestFirst_after (loader : ClassLoader α) (documents : List Document) :
    NarrowestFirst loader documents where
  classes name registration kind hfind hkind := by
    obtain ⟨hmem, rfl⟩ := find?_some hfind
    obtain ⟨before, d, later, rfl, hmade⟩ := exists_madeBy hmem
    obtain ⟨root, stood, r', hstood, hregistered⟩ := hmade.declared
    obtain ⟨package, hdeclares, -⟩ := hstood.declares hregistered
    have helement := hmade.element? later
    have hplace : (before ++ d :: later)[registration.document]? = some d := by
      rw [hmade.document, List.getElem?_append_right (Nat.le_refl _)]
      simp
    refine ⟨d, root, hplace, hstood.rooted, ?_⟩
    rw [defaultsOf_some, hfind]
    obtain ⟨name, document, node, role⟩ := registration
    change d.Declares root node role package at hdeclares
    cases hdeclares with
    | mappedClass child =>
        cases hkind
        obtain ⟨hclass, hunit⟩ := hstood.legal_of_registered hregistered
        refine ⟨child, helement, ?_⟩
        exact Document.layered_overriddenBy (package_defaultsOf_none loader _) hclass hunit
    | classListener => cases hkind
    | unitListener => cases hkind
  others name h := by
    rw [defaultsOf_some]
    have hnone : ((after loader documents).find? name).bind (·.defaults?) = none := by
      rw [Option.bind_eq_none_iff]
      intro registration hfind
      have hkind := h registration hfind
      rw [Registration.kind?] at hkind
      rw [Registration.defaults?]
      split at hkind
      · cases hkind
      · simp [*]
    rw [hnone]
    rfl
  counts before d later root metadata _ hroot hmetadata := counts_iff hroot hmetadata
  counted before d later metadata hdocuments hcounts := by
    have hglobals := (globals_after loader documents _).mpr
      ⟨before, d, later, metadata, hdocuments, hcounts, rfl⟩
    obtain ⟨r', hstands⟩ := hcounts.stands
    rw [defaultsOf_none, hglobals, Option.getD_some]
    exact Document.lowest_metadataDefaults (effect_declareAll hstands).sound
  uncounted h := by
    rw [defaultsOf_none]
    rcases hglobals : (after loader documents).globals.map (·.defaults) with _ | g
    · rw [hglobals]
      rfl
    · obtain ⟨before, d, later, metadata, hdocuments, hcounts, -⟩ :=
        (globals_after loader documents g).mp hglobals
      exact absurd hcounts (h before d later metadata hdocuments)

/-- Metadata that comes after two classes gives them its schema and its markers, but for what the
second says itself. -/
theorem narrowestFirst_after_late_metadata :
    let classes : Document := [.createElement "entity-mappings", .append 0 1,
      .createElement "entity", .setAttribute 2 "class" "A", .append 1 2,
      .createElement "entity", .setAttribute 3 "class" "B",
      .setAttribute 3 "metadata-complete" "no", Request.append 1 3].foldl
        (fun d request => request.perform d) (.empty)
    let metadata : Document := [.createElement "entity-mappings", .append 0 1,
      .createElement "persistence-unit-metadata", .append 1 2,
      .createElement "xml-mapping-metadata-complete", .append 2 3,
      .createElement "persistence-unit-defaults", .append 2 4,
      .createElement "schema", .append 4 5, .createText " s ", .append 5 6,
      .createElement "cascade-persist", .append 4 7,
      .createElement "delimited-identifiers", Request.append 4 8].foldl
        (fun d request => request.perform d) (.empty)
    let loader : ClassLoader Unit := fun name => .error (.notFound name)
    let all : MappingDefault :=
      { schema := some "s"
        metadataComplete := some true
        cascadePersist := some true
        delimitedIdentifiers := some true }
    Counts loader [classes] metadata 2 ∧
      metadata.Lowest 2 ((after loader [classes, metadata]).defaultsOf none) ∧
      (after loader [classes, metadata]).defaultsOf none = all ∧
      (after loader [classes, metadata]).defaultsOf (some "A") = all ∧
      (after loader [classes, metadata]).defaultsOf (some "B") =
        { all with metadataComplete := some false } ∧
      (after loader [classes, metadata]).defaultsOf (some "C") = all ∧
      NarrowestFirst loader [classes, metadata] := by
  intro classes metadata loader all
  obtain ⟨hroot, hmetadata⟩ : metadata.rootElement? = some 1 ∧ metadata.metadata? 1 = some 2 := by
    decide +kernel
  obtain ⟨hfirst, hstands⟩ : (after loader [classes]).globals = none ∧
      ((after loader [classes]).declareAll 1 (metadata.metadataDeclarations 2)).1 = none := by
    decide +kernel
  obtain ⟨hall, hA, hB, hC⟩ : (after loader [classes, metadata]).defaultsOf none = all ∧
      (after loader [classes, metadata]).defaultsOf (some "A") = all ∧
      (after loader [classes, metadata]).defaultsOf (some "B") =
        { all with metadataComplete := some false } ∧
      (after loader [classes, metadata]).find? "C" = none := by
    decide +kernel
  clear_value classes metadata loader all
  have hcounts : Counts loader [classes] metadata 2 :=
    ⟨hfirst, ⟨1, hroot, hmetadata⟩, _, Prod.ext hstands rfl⟩
  have hlayers := narrowestFirst_after loader [classes, metadata]
  refine ⟨hcounts, hlayers.counted [classes] metadata [] 2 rfl hcounts, hall, hA, hB, ?_, hlayers⟩
  rw [← hall]
  refine hlayers.others "C" fun registration hfind => ?_
  rw [hC] at hfind
  cases hfind

end OverrideRegistry

end PersistenceMapping
