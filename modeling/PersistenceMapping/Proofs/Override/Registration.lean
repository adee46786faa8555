/-
When documents can be added, whatever their order.

Here it is said of documents, and not of declarations, what they ask of each other: what classes
they map (`Document.mappedClasses`), what listeners these have, and what listeners the first
metadata gives to all classes (`globalUnit?`).  That one must be the first is the one thing
about documents where their order counts.

The bridge is the list of all declarations of all documents.  Adding the documents one after the
other lets these declarations take effect one after the other, and the metadata of a document
is among them only if no document before it had any.
-/
import PersistenceMapping.Proofs.Override.Standing
import PersistenceMapping.Proofs.Tree.Reach

namespace PersistenceMapping

namespace Document

variable {α : Type} {loader : ClassLoader α} {d : Document} {root : NodeId} {id : NodeId}

/-! ### What a document says -/

/-- The elements of mapped classes below a root, with their kinds. -/
def classElements (d : Document) (root : NodeId) : List (ClassKind × NodeId) :=
  ClassKind.all.flatMap fun kind => (d.childrenTagged root kind.tag).map (kind, ·)

/-- The names of the mapped classes, qualified with the package of the document. -/
def mappedClasses (d : Document) (root : NodeId) : List (String × ClassKind) :=
  (d.classElements root).map fun (kind, node) =>
    (qualifyClass (d.attributeText node "class") (d.setting? root "package"), kind)

/-- The names of the listeners in the first list of listeners below a node. -/
def listenerNames (d : Document) (package : Option String) (id : NodeId) : List String :=
  ((d.optionalChild id "entity-listeners").toList.flatMap fun below =>
    d.childrenTagged below "entity-listener").map fun node =>
      qualifyClass (d.attributeText node "class") package

/-- The listeners of the mapped classes. -/
def classListeners (d : Document) (root : NodeId) : List String :=
  (d.classElements root).flatMap fun (_, node) =>
    d.listenerNames (d.setting? root "package") node

/-- The access value in the first `access` child, if there is one. -/
def childAccessValues (d : Document) (id : NodeId) : List String :=
  (d.optionalChildText id "access").toList

/-- The access values of the document and of its classes. -/
def accessValues (d : Document) (root : NodeId) : List String :=
  d.childAccessValues root
    ++ (d.classElements root).map fun (_, node) => d.attributeText node "access"

/-- The classes of the converters. -/
def converterClasses (d : Document) (root : NodeId) : List String :=
  (d.childrenTagged root "converter").map fun node => d.attributeText node "class"

/-- The metadata of the persistence unit. -/
def metadata? (d : Document) (root : NodeId) : Option NodeId :=
  d.optionalChild root "persistence-unit-metadata"

/-- The defaults that metadata gives to the classes of all documents. -/
def unitDefaults? (d : Document) (metadata : NodeId) : Option NodeId :=
  d.optionalChild metadata "persistence-unit-defaults"

/-! ### What that is as declarations -/

theorem childAccess_sound :
    (∀ declaration ∈ ((d.childAccess? id).map Declaration.access).toList,
        declaration.Sound loader) ↔
      ∀ value ∈ d.childAccessValues id, LegalAccess value := by
  rw [childAccess?, childAccessValues, optionalChildText]
  cases d.optionalChild id "access" <;> simp [Declaration.Sound]

theorem classes_listeners (package : Option String) :
    Declaration.classes (d.listeners package id) = [] := by
  rw [listeners, Declaration.classes]
  cases d.optionalChild id "entity-listeners" <;>
    simp [Declaration.class?, List.filterMap_eq_nil_iff]

theorem listeners_listeners (package : Option String) :
    Declaration.listeners (d.listeners package id) = d.listenerNames package id := by
  rw [listeners, Declaration.listeners, listenerNames]
  cases d.optionalChild id "entity-listeners" with
  | none => rfl
  | some below => simp [List.filterMap_map, Declaration.listener?, Function.comp_def]

theorem listeners_sound (package : Option String) :
    ∀ declaration ∈ d.listeners package id, declaration.Sound loader := by
  rw [listeners]
  cases d.optionalChild id "entity-listeners" <;> simp [Declaration.Sound]

/-- The declarations below a root, class by class. -/
theorem unitDeclarations_eq (d : Document) (root : NodeId) :
    d.unitDeclarations root =
      ((d.childAccess? root).map Declaration.access).toList
        ++ (d.classElements root).flatMap (fun (kind, node) =>
          d.classDeclarations (d.unitDefaults root) kind node)
        ++ d.converterDeclarations root := by
  rw [unitDeclarations, classElements, List.flatMap_assoc]
  simp only [List.flatMap_map]

theorem classes_unitDeclarations (d : Document) (root : NodeId) :
    Declaration.classes (d.unitDeclarations root) = d.mappedClasses root := by
  have haccess :
      Declaration.classes ((d.childAccess? root).map Declaration.access).toList = [] := by
    cases d.childAccess? root <;> rfl
  have hconverters : Declaration.classes (d.converterDeclarations root) = [] := by
    simp [Declaration.classes, converterDeclarations, Declaration.class?,
      List.filterMap_eq_nil_iff]
  have hclass : ∀ kind node, Declaration.classes
      (d.classDeclarations (d.unitDefaults root) kind node) =
        [(qualifyClass (d.attributeText node "class") (d.setting? root "package"), kind)] := by
    intro kind node
    rw [classDeclarations, ← List.singleton_append, Declaration.classes_append, classes_listeners]
    rfl
  rw [unitDeclarations_eq, Declaration.classes_append, Declaration.classes_append, haccess,
    hconverters, Declaration.classes_flatMap, mappedClasses, List.map_eq_flatMap]
  simp only [hclass, List.nil_append, List.append_nil]

theorem listeners_unitDeclarations (d : Document) (root : NodeId) :
    Declaration.listeners (d.unitDeclarations root) = d.classListeners root := by
  have haccess : Declaration.listeners ((d.childAccess? root).map Declaration.access).toList
      = [] := by
    cases d.childAccess? root <;> rfl
  have hconverters : Declaration.listeners (d.converterDeclarations root) = [] := by
    simp [Declaration.listeners, converterDeclarations, Declaration.listener?,
      List.filterMap_eq_nil_iff]
  have hclass : ∀ kind node, Declaration.listeners
      (d.classDeclarations (d.unitDefaults root) kind node) =
        d.listenerNames (d.setting? root "package") node := by
    intro kind node
    rw [classDeclarations, ← List.singleton_append, Declaration.listeners_append,
      listeners_listeners]
    rfl
  rw [unitDeclarations_eq, Declaration.listeners_append, Declaration.listeners_append, haccess,
    hconverters, Declaration.listeners_flatMap, classListeners]
  simp only [hclass, List.nil_append, List.append_nil]

/-- What the declarations below a root need of access values and converters. -/
theorem unitDeclarations_sound (d : Document) (root : NodeId) (loader : ClassLoader α) :
    (∀ declaration ∈ d.unitDeclarations root, declaration.Sound loader) ↔
      (∀ value ∈ d.accessValues root, LegalAccess value) ∧
        ∀ className ∈ d.converterClasses root, ∃ value, loader className = .ok (.ok value) := by
  have hclass : ∀ kind node,
      (∀ declaration ∈ d.classDeclarations (d.unitDefaults root) kind node,
        declaration.Sound loader) ↔ LegalAccess (d.attributeText node "access") := by
    intro kind node
    rw [classDeclarations, List.forall_mem_cons]
    exact and_iff_left (listeners_sound _)
  rw [unitDeclarations_eq, List.forall_mem_append, List.forall_mem_append, childAccess_sound,
    accessValues, List.forall_mem_append]
  refine and_congr (and_congr_right fun _ => ?_) ?_
  · simp only [List.forall_mem_flatMap, List.forall_mem_map, hclass]
  · simp only [converterDeclarations, converterClasses, List.forall_mem_map]
    rfl

/-- Metadata declares no classes. -/
theorem classes_metadataDeclarations (d : Document) (metadata : NodeId) :
    Declaration.classes (d.metadataDeclarations metadata) = [] := by
  rw [metadataDeclarations]
  cases d.optionalChild metadata "persistence-unit-defaults" with
  | none => rfl
  | some unit =>
      simp only [Declaration.classes_append, classes_listeners]
      cases d.childAccess? unit <;> rfl

/-- The listeners that metadata declares have names of their own, without a package. -/
theorem listeners_metadataDeclarations (d : Document) (metadata : NodeId) :
    Declaration.listeners (d.metadataDeclarations metadata) =
      (d.unitDefaults? metadata).toList.flatMap (d.listenerNames none) := by
  rw [metadataDeclarations, unitDefaults?]
  cases d.optionalChild metadata "persistence-unit-defaults" with
  | none => rfl
  | some unit =>
      simp only [Declaration.listeners_append, listeners_listeners]
      cases d.childAccess? unit <;> rfl

theorem metadataDeclarations_sound (d : Document) (metadata : NodeId) (loader : ClassLoader α) :
    (∀ declaration ∈ d.metadataDeclarations metadata, declaration.Sound loader) ↔
      ∀ value ∈ (d.unitDefaults? metadata).toList.flatMap d.childAccessValues,
        LegalAccess value := by
  rw [metadataDeclarations, unitDefaults?]
  cases d.optionalChild metadata "persistence-unit-defaults" with
  | none => simp [Declaration.Sound]
  | some unit =>
      simp only [List.forall_mem_append, childAccess_sound, Option.toList_some,
        List.flatMap_cons, List.flatMap_nil, List.append_nil]
      refine ⟨fun h => h.1.1, fun h => ⟨⟨h, listeners_sound none⟩, ?_⟩⟩
      simp [Declaration.Sound]

theorem any_isGlobal_metadataDeclarations (d : Document) (metadata : NodeId) :
    (d.metadataDeclarations metadata).any Declaration.isGlobal = true := by
  rw [metadataDeclarations]
  cases d.optionalChild metadata "persistence-unit-defaults" <;>
    simp [Declaration.isGlobal]

theorem any_isGlobal_listeners (d : Document) (package : Option String) (id : NodeId) :
    (d.listeners package id).any Declaration.isGlobal = false := by
  rw [listeners]
  cases d.optionalChild id "entity-listeners" <;> simp [Declaration.isGlobal]

theorem any_isGlobal_unitDeclarations (d : Document) (root : NodeId) :
    (d.unitDeclarations root).any Declaration.isGlobal = false := by
  rw [unitDeclarations_eq, List.any_append, List.any_append, List.any_flatMap]
  cases d.childAccess? root <;>
    simp [classDeclarations, any_isGlobal_listeners, converterDeclarations, Declaration.isGlobal]

end Document

/-! ### Documents one after the other -/

/-- A node of a document. -/
structure Place where
  document : Document
  node : NodeId

/-- The metadata that counts, given the roots of all documents: that of the first document that
has any. -/
def firstMetadata? (roots : List Place) : Option Place :=
  roots.findSome? fun r => (r.document.metadata? r.node).map (⟨r.document, ·⟩)

/-- The defaults in the metadata that counts. -/
def globalUnit? (roots : List Place) : Option Place :=
  (firstMetadata? roots).bind fun m => (m.document.unitDefaults? m.node).map (⟨m.document, ·⟩)

/-- The names of all mapped classes. -/
def mappedClasses (roots : List Place) : List (String × ClassKind) :=
  roots.flatMap fun r => r.document.mappedClasses r.node

/-- The names of all listeners, those for the classes of all documents included. -/
def listenerNames (roots : List Place) : List String :=
  (globalUnit? roots).toList.flatMap (fun unit => unit.document.listenerNames none unit.node)
    ++ roots.flatMap fun r => r.document.classListeners r.node

/-- All access values that are read. -/
def accessValues (roots : List Place) : List String :=
  (globalUnit? roots).toList.flatMap (fun unit => unit.document.childAccessValues unit.node)
    ++ roots.flatMap fun r => r.document.accessValues r.node

/-- Documents that can be added one after the other. -/
structure Registrable {α : Type} (loader : ClassLoader α) (roots : List Place) : Prop where
  /-- No two classes have one name. -/
  distinct : ((mappedClasses roots).map (·.1)).Nodup
  /-- No class is a listener. -/
  apart : ∀ c ∈ mappedClasses roots, c.1 ∉ listenerNames roots
  access : ∀ value ∈ accessValues roots, LegalAccess value
  converters : ∀ r ∈ roots, ∀ className ∈ r.document.converterClasses r.node,
    ∃ value, loader className = .ok (.ok value)

/-- All that documents declare, one after the other.  Metadata counts unless it is `taken`, that
is, a document before had some. -/
def allDeclarations (taken : Bool) : List Place → List Declaration
  | [] => []
  | r :: rest =>
    ((if taken then [] else r.document.globalDeclarations r.node)
        ++ r.document.unitDeclarations r.node)
      ++ allDeclarations (taken || (r.document.metadata? r.node).isSome) rest

/-- Once metadata is taken, what counts is the classes and what they say. -/
theorem allDeclarations_taken (roots : List Place) :
    allDeclarations true roots = roots.flatMap fun r => r.document.unitDeclarations r.node := by
  induction roots with
  | nil => rfl
  | cons r rest ih => rw [allDeclarations, Bool.true_or, ih, if_pos rfl, List.flatMap_cons,
      List.nil_append]

/-- The declarations of the metadata that counts, and then those of the documents themselves. -/
def sortedDeclarations (roots : List Place) : List Declaration :=
  (firstMetadata? roots).toList.flatMap (fun m => m.document.metadataDeclarations m.node)
    ++ roots.flatMap fun r => r.document.unitDeclarations r.node

/-- Metadata may as well come before everything else. -/
theorem allDeclarations_perm (roots : List Place) :
    (allDeclarations false roots).Perm (sortedDeclarations roots) := by
  induction roots with
  | nil => exact .nil
  | cons r rest ih =>
      rw [allDeclarations, if_neg Bool.false_ne_true, Bool.false_or, sortedDeclarations,
        firstMetadata?, List.findSome?_cons, Document.globalDeclarations]
      change (((r.document.metadata? r.node).map r.document.metadataDeclarations).getD [] ++ _
        ++ _).Perm _
      rcases r.document.metadata? r.node with _ | metadata
      · exact (ih.append_left _).trans (List.perm_append_comm_assoc _ _ _)
      · rw [Option.isSome_some, allDeclarations_taken]
        simp

theorem classes_sortedDeclarations (roots : List Place) :
    Declaration.classes (sortedDeclarations roots) = mappedClasses roots := by
  rw [sortedDeclarations, Declaration.classes_append, Declaration.classes_flatMap,
    Declaration.classes_flatMap, mappedClasses]
  simp [Document.classes_metadataDeclarations, Document.classes_unitDeclarations]

theorem listeners_sortedDeclarations (roots : List Place) :
    Declaration.listeners (sortedDeclarations roots) = listenerNames roots := by
  rw [sortedDeclarations, Declaration.listeners_append, Declaration.listeners_flatMap,
    Declaration.listeners_flatMap, listenerNames, globalUnit?]
  simp only [Document.listeners_unitDeclarations, Document.listeners_metadataDeclarations]
  rcases firstMetadata? roots with _ | m
  · rfl
  · cases h : m.document.unitDefaults? m.node <;> simp [h]

theorem sortedDeclarations_sound {α : Type} (loader : ClassLoader α) (roots : List Place) :
    (∀ declaration ∈ sortedDeclarations roots, declaration.Sound loader) ↔
      (∀ value ∈ accessValues roots, LegalAccess value) ∧
        ∀ r ∈ roots, ∀ className ∈ r.document.converterClasses r.node,
          ∃ value, loader className = .ok (.ok value) := by
  have hglobal : (∀ declaration ∈ (firstMetadata? roots).toList.flatMap
        (fun m => m.document.metadataDeclarations m.node), declaration.Sound loader) ↔
      ∀ value ∈ (globalUnit? roots).toList.flatMap
        (fun unit => unit.document.childAccessValues unit.node), LegalAccess value := by
    rw [globalUnit?]
    rcases firstMetadata? roots with _ | m
    · simp
    · simp only [Option.toList_some, List.flatMap_cons, List.flatMap_nil, List.append_nil,
        Document.metadataDeclarations_sound]
      cases h : m.document.unitDefaults? m.node <;> simp [h]
  rw [sortedDeclarations, accessValues, List.forall_mem_append, List.forall_mem_append, hglobal,
    and_assoc]
  refine and_congr_right fun _ => ?_
  simp only [List.forall_mem_flatMap, Document.unitDeclarations_sound]
  exact ⟨fun h => ⟨fun r hr => (h r hr).1, fun r hr => (h r hr).2⟩,
    fun h r hr => ⟨h.1 r hr, h.2 r hr⟩⟩

/-- It does not matter in what order declarations are allowed when there are none before. -/
theorem allowed_perm {α : Type} {loader : ClassLoader α} {first second : List Declaration}
    (h : first.Perm second) : Allowed loader [] [] first ↔ Allowed loader [] [] second := by
  have hclasses : (Declaration.classes first).Perm (Declaration.classes second) :=
    h.filterMap _
  have hlisteners : (Declaration.listeners first).Perm (Declaration.listeners second) :=
    h.filterMap _
  unfold Allowed
  refine and_congr ?_ ⟨?_, ?_⟩
  · simp only [h.mem_iff]
  · rintro ⟨hnodup, hapart⟩
    refine ⟨(hclasses.map _).nodup_iff.mp hnodup, fun c hc hmem => ?_⟩
    exact hapart c (hclasses.mem_iff.mpr hc) (hlisteners.mem_iff.mpr hmem)
  · rintro ⟨hnodup, hapart⟩
    refine ⟨(hclasses.map _).nodup_iff.mpr hnodup, fun c hc hmem => ?_⟩
    exact hapart c (hclasses.mem_iff.mp hc) (hlisteners.mem_iff.mp hmem)

theorem allowed_allDeclarations_iff {α : Type} (loader : ClassLoader α) (roots : List Place) :
    Allowed loader [] [] (allDeclarations false roots) ↔ Registrable loader roots := by
  rw [allowed_perm (allDeclarations_perm roots), Allowed, sortedDeclarations_sound,
    classes_sortedDeclarations, listeners_sortedDeclarations, List.nil_append, List.nil_append]
  constructor
  · rintro ⟨⟨haccess, hconverters⟩, hc⟩
    exact ⟨hc.nodup, hc.apart, haccess, hconverters⟩
  · rintro ⟨hdistinct, hapart, haccess, hconverters⟩
    exact ⟨⟨haccess, hconverters⟩, hdistinct, hapart⟩

namespace OverrideRegistry

variable {α : Type} {r r' : OverrideRegistry α} {classes : List (String × ClassKind)}
  {listeners : List String} {d : Document} {root : NodeId}

/-- Adds documents one after the other; the failure of one does not affect the others. -/
def addAll (r : OverrideRegistry α) :
    List Document → List (Except MappingError (List String)) × OverrideRegistry α
  | [] => ([], r)
  | d :: rest =>
    let (result, r) := r.add d
    let (results, r) := r.addAll rest
    (result :: results, r)

/-- The roots of the documents that have one. -/
def rooted (documents : List Document) : List Place :=
  documents.filterMap fun d => d.rootElement?.map (⟨d, ·⟩)

/-- A document is added just if what it declares is allowed. -/
theorem add_spec (h : Describes r classes listeners) (hc : Consistent classes listeners)
    (hroot : d.rootElement? = some root) :
    (Allowed r.loader classes listeners (r.declarationsOf d root) ∧
        (∃ names, (r.add d).1 = .ok names) ∧
        Takes r (r.add d).2 (classes ++ Declaration.classes (r.declarationsOf d root))
          (listeners ++ Declaration.listeners (r.declarationsOf d root))
          ((r.declarationsOf d root).any Declaration.isGlobal)) ∨
      ¬Allowed r.loader classes listeners (r.declarationsOf d root) ∧
        ∃ e, (r.add d).1 = .error e := by
  have hspec := declareAll_spec h hc r.documents.size (r.declarationsOf d root)
  rcases hall : r.declareAll r.documents.size (r.declarationsOf d root) with ⟨_ | e, r'⟩
  · have hadd : r.add d =
        (.ok (r'.namesOf r.documents.size), { r' with documents := r'.documents.push d }) := by
      simp only [add, hroot, hall]
    rw [hall] at hspec
    rw [hadd]
    rcases hspec with ⟨hallowed, -, htakes⟩ | ⟨-, hsome⟩
    · refine Or.inl ⟨hallowed, ⟨_, rfl⟩, ⟨?_, ?_⟩, htakes.loader, htakes.globals⟩
      · exact htakes.describes.classes
      · exact htakes.describes.listeners
    · exact absurd rfl hsome
  · have hadd : (r.add d).1 = .error e := by simp only [add, hroot, hall]
    rw [hall] at hspec
    rcases hspec with ⟨-, hnone, -⟩ | ⟨hnot, -⟩
    · cases hnone
    · exact Or.inr ⟨hnot, e, hadd⟩

/-- Once a document has been added, metadata is taken if it had some. -/
theorem any_isGlobal_declarationsOf (r : OverrideRegistry α) (d : Document) (root : NodeId) :
    (r.globals.isSome || (r.declarationsOf d root).any Declaration.isGlobal) =
      (r.globals.isSome || (d.metadata? root).isSome) := by
  rw [declarationsOf, List.any_append, Document.any_isGlobal_unitDeclarations, Bool.or_false]
  cases r.globals.isSome
  · rw [if_neg Bool.false_ne_true, Document.globalDeclarations]
    change (((d.metadata? root).map d.metadataDeclarations).getD []).any _ = _
    cases d.metadata? root with
    | none => rfl
    | some metadata => exact d.any_isGlobal_metadataDeclarations metadata
  · rfl

/-- Documents are added just if all that they declare together is allowed, and then that is
what is registered. -/
theorem addAll_spec (h : Describes r classes listeners) (hc : Consistent classes listeners)
    (documents : List Document) (hroots : ∀ d ∈ documents, d.rootElement?.isSome = true) :
    ((∀ result ∈ (r.addAll documents).1, ∃ names, result = .ok names) ↔
        Allowed r.loader classes listeners
          (allDeclarations r.globals.isSome (rooted documents))) ∧
      ((∀ result ∈ (r.addAll documents).1, ∃ names, result = .ok names) →
        Describes (r.addAll documents).2
          (classes ++ Declaration.classes (allDeclarations r.globals.isSome (rooted documents)))
          (listeners ++
            Declaration.listeners (allDeclarations r.globals.isSome (rooted documents)))) := by
  induction documents generalizing r classes listeners with
  | nil =>
      have hallowed : Allowed r.loader classes listeners [] :=
        ⟨by simp, by simpa [Declaration.classes, Declaration.listeners] using hc⟩
      refine ⟨⟨fun _ => hallowed, by simp [addAll]⟩, fun _ => ?_⟩
      simpa [addAll, rooted, allDeclarations, Declaration.classes, Declaration.listeners] using h
  | cons d rest ih =>
      obtain ⟨root, hroot⟩ := Option.isSome_iff_exists.mp (hroots d (by simp))
      have hrooted : rooted (d :: rest) = ⟨d, root⟩ :: rooted rest := by
        simp [rooted, hroot]
      have hall : allDeclarations r.globals.isSome (rooted (d :: rest)) =
          r.declarationsOf d root ++
            allDeclarations (r.globals.isSome || (d.metadata? root).isSome) (rooted rest) := by
        rw [hrooted]
        rfl
      have hadd : r.addAll (d :: rest) =
          ((r.add d).1 :: ((r.add d).2.addAll rest).1, ((r.add d).2.addAll rest).2) := rfl
      rw [hall, allowed_append, hadd, List.forall_mem_cons, Declaration.classes_append,
        Declaration.listeners_append, ← List.append_assoc, ← List.append_assoc]
      rcases add_spec h hc hroot with ⟨hallowed, hok, htakes⟩ | ⟨hnot, e, herror⟩
      · have hrest := ih htakes.describes hallowed.2 fun d hd => hroots d (by simp [hd])
        rw [htakes.loader, htakes.globals, any_isGlobal_declarationsOf] at hrest
        refine ⟨?_, fun hresults => hrest.2 hresults.2⟩
        rw [and_iff_right hok, and_iff_right hallowed]
        exact hrest.1
      · have hbad : ¬∃ names, (r.add d).1 = .ok names := by simp [herror]
        exact ⟨iff_of_false (fun hresults => hbad hresults.1) fun hall => hnot hall.1,
          fun hresults => absurd hresults.1 hbad⟩

/-- Documents with root elements that are added to a new registry are all accepted just if they
can be registered, and then the registered names are those of their classes and listeners, each
of the kind that it is declared as. -/
theorem addAll_iff_registrable (loader : ClassLoader α) (documents : List Document)
    (hroots : ∀ d ∈ documents, d.rootElement?.isSome = true) :
    ((∀ result ∈ (addAll { loader } documents).1, ∃ names, result = .ok names) ↔
        Registrable loader (rooted documents)) ∧
      ((∀ result ∈ (addAll { loader } documents).1, ∃ names, result = .ok names) →
        Describes (addAll { loader } documents).2 (mappedClasses (rooted documents))
          (listenerNames (rooted documents))) := by
  have hc : Consistent [] [] := ⟨by simp, by simp⟩
  obtain ⟨hiff, hdescribes⟩ := addAll_spec (describes_empty loader) hc documents hroots
  have hperm := allDeclarations_perm (rooted documents)
  refine ⟨hiff.trans (allowed_allDeclarations_iff loader _), fun hresults => ?_⟩
  obtain ⟨hclasses, hlisteners⟩ := hdescribes hresults
  constructor
  · intro name kind
    rw [hclasses, ← classes_sortedDeclarations]
    exact (hperm.filterMap _).mem_iff
  · intro name
    rw [hlisteners, ← listeners_sortedDeclarations]
    exact (hperm.filterMap _).mem_iff

/-- Two documents that map a class of the same name can be registered, because one of them has a
package. -/
theorem registrable_of_packages :
    let plain : Document := [.createElement "entity-mappings", .append 0 1,
      .createElement "entity", .setAttribute 2 "class" "A", Request.append 1 2].foldl
        (fun d request => request.perform d) (.empty)
    let packaged : Document := [.createElement "entity-mappings", .append 0 1,
      .createElement "package", .createText " p ", .append 2 3, .append 1 2,
      .createElement "entity", .setAttribute 4 "class" "A", Request.append 1 4].foldl
        (fun d request => request.perform d) (.empty)
    let loader : ClassLoader Unit := fun name => .error (.notFound name)
    (addAll { loader } [plain, packaged]).1 = [.ok ["A"], .ok ["p.A"]] ∧
      Registrable loader (rooted [plain, packaged]) := by
  intro plain packaged loader
  have hadded : (addAll { loader } [plain, packaged]).1 = [.ok ["A"], .ok ["p.A"]] := by
    decide +kernel
  refine ⟨hadded, (addAll_iff_registrable loader [plain, packaged] (by decide +kernel)).1.mp ?_⟩
  rw [hadded]
  simp

end OverrideRegistry

end PersistenceMapping
