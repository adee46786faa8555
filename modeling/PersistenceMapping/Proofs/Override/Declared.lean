/-
Where the declarations of a document come from.

A name is declared by an element in one of three places: a mapped class is a child of the root,
a listener of a class stands in the `entity-listeners` of such a child, and a listener of all
classes in those of the defaults of the persistence unit (`Document.Declares`).  The place
settles the package that qualifies the name and, for a class, the defaults that it gets.

The elements that declare names come in one order, that in which their declarations take effect
(`Document.namings`): the listeners of all classes, then class by class, each followed by its
listeners.  So whatever part of the declarations stands, the names that it declares are those of the
first of these elements.
-/
import PersistenceMapping.Proofs.Override.Registered
import PersistenceMapping.Proofs.Override.Registration

namespace PersistenceMapping

/-- The tag of the elements that are registered in a role. -/
def Role.tag : Role → String
  | .mappedClass kind _ => kind.tag
  | .listener => "entity-listener"

/-- The name that is declared, with the element that declares it. -/
def Declaration.named? : Declaration → Option (String × NodeId)
  | listener name node => some (name, node)
  | mappedClass name node _ _ _ => some (name, node)
  | _ => none

theorem Declaration.map_fst_named? (declarations : List Declaration) :
    (declarations.filterMap named?).map (·.1) = names declarations := by
  rw [names, List.map_filterMap]
  refine congrArg (declarations.filterMap ·) (funext fun declaration => ?_)
  cases declaration <;> rfl

/-- An element that declares a name, and the package that qualifies the name. -/
structure Naming where
  node : NodeId
  package : Option String
  deriving DecidableEq, Repr

namespace Document

variable {α : Type} {r : OverrideRegistry α} {d : Document}
  {root id node metadata : NodeId}

/-- The elements in the first list of listeners below a node. -/
def listenerElements (d : Document) (id : NodeId) : List NodeId :=
  (d.optionalChild id "entity-listeners").toList.flatMap fun below =>
    d.childrenTagged below "entity-listener"

/-- The elements of a document that declare a name, with what they declare and with the package
that applies to the name. -/
inductive Declares (d : Document) (root : NodeId) : NodeId → Role → Option String → Prop
  | mappedClass {kind : ClassKind} {node : NodeId} (child : node ∈ d.childrenTagged root kind.tag) :
      Declares d root node
        (.mappedClass kind ((d.unitDefaults root).overriddenBy (d.classDefaults node)))
        (d.setting? root "package")
  | classListener {kind : ClassKind} {owner node : NodeId}
      (child : owner ∈ d.childrenTagged root kind.tag)
      (listener : node ∈ d.listenerElements owner) :
      Declares d root node .listener (d.setting? root "package")
  | unitListener {metadata unit node : NodeId} (hmetadata : d.metadata? root = some metadata)
      (hunit : d.unitDefaults? metadata = some unit) (listener : node ∈ d.listenerElements unit) :
      Declares d root node .listener none

theorem isElement_of_mem_childrenTagged {tag : String} (h : node ∈ d.childrenTagged id tag) :
    d.isElement node = true ∧ d.matchesTag tag node = true := by
  obtain ⟨hchild, htag⟩ := List.mem_filter.mp h
  exact ⟨(List.mem_filter.mp hchild).2, htag⟩

theorem isElement_of_mem_listenerElements (h : node ∈ d.listenerElements id) :
    d.isElement node = true ∧ d.matchesTag "entity-listener" node = true := by
  obtain ⟨below, -, hnode⟩ := List.mem_flatMap.mp h
  exact isElement_of_mem_childrenTagged hnode

/-- What declares a name is an element with the tag of its role. -/
theorem Declares.isElement {role : Role} {package : Option String}
    (h : d.Declares root node role package) :
    d.isElement node = true ∧ d.matchesTag role.tag node = true := by
  cases h with
  | mappedClass child => exact isElement_of_mem_childrenTagged child
  | classListener _ listener => exact isElement_of_mem_listenerElements listener
  | unitListener _ _ listener => exact isElement_of_mem_listenerElements listener

/-! ### Listeners -/

/-- Listeners are declared by the elements below, one after the other. -/
theorem listeners_eq (d : Document) (package : Option String) (id : NodeId) :
    d.listeners package id = (d.listenerElements id).map fun node =>
      .listener (qualifyClass (d.attributeText node "class") package) node := by
  rw [listeners, listenerElements]
  cases d.optionalChild id "entity-listeners" with
  | none => rfl
  | some below => rw [Option.map_some, Option.getD_some, Option.toList_some, List.flatMap_singleton]

theorem mem_listeners {package : Option String} {declaration : Declaration}
    (h : declaration ∈ d.listeners package id) :
    ∃ node ∈ d.listenerElements id,
      declaration = .listener (qualifyClass (d.attributeText node "class") package) node := by
  rw [listeners_eq] at h
  obtain ⟨node, hnode, rfl⟩ := List.mem_map.mp h
  exact ⟨node, hnode, rfl⟩

/-! ### What declares a name -/

/-- Of the declarations for all documents, those that register names are listeners without a
package. -/
theorem declares_of_mem_globalDeclarations {declaration : Declaration} {document : Nat}
    {registration : Registration} (h : declaration ∈ d.globalDeclarations root)
    (hregistration : declaration.registration? document = some registration) :
    ∃ package, d.Declares root registration.node registration.role package ∧
      registration.name =
        qualifyClass (d.attributeText registration.node "class") package := by
  rw [globalDeclarations] at h
  change declaration ∈ ((d.metadata? root).map d.metadataDeclarations).getD [] at h
  rcases hmetadata : d.metadata? root with _ | metadata
  · simp [hmetadata] at h
  rw [hmetadata, Option.map_some, Option.getD_some, metadataDeclarations] at h
  rcases hunit : d.unitDefaults? metadata with _ | unit <;> rw [unitDefaults?] at hunit
  · rw [hunit] at h
    rw [List.mem_singleton.mp h] at hregistration
    cases hregistration
  rw [hunit] at h
  simp only [List.mem_append, List.mem_singleton, Option.mem_toList, Option.map_eq_some_iff] at h
  rcases h with (⟨written, -, rfl⟩ | hlistener) | rfl
  · cases hregistration
  · obtain ⟨node, hnode, rfl⟩ := mem_listeners hlistener
    cases hregistration
    exact ⟨none, .unitListener hmetadata hunit hnode, rfl⟩
  · cases hregistration

/-- Below the root, classes and the listeners of classes register names, with the package of the
document. -/
theorem declares_of_mem_unitDeclarations {declaration : Declaration} {document : Nat}
    {registration : Registration} (h : declaration ∈ d.unitDeclarations root)
    (hregistration : declaration.registration? document = some registration) :
    ∃ package, d.Declares root registration.node registration.role package ∧
      registration.name =
        qualifyClass (d.attributeText registration.node "class") package := by
  rw [unitDeclarations_eq] at h
  simp only [List.mem_append, Option.mem_toList, Option.map_eq_some_iff, List.mem_flatMap] at h
  rcases h with (⟨written, -, rfl⟩ | ⟨⟨kind, node⟩, hclass, h⟩) | hconverter
  · cases hregistration
  · have hchild : node ∈ d.childrenTagged root kind.tag := by
      obtain ⟨kind', -, hkind⟩ := List.mem_flatMap.mp hclass
      obtain ⟨node', hnode, heq⟩ := List.mem_map.mp hkind
      cases heq
      exact hnode
    rw [classDeclarations, List.mem_cons] at h
    rcases h with rfl | hlistener
    · cases hregistration
      exact ⟨_, .mappedClass hchild, rfl⟩
    · obtain ⟨listener, hnode, rfl⟩ := mem_listeners hlistener
      cases hregistration
      exact ⟨_, .classListener hchild hnode, rfl⟩
  · obtain ⟨node, -, rfl⟩ := List.mem_map.mp hconverter
    cases hregistration

/-! ### What metadata declares -/

/-- The names of the listeners that metadata declares for all classes, in their order. -/
def declaredListeners (d : Document) (metadata : NodeId) : List String :=
  ((d.unitDefaults? metadata).toList.flatMap d.listenerElements).map (d.attributeText · "class")

theorem names_listeners (d : Document) (id : NodeId) :
    Declaration.names (d.listeners none id) =
      (d.listenerElements id).map (d.attributeText · "class") := by
  rw [Declaration.names, listeners_eq, List.filterMap_map]
  exact congrFun List.filterMap_eq_map _

/-- The names that metadata declares are those of its listeners. -/
theorem names_metadataDeclarations (d : Document) (metadata : NodeId) :
    Declaration.names (d.metadataDeclarations metadata) = d.declaredListeners metadata := by
  rw [metadataDeclarations, declaredListeners, unitDefaults?]
  cases d.optionalChild metadata "persistence-unit-defaults" with
  | none => rfl
  | some unit =>
      show Declaration.names (_ ++ d.listeners none unit ++ [_]) = _
      rw [Option.toList_some, List.flatMap_singleton, ← names_listeners]
      cases d.childAccess? unit <;>
        simp [Declaration.names, Declaration.registration?]

/-- A name is declared by a listener of the metadata. -/
theorem exists_of_mem_declaredListeners {name : String}
    (h : name ∈ d.declaredListeners metadata) :
    ∃ node, Declaration.listener name node ∈ d.metadataDeclarations metadata := by
  rw [← names_metadataDeclarations] at h
  obtain ⟨declaration, hmem, hname⟩ := List.mem_filterMap.mp h
  cases declaration with
  | listener name' node =>
      cases hname
      exact ⟨node, hmem⟩
  | mappedClass name' node kind written defaults =>
      have hclass : (name', kind) ∈ Declaration.classes (d.metadataDeclarations metadata) :=
        List.mem_filterMap.mpr ⟨_, hmem, rfl⟩
      rw [classes_metadataDeclarations] at hclass
      cases hclass
  | access | globals | converter => cases hname

/-! ### The elements that declare names, in their order -/

/-- The name that an element declares. -/
def nameOf (d : Document) (naming : Naming) : String :=
  qualifyClass (d.attributeText naming.node "class") naming.package

/-- The elements that declare the listeners of all classes. -/
def globalNamings (d : Document) (root : NodeId) : List Naming :=
  ((d.metadata? root).bind d.unitDefaults?).toList.flatMap fun unit =>
    (d.listenerElements unit).map (⟨·, none⟩)

/-- The elements of the mapped classes, kind by kind, each followed by those of its listeners. -/
def unitNamings (d : Document) (root : NodeId) : List Naming :=
  (d.childrenTagged root "entity" ++ d.childrenTagged root "mapped-superclass" ++
      d.childrenTagged root "embeddable").flatMap fun node =>
    (node :: d.listenerElements node).map (⟨·, d.setting? root "package"⟩)

/-- All elements that declare names, in the order in which they take effect.  Those for all classes
do unless metadata is `taken`, that is, some counts already. -/
def namings (d : Document) (root : NodeId) (taken : Bool) : List Naming :=
  (if taken then [] else d.globalNamings root) ++ d.unitNamings root

/-- What an element declares as a name. -/
def named (d : Document) (naming : Naming) : String × NodeId :=
  (d.nameOf naming, naming.node)

theorem named_listeners (d : Document) (package : Option String) (id : NodeId) :
    (d.listeners package id).filterMap Declaration.named? =
      ((d.listenerElements id).map (⟨·, package⟩)).map d.named := by
  rw [listeners_eq, List.filterMap_map, List.map_map]
  exact congrFun List.filterMap_eq_map _

theorem named_globalDeclarations (d : Document) (root : NodeId) :
    (d.globalDeclarations root).filterMap Declaration.named? = (d.globalNamings root).map d.named := by
  have hdeclared : d.globalDeclarations root =
      ((d.metadata? root).map d.metadataDeclarations).getD [] := rfl
  rw [hdeclared, globalNamings]
  rcases d.metadata? root with _ | metadata
  · rfl
  rw [Option.map_some, Option.getD_some, Option.bind_some, metadataDeclarations, unitDefaults?]
  cases d.optionalChild metadata "persistence-unit-defaults" with
  | none => rfl
  | some unit =>
      have haccess : ((d.childAccess? unit).map Declaration.access).toList.filterMap
          Declaration.named? = [] := by
        cases d.childAccess? unit <;> rfl
      rw [Option.toList_some, List.flatMap_singleton, ← named_listeners]
      simp only [List.filterMap_append, haccess, List.nil_append]
      exact List.append_nil _

theorem map_snd_classElements (d : Document) (root : NodeId) :
    (d.classElements root).map (·.2) = d.childrenTagged root "entity" ++
      d.childrenTagged root "mapped-superclass" ++ d.childrenTagged root "embeddable" := by
  simp [classElements, ClassKind.all, ClassKind.tag, List.map_append, Function.comp_def]

theorem named_unitDeclarations (d : Document) (root : NodeId) :
    (d.unitDeclarations root).filterMap Declaration.named? = (d.unitNamings root).map d.named := by
  have haccess : ((d.childAccess? root).map Declaration.access).toList.filterMap
      Declaration.named? = [] := by
    cases d.childAccess? root <;> rfl
  have hconverters : (d.converterDeclarations root).filterMap Declaration.named? = [] := by
    rw [converterDeclarations, List.filterMap_map, List.filterMap_eq_nil_iff]
    exact fun _ _ => rfl
  rw [unitDeclarations_eq, List.filterMap_append, List.filterMap_append, haccess, hconverters,
    List.filterMap_flatMap, unitNamings, List.map_flatMap, List.nil_append, List.append_nil,
    ← map_snd_classElements, List.flatMap_map]
  refine congrArg ((d.classElements root).flatMap ·) (funext ?_)
  rintro ⟨kind, node⟩
  show (d.classDeclarations (d.unitDefaults root) kind node).filterMap Declaration.named? =
    ((node :: d.listenerElements node).map (⟨·, d.setting? root "package"⟩)).map d.named
  rw [classDeclarations, List.map_cons, List.map_cons, ← named_listeners]
  rfl

end Document

namespace OverrideRegistry

/-- The names of a document are declared by its elements, one after the other. -/
theorem named_declarationsOf {α : Type} (r : OverrideRegistry α) (d : Document) (root : NodeId) :
    (r.declarationsOf d root).filterMap Declaration.named? =
      (d.namings root r.globals.isSome).map d.named := by
  rw [declarationsOf, Document.namings, List.filterMap_append, List.map_append,
    Document.named_unitDeclarations]
  split
  · rfl
  · rw [Document.named_globalDeclarations]

variable {α : Type} {r r' : OverrideRegistry α} {d : Document} {root : NodeId}
  {stood : List Declaration} {registration : Registration}

/-- What a document registers is declared by one of its elements, and its name is the qualified
class of that element. -/
theorem Stood.declares (h : Stood r d root stood r') {document : Nat}
    (hmem : registration ∈ Declaration.registrations document stood) :
    ∃ package, d.Declares root registration.node registration.role package ∧
      registration.name =
        qualifyClass (d.attributeText registration.node "class") package := by
  obtain ⟨declaration, hdeclaration, hregistration⟩ := List.mem_filterMap.mp hmem
  have hdeclared := h.declared.subset hdeclaration
  rw [declarationsOf] at hdeclared
  rcases List.mem_append.mp hdeclared with hglobal | hunit
  · split at hglobal
    · simp at hglobal
    · exact Document.declares_of_mem_globalDeclarations hglobal hregistration
  · exact Document.declares_of_mem_unitDeclarations hunit hregistration

end OverrideRegistry

end PersistenceMapping
