/-
What a mapping takes from the document: members, classes and the whole.

Members and subclasses stand in each other, so what gives them is a relation of its own, and that
they are given is shown along the tree of bound elements.  With the parts that they are made of
(`Proofs/Mapping/Parts`) this covers all of a mapping (`Schema.Hierarchical.unmarshal_given`).
-/
import PersistenceMapping.Proofs.Dispatch
import PersistenceMapping.Proofs.Mapping.Congruence
import PersistenceMapping.Proofs.Mapping.Parts

namespace PersistenceMapping

namespace Mapping

open Schema.Hierarchical

/-! ### Members -/

/-- A property has the name and the columns that its tag gives, and the parameters of the type below
it. -/
structure Property.GivenBy (p : Property) (t : TagTree) : Prop where
  name : t.Gives "name" p.name
  typeParams : List.Forall₂ Param.GivenBy p.typeParams
    (((t.child? "type").map (·.childrenNamed "param")).getD [])
  columns : ColumnsGivenBy p.columns t
  metas : List.Forall₂ Meta.GivenBy p.metas (t.childrenNamed "meta")

/-- A reference to another class has the name and the columns that its tag gives. -/
structure ManyToOne.GivenBy (r : ManyToOne) (t : TagTree) : Prop where
  name : t.Gives "name" r.name
  columns : ColumnsGivenBy r.columns t
  metas : List.Forall₂ Meta.GivenBy r.metas (t.childrenNamed "meta")

/-- A reference that shares its key with another class has the name that its tag gives. -/
def OneToOne.GivenBy (r : OneToOne) (t : TagTree) : Prop :=
  t.Gives "name" r.name

/-- A component, apart from its members, has the name that its tag gives. -/
structure Component.GivenBy (c : Component) (t : TagTree) : Prop where
  name : t.Gives "name" c.name
  metas : List.Forall₂ Meta.GivenBy c.metas (t.childrenNamed "meta")

/-- A group of properties, apart from its members, has the name that its tag gives. -/
def Group.GivenBy (g : Group) (t : TagTree) : Prop :=
  t.Gives "name" g.name

/-- A reference to any class has the name, the type of its identifiers and the columns that its tag
gives, and the meta values below it. -/
structure AnyReference.GivenBy (r : AnyReference) (t : TagTree) : Prop where
  name : t.Gives "name" r.name
  idType : t.Gives "id-type" r.idType
  metaValues : List.Forall₂ MetaValue.GivenBy r.metaValues (t.childrenNamed "meta-value")
  columns : ColumnsGivenBy r.columns t

/-- Whether an element of this name maps a member. -/
def isMember (name : String) : Bool :=
  (MemberKind.ofName? name).isSome

/-- Whether an element of this name describes the elements of a collection. -/
def isElement (name : String) : Bool :=
  ["composite-element", "element", "one-to-many", "many-to-many", "many-to-any"].contains name

mutual

/-- A member is of the kind of its element and is given by its tag.  The members in it are given by
the children of the element that map members, in their order, and the elements of a collection by
the last child that describes any. -/
inductive Member.GivenBy : Member → TagTree → Prop
  | property {t : TagTree} {p : Property} (hname : t.name = "property") (h : p.GivenBy t) :
      Member.GivenBy (.property p) t
  | manyToOne {t : TagTree} {r : ManyToOne} (hname : t.name = "many-to-one") (h : r.GivenBy t) :
      Member.GivenBy (.manyToOne r) t
  | oneToOne {t : TagTree} {r : OneToOne} (hname : t.name = "one-to-one") (h : r.GivenBy t) :
      Member.GivenBy (.oneToOne r) t
  | component {t : TagTree} {c : Component} {members : List Member} (hname : t.name = "component")
      (h : c.GivenBy t)
      (hmembers : List.Forall₂ Member.GivenBy members (t.children.filter (isMember ·.name))) :
      Member.GivenBy (.component c members) t
  | dynamicComponent {t : TagTree} {c : Component} {members : List Member}
      (hname : t.name = "dynamic-component") (h : c.GivenBy t)
      (hmembers : List.Forall₂ Member.GivenBy members (t.children.filter (isMember ·.name))) :
      Member.GivenBy (.dynamicComponent c members) t
  | properties {t : TagTree} {g : Group} {members : List Member} (hname : t.name = "properties")
      (h : g.GivenBy t)
      (hmembers : List.Forall₂ Member.GivenBy members (t.children.filter (isMember ·.name))) :
      Member.GivenBy (.properties g members) t
  | any {t : TagTree} {r : AnyReference} (hname : t.name = "any") (h : r.GivenBy t) :
      Member.GivenBy (.any r) t
  | collection {t : TagTree} {c : Collection} {element : Option CollectionElement}
      (hname : t.name = c.kind.elementName) (h : c.GivenBy t)
      (helement : Option.Rel CollectionElement.GivenBy element
        (t.children.filter (isElement ·.name)).getLast?) :
      Member.GivenBy (.collection c element) t

/-- The elements of a collection are given by the element that describes them. -/
inductive CollectionElement.GivenBy : CollectionElement → TagTree → Prop
  | simple {t : TagTree} {s : SimpleElement} (h : s.GivenBy t) :
      CollectionElement.GivenBy (.simple s) t
  | composite {t : TagTree} {c : CompositeElement} (hname : t.name = "composite-element")
      (h : CompositeElement.GivenBy c t) : CollectionElement.GivenBy (.composite c) t

/-- A composite element has the class that its tag gives, and its members and the composite elements
in it are given by the children of the element, in their order. -/
inductive CompositeElement.GivenBy : CompositeElement → TagTree → Prop
  | mk {t : TagTree} {name parent : Option String} {className : String} {members : List Member}
      {nested : List CompositeElement} (hclass : t.Gives "class" className)
      (hmembers : List.Forall₂ Member.GivenBy members (t.children.filter (isMember ·.name)))
      (hnested : List.Forall₂ CompositeElement.GivenBy nested
        (t.childrenNamed "nested-composite-element")) :
      CompositeElement.GivenBy (.mk name className parent members nested) t

end

section

variable {t : TagTree} {e : BoundElement}

theorem property_given (h : t.Binds table e) (hname : e.name = "property") :
    (Property.ofElement e).GivenBy t where
  name := h.gives_mandatory hname (by simp)
  typeParams := by
    have htype := h.child? (n := "type")
      (R := fun params c => List.Forall₂ Param.GivenBy params (c.childrenNamed "param"))
      fun _ _ hp _ => paramsOf_given hp
    change List.Forall₂ Param.GivenBy (((e.child? "type").map paramsOf).getD []) _
    generalize (e.child? "type").map paramsOf = params?, t.child? "type" = type? at htype
    cases htype with
    | none => exact .nil
    | some hparams => exact hparams
  columns := columnsOf_given h
  metas := metasOf_given h

theorem manyToOne_given (h : t.Binds table e) (hname : e.name = "many-to-one") :
    (ManyToOne.ofElement e).GivenBy t :=
  ⟨h.gives_mandatory hname (by simp), columnsOf_given h, metasOf_given h⟩

theorem oneToOne_given (h : t.Binds table e) (hname : e.name = "one-to-one") :
    (OneToOne.ofElement e).GivenBy t :=
  h.gives_mandatory hname (by simp)

theorem component_given (h : t.Binds table e)
    (hname : e.name = "component" ∨ e.name = "dynamic-component") :
    (Component.ofElement e).GivenBy t := by
  refine ⟨?_, metasOf_given h⟩
  obtain hname | hname := hname
  · exact h.gives_mandatory hname (by simp)
  · exact h.gives_mandatory hname (by simp)

theorem group_given (h : t.Binds table e) (hname : e.name = "properties") :
    (Group.ofElement e).GivenBy t :=
  h.gives_mandatory hname (by simp)

theorem anyReference_given (h : t.Binds table e) (hname : e.name = "any") :
    (AnyReference.ofElement e).GivenBy t :=
  ⟨h.gives_mandatory hname (by simp), h.gives_mandatory hname (by simp), metaValuesOf_given h,
    columnsOf_given h⟩

theorem isMember_eq (e : BoundElement) : isMember e.name = (Member.ofElement? e).isSome := by
  obtain ⟨name, attributes, children, text⟩ := e
  rw [isMember, Member.ofElement?, BoundElement.name]
  cases MemberKind.ofName? name with
  | none => rfl
  | some kind => cases kind <;> rfl

/-- What an element by itself says that the elements of a collection are. -/
def ownElement? (e : BoundElement) : Option CollectionElement :=
  if e.name = "composite-element" then some (.composite (compositeOf e))
  else (SimpleElement.ofElement? e).map .simple

theorem isElement_eq (e : BoundElement) : isElement e.name = (ownElement? e).isSome := by
  unfold ownElement? SimpleElement.ofElement?
  split_ifs <;> simp_all [isElement]

theorem membersOf_cons (e : BoundElement) (es : List BoundElement) :
    membersOf (e :: es) = (Member.ofElement? e).toList ++ membersOf es := by
  rw [membersOf]
  cases Member.ofElement? e <;> rfl

theorem elementOf?_cons (e : BoundElement) (es : List BoundElement) :
    elementOf? (e :: es) = (elementOf? es).or (ownElement? e) := by
  rw [elementOf?]
  cases elementOf? es <;> rfl

mutual

theorem member_given : (e : BoundElement) → (t : TagTree) → t.Binds table e → (m : Member) →
    Member.ofElement? e = some m → m.GivenBy t
  | .mk name attributes children text, t, h, m, hm => by
    have hmembers := membersOf_given children t.children h.children
    have helement := elementOf?_given children t.children h.children
    rw [Member.ofElement?] at hm
    cases hkind : MemberKind.ofName? name with
    | none =>
        rw [hkind] at hm
        cases hm
    | some kind =>
        have hname := MemberKind.eq_elementName hkind
        have htag := h.name_eq.trans hname
        -- The kind tells the name of the element, and so what the table requires of it.
        rw [hkind] at hm
        cases kind with
        | property =>
            cases hm
            exact .property htag (property_given h hname)
        | manyToOne =>
            cases hm
            exact .manyToOne htag (manyToOne_given h hname)
        | oneToOne =>
            cases hm
            exact .oneToOne htag (oneToOne_given h hname)
        | component =>
            cases hm
            exact .component htag (component_given h (Or.inl hname)) hmembers
        | dynamicComponent =>
            cases hm
            exact .dynamicComponent htag (component_given h (Or.inr hname)) hmembers
        | properties =>
            cases hm
            exact .properties htag (group_given h hname) hmembers
        | any =>
            cases hm
            exact .any htag (anyReference_given h hname)
        | collection kind =>
            cases hm
            exact .collection htag (collection_given h hname) helement

theorem membersOf_given : (es : List BoundElement) → (ts : List TagTree) →
    List.Forall₂ (TagTree.Binds table) ts es →
    List.Forall₂ Member.GivenBy (membersOf es) (ts.filter (isMember ·.name))
  | [], [], _ => .nil
  | e :: es, t :: ts, .cons h hs => by
    rw [membersOf_cons]
    exact forall₂_cons_filter (by rw [h.name_eq, isMember_eq]) (member_given e t h)
      (membersOf_given es ts hs)

theorem composite_given : (e : BoundElement) → (t : TagTree) → t.Binds table e →
    e.name = "composite-element" ∨ e.name = "nested-composite-element" → (compositeOf e).GivenBy t
  | .mk name attributes children text, t, h, hname => by
    have hmembers := membersOf_given children t.children h.children
    have hnested := nestedOf_given children t.children h.children
    have hclass : t.Gives "class"
        ((BoundElement.mk name attributes children text).mandatory "class") := by
      obtain hname | hname := hname
      · exact h.gives_mandatory hname (by simp)
      · exact h.gives_mandatory hname (by simp)
    rw [compositeOf]
    exact .mk hclass hmembers hnested

theorem nestedOf_given : (es : List BoundElement) → (ts : List TagTree) →
    List.Forall₂ (TagTree.Binds table) ts es →
    List.Forall₂ CompositeElement.GivenBy (nestedOf es)
      (ts.filter (·.name == "nested-composite-element"))
  | [], [], _ => .nil
  | e :: es, t :: ts, .cons h hs => by
    have hrest := nestedOf_given es ts hs
    rw [nestedOf]
    by_cases hname : e.name = "nested-composite-element"
    · rw [if_pos hname, List.filter_cons_of_pos (by simp [h.name_eq, hname])]
      exact .cons (composite_given e t h (Or.inr hname)) hrest
    · rw [if_neg hname, List.filter_cons_of_neg (by simp [h.name_eq, hname])]
      exact hrest

theorem elementOf?_given : (es : List BoundElement) → (ts : List TagTree) →
    List.Forall₂ (TagTree.Binds table) ts es →
    Option.Rel CollectionElement.GivenBy (elementOf? es) (ts.filter (isElement ·.name)).getLast?
  | [], [], _ => .none
  | e :: es, t :: ts, .cons h hs => by
    rw [elementOf?_cons]
    refine rel_getLast?_cons_filter (by rw [h.name_eq, isElement_eq])
      (fun element hown => ?_) (elementOf?_given es ts hs)
    unfold ownElement? at hown
    split_ifs at hown with hname
    · cases hown
      exact .composite (h.name_eq.trans hname) (composite_given e t h (Or.inl hname))
    · obtain ⟨s, hs, rfl⟩ := Option.map_eq_some_iff.mp hown
      exact .simple (simpleElement_given h hs)

end

end

/-! ### Classes -/

/-- Members that children of an element map. -/
def MembersGivenBy (members : List Member) (t : TagTree) : Prop :=
  List.Forall₂ Member.GivenBy members (t.children.filter (isMember ·.name))

/-- A natural identifier has the members below it. -/
def NaturalId.GivenBy (n : NaturalId) (t : TagTree) : Prop :=
  MembersGivenBy n.members t

/-- A join has the table that its tag gives, and the key and the members below it. -/
structure Join.GivenBy (j : Join) (t : TagTree) : Prop where
  table : t.Gives "table" j.table
  key : Option.Rel Key.GivenBy j.key (t.child? "key")
  members : MembersGivenBy j.members t

/-- What a subclass has apart from its own subclasses is given by the children of its element, kind
by kind. -/
structure SubclassBody.GivenBy (b : SubclassBody) (t : TagTree) : Prop where
  metas : List.Forall₂ Meta.GivenBy b.metas (t.childrenNamed "meta")
  key : Option.Rel Key.GivenBy b.key (t.child? "key")
  members : MembersGivenBy b.members t
  joins : List.Forall₂ Join.GivenBy b.joins (t.childrenNamed "join")
  queries : QueriesGivenBy b.queries t

/-- Whether an element of this name maps a subclass. -/
def isSubclass (name : String) : Bool :=
  (SubclassKind.ofName? name).isSome

/-- A subclass is of the kind of its element, and the subclasses in it are given by the children of
the element that map subclasses, in their order. -/
inductive Subclass.GivenBy : Subclass → TagTree → Prop
  | mk {t : TagTree} {body : SubclassBody} {subclasses : List Subclass}
      (hname : t.name = body.kind.elementName) (h : body.GivenBy t)
      (hsubclasses : List.Forall₂ Subclass.GivenBy subclasses
        (t.children.filter (isSubclass ·.name))) :
      Subclass.GivenBy (.mk body subclasses) t

/-- All that a class has is given by the children of its element, kind by kind and in their order.
-/
structure ClassMapping.GivenBy (c : ClassMapping) (t : TagTree) : Prop where
  metas : List.Forall₂ Meta.GivenBy c.metas (t.childrenNamed "meta")
  cache : Option.Rel Cache.GivenBy c.cache (t.child? "cache")
  id : Option.Rel Id.GivenBy c.id (t.child? "id")
  compositeId : Option.Rel CompositeId.GivenBy c.compositeId (t.child? "composite-id")
  discriminator : Option.Rel Discriminator.GivenBy c.discriminator (t.child? "discriminator")
  naturalId : Option.Rel NaturalId.GivenBy c.naturalId (t.child? "natural-id")
  version : Option.Rel Version.GivenBy c.version (t.child? "version")
  timestamp : Option.Rel Timestamp.GivenBy c.timestamp (t.child? "timestamp")
  members : MembersGivenBy c.members t
  joins : List.Forall₂ Join.GivenBy c.joins (t.childrenNamed "join")
  subclasses : List.Forall₂ Subclass.GivenBy c.subclasses (t.children.filter (isSubclass ·.name))
  filters : List.Forall₂ Filter.GivenBy c.filters (t.childrenNamed "filter")
  fetchProfiles : List.Forall₂ FetchProfile.GivenBy c.fetchProfiles
    (t.childrenNamed "fetch-profile")
  resultSets : List.Forall₂ ResultSet.GivenBy c.resultSets (t.childrenNamed "resultset")
  queries : QueriesGivenBy c.queries t

section

variable {t : TagTree} {e : BoundElement}

theorem membersOf_children_given (h : t.Binds table e) : MembersGivenBy (membersOf e.children) t :=
  membersOf_given _ _ h.children

theorem joinsOf_given (h : t.Binds table e) :
    List.Forall₂ Join.GivenBy (joinsOf e) (t.childrenNamed "join") :=
  h.childrenNamed fun _ _ hj hname =>
    ⟨hj.gives_mandatory hname (by simp), keyOf?_given hj, membersOf_children_given hj⟩

theorem subclassBody_given (h : t.Binds table e) (kind : SubclassKind) :
    (SubclassBody.ofElement kind e).GivenBy t :=
  ⟨metasOf_given h, keyOf?_given h, membersOf_children_given h, joinsOf_given h, queriesOf_given h⟩

theorem isSubclass_eq (e : BoundElement) : isSubclass e.name = (Subclass.ofElement? e).isSome := by
  obtain ⟨name, attributes, children, text⟩ := e
  rw [isSubclass, Subclass.ofElement?, BoundElement.name]
  cases SubclassKind.ofName? name <;> rfl

theorem subclassesOf_cons (e : BoundElement) (es : List BoundElement) :
    subclassesOf (e :: es) = (Subclass.ofElement? e).toList ++ subclassesOf es := by
  rw [subclassesOf]
  cases Subclass.ofElement? e <;> rfl

mutual

theorem subclass_given : (e : BoundElement) → (t : TagTree) → t.Binds table e → (s : Subclass) →
    Subclass.ofElement? e = some s → s.GivenBy t
  | .mk name attributes children text, t, h, s, hs => by
    have hsubclasses := subclassesOf_given children t.children h.children
    rw [Subclass.ofElement?] at hs
    cases hkind : SubclassKind.ofName? name with
    | none =>
        rw [hkind] at hs
        cases hs
    | some kind =>
        have hname := List.find?_some hkind
        rw [beq_iff_eq] at hname
        rw [hkind] at hs
        cases hs
        exact .mk (h.name_eq.trans hname.symm) (subclassBody_given h kind) hsubclasses

theorem subclassesOf_given : (es : List BoundElement) → (ts : List TagTree) →
    List.Forall₂ (TagTree.Binds table) ts es →
    List.Forall₂ Subclass.GivenBy (subclassesOf es) (ts.filter (isSubclass ·.name))
  | [], [], _ => .nil
  | e :: es, t :: ts, .cons h hs => by
    rw [subclassesOf_cons]
    exact forall₂_cons_filter (by rw [h.name_eq, isSubclass_eq]) (subclass_given e t h)
      (subclassesOf_given es ts hs)

end

theorem classMapping_given (h : t.Binds table e) : (ClassMapping.ofElement e).GivenBy t where
  metas := metasOf_given h
  cache := h.child? fun _ _ hc hname => cache_given hc hname
  id := h.child? fun _ _ hi _ => id_given hi
  compositeId := h.child? fun _ _ hi _ => compositeId_given hi
  discriminator := h.child? fun _ _ hd _ => columnsOf_given hd
  naturalId := h.child? fun _ _ hn _ => membersOf_children_given hn
  version := h.child? fun _ _ hv hname => version_given hv hname
  timestamp := h.child? fun _ _ hv hname => timestamp_given hv hname
  members := membersOf_children_given h
  joins := joinsOf_given h
  subclasses := subclassesOf_given _ _ h.children
  filters := filtersOf_given h
  fetchProfiles := fetchProfilesOf_given h
  resultSets := h.childrenNamed fun _ _ hr hname => resultSet_given hr hname
  queries := queriesOf_given h

end

/-! ### Documents -/

/-- Every value of a mapping that may not be missing, at whatever depth, is the value that the
attribute has in the start tag of its element. -/
structure GivenBy (m : Mapping) (t : TagTree) : Prop where
  metas : List.Forall₂ Meta.GivenBy m.metas (t.childrenNamed "meta")
  identifierGenerators : List.Forall₂ IdentifierGenerator.GivenBy m.identifierGenerators
    (t.childrenNamed "identifier-generator")
  typeDefs : List.Forall₂ TypeDef.GivenBy m.typeDefs (t.childrenNamed "typedef")
  filterDefs : List.Forall₂ FilterDef.GivenBy m.filterDefs (t.childrenNamed "filter-def")
  imports : List.Forall₂ Import.GivenBy m.imports (t.childrenNamed "import")
  classes : List.Forall₂ ClassMapping.GivenBy m.classes (t.childrenNamed "class")
  subclasses : List.Forall₂ Subclass.GivenBy m.subclasses (t.children.filter (isSubclass ·.name))
  resultSets : List.Forall₂ ResultSet.GivenBy m.resultSets (t.childrenNamed "resultset")
  queries : QueriesGivenBy m.queries t
  fetchProfiles : List.Forall₂ FetchProfile.GivenBy m.fetchProfiles
    (t.childrenNamed "fetch-profile")

theorem ofElement_given {t : TagTree} {e : BoundElement} (h : t.Binds table e) :
    (ofElement e).GivenBy t where
  metas := metasOf_given h
  identifierGenerators := h.childrenNamed fun _ _ hg hname => identifierGenerator_given hg hname
  typeDefs := h.childrenNamed fun _ _ hd hname => typeDef_given hd hname
  filterDefs := h.childrenNamed fun _ _ hd hname => filterDef_given hd hname
  imports := h.childrenNamed fun _ _ hi hname => import_given hi hname
  classes := h.childrenNamed fun _ _ hc _ => classMapping_given hc
  subclasses := subclassesOf_given _ _ h.children
  resultSets := h.childrenNamed fun _ _ hr hname => resultSet_given hr hname
  queries := queriesOf_given h
  fetchProfiles := fetchProfilesOf_given h

end Mapping

namespace Schema

/-- In a mapping that comes of a validated document no value is made up: the tokens up to the end
are those of one tree of start tags, and it gives every value that may not be missing. -/
theorem Hierarchical.unmarshal_given {schema : Schema} (hschema : compiled = .ok schema)
    {s : TokenStream} {m : Mapping} (h : schema.unmarshal true s = .ok m) :
    ∃ root, (∀ ts, TagTree.Written ts (TokenStream.upToEnd s.items) ↔ ts = [root]) ∧
      m.GivenBy root := by
  have hs := (consistent_of_compile hschema).1
  obtain rfl := eq_table_of_compiled hschema
  obtain ⟨e, hbind, rfl⟩ := exists_of_map_eq_ok h
  obtain ⟨root, hwritten, hbinds⟩ := bind_written hs hbind
  exact ⟨root, fun _ => hwritten.eq_iff, Mapping.ofElement_given hbinds⟩

/-- The document has a comment in the class, a name that is empty, and something behind its end. -/
theorem Hierarchical.unmarshal_given_nested :
    let s : TokenStream := ⟨[
      .ok (.startTag ⟨"hibernate-mapping", none, []⟩),
      .ok (.startTag ⟨"class", none, [⟨"name", "C"⟩]⟩), .ok (.comment "parts"),
      .ok (.startTag ⟨"component", none, [⟨"class", "D"⟩, ⟨"name", "c"⟩]⟩),
      .ok (.startTag ⟨"property", none, [⟨"name", ""⟩]⟩), .ok (.endTag "property"),
      .ok (.endTag "component"), .ok (.endTag "class"), .ok (.endTag "hibernate-mapping"),
      .ok .endDocument, .ok (.text "t")], none⟩
    let root : TagTree := .mk ⟨"hibernate-mapping", none, []⟩ [
      .mk ⟨"class", none, [⟨"name", "C"⟩]⟩ [
        .mk ⟨"component", none, [⟨"class", "D"⟩, ⟨"name", "c"⟩]⟩ [
          .mk ⟨"property", none, [⟨"name", ""⟩]⟩ []]]]
    compiled = .ok table ∧ TagTree.Written [root] (TokenStream.upToEnd s.items) ∧
      ∃ m, table.unmarshal true s = .ok m ∧ m.GivenBy root := by
  intro s root
  have hwritten : TagTree.Written [root] (TokenStream.upToEnd s.items) :=
    .element rfl (.element rfl (.other rfl (.element rfl (.element rfl .nil .nil) .nil)) .nil) .nil
  have hok : (table.unmarshal true s).isOk = true := by decide +kernel
  cases hm : table.unmarshal true s with
  | error fault =>
      rw [hm] at hok
      cases hok
  | ok m =>
      obtain ⟨root', hroot, hgiven⟩ := Hierarchical.unmarshal_given compiled_eq_table hm
      obtain rfl : root = root' := List.head_eq_of_cons_eq ((hroot _).mp hwritten)
      exact ⟨compiled_eq_table, hwritten, m, rfl, hgiven⟩

end Schema

end PersistenceMapping
