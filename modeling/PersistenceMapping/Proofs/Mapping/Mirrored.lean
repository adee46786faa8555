/-
What stands in a mapping for the elements of a document.

A mapping has an object for every element that maps one, in the order of the elements and at the
depth at which they stand.  Which children of an element map members, subclasses, joins and queries
is told by their names, and the same names count wherever members may stand (`Mapping.Mirrors`).

What a member has to do with its element is left open (`R`): that it is of the kind of the element
and has its name (`Member.NamedBy`), or what else is said of all members at once.  It is shown of
single members, of elements of which something is known that is known of their children as well
(`ofElement_mirrors`).
-/
import PersistenceMapping.Proofs.Mapping.Given

namespace PersistenceMapping

/-- The children of an element that have one of these names, in order. -/
def BoundElement.childrenAmong (e : BoundElement) (names : List String) : List BoundElement :=
  e.children.filter fun c => names.contains c.name

namespace Mapping

open Schema.Hierarchical

/-! ### Names that map -/

theorem isSome_find?_eq_contains {α : Type} (f : α → String) (l : List α) (name : String) :
    (l.find? (f · == name)).isSome = (l.map f).contains name := by
  rw [Bool.eq_iff_iff, List.find?_isSome, List.contains_iff_mem, List.mem_map]
  simp only [beq_iff_eq]

theorem isMember_eq_contains (name : String) : isMember name = attributeElements.contains name := by
  rw [isMember, MemberKind.ofName?]
  split_ifs with hproperty hmanyToOne honeToOne hcomponent hdynamic hproperties hany
  case neg =>
    have hsame : (CollectionKind.all.map (·.elementName)).Perm (attributeElements.drop 7) := by
      decide
    rw [Option.isSome_map, CollectionKind.ofName?, isSome_find?_eq_contains, Bool.eq_iff_iff,
      List.contains_iff_mem, List.contains_iff_mem, hsame.mem_iff]
    simp [attributeElements, *]
  all_goals
    subst name
    decide

theorem isElement_eq_contains (name : String) :
    isElement name = elementElements.contains name := by
  have hsame : ["composite-element", "element", "one-to-many", "many-to-many",
      "many-to-any"].Perm elementElements := by decide
  rw [isElement, Bool.eq_iff_iff, List.contains_iff_mem, List.contains_iff_mem, hsame.mem_iff]

theorem isSubclass_eq_contains (name : String) :
    isSubclass name = subclassElements.contains name :=
  isSome_find?_eq_contains _ _ _

/-! ### Members -/

section

variable (R : Member → BoundElement → Prop)

mutual

/-- A member stands for its element, and what is in it for the children of the element. -/
inductive Member.Mirrors : Member → BoundElement → Prop
  | property {e : BoundElement} {p : Property} (h : R (.property p) e) :
      Member.Mirrors (.property p) e
  | manyToOne {e : BoundElement} {r : ManyToOne} (h : R (.manyToOne r) e) :
      Member.Mirrors (.manyToOne r) e
  | oneToOne {e : BoundElement} {r : OneToOne} (h : R (.oneToOne r) e) :
      Member.Mirrors (.oneToOne r) e
  | component {e : BoundElement} {c : Component} {members : List Member}
      (h : R (.component c members) e)
      (hmembers : List.Forall₂ Member.Mirrors members (e.childrenAmong attributeElements)) :
      Member.Mirrors (.component c members) e
  | dynamicComponent {e : BoundElement} {c : Component} {members : List Member}
      (h : R (.dynamicComponent c members) e)
      (hmembers : List.Forall₂ Member.Mirrors members (e.childrenAmong attributeElements)) :
      Member.Mirrors (.dynamicComponent c members) e
  | properties {e : BoundElement} {g : Group} {members : List Member}
      (h : R (.properties g members) e)
      (hmembers : List.Forall₂ Member.Mirrors members (e.childrenAmong attributeElements)) :
      Member.Mirrors (.properties g members) e
  | any {e : BoundElement} {r : AnyReference} (h : R (.any r) e) : Member.Mirrors (.any r) e
  | collection {e : BoundElement} {c : Collection} {element : Option CollectionElement}
      (h : R (.collection c element) e)
      (helement : Option.Rel CollectionElement.Mirrors element
        (e.childrenAmong elementElements).getLast?) :
      Member.Mirrors (.collection c element) e

/-- What describes the elements of a collection stands for an element, a composite one just where
the name of the element says so. -/
inductive CollectionElement.Mirrors : CollectionElement → BoundElement → Prop
  | simple {e : BoundElement} {s : SimpleElement} (hname : e.name ≠ "composite-element") :
      CollectionElement.Mirrors (.simple s) e
  | composite {e : BoundElement} {c : CompositeElement} (hname : e.name = "composite-element")
      (h : CompositeElement.Mirrors c e) : CollectionElement.Mirrors (.composite c) e

/-- A composite element stands for an element with its class, and what is in it for the children of
the element. -/
inductive CompositeElement.Mirrors : CompositeElement → BoundElement → Prop
  | mk {e : BoundElement} {name parent : Option String} {className : String}
      {members : List Member} {nested : List CompositeElement}
      (hclass : className = e.mandatory "class")
      (hmembers : List.Forall₂ Member.Mirrors members (e.childrenAmong attributeElements))
      (hnested : List.Forall₂ CompositeElement.Mirrors nested
        (e.childrenNamed "nested-composite-element")) :
      CompositeElement.Mirrors (.mk name className parent members nested) e

end

/-- Members that stand for the children of an element that map one. -/
def MembersMirror (members : List Member) (e : BoundElement) : Prop :=
  List.Forall₂ (Member.Mirrors R) members (e.childrenAmong attributeElements)

end

/-- What is known of an element is known of its children, and tells what the member that it maps has
to do with it. -/
structure Tells (P : BoundElement → Prop) (R : Member → BoundElement → Prop) : Prop where
  children : ∀ e, P e → ∀ c ∈ e.children, P c
  member : ∀ e m, P e → Member.ofElement? e = some m → R m e

section

variable {P : BoundElement → Prop} {R : Member → BoundElement → Prop} {e : BoundElement}

mutual

theorem member_mirrors (h : Tells P R) : (e : BoundElement) → P e → (m : Member) →
    Member.ofElement? e = some m → m.Mirrors R e
  | .mk name attributes children text, he, m, hm => by
    have hmembers := membersOf_mirrors h children (h.children _ he)
    have helement := elementOf?_mirrors h children (h.children _ he)
    have hown := h.member _ m he hm
    rw [Member.ofElement?] at hm
    cases hkind : MemberKind.ofName? name with
    | none =>
        rw [hkind] at hm
        cases hm
    | some kind =>
        rw [hkind] at hm
        cases kind with
        | property =>
            cases hm
            exact .property hown
        | manyToOne =>
            cases hm
            exact .manyToOne hown
        | oneToOne =>
            cases hm
            exact .oneToOne hown
        | component =>
            cases hm
            exact .component hown hmembers
        | dynamicComponent =>
            cases hm
            exact .dynamicComponent hown hmembers
        | properties =>
            cases hm
            exact .properties hown hmembers
        | any =>
            cases hm
            exact .any hown
        | collection kind =>
            cases hm
            exact .collection hown helement

theorem membersOf_mirrors (h : Tells P R) : (es : List BoundElement) → (∀ e ∈ es, P e) →
    List.Forall₂ (Member.Mirrors R) (membersOf es)
      (es.filter fun e => attributeElements.contains e.name)
  | [], _ => .nil
  | e :: es, hes => by
    rw [List.forall_mem_cons] at hes
    rw [membersOf_cons]
    exact forall₂_cons_filter (by rw [← isMember_eq_contains, isMember_eq])
      (member_mirrors h e hes.1) (membersOf_mirrors h es hes.2)

theorem composite_mirrors (h : Tells P R) : (e : BoundElement) → P e → (compositeOf e).Mirrors R e
  | .mk name attributes children text, he => by
    have hmembers := membersOf_mirrors h children (h.children _ he)
    have hnested := nestedOf_mirrors h children (h.children _ he)
    rw [compositeOf]
    exact .mk rfl hmembers hnested

theorem nestedOf_mirrors (h : Tells P R) : (es : List BoundElement) → (∀ e ∈ es, P e) →
    List.Forall₂ (CompositeElement.Mirrors R) (nestedOf es)
      (es.filter (·.name == "nested-composite-element"))
  | [], _ => .nil
  | e :: es, hes => by
    rw [List.forall_mem_cons] at hes
    have hrest := nestedOf_mirrors h es hes.2
    rw [nestedOf]
    by_cases hname : e.name = "nested-composite-element"
    · rw [if_pos hname, List.filter_cons_of_pos (by simpa using hname)]
      exact .cons (composite_mirrors h e hes.1) hrest
    · rw [if_neg hname, List.filter_cons_of_neg (by simpa using hname)]
      exact hrest

theorem elementOf?_mirrors (h : Tells P R) : (es : List BoundElement) → (∀ e ∈ es, P e) →
    Option.Rel (CollectionElement.Mirrors R) (elementOf? es)
      (es.filter fun e => elementElements.contains e.name).getLast?
  | [], _ => .none
  | e :: es, hes => by
    rw [List.forall_mem_cons] at hes
    rw [elementOf?_cons]
    refine rel_getLast?_cons_filter (by rw [← isElement_eq_contains, isElement_eq])
      (fun element hown => ?_) (elementOf?_mirrors h es hes.2)
    unfold ownElement? at hown
    split_ifs at hown with hname
    · cases hown
      exact .composite hname (composite_mirrors h e hes.1)
    · obtain ⟨s, -, rfl⟩ := Option.map_eq_some_iff.mp hown
      exact .simple hname

end

theorem membersOf_children_mirror (h : Tells P R) (he : P e) :
    MembersMirror R (membersOf e.children) e :=
  membersOf_mirrors h e.children (h.children e he)

end

/-! ### Classes -/

/-- A query stands for an element with its name and its text, a native one for an element of native
queries. -/
structure Query.Mirrors (q : Query) (e : BoundElement) : Prop where
  name : q.name = e.mandatory "name"
  native : q.native = true ↔ e.name = "sql-query"
  query : q.query = e.trimmedText

/-- Queries that stand for the children of an element that are queries. -/
def QueriesMirror (queries : List Query) (e : BoundElement) : Prop :=
  List.Forall₂ Query.Mirrors queries (e.childrenAmong queryElements)

section

variable (R : Member → BoundElement → Prop)

/-- A natural identifier stands for an element, and its members for the children of the element. -/
def NaturalId.Mirrors (n : NaturalId) (e : BoundElement) : Prop :=
  MembersMirror R n.members e

/-- A join stands for an element with its table, and its members for the children of the element. -/
structure Join.Mirrors (j : Join) (e : BoundElement) : Prop where
  table : j.table = e.mandatory "table"
  members : MembersMirror R j.members e

/-- A subclass stands for an element of its kind and name, and what is in it for the children of the
element; subclasses of all kinds keep one order. -/
inductive Subclass.Mirrors : Subclass → BoundElement → Prop
  | mk {e : BoundElement} {body : SubclassBody} {subclasses : List Subclass}
      (hkind : body.kind.elementName = e.name) (hname : body.name = e.attribute? "name")
      (hmembers : MembersMirror R body.members e)
      (hjoins : List.Forall₂ (Join.Mirrors R) body.joins (e.childrenNamed "join"))
      (hqueries : QueriesMirror body.queries e)
      (hsubclasses : List.Forall₂ Subclass.Mirrors subclasses (e.childrenAmong subclassElements)) :
      Subclass.Mirrors (.mk body subclasses) e

/-- A class stands for an element with its names, and what is in it for the children of the element.
-/
structure ClassMapping.Mirrors (c : ClassMapping) (e : BoundElement) : Prop where
  name : c.name = e.attribute? "name"
  entityName : c.entityName = e.attribute? "entity-name"
  naturalId : Option.Rel (NaturalId.Mirrors R) c.naturalId (e.child? "natural-id")
  members : MembersMirror R c.members e
  joins : List.Forall₂ (Join.Mirrors R) c.joins (e.childrenNamed "join")
  subclasses : List.Forall₂ (Subclass.Mirrors R) c.subclasses (e.childrenAmong subclassElements)
  queries : QueriesMirror c.queries e

end

section

variable {P : BoundElement → Prop} {R : Member → BoundElement → Prop} {e : BoundElement}

theorem childrenNamed_mirror {α : Type} {S : α → BoundElement → Prop} {f : BoundElement → α}
    (n : String) (hf : ∀ c ∈ e.children, S (f c) c) :
    List.Forall₂ S ((e.childrenNamed n).map f) (e.childrenNamed n) := by
  rw [List.forall₂_map_left_iff, List.forall₂_same]
  intro c hc
  exact hf c (List.mem_filter.mp hc).1

theorem queriesOf_mirror (e : BoundElement) : QueriesMirror (queriesOf e) e := by
  have hnames : e.childrenAmong queryElements = e.children.filter isQuery := by
    refine List.filter_congr fun c _ => ?_
    rw [Bool.eq_iff_iff]
    simp [queryElements, isQuery]
  rw [QueriesMirror, queriesOf, hnames, List.forall₂_map_left_iff, List.forall₂_same]
  intro c _
  exact ⟨rfl, beq_iff_eq, rfl⟩

theorem joinsOf_mirror (h : Tells P R) (he : P e) :
    List.Forall₂ (Join.Mirrors R) (joinsOf e) (e.childrenNamed "join") :=
  childrenNamed_mirror "join" fun c hc =>
    ⟨rfl, membersOf_children_mirror h (h.children e he c hc)⟩

mutual

theorem subclass_mirrors (h : Tells P R) : (e : BoundElement) → P e → (s : Subclass) →
    Subclass.ofElement? e = some s → s.Mirrors R e
  | .mk name attributes children text, he, s, hs => by
    have hsubclasses := subclassesOf_mirrors h children (h.children _ he)
    rw [Subclass.ofElement?] at hs
    cases hkind : SubclassKind.ofName? name with
    | none =>
        rw [hkind] at hs
        cases hs
    | some kind =>
        have hname := List.find?_some hkind
        rw [beq_iff_eq] at hname
        rw [hkind] at hs
        cases hs
        exact .mk hname rfl (membersOf_children_mirror h he) (joinsOf_mirror h he)
          (queriesOf_mirror _) hsubclasses

theorem subclassesOf_mirrors (h : Tells P R) : (es : List BoundElement) → (∀ e ∈ es, P e) →
    List.Forall₂ (Subclass.Mirrors R) (subclassesOf es)
      (es.filter fun e => subclassElements.contains e.name)
  | [], _ => .nil
  | e :: es, hes => by
    rw [List.forall_mem_cons] at hes
    rw [subclassesOf_cons]
    exact forall₂_cons_filter (by rw [← isSubclass_eq_contains, isSubclass_eq])
      (subclass_mirrors h e hes.1) (subclassesOf_mirrors h es hes.2)

end

theorem naturalId_mirrors (h : Tells P R) (he : P e) :
    Option.Rel (NaturalId.Mirrors R) ((e.child? "natural-id").map NaturalId.ofElement)
      (e.child? "natural-id") := by
  cases hchild : e.child? "natural-id" with
  | none => exact .none
  | some c =>
      have hc : P c := h.children e he c (List.mem_of_find?_eq_some hchild)
      exact .some (membersOf_children_mirror h hc)

theorem classMapping_mirrors (h : Tells P R) (he : P e) :
    (ClassMapping.ofElement e).Mirrors R e where
  name := rfl
  entityName := rfl
  naturalId := naturalId_mirrors h he
  members := membersOf_children_mirror h he
  joins := joinsOf_mirror h he
  subclasses := subclassesOf_mirrors h e.children (h.children e he)
  queries := queriesOf_mirror e

end

/-! ### Documents -/

/-- An import stands for an element with its class and the name that the class gets. -/
def Import.Mirrors (i : Import) (e : BoundElement) : Prop :=
  i.className = e.mandatory "class" ∧ i.rename = e.attribute? "rename"

/-- A type definition stands for an element with its name and its class. -/
def TypeDef.Mirrors (d : TypeDef) (e : BoundElement) : Prop :=
  d.name = e.mandatory "name" ∧ d.className = e.mandatory "class"

/-- A filter definition stands for an element with its name and its condition. -/
def FilterDef.Mirrors (d : FilterDef) (e : BoundElement) : Prop :=
  d.name = e.mandatory "name" ∧ d.condition = e.attributeOrContent? "condition"

/-- A result set stands for an element with its name. -/
def ResultSet.Mirrors (r : ResultSet) (e : BoundElement) : Prop :=
  r.name = e.mandatory "name"

/-- A fetch profile stands for an element with its name. -/
def FetchProfile.Mirrors (p : FetchProfile) (e : BoundElement) : Prop :=
  p.name = e.mandatory "name"

/-- A named generator stands for an element with its name and its class. -/
def IdentifierGenerator.Mirrors (g : IdentifierGenerator) (e : BoundElement) : Prop :=
  g.name = e.mandatory "name" ∧ g.className = e.mandatory "class"

/-- A database object stands for an element, and its definition, its two texts and the dialects that
it is for come from the children of the element. -/
structure DatabaseObject.Mirrors (o : DatabaseObject) (e : BoundElement) : Prop where
  definition : o.definition = (e.child? "definition").bind (·.attribute? "class")
  create : o.create = e.childContent? "create"
  drop : o.drop = e.childContent? "drop"
  dialectScopes : o.dialectScopes = e.childAttributes "dialect-scope" "name"

/-- A mapping stands for the root of a document, with an object for every element in it that maps
one. -/
structure Mirrors (R : Member → BoundElement → Prop) (m : Mapping) (e : BoundElement) : Prop where
  classes : List.Forall₂ (ClassMapping.Mirrors R) m.classes (e.childrenNamed "class")
  subclasses : List.Forall₂ (Subclass.Mirrors R) m.subclasses (e.childrenAmong subclassElements)
  queries : QueriesMirror m.queries e
  imports : List.Forall₂ Import.Mirrors m.imports (e.childrenNamed "import")
  typeDefs : List.Forall₂ TypeDef.Mirrors m.typeDefs (e.childrenNamed "typedef")
  filterDefs : List.Forall₂ FilterDef.Mirrors m.filterDefs (e.childrenNamed "filter-def")
  resultSets : List.Forall₂ ResultSet.Mirrors m.resultSets (e.childrenNamed "resultset")
  fetchProfiles : List.Forall₂ FetchProfile.Mirrors m.fetchProfiles
    (e.childrenNamed "fetch-profile")
  identifierGenerators : List.Forall₂ IdentifierGenerator.Mirrors m.identifierGenerators
    (e.childrenNamed "identifier-generator")
  databaseObjects : List.Forall₂ DatabaseObject.Mirrors m.databaseObjects
    (e.childrenNamed "database-object")

theorem ofElement_mirrors {P : BoundElement → Prop} {R : Member → BoundElement → Prop}
    (h : Tells P R) {e : BoundElement} (he : P e) : (ofElement e).Mirrors R e where
  classes := childrenNamed_mirror "class" fun c hc => classMapping_mirrors h (h.children e he c hc)
  subclasses := subclassesOf_mirrors h e.children (h.children e he)
  queries := queriesOf_mirror e
  imports := childrenNamed_mirror "import" fun _ _ => ⟨rfl, rfl⟩
  typeDefs := childrenNamed_mirror "typedef" fun _ _ => ⟨rfl, rfl⟩
  filterDefs := childrenNamed_mirror "filter-def" fun _ _ => ⟨rfl, rfl⟩
  resultSets := childrenNamed_mirror "resultset" fun _ _ => rfl
  fetchProfiles := childrenNamed_mirror "fetch-profile" fun _ _ => rfl
  identifierGenerators := childrenNamed_mirror "identifier-generator" fun _ _ => ⟨rfl, rfl⟩
  databaseObjects := childrenNamed_mirror "database-object" fun _ _ => ⟨rfl, rfl, rfl, rfl⟩

/-! ### Names and kinds -/

/-- A member is of the kind that the name of its element says, and has the name that the element
gives it. -/
structure Member.NamedBy (m : Member) (e : BoundElement) : Prop where
  kind : m.kind.elementName = e.name
  name : m.name = e.mandatory "name"

theorem namedBy_of_ofElement? {e : BoundElement} {m : Member} (h : Member.ofElement? e = some m) :
    m.NamedBy e := by
  obtain ⟨name, attributes, children, text⟩ := e
  rw [Member.ofElement?] at h
  cases hkind : MemberKind.ofName? name with
  | none =>
      rw [hkind] at h
      cases h
  | some kind =>
      have hname := (MemberKind.eq_elementName hkind).symm
      rw [hkind] at h
      cases kind <;>
        · cases h
          exact ⟨hname, rfl⟩

end Mapping

namespace Schema

/-- In a mapping nothing of an element that was bound is left out: it has the members, joins,
subclasses and queries of the element, and those of the elements in it, in the same order. -/
theorem unmarshal_mirrors {schema : Schema} {validate : Bool} {s : TokenStream} {e : BoundElement}
    (h : schema.bind validate s = .ok e) :
    ∃ m, schema.unmarshal validate s = .ok m ∧ m.Mirrors Mapping.Member.NamedBy e := by
  refine ⟨Mapping.ofElement e, ?_, ?_⟩
  · rw [unmarshal, h]
    rfl
  · have htells : Mapping.Tells (fun _ => True) Mapping.Member.NamedBy :=
      ⟨fun _ _ _ _ => trivial, fun _ _ _ => Mapping.namedBy_of_ofElement?⟩
    exact Mapping.ofElement_mirrors htells trivial

/-- Without validation a name may be missing, and elements that are not declared are passed over
together with those in them. -/
theorem unmarshal_mirrors_lenient :
    let s : TokenStream := .ofTokens [
      .startTag ⟨"hibernate-mapping", none, []⟩, .startTag ⟨"class", none, []⟩,
      .startTag ⟨"property", none, []⟩, .endTag "property",
      .startTag ⟨"remark", none, []⟩, .startTag ⟨"any", none, [⟨"name", "x"⟩]⟩, .endTag "any",
      .endTag "remark",
      .startTag ⟨"component", none, [⟨"name", "c"⟩]⟩,
      .startTag ⟨"bag", none, [⟨"name", "b"⟩]⟩, .endTag "bag", .endTag "component",
      .endTag "class", .endTag "hibernate-mapping"]
    ∃ e m, Hierarchical.table.bind false s = .ok e ∧
      Hierarchical.table.unmarshal false s = .ok m ∧ m.Mirrors Mapping.Member.NamedBy e ∧
      m.classes.map (fun c => c.members.map fun p => (p.kind, p.name)) =
        [[(.property, ""), (.component, "c")]] := by
  intro s
  obtain ⟨m, hm, hmembers⟩ : ∃ m, Hierarchical.table.unmarshal false s = .ok m ∧
      m.classes.map (fun c => c.members.map fun p => (p.kind, p.name)) =
        [[(.property, ""), (.component, "c")]] := exists_of_map_eq_ok (by decide +kernel)
  obtain ⟨e, hbind, -⟩ := exists_of_map_eq_ok hm
  obtain ⟨m', hm', hmirrors⟩ := unmarshal_mirrors hbind
  obtain rfl : m = m' := Except.ok.inj (hm.symm.trans hm')
  exact ⟨e, m, hbind, hm, hmirrors, hmembers⟩

end Schema

end PersistenceMapping
