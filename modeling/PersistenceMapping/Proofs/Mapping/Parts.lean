/-
What a mapping takes from the document: its parts.

Where an attribute has to be there, a mapping takes its value as it is, and an empty text where it
is missing.  In a document that validation lets pass it is not missing, since the table requires
each of these attributes.  So every such value is the one that the attribute has in the start tag of
the element that the object is made of.

Which start tag that is follows the readers: an object is `GivenBy` the tree of a start tag if its
own values are those of the tag and its parts are given by the children that they are read off, in
their order.
-/
import PersistenceMapping.Mapping.Root
import PersistenceMapping.Proofs.Schema.Written

namespace PersistenceMapping

namespace Mapping

open Schema.Hierarchical

/-! ### What accompanies classes -/

/-- A parameter has the name that its tag gives. -/
def Param.GivenBy (p : Param) (t : TagTree) : Prop :=
  t.Gives "name" p.name

/-- A meta attribute has the name that its tag gives. -/
def Meta.GivenBy (m : Meta) (t : TagTree) : Prop :=
  t.Gives "attribute" m.attributeName

/-- A named generator has the name and the class that its tag gives. -/
def IdentifierGenerator.GivenBy (g : IdentifierGenerator) (t : TagTree) : Prop :=
  t.Gives "name" g.name ∧ t.Gives "class" g.className

/-- A type definition has the name and the class that its tag gives, and the parameters below it. -/
structure TypeDef.GivenBy (d : TypeDef) (t : TagTree) : Prop where
  name : t.Gives "name" d.name
  className : t.Gives "class" d.className
  params : List.Forall₂ Param.GivenBy d.params (t.childrenNamed "param")

/-- An import is of the class that its tag gives. -/
def Import.GivenBy (i : Import) (t : TagTree) : Prop :=
  t.Gives "class" i.className

/-- A typed parameter has the name and the type that its tag gives. -/
def TypedParam.GivenBy (p : TypedParam) (t : TagTree) : Prop :=
  t.Gives "name" p.name ∧ t.Gives "type" p.typeName

/-- A filter definition has the name that its tag gives, and the parameters below it. -/
structure FilterDef.GivenBy (d : FilterDef) (t : TagTree) : Prop where
  name : t.Gives "name" d.name
  params : List.Forall₂ TypedParam.GivenBy d.params (t.childrenNamed "filter-param")

/-- A filter has the name that its tag gives. -/
def Filter.GivenBy (f : Filter) (t : TagTree) : Prop :=
  t.Gives "name" f.name

/-- A fetch is of the association that its tag gives. -/
def Fetch.GivenBy (f : Fetch) (t : TagTree) : Prop :=
  t.Gives "association" f.association

/-- A fetch profile has the name that its tag gives, and the fetches below it. -/
structure FetchProfile.GivenBy (p : FetchProfile) (t : TagTree) : Prop where
  name : t.Gives "name" p.name
  fetches : List.Forall₂ Fetch.GivenBy p.fetches (t.childrenNamed "fetch")

section

variable {t : TagTree} {e : BoundElement}

theorem paramsOf_given (h : t.Binds table e) :
    List.Forall₂ Param.GivenBy (paramsOf e) (t.childrenNamed "param") :=
  h.childrenNamed fun _ _ hp hname => hp.gives_mandatory hname (by simp)

theorem metasOf_given (h : t.Binds table e) :
    List.Forall₂ Meta.GivenBy (metasOf e) (t.childrenNamed "meta") :=
  h.childrenNamed fun _ _ hm hname => hm.gives_mandatory hname (by simp)

theorem identifierGenerator_given (h : t.Binds table e) (hname : e.name = "identifier-generator") :
    (IdentifierGenerator.ofElement e).GivenBy t :=
  ⟨h.gives_mandatory hname (by simp), h.gives_mandatory hname (by simp)⟩

theorem typeDef_given (h : t.Binds table e) (hname : e.name = "typedef") :
    (TypeDef.ofElement e).GivenBy t :=
  ⟨h.gives_mandatory hname (by simp), h.gives_mandatory hname (by simp), paramsOf_given h⟩

theorem import_given (h : t.Binds table e) (hname : e.name = "import") :
    (Import.ofElement e).GivenBy t :=
  h.gives_mandatory hname (by simp)

theorem typedParam_given (h : t.Binds table e)
    (hname : e.name = "filter-param" ∨ e.name = "query-param") :
    (TypedParam.ofElement e).GivenBy t := by
  obtain hname | hname := hname
  · exact ⟨h.gives_mandatory hname (by simp), h.gives_mandatory hname (by simp)⟩
  · exact ⟨h.gives_mandatory hname (by simp), h.gives_mandatory hname (by simp)⟩

theorem filterDef_given (h : t.Binds table e) (hname : e.name = "filter-def") :
    (FilterDef.ofElement e).GivenBy t :=
  ⟨h.gives_mandatory hname (by simp),
    h.childrenNamed fun _ _ hp hname => typedParam_given hp (Or.inl hname)⟩

theorem filtersOf_given (h : t.Binds table e) :
    List.Forall₂ Filter.GivenBy (filtersOf e) (t.childrenNamed "filter") :=
  h.childrenNamed fun _ _ hf hname => hf.gives_mandatory hname (by simp)

theorem fetchProfilesOf_given (h : t.Binds table e) :
    List.Forall₂ FetchProfile.GivenBy (fetchProfilesOf e) (t.childrenNamed "fetch-profile") :=
  h.childrenNamed fun _ _ hp hname => ⟨hp.gives_mandatory hname (by simp),
    hp.childrenNamed fun _ _ hf hname => hf.gives_mandatory hname (by simp)⟩

end

/-! ### Queries -/

/-- A returned property has the name that its tag gives. -/
def ReturnProperty.GivenBy (p : ReturnProperty) (t : TagTree) : Prop :=
  t.Gives "name" p.name

/-- Whether an element of this name describes what is returned. -/
def isReturn (name : String) : Bool :=
  ["return-scalar", "return", "return-join", "load-collection"].contains name

/-- What a query returns is of the kind of its element.  A scalar has the column that its tag gives,
a join the alias and the property, and a collection the alias and the role; but for scalars, the
properties are those below it. -/
inductive Return.GivenBy : Return → TagTree → Prop
  | scalar {t : TagTree} {column : String} {typeName : Option String}
      (hname : t.name = "return-scalar") (hcolumn : t.Gives "column" column) :
      Return.GivenBy (.scalar column typeName) t
  | entity {t : TagTree} {aliasName entity : Option String} {lockMode : String}
      {properties : List ReturnProperty} (hname : t.name = "return")
      (hproperties : List.Forall₂ ReturnProperty.GivenBy properties
        (t.childrenNamed "return-property")) :
      Return.GivenBy (.entity aliasName entity lockMode properties) t
  | join {t : TagTree} {aliasName property lockMode : String} {properties : List ReturnProperty}
      (hname : t.name = "return-join") (halias : t.Gives "alias" aliasName)
      (hproperty : t.Gives "property" property)
      (hproperties : List.Forall₂ ReturnProperty.GivenBy properties
        (t.childrenNamed "return-property")) :
      Return.GivenBy (.join aliasName property lockMode properties) t
  | collection {t : TagTree} {aliasName role lockMode : String} {properties : List ReturnProperty}
      (hname : t.name = "load-collection") (halias : t.Gives "alias" aliasName)
      (hrole : t.Gives "role" role)
      (hproperties : List.Forall₂ ReturnProperty.GivenBy properties
        (t.childrenNamed "return-property")) :
      Return.GivenBy (.collection aliasName role lockMode properties) t

/-- A result set has the name that its tag gives, and returns what is described below it, of all
kinds in one order. -/
structure ResultSet.GivenBy (r : ResultSet) (t : TagTree) : Prop where
  name : t.Gives "name" r.name
  returns : List.Forall₂ Return.GivenBy r.returns (t.children.filter (isReturn ·.name))

/-- A query has the name that its tag gives and the parameters below it, and returns what is
described below it. -/
structure Query.GivenBy (q : Query) (t : TagTree) : Prop where
  name : t.Gives "name" q.name
  params : List.Forall₂ TypedParam.GivenBy q.params (t.childrenNamed "query-param")
  returns : List.Forall₂ Return.GivenBy q.returns (t.children.filter (isReturn ·.name))

/-- Queries that children of an element describe. -/
def QueriesGivenBy (queries : List Query) (t : TagTree) : Prop :=
  List.Forall₂ Query.GivenBy queries
    (t.children.filter fun c => c.name == "query" || c.name == "sql-query")

section

variable {t : TagTree} {e : BoundElement}

theorem returnPropertiesOf_given (h : t.Binds table e) :
    List.Forall₂ ReturnProperty.GivenBy (returnPropertiesOf e) (t.childrenNamed "return-property")
    :=
  h.childrenNamed fun _ _ hp hname => hp.gives_mandatory hname (by simp)

theorem return_given (h : t.Binds table e) {r : Return} (hr : Return.ofElement? e = some r) :
    r.GivenBy t := by
  unfold Return.ofElement? at hr
  split_ifs at hr with hscalar hentity hjoin hcollection
  · cases hr
    exact .scalar (h.name_eq.trans hscalar) (h.gives_mandatory hscalar (by simp))
  · cases hr
    exact .entity (h.name_eq.trans hentity) (returnPropertiesOf_given h)
  · cases hr
    exact .join (h.name_eq.trans hjoin) (h.gives_mandatory hjoin (by simp))
      (h.gives_mandatory hjoin (by simp)) (returnPropertiesOf_given h)
  · cases hr
    exact .collection (h.name_eq.trans hcollection) (h.gives_mandatory hcollection (by simp))
      (h.gives_mandatory hcollection (by simp)) (returnPropertiesOf_given h)

theorem isReturn_eq (e : BoundElement) : isReturn e.name = (Return.ofElement? e).isSome := by
  unfold Return.ofElement?
  split_ifs <;> simp_all [isReturn]

theorem returnsOf_given (h : t.Binds table e) :
    List.Forall₂ Return.GivenBy (returnsOf e) (t.children.filter (isReturn ·.name)) :=
  forall₂_filterMap h.children (fun _ _ hc => by rw [hc.name_eq, isReturn_eq])
    fun _ _ _ hc hr => return_given hc hr

theorem resultSet_given (h : t.Binds table e) (hname : e.name = "resultset") :
    (ResultSet.ofElement e).GivenBy t :=
  ⟨h.gives_mandatory hname (by simp), returnsOf_given h⟩

theorem queriesOf_given (h : t.Binds table e) : QueriesGivenBy (queriesOf e) t := by
  refine TagTree.forall₂_map_filter h.children (p := fun n => n == "query" || n == "sql-query")
    fun c q hq hname => ?_
  have hgiven : c.Gives "name" (q.mandatory "name") := by
    rw [Bool.or_eq_true, beq_iff_eq, beq_iff_eq] at hname
    obtain hname | hname := hname
    · exact hq.gives_mandatory hname (by simp)
    · exact hq.gives_mandatory hname (by simp)
  exact ⟨hgiven, hq.childrenNamed fun _ _ hp hname => typedParam_given hp (Or.inr hname),
    returnsOf_given hq⟩

end

/-! ### Columns and identity -/

/-- A column has the name that its tag gives. -/
def Column.GivenBy (c : Column) (t : TagTree) : Prop :=
  t.Gives "name" c.name

/-- Columns of an element: the one that its attribute names, or else those of its children. -/
def ColumnsGivenBy (columns : List Column) (t : TagTree) : Prop :=
  match t.tag.get? "column" with
  | some name => columns.map (·.name) = [name]
  | none => List.Forall₂ Column.GivenBy columns (t.childrenNamed "column")

/-- A generator has the class that its tag gives, and the parameters below it. -/
structure Generator.GivenBy (g : Generator) (t : TagTree) : Prop where
  className : t.Gives "class" g.className
  params : List.Forall₂ Param.GivenBy g.params (t.childrenNamed "param")

/-- A cache has the usage that its tag gives. -/
def Cache.GivenBy (c : Cache) (t : TagTree) : Prop :=
  t.Gives "usage" c.usage

/-- An identifier has the columns that its tag gives, and a generator if there is one below it. -/
structure Id.GivenBy (i : Id) (t : TagTree) : Prop where
  metas : List.Forall₂ Meta.GivenBy i.metas (t.childrenNamed "meta")
  columns : ColumnsGivenBy i.columns t
  generator : Option.Rel Generator.GivenBy i.generator (t.child? "generator")

/-- Whether an element of this name describes a part of a key. -/
def isKeyPart (name : String) : Bool :=
  ["key-property", "key-many-to-one"].contains name

/-- A part of a key is of the kind of its element, and has the name and the columns that its tag
gives. -/
inductive KeyPart.GivenBy : KeyPart → TagTree → Prop
  | property {t : TagTree} {name : String} {typeName access : Option String}
      {columns : List Column} (hname : t.name = "key-property") (hgiven : t.Gives "name" name)
      (hcolumns : ColumnsGivenBy columns t) :
      KeyPart.GivenBy (.property name typeName access columns) t
  | manyToOne {t : TagTree} {name : String} {className entityName lazy : Option String}
      {columns : List Column} (hname : t.name = "key-many-to-one") (hgiven : t.Gives "name" name)
      (hcolumns : ColumnsGivenBy columns t) :
      KeyPart.GivenBy (.manyToOne name className entityName lazy columns) t

/-- A composite identifier has the parts below it, of both kinds in one order, and a generator if
there is one below it. -/
structure CompositeId.GivenBy (i : CompositeId) (t : TagTree) : Prop where
  metas : List.Forall₂ Meta.GivenBy i.metas (t.childrenNamed "meta")
  keys : List.Forall₂ KeyPart.GivenBy i.keys (t.children.filter (isKeyPart ·.name))
  generator : Option.Rel Generator.GivenBy i.generator (t.child? "generator")

/-- A discriminator has the columns that its tag gives. -/
def Discriminator.GivenBy (d : Discriminator) (t : TagTree) : Prop :=
  ColumnsGivenBy d.columns t

/-- A version has the name and the columns that its tag gives. -/
structure Version.GivenBy (v : Version) (t : TagTree) : Prop where
  name : t.Gives "name" v.name
  metas : List.Forall₂ Meta.GivenBy v.metas (t.childrenNamed "meta")
  columns : ColumnsGivenBy v.columns t

/-- A timestamp has the name and the columns that its tag gives. -/
structure Timestamp.GivenBy (v : Timestamp) (t : TagTree) : Prop where
  name : t.Gives "name" v.name
  metas : List.Forall₂ Meta.GivenBy v.metas (t.childrenNamed "meta")
  columns : ColumnsGivenBy v.columns t

/-- A key has the columns that its tag gives. -/
def Key.GivenBy (k : Key) (t : TagTree) : Prop :=
  ColumnsGivenBy k.columns t

section

variable {t : TagTree} {e : BoundElement}

theorem columnsOf_given (h : t.Binds table e) : ColumnsGivenBy (columnsOf e) t := by
  have hcolumn : e.attribute? "column" = t.tag.get? "column" :=
    h.attribute?_eq (by decide +kernel) (default?_column _)
  rw [ColumnsGivenBy, columnsOf, hcolumn]
  cases t.tag.get? "column" with
  | some name => rfl
  | none => exact h.childrenNamed fun _ _ hc hname => hc.gives_mandatory hname (by simp)

theorem generatorOf?_given (h : t.Binds table e) :
    Option.Rel Generator.GivenBy (generatorOf? e) (t.child? "generator") :=
  h.child? fun _ _ hg hname => ⟨hg.gives_mandatory hname (by simp), paramsOf_given hg⟩

theorem cache_given (h : t.Binds table e) (hname : e.name = "cache") :
    (Cache.ofElement e).GivenBy t :=
  h.gives_mandatory hname (by simp)

theorem id_given (h : t.Binds table e) : (Id.ofElement e).GivenBy t :=
  ⟨metasOf_given h, columnsOf_given h, generatorOf?_given h⟩

theorem keyPart_given (h : t.Binds table e) {k : KeyPart} (hk : KeyPart.ofElement? e = some k) :
    k.GivenBy t := by
  unfold KeyPart.ofElement? at hk
  split_ifs at hk with hproperty hreference
  · cases hk
    exact .property (h.name_eq.trans hproperty) (h.gives_mandatory hproperty (by simp))
      (columnsOf_given h)
  · cases hk
    exact .manyToOne (h.name_eq.trans hreference) (h.gives_mandatory hreference (by simp))
      (columnsOf_given h)

theorem isKeyPart_eq (e : BoundElement) : isKeyPart e.name = (KeyPart.ofElement? e).isSome := by
  unfold KeyPart.ofElement?
  split_ifs <;> simp_all [isKeyPart]

theorem keyPartsOf_given (h : t.Binds table e) :
    List.Forall₂ KeyPart.GivenBy (keyPartsOf e) (t.children.filter (isKeyPart ·.name)) :=
  forall₂_filterMap h.children (fun _ _ hc => by rw [hc.name_eq, isKeyPart_eq])
    fun _ _ _ hc hk => keyPart_given hc hk

theorem compositeId_given (h : t.Binds table e) : (CompositeId.ofElement e).GivenBy t :=
  ⟨metasOf_given h, keyPartsOf_given h, generatorOf?_given h⟩

theorem version_given (h : t.Binds table e) (hname : e.name = "version") :
    (Version.ofElement e).GivenBy t :=
  ⟨h.gives_mandatory hname (by simp), metasOf_given h, columnsOf_given h⟩

theorem timestamp_given (h : t.Binds table e) (hname : e.name = "timestamp") :
    (Timestamp.ofElement e).GivenBy t :=
  ⟨h.gives_mandatory hname (by simp), metasOf_given h, columnsOf_given h⟩

theorem keyOf?_given (h : t.Binds table e) :
    Option.Rel Key.GivenBy (keyOf? e) (t.child? "key") :=
  h.child? fun _ _ hk _ => columnsOf_given hk

end

/-! ### Collections -/

/-- The identifier of a collection has the type and the columns that its tag gives, and a generator
if there is one below it. -/
def CollectionId.GivenBy (i : CollectionId) (t : TagTree) : Prop :=
  t.Gives "type" i.typeName ∧ ColumnsGivenBy i.columns t ∧
    Option.Rel Generator.GivenBy i.generator (t.child? "generator")

/-- Whether an element of this name describes the index of a collection. -/
def isIndex (positional : Bool) (name : String) : Bool :=
  positional && name == "list-index" ||
    ["index", "map-key", "composite-map-key", "map-key-many-to-many", "index-many-to-any"].contains
      name

/-- The index of a collection has the columns that its tag gives.  A composite one has the class
instead, and the parts of the key below it; one to any class has the type of its identifiers as
well. -/
inductive CollectionIndex.GivenBy : CollectionIndex → TagTree → Prop
  | column {t : TagTree} {columns : List Column} {base : UInt32}
      (hcolumns : ColumnsGivenBy columns t) : CollectionIndex.GivenBy (.column columns base) t
  | mapKey {t : TagTree} {typeName formula : Option String} {columns : List Column}
      (hcolumns : ColumnsGivenBy columns t) :
      CollectionIndex.GivenBy (.mapKey typeName columns formula) t
  | composite {t : TagTree} {className : String} {keys : List KeyPart}
      (hname : t.name = "composite-map-key") (hclass : t.Gives "class" className)
      (hkeys : List.Forall₂ KeyPart.GivenBy keys (t.children.filter (isKeyPart ·.name))) :
      CollectionIndex.GivenBy (.composite className keys) t
  | manyToMany {t : TagTree} {className : Option String} {columns : List Column}
      (hcolumns : ColumnsGivenBy columns t) :
      CollectionIndex.GivenBy (.manyToMany className columns) t
  | manyToAny {t : TagTree} {idType metaType : String} {columns : List Column}
      (hname : t.name = "index-many-to-any") (hid : t.Gives "id-type" idType)
      (hcolumns : ColumnsGivenBy columns t) :
      CollectionIndex.GivenBy (.manyToAny idType metaType columns) t

/-- A meta value has the value and the class that its tag gives. -/
def MetaValue.GivenBy (m : MetaValue) (t : TagTree) : Prop :=
  t.Gives "value" m.value ∧ t.Gives "class" m.className

/-- The elements of a collection have the columns that their tag gives, unless they are of another
class alone.  Those of any class have the type of their identifiers, and the meta values below. -/
inductive SimpleElement.GivenBy : SimpleElement → TagTree → Prop
  | basic {t : TagTree} {typeName formula : Option String} {columns : List Column}
      (hcolumns : ColumnsGivenBy columns t) :
      SimpleElement.GivenBy (.basic typeName columns formula) t
  | oneToMany {t : TagTree} {className : Option String} :
      SimpleElement.GivenBy (.oneToMany className) t
  | manyToMany {t : TagTree} {className : Option String} {columns : List Column}
      (hcolumns : ColumnsGivenBy columns t) :
      SimpleElement.GivenBy (.manyToMany className columns) t
  | manyToAny {t : TagTree} {idType metaType : String} {metaValues : List MetaValue}
      {columns : List Column} (hname : t.name = "many-to-any") (hid : t.Gives "id-type" idType)
      (hvalues : List.Forall₂ MetaValue.GivenBy metaValues (t.childrenNamed "meta-value"))
      (hcolumns : ColumnsGivenBy columns t) :
      SimpleElement.GivenBy (.manyToAny idType metaType metaValues columns) t

/-- A collection has the name that its tag gives, and its parts are given by the children that they
are read off; of several that describe the index, by the last. -/
structure Collection.GivenBy (c : Collection) (t : TagTree) : Prop where
  name : t.Gives "name" c.name
  metas : List.Forall₂ Meta.GivenBy c.metas (t.childrenNamed "meta")
  cache : Option.Rel Cache.GivenBy c.cache (t.child? "cache")
  collectionId : Option.Rel CollectionId.GivenBy c.collectionId (t.child? "collection-id")
  key : Option.Rel Key.GivenBy c.key (t.child? "key")
  index : Option.Rel CollectionIndex.GivenBy c.index
    (t.children.filter (isIndex c.kind.isPositional ·.name)).getLast?
  filters : List.Forall₂ Filter.GivenBy c.filters (t.childrenNamed "filter")

section

variable {t : TagTree} {e : BoundElement}

theorem collectionId_given (h : t.Binds table e) (hname : e.name = "collection-id") :
    (CollectionId.ofElement e).GivenBy t :=
  ⟨h.gives_mandatory hname (by simp), columnsOf_given h, generatorOf?_given h⟩

theorem collectionIndex_given (h : t.Binds table e) {positional : Bool} {i : CollectionIndex}
    (hi : CollectionIndex.ofElement? positional e = some i) : i.GivenBy t := by
  unfold CollectionIndex.ofElement? at hi
  split_ifs at hi with _ _ hcomposite _ hany
  · cases hi
    exact .column (columnsOf_given h)
  · cases hi
    exact .mapKey (columnsOf_given h)
  · cases hi
    exact .composite (h.name_eq.trans hcomposite) (h.gives_mandatory hcomposite (by simp))
      (keyPartsOf_given h)
  · cases hi
    exact .manyToMany (columnsOf_given h)
  · cases hi
    exact .manyToAny (h.name_eq.trans hany) (h.gives_mandatory hany (by simp)) (columnsOf_given h)

theorem isIndex_eq (positional : Bool) (e : BoundElement) :
    isIndex positional e.name = (CollectionIndex.ofElement? positional e).isSome := by
  unfold CollectionIndex.ofElement?
  split_ifs <;> simp_all [isIndex] <;> tauto

theorem indexOf?_given (h : t.Binds table e) (kind : CollectionKind) :
    Option.Rel CollectionIndex.GivenBy (indexOf? kind e)
      (t.children.filter (isIndex kind.isPositional ·.name)).getLast? :=
  rel_getLast? (forall₂_filterMap h.children
    (fun _ _ hc => by rw [hc.name_eq, isIndex_eq kind.isPositional])
    fun _ _ _ hc hi => collectionIndex_given hc hi)

theorem metaValuesOf_given (h : t.Binds table e) :
    List.Forall₂ MetaValue.GivenBy (metaValuesOf e) (t.childrenNamed "meta-value") :=
  h.childrenNamed fun _ _ hm hname =>
    ⟨hm.gives_mandatory hname (by simp), hm.gives_mandatory hname (by simp)⟩

theorem simpleElement_given (h : t.Binds table e) {s : SimpleElement}
    (hs : SimpleElement.ofElement? e = some s) : s.GivenBy t := by
  unfold SimpleElement.ofElement? at hs
  split_ifs at hs with _ _ _ hany
  · cases hs
    exact .basic (columnsOf_given h)
  · cases hs
    exact .oneToMany
  · cases hs
    exact .manyToMany (columnsOf_given h)
  · cases hs
    exact .manyToAny (h.name_eq.trans hany) (h.gives_mandatory hany (by simp))
      (metaValuesOf_given h) (columnsOf_given h)

theorem collection_given (h : t.Binds table e) {kind : CollectionKind}
    (hname : e.name = kind.elementName) : (Collection.ofElement kind e).GivenBy t where
  name := h.gives_mandatory hname (by cases kind <;> simp [CollectionKind.elementName])
  metas := metasOf_given h
  cache := h.child? fun _ _ hc hname => cache_given hc hname
  collectionId := h.child? fun _ _ hi hname => collectionId_given hi hname
  key := keyOf?_given h
  index := indexOf?_given h kind
  filters := filtersOf_given h

end

end Mapping

end PersistenceMapping
