/-
Elements that are alike map to the same.

Whatever is read off a bound element is read off its attributes, its children or its text.  So each
reader gives the same for elements that are alike, as long as it reads alike what it takes from
them, and in the end the mappings are the same (`Mapping.ofElement_congr`).

Most attributes are read in the same way wherever they are declared.  For the others the name of the
element is needed, which the reader above knows.
-/
import PersistenceMapping.Proofs.Mapping.Alike

namespace PersistenceMapping

namespace BoundElement.Alike

open Schema.Hierarchical

variable {e e' : BoundElement} {n : String}

/-! ### Contents -/

theorem content?_eq {schema : Schema} (h : Alike schema e e') : e'.content? = e.content? := by
  rw [content?, content?, h.trimmedText_eq]

theorem childContent?_eq {schema : Schema} (h : Alike schema e e') :
    e'.childContent? n = e.childContent? n :=
  h.bind_child? fun _ _ hc _ => hc.content?_eq

theorem attributeOrChild?_eq (h : Alike table e e') (hn : n ∉ typedNames) :
    e'.attributeOrChild? n = e.attributeOrChild? n := by
  rw [attributeOrChild?, attributeOrChild?, h.attribute?_eq hn, h.childContent?_eq]

theorem attributeOrContent?_eq (h : Alike table e e') (hn : n ∉ typedNames) :
    e'.attributeOrContent? n = e.attributeOrContent? n := by
  rw [attributeOrContent?, attributeOrContent?, h.attribute?_eq hn, h.content?_eq]

theorem typeName?_eq (h : Alike table e e') : e'.typeName? = e.typeName? := by
  have hchild : (e'.child? "type").bind (·.attribute? "name") =
      (e.child? "type").bind (·.attribute? "name") :=
    h.bind_child? fun _ _ hc _ => hc.attribute?_eq (by simp)
  rw [typeName?, typeName?, h.attribute?_eq (by simp), hchild]

theorem childAttributes_eq (h : Alike table e e') {child : String} (hn : n ∉ typedNames) :
    e'.childAttributes child n = e.childAttributes child n := by
  have hread : ∀ es : List BoundElement,
      es.filterMap (·.attribute? n) = (es.map (·.attribute? n)).filterMap id := by
    intro es
    rw [List.filterMap_map]
    rfl
  rw [childAttributes, childAttributes, hread, hread,
    h.map_childrenNamed fun _ _ hc _ => hc.attribute?_eq hn]

end BoundElement.Alike

namespace Mapping

open BoundElement Schema.Hierarchical

variable {e e' : BoundElement}

/-! ### What accompanies classes -/

theorem paramsOf_congr (h : Alike table e e') : paramsOf e' = paramsOf e :=
  h.map_childrenNamed fun _ _ hc _ => by
    rw [hc.mandatory_eq (by simp), hc.trimmedText_eq]

theorem metasOf_congr (h : Alike table e e') : metasOf e' = metasOf e :=
  h.map_childrenNamed fun _ _ hc _ => by
    simp [Meta.ofElement, hc.mandatory_eq, hc.trimmedText_eq, hc.flagD_eq]

theorem typedParam_congr (h : Alike table e e') :
    TypedParam.ofElement e' = TypedParam.ofElement e := by
  simp [TypedParam.ofElement, h.mandatory_eq]

theorem filtersOf_congr (h : Alike table e e') : filtersOf e' = filtersOf e :=
  h.map_childrenNamed fun _ _ hc _ => by
    simp [hc.mandatory_eq, hc.attributeOrContent?_eq, hc.flagD_eq]

theorem customSqlOf?_congr (h : Alike table e e') {name : String} :
    customSqlOf? e' name = customSqlOf? e name :=
  h.map_child? fun _ _ hc _ => by
    simp [hc.attribute?_eq, hc.trimmedText_eq, hc.flagD_eq]

theorem loaderOf?_congr (h : Alike table e e') : loaderOf? e' = loaderOf? e :=
  h.bind_child? fun _ _ hc _ => hc.attribute?_eq (by simp)

theorem synchronizedTablesOf_congr (h : Alike table e e') :
    synchronizedTablesOf e' = synchronizedTablesOf e :=
  h.childAttributes_eq (by simp)

theorem fetchProfilesOf_congr (h : Alike table e e') : fetchProfilesOf e' = fetchProfilesOf e := by
  refine h.map_childrenNamed fun c c' hc _ => ?_
  have hfetches : (FetchProfile.ofElement c').fetches = (FetchProfile.ofElement c).fetches :=
    hc.map_childrenNamed fun _ _ hf _ => by
      simp [hf.attribute?_eq, hf.mandatory_eq, hf.attributeD_eq]
  have hname : (FetchProfile.ofElement c').name = (FetchProfile.ofElement c).name :=
    hc.mandatory_eq (by simp)
  exact congrArg₂ FetchProfile.mk hname hfetches

theorem databaseObject_congr (h : Alike table e e') :
    DatabaseObject.ofElement e' = DatabaseObject.ofElement e := by
  have hdefinition : (e'.child? "definition").bind (·.attribute? "class") =
      (e.child? "definition").bind (·.attribute? "class") :=
    h.bind_child? fun _ _ hc _ => hc.attribute?_eq (by simp)
  simp [DatabaseObject.ofElement, hdefinition, h.childContent?_eq, h.childAttributes_eq]

/-! ### Queries -/

theorem returnPropertiesOf_congr (h : Alike table e e') :
    returnPropertiesOf e' = returnPropertiesOf e :=
  h.map_childrenNamed fun _ _ hc _ => by
    simp [ReturnProperty.ofElement, hc.mandatory_eq, hc.attribute?_eq, hc.childAttributes_eq]

theorem return_congr (h : Alike table e e') : Return.ofElement? e' = Return.ofElement? e := by
  simp [Return.ofElement?, lockModeOf, h.name_eq, h.mandatory_eq, h.attribute?_eq, h.attributeD_eq,
    returnPropertiesOf_congr h]

theorem returnsOf_congr (h : Alike table e e') : returnsOf e' = returnsOf e :=
  h.filterMap_children fun _ _ hc => return_congr hc

theorem resultSet_congr (h : Alike table e e') :
    ResultSet.ofElement e' = ResultSet.ofElement e := by
  simp [ResultSet.ofElement, h.mandatory_eq, returnsOf_congr h]

theorem query_congr (h : Alike table e e') : Query.ofElement e' = Query.ofElement e := by
  have hparams := h.map_childrenNamed (n := "query-param") fun _ _ hc _ => typedParam_congr hc
  simp [Query.ofElement, h.name_eq, h.trimmedText_eq, h.mandatory_eq, h.attribute?_eq, h.flagD_eq,
    hparams, returnsOf_congr h, synchronizedTablesOf_congr h]

theorem queriesOf_congr (h : Alike table e e') : queriesOf e' = queriesOf e :=
  Alike.map_filter h.children (fun _ _ hc => by rw [isQuery, isQuery, hc.name_eq])
    fun _ _ hc _ => query_congr hc

/-! ### Columns and identity -/

theorem column_congr (h : Alike table e e') (hname : e.name = "column") :
    Column.ofElement e' = Column.ofElement e := by
  have hnotNull : e'.flag? "not-null" = e.flag? "not-null" :=
    h.flag?_of (by rw [hname]; decide +kernel)
  have hunique : e'.flag? "unique" = e.flag? "unique" :=
    h.flag?_of (by rw [hname]; decide +kernel)
  simp [Column.ofElement, h.mandatory_eq, h.number?_eq, h.attribute?_eq, hnotNull, hunique]

theorem columnsOf_congr (h : Alike table e e') : columnsOf e' = columnsOf e := by
  have hchildren := h.map_childrenNamed fun _ _ hc hname => column_congr hc hname
  have hcolumn : e'.attribute? "column" = e.attribute? "column" :=
    h.attribute?_eq (by simp)
  rw [columnsOf, columnsOf, hcolumn, hchildren]
  cases e.attribute? "column" with
  | none => rfl
  | some name => simp [h.number?_eq]

theorem generatorOf?_congr (h : Alike table e e') : generatorOf? e' = generatorOf? e :=
  h.map_child? fun _ _ hc _ => by
    rw [hc.mandatory_eq (by simp), paramsOf_congr hc]

theorem keyPart_congr (h : Alike table e e') : KeyPart.ofElement? e' = KeyPart.ofElement? e := by
  rw [KeyPart.ofElement?, KeyPart.ofElement?, h.name_eq]
  by_cases hproperty : e.name = "key-property"
  · simp [hproperty, h.mandatory_eq, h.typeName?_eq, h.attribute?_eq, columnsOf_congr h]
  · by_cases hreference : e.name = "key-many-to-one"
    · have hlazy : e'.attribute? "lazy" = e.attribute? "lazy" :=
        h.attribute?_of (by rw [hreference]; decide +kernel)
      simp [hreference, hlazy, h.mandatory_eq, h.attribute?_eq, columnsOf_congr h]
    · rw [if_neg hproperty, if_neg hproperty, if_neg hreference, if_neg hreference]

theorem keyPartsOf_congr (h : Alike table e e') : keyPartsOf e' = keyPartsOf e :=
  h.filterMap_children fun _ _ hc => keyPart_congr hc

theorem keyOf?_congr (h : Alike table e e') : keyOf? e' = keyOf? e :=
  h.map_child? fun _ _ hc _ => by
    simp [Key.ofElement, columnsOf_congr hc, hc.attribute?_eq, hc.attributeD_eq]

theorem cache_congr (h : Alike table e e') : Cache.ofElement e' = Cache.ofElement e := by
  simp [Cache.ofElement, h.mandatory_eq, h.attribute?_eq, h.attributeD_eq]

theorem id_congr (h : Alike table e e') : Id.ofElement e' = Id.ofElement e := by
  simp [Id.ofElement, h.attribute?_eq, h.typeName?_eq, metasOf_congr h, columnsOf_congr h,
    generatorOf?_congr h]

theorem compositeId_congr (h : Alike table e e') :
    CompositeId.ofElement e' = CompositeId.ofElement e := by
  simp [CompositeId.ofElement, h.attribute?_eq, h.attributeD_eq, h.flagD_eq, metasOf_congr h,
    keyPartsOf_congr h, generatorOf?_congr h]

theorem discriminator_congr (h : Alike table e e') (hname : e.name = "discriminator") :
    Discriminator.ofElement e' = Discriminator.ofElement e := by
  have hnotNull : e'.flagD "not-null" true = e.flagD "not-null" true := by
    refine h.flagD_of ?_
    rw [hname]
    decide +kernel
  simp [Discriminator.ofElement, hnotNull, h.attributeD_eq, h.attributeOrChild?_eq, h.flagD_eq,
    columnsOf_congr h]

theorem version_congr (h : Alike table e e') (hname : e.name = "version") :
    Version.ofElement e' = Version.ofElement e := by
  have hinsert : e'.flag? "insert" = e.flag? "insert" :=
    h.flag?_of (by rw [hname]; decide +kernel)
  simp [Version.ofElement, hinsert, h.mandatory_eq, h.attribute?_eq, h.attributeD_eq,
    metasOf_congr h, columnsOf_congr h]

theorem timestamp_congr (h : Alike table e e') :
    Timestamp.ofElement e' = Timestamp.ofElement e := by
  simp [Timestamp.ofElement, h.mandatory_eq, h.attribute?_eq, h.attributeD_eq, metasOf_congr h,
    columnsOf_congr h]

/-! ### Collections -/

theorem collectionIndex_congr (h : Alike table e e') {positional : Bool} :
    CollectionIndex.ofElement? positional e' = CollectionIndex.ofElement? positional e := by
  rw [CollectionIndex.ofElement?, CollectionIndex.ofElement?, h.name_eq]
  by_cases hposition : (positional && (e.name == "list-index" || e.name == "index")) = true
  · have hbase : (e'.number? "base").getD 0 = (e.number? "base").getD 0 := by
      refine h.numberD_of ?_
      simp only [Bool.and_eq_true, Bool.or_eq_true, beq_iff_eq] at hposition
      obtain ⟨-, hname | hname⟩ := hposition
      · rw [hname]
        decide +kernel
      · rw [hname]
        decide +kernel
    rw [if_pos hposition, if_pos hposition, hbase, columnsOf_congr h]
  · rw [if_neg hposition, if_neg hposition]
    simp [h.typeName?_eq, h.attributeOrChild?_eq, h.mandatory_eq, h.attribute?_eq, h.attributeD_eq,
      columnsOf_congr h, keyPartsOf_congr h]

theorem indexOf?_congr (h : Alike table e e') {kind : CollectionKind} :
    indexOf? kind e' = indexOf? kind e := by
  rw [indexOf?, indexOf?, h.filterMap_children fun _ _ hc => collectionIndex_congr hc]

theorem collectionId_congr (h : Alike table e e') :
    CollectionId.ofElement e' = CollectionId.ofElement e := by
  simp [CollectionId.ofElement, h.mandatory_eq, columnsOf_congr h, generatorOf?_congr h]

theorem metaValuesOf_congr (h : Alike table e e') : metaValuesOf e' = metaValuesOf e :=
  h.map_childrenNamed fun _ _ hc _ => by simp [hc.mandatory_eq]

theorem simpleElement_congr (h : Alike table e e') :
    SimpleElement.ofElement? e' = SimpleElement.ofElement? e := by
  simp [SimpleElement.ofElement?, h.name_eq, h.typeName?_eq, h.attributeOrChild?_eq, h.mandatory_eq,
    h.attribute?_eq, h.attributeD_eq, columnsOf_congr h, metaValuesOf_congr h]

theorem collection_congr (h : Alike table e e') {kind : CollectionKind}
    (hname : e.name = kind.elementName) :
    Collection.ofElement kind e' = Collection.ofElement kind e := by
  have hmutable : e'.flagD "mutable" true = e.flagD "mutable" true := by
    refine h.flagD_of ?_
    rw [hname]
    cases kind <;> decide +kernel
  have hlazy : e'.attribute? "lazy" = e.attribute? "lazy" := by
    refine h.attribute?_of ?_
    rw [hname]
    cases kind <;> decide +kernel
  have hcache := h.map_child? (n := "cache") fun _ _ hc _ => cache_congr hc
  have hid := h.map_child? (n := "collection-id") fun _ _ hc _ => collectionId_congr hc
  simp [Collection.ofElement, hmutable, hlazy, hcache, hid, h.mandatory_eq, h.attribute?_eq,
    h.attributeOrChild?_eq, h.flagD_eq, h.number?_eq, metasOf_congr h, keyOf?_congr h,
    indexOf?_congr h, filtersOf_congr h, loaderOf?_congr h, customSqlOf?_congr h]

/-! ### Members -/

theorem property_congr (h : Alike table e e') (hname : e.name = "property") :
    Property.ofElement e' = Property.ofElement e := by
  have hflag : ∀ n ∈ ["not-null", "unique", "insert", "update"], e'.flag? n = e.flag? n := by
    intro n hn
    refine h.flag?_of ?_
    rw [hname]
    revert n
    decide +kernel
  have hparams := h.map_child? (n := "type") fun _ _ hc _ => paramsOf_congr hc
  simp [Property.ofElement, hflag, hparams, h.mandatory_eq, h.typeName?_eq, h.flagD_eq,
    h.attributeD_eq, h.attributeOrChild?_eq, h.attribute?_eq, columnsOf_congr h, metasOf_congr h]

theorem manyToOne_congr (h : Alike table e e') (hname : e.name = "many-to-one") :
    ManyToOne.ofElement e' = ManyToOne.ofElement e := by
  have hnotNull : e'.flag? "not-null" = e.flag? "not-null" :=
    h.flag?_of (by rw [hname]; decide +kernel)
  have hlazy : e'.attribute? "lazy" = e.attribute? "lazy" :=
    h.attribute?_of (by rw [hname]; decide +kernel)
  simp [ManyToOne.ofElement, hnotNull, hlazy, h.mandatory_eq, h.attribute?_eq,
    h.attributeOrChild?_eq, h.flagD_eq, h.attributeD_eq, columnsOf_congr h, metasOf_congr h]

theorem oneToOne_congr (h : Alike table e e') : OneToOne.ofElement e' = OneToOne.ofElement e := by
  simp [OneToOne.ofElement, h.mandatory_eq, h.attribute?_eq, h.flagD_eq, h.attributeOrChild?_eq]

theorem parentOf?_congr (h : Alike table e e') : parentOf? e' = parentOf? e :=
  h.bind_child? fun _ _ hc _ => hc.attribute?_eq (by simp)

theorem component_congr (h : Alike table e e') :
    Component.ofElement e' = Component.ofElement e := by
  simp [Component.ofElement, h.mandatory_eq, h.attribute?_eq, h.flagD_eq, parentOf?_congr h,
    metasOf_congr h]

theorem group_congr (h : Alike table e e') : Group.ofElement e' = Group.ofElement e := by
  simp [Group.ofElement, h.mandatory_eq, h.flagD_eq]

theorem anyReference_congr (h : Alike table e e') :
    AnyReference.ofElement e' = AnyReference.ofElement e := by
  simp [AnyReference.ofElement, h.mandatory_eq, h.attribute?_eq, h.attributeD_eq, h.flagD_eq,
    metaValuesOf_congr h, columnsOf_congr h]

/-- The name of the element that maps a member of this kind. -/
def MemberKind.elementName : MemberKind → String
  | property => "property"
  | manyToOne => "many-to-one"
  | oneToOne => "one-to-one"
  | component => "component"
  | dynamicComponent => "dynamic-component"
  | properties => "properties"
  | any => "any"
  | collection kind => kind.elementName

theorem MemberKind.eq_elementName {name : String} {kind : MemberKind}
    (h : MemberKind.ofName? name = some kind) : name = kind.elementName := by
  unfold MemberKind.ofName? at h
  split_ifs at h
  case neg =>
    obtain ⟨kind, hkind, rfl⟩ := Option.map_eq_some_iff.mp h
    have hfound := List.find?_some hkind
    rw [beq_iff_eq] at hfound
    exact hfound.symm
  all_goals
    cases h
    assumption

mutual

theorem member_congr : (e e' : BoundElement) → Alike table e e' →
    Member.ofElement? e' = Member.ofElement? e
  | .mk name attributes children text, .mk name' attributes' children' text', h => by
    obtain rfl : name' = name := h.name_eq
    have hmembers := membersOf_congr children children' h.children
    have helement := elementOf?_congr children children' h.children
    rw [Member.ofElement?, Member.ofElement?, hmembers, helement]
    -- The kind tells the name of the element, on which some of its attributes depend.
    cases hkind : MemberKind.ofName? name' with
    | none => rfl
    | some kind =>
        have hname := MemberKind.eq_elementName hkind
        cases kind with
        | property => simp only [property_congr h hname]
        | manyToOne => simp only [manyToOne_congr h hname]
        | oneToOne => simp only [oneToOne_congr h]
        | component => simp only [component_congr h]
        | dynamicComponent => simp only [component_congr h]
        | properties => simp only [group_congr h]
        | any => simp only [anyReference_congr h]
        | collection kind => simp only [collection_congr h hname]

theorem membersOf_congr : (es es' : List BoundElement) → List.Forall₂ (Alike table) es es' →
    membersOf es' = membersOf es
  | [], [], _ => rfl
  | e :: es, e' :: es', .cons h hs => by
    rw [membersOf, membersOf, member_congr e e' h, membersOf_congr es es' hs]

theorem composite_congr : (e e' : BoundElement) → Alike table e e' → compositeOf e' = compositeOf e
  | .mk name attributes children text, .mk name' attributes' children' text', h => by
    rw [compositeOf, compositeOf, membersOf_congr children children' h.children,
      nestedOf_congr children children' h.children, parentOf?_congr h,
      h.attribute?_eq (by simp), h.mandatory_eq (by simp)]

theorem nestedOf_congr : (es es' : List BoundElement) → List.Forall₂ (Alike table) es es' →
    nestedOf es' = nestedOf es
  | [], [], _ => rfl
  | e :: es, e' :: es', .cons h hs => by
    rw [nestedOf, nestedOf, h.name_eq, composite_congr e e' h, nestedOf_congr es es' hs]

theorem elementOf?_congr : (es es' : List BoundElement) → List.Forall₂ (Alike table) es es' →
    elementOf? es' = elementOf? es
  | [], [], _ => rfl
  | e :: es, e' :: es', .cons h hs => by
    rw [elementOf?, elementOf?, h.name_eq, composite_congr e e' h, elementOf?_congr es es' hs,
      simpleElement_congr h]

end

/-! ### Classes -/

theorem naturalId_congr (h : Alike table e e') (hname : e.name = "natural-id") :
    NaturalId.ofElement e' = NaturalId.ofElement e := by
  have hmutable : e'.flagD "mutable" false = e.flagD "mutable" false := by
    refine h.flagD_of ?_
    rw [hname]
    decide +kernel
  rw [NaturalId.ofElement, NaturalId.ofElement, hmutable, membersOf_congr _ _ h.children]

theorem joinsOf_congr (h : Alike table e e') : joinsOf e' = joinsOf e :=
  h.map_childrenNamed fun _ _ hc _ => by
    simp [Join.ofElement, hc.mandatory_eq, hc.attribute?_eq, hc.attributeD_eq, hc.flagD_eq,
      keyOf?_congr hc, membersOf_congr _ _ hc.children, customSqlOf?_congr hc]

theorem subclassBody_congr (h : Alike table e e') {kind : SubclassKind}
    (hname : e.name = kind.elementName) :
    SubclassBody.ofElement kind e' = SubclassBody.ofElement kind e := by
  have hflag : ∀ n ∈ ["lazy", "abstract"], e'.flag? n = e.flag? n := by
    intro n hn
    refine h.flag?_of ?_
    rw [hname]
    revert n
    cases kind <;> decide +kernel
  simp [SubclassBody.ofElement, hflag, h.attribute?_eq, metasOf_congr h, keyOf?_congr h,
    membersOf_congr _ _ h.children, joinsOf_congr h, customSqlOf?_congr h, queriesOf_congr h]

mutual

theorem subclass_congr : (e e' : BoundElement) → Alike table e e' →
    Subclass.ofElement? e' = Subclass.ofElement? e
  | .mk name attributes children text, .mk name' attributes' children' text', h => by
    obtain rfl : name' = name := h.name_eq
    rw [Subclass.ofElement?, Subclass.ofElement?, subclassesOf_congr children children' h.children]
    cases hkind : SubclassKind.ofName? name' with
    | none => rfl
    | some kind =>
        have hname := List.find?_some hkind
        rw [beq_iff_eq] at hname
        simp only [subclassBody_congr h hname.symm]

theorem subclassesOf_congr : (es es' : List BoundElement) → List.Forall₂ (Alike table) es es' →
    subclassesOf es' = subclassesOf es
  | [], [], _ => rfl
  | e :: es, e' :: es', .cons h hs => by
    rw [subclassesOf, subclassesOf, subclass_congr e e' h, subclassesOf_congr es es' hs]

end

theorem classMapping_congr (h : Alike table e e') (hname : e.name = "class") :
    ClassMapping.ofElement e' = ClassMapping.ofElement e := by
  have hmutable : e'.flagD "mutable" true = e.flagD "mutable" true := by
    refine h.flagD_of ?_
    rw [hname]
    decide +kernel
  have hflag : ∀ n ∈ ["lazy", "abstract"], e'.flag? n = e.flag? n := by
    intro n hn
    refine h.flag?_of ?_
    rw [hname]
    revert n
    decide +kernel
  have hlock : e'.attribute? "optimistic-lock" = e.attribute? "optimistic-lock" :=
    h.attribute?_of (by rw [hname]; decide +kernel)
  have hcache := h.map_child? (n := "cache") fun _ _ hc _ => cache_congr hc
  have hid := h.map_child? (n := "id") fun _ _ hc _ => id_congr hc
  have hcomposite := h.map_child? (n := "composite-id") fun _ _ hc _ => compositeId_congr hc
  have hdiscriminator := h.map_child? fun _ _ hc hname => discriminator_congr hc hname
  have hnatural := h.map_child? fun _ _ hc hname => naturalId_congr hc hname
  have hversion := h.map_child? fun _ _ hc hname => version_congr hc hname
  have htimestamp := h.map_child? (n := "timestamp") fun _ _ hc _ => timestamp_congr hc
  have hresults := h.map_childrenNamed (n := "resultset") fun _ _ hc _ => resultSet_congr hc
  simp [ClassMapping.ofElement, hmutable, hflag, attributeD, hlock, hcache, hid, hcomposite,
    hdiscriminator, hnatural, hversion, htimestamp, hresults, h.attribute?_eq,
    h.attributeOrChild?_eq, h.flagD_eq, h.number?_eq, metasOf_congr h, synchronizedTablesOf_congr h,
    membersOf_congr _ _ h.children, joinsOf_congr h, subclassesOf_congr _ _ h.children,
    loaderOf?_congr h, customSqlOf?_congr h, filtersOf_congr h, fetchProfilesOf_congr h,
    queriesOf_congr h]

/-! ### Documents -/

theorem typeDef_congr (h : Alike table e e') : TypeDef.ofElement e' = TypeDef.ofElement e := by
  simp [TypeDef.ofElement, h.mandatory_eq, paramsOf_congr h]

theorem filterDef_congr (h : Alike table e e') :
    FilterDef.ofElement e' = FilterDef.ofElement e := by
  have hparams := h.map_childrenNamed (n := "filter-param") fun _ _ hc _ => typedParam_congr hc
  simp [FilterDef.ofElement, h.mandatory_eq, h.attributeOrContent?_eq, hparams]

theorem identifierGenerator_congr (h : Alike table e e') :
    IdentifierGenerator.ofElement e' = IdentifierGenerator.ofElement e := by
  simp [IdentifierGenerator.ofElement, h.mandatory_eq]

theorem import_congr (h : Alike table e e') : Import.ofElement e' = Import.ofElement e := by
  simp [Import.ofElement, h.mandatory_eq, h.attribute?_eq]

/-- Elements that are alike map to the same. -/
theorem ofElement_congr (h : Alike table e e') : ofElement e' = ofElement e := by
  have hgenerators := h.map_childrenNamed (n := "identifier-generator")
    fun _ _ hc _ => identifierGenerator_congr hc
  have htypes := h.map_childrenNamed (n := "typedef") fun _ _ hc _ => typeDef_congr hc
  have hfilters := h.map_childrenNamed (n := "filter-def") fun _ _ hc _ => filterDef_congr hc
  have himports := h.map_childrenNamed (n := "import") fun _ _ hc _ => import_congr hc
  have hclasses := h.map_childrenNamed fun _ _ hc hname => classMapping_congr hc hname
  have hresults := h.map_childrenNamed (n := "resultset") fun _ _ hc _ => resultSet_congr hc
  have hobjects := h.map_childrenNamed (n := "database-object")
    fun _ _ hc _ => databaseObject_congr hc
  simp [ofElement, hgenerators, htypes, hfilters, himports, hclasses, hresults, hobjects,
    h.attribute?_eq, h.attributeD_eq, h.flagD_eq, metasOf_congr h,
    subclassesOf_congr _ _ h.children, queriesOf_congr h, fetchProfilesOf_congr h]

end Mapping

end PersistenceMapping
