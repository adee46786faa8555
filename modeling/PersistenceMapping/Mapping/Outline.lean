/-
Mappings as outlines.

The parts of an outline bear the names under which a mapping is shown.  Where a type has
several forms, the part `is` says which form a value has.
-/
import PersistenceMapping.Mapping.Root
import PersistenceMapping.Outline

namespace PersistenceMapping

namespace Mapping

open Outline (part ofList?)

/-! ### Values without members -/

instance : Outlined Param where
  outline p := .ofParts [part "name" p.name, part "value" p.value]

instance : Outlined Meta where
  outline m :=
    .ofParts [part "attribute" m.attributeName, part "value" m.value, part "inherit" m.inherit]

instance : Outlined TypedParam where
  outline p := .ofParts [part "name" p.name, part "type_name" p.typeName]

instance : Outlined Filter where
  outline f :=
    .ofParts
      [part "name" f.name, part "condition" f.condition,
       part "auto_alias_injection" f.autoAliasInjection]

instance : Outlined CustomSql where
  outline s := .ofParts [part "sql" s.sql, part "callable" s.callable, part "check" s.check]

instance : Outlined Fetch where
  outline f :=
    .ofParts [part "entity" f.entity, part "association" f.association, part "style" f.style]

instance : Outlined FetchProfile where
  outline p := .ofParts [part "name" p.name, part "fetches" p.fetches]

instance : Outlined DatabaseObject where
  outline o :=
    .ofParts
      [part "definition" o.definition, part "create" o.create, part "drop" o.drop,
       part "dialect_scopes" o.dialectScopes]

instance : Outlined Column where
  outline c :=
    .ofParts
      [part "name" c.name, part "length" c.length, part "precision" c.precision,
       part "scale" c.scale, part "not_null" c.notNull, part "unique" c.unique,
       part "sql_type" c.sqlType, part "default" c.default]

instance : Outlined ReturnProperty where
  outline p := .ofParts [part "name" p.name, part "columns" p.columns]

instance : Outlined Return where
  outline
    | .scalar column typeName =>
      .ofParts [part "is" "scalar", part "column" column, part "type_name" typeName]
    | .entity aliasName entity lockMode properties =>
      .ofParts
        [part "is" "entity", part "alias" aliasName, part "entity" entity,
         part "lock_mode" lockMode, part "properties" properties]
    | .join aliasName name lockMode properties =>
      .ofParts
        [part "is" "join", part "alias" aliasName, part "property" name, part "lock_mode" lockMode,
         part "properties" properties]
    | .collection aliasName role lockMode properties =>
      .ofParts
        [part "is" "collection", part "alias" aliasName, part "role" role,
         part "lock_mode" lockMode, part "properties" properties]

instance : Outlined ResultSet where
  outline r := .ofParts [part "name" r.name, part "returns" r.returns]

instance : Outlined Query where
  outline q :=
    .ofParts
      [part "name" q.name, part "native" q.native, part "query" q.query,
       part "cacheable" q.cacheable, part "callable" q.callable,
       part "result_set_ref" q.resultSetRef, part "params" q.params, part "returns" q.returns,
       part "synchronized_tables" q.synchronizedTables]

instance : Outlined Generator where
  outline g := .ofParts [part "class" g.className, part "params" g.params]

instance : Outlined Cache where
  outline c := .ofParts [part "usage" c.usage, part "region" c.region, part "include" c.included]

instance : Outlined Id where
  outline i :=
    .ofParts
      [part "name" i.name, part "type_name" i.typeName, part "access" i.access,
       part "unsaved_value" i.unsavedValue, part "metas" i.metas, part "columns" i.columns,
       part "generator" i.generator]

instance : Outlined KeyPart where
  outline
    | .property name typeName access columns =>
      .ofParts
        [part "is" "key-property", part "name" name, part "type_name" typeName,
         part "access" access, part "columns" columns]
    | .manyToOne name className entityName lazy columns =>
      .ofParts
        [part "is" "key-many-to-one", part "name" name, part "class" className,
         part "entity_name" entityName, part "lazy" lazy, part "columns" columns]

instance : Outlined CompositeId where
  outline i :=
    .ofParts
      [part "name" i.name, part "class" i.className, part "mapped" i.mapped,
       part "access" i.access, part "unsaved_value" i.unsavedValue, part "metas" i.metas,
       part "keys" i.keys, part "generator" i.generator]

instance : Outlined Discriminator where
  outline d :=
    .ofParts
      [part "type_name" d.typeName, part "formula" d.formula, part "not_null" d.notNull,
       part "force" d.force, part "insert" d.insert, part "columns" d.columns]

instance : Outlined Version where
  outline v :=
    .ofParts
      [part "name" v.name, part "type_name" v.typeName, part "access" v.access,
       part "unsaved_value" v.unsavedValue, part "generated" v.generated, part "insert" v.insert,
       part "metas" v.metas, part "columns" v.columns]

instance : Outlined Timestamp where
  outline t :=
    .ofParts
      [part "name" t.name, part "access" t.access, part "unsaved_value" t.unsavedValue,
       part "source" t.source, part "generated" t.generated, part "metas" t.metas,
       part "columns" t.columns]

instance : Outlined Key where
  outline k :=
    .ofParts
      [part "columns" k.columns, part "property_ref" k.propertyRef,
       part "foreign_key" k.foreignKey, part "on_delete" k.onDelete]

instance : Outlined CollectionIndex where
  outline
    | .column columns base =>
      .ofParts [part "is" "column", part "columns" columns, part "base" base]
    | .mapKey typeName columns formula =>
      .ofParts
        [part "is" "map-key", part "type_name" typeName, part "columns" columns,
         part "formula" formula]
    | .composite className keys =>
      .ofParts [part "is" "composite", part "class" className, part "keys" keys]
    | .manyToMany className columns =>
      .ofParts [part "is" "many-to-many", part "class" className, part "columns" columns]
    | .manyToAny idType metaType columns =>
      .ofParts
        [part "is" "many-to-any", part "id_type" idType, part "meta_type" metaType,
         part "columns" columns]

instance : Outlined MetaValue where
  outline m := .ofParts [part "value" m.value, part "class" m.className]

instance : Outlined CollectionId where
  outline i :=
    .ofParts [part "type_name" i.typeName, part "columns" i.columns, part "generator" i.generator]

/-! ### Members -/

instance : Outlined CollectionKind where
  outline kind := .text kind.elementName

/-- The parts of a property. -/
def Property.parts (p : Property) : Outline.Parts :=
  [part "is" "property", part "name" p.name, part "type_name" p.typeName,
   part "type_params" p.typeParams, part "columns" p.columns, part "not_null" p.notNull,
   part "unique" p.unique, part "insert" p.insert, part "update" p.update, part "lazy" p.lazy,
   part "optimistic_lock" p.optimisticLock, part "generated" p.generated,
   part "formula" p.formula, part "access" p.access, part "metas" p.metas]

/-- The parts of a reference. -/
def ManyToOne.parts (r : ManyToOne) : Outline.Parts :=
  [part "is" "many-to-one", part "name" r.name, part "class" r.className,
   part "entity_name" r.entityName, part "columns" r.columns, part "formula" r.formula,
   part "cascade" r.cascade, part "fetch" r.fetch, part "lazy" r.lazy, part "not_null" r.notNull,
   part "unique" r.unique, part "insert" r.insert, part "update" r.update,
   part "property_ref" r.propertyRef, part "not_found" r.notFound,
   part "foreign_key" r.foreignKey, part "access" r.access, part "metas" r.metas]

/-- The parts of a reference. -/
def OneToOne.parts (r : OneToOne) : Outline.Parts :=
  [part "is" "one-to-one", part "name" r.name, part "class" r.className,
   part "entity_name" r.entityName, part "cascade" r.cascade, part "constrained" r.constrained,
   part "property_ref" r.propertyRef, part "formula" r.formula, part "foreign_key" r.foreignKey]

/-- The parts of a component, apart from its members. -/
def Component.parts (c : Component) (form : String) : Outline.Parts :=
  [part "is" form, part "name" c.name, part "class" c.className, part "access" c.access,
   part "unique" c.unique, part "insert" c.insert, part "update" c.update,
   part "parent" c.parent, part "metas" c.metas]

/-- The parts of a group, apart from its members. -/
def Group.parts (g : Group) : Outline.Parts :=
  [part "is" "properties", part "name" g.name, part "unique" g.unique, part "insert" g.insert,
   part "update" g.update]

/-- The parts of a reference. -/
def AnyReference.parts (r : AnyReference) : Outline.Parts :=
  [part "is" "any", part "name" r.name, part "id_type" r.idType, part "meta_type" r.metaType,
   part "meta_values" r.metaValues, part "columns" r.columns, part "cascade" r.cascade,
   part "lazy" r.lazy, part "access" r.access]

/-- The parts of a collection, apart from what its elements are. -/
def Collection.parts (c : Collection) : Outline.Parts :=
  [part "is" "collection", part "kind" c.kind, part "positional" c.kind.isPositional,
   part "name" c.name, part "access" c.access, part "table" c.table, part "schema" c.schema,
   part "catalog" c.catalog, part "subselect" c.subselect, part "inverse" c.inverse,
   part "mutable" c.isMutable, part "lazy" c.lazy, part "cascade" c.cascade,
   part "order_by" c.orderBy, part "where_clause" c.whereClause, part "fetch" c.fetch,
   part "batch_size" c.batchSize, part "sort" c.sort, part "element_class" c.elementClass,
   part "metas" c.metas, part "cache" c.cache, part "collection_id" c.collectionId,
   part "key" c.key, part "index" c.index, part "filters" c.filters, part "loader" c.loader,
   part "sql_insert" c.sqlInsert, part "sql_update" c.sqlUpdate, part "sql_delete" c.sqlDelete,
   part "sql_delete_all" c.sqlDeleteAll]

/-- The parts of a collection's elements. -/
def SimpleElement.parts : SimpleElement → Outline.Parts
  | basic typeName columns formula =>
    [part "is" "basic", part "type_name" typeName, part "columns" columns, part "formula" formula]
  | oneToMany className => [part "is" "one-to-many", part "class" className]
  | manyToMany className columns =>
    [part "is" "many-to-many", part "class" className, part "columns" columns]
  | manyToAny idType metaType metaValues columns =>
    [part "is" "many-to-any", part "id_type" idType, part "meta_type" metaType,
     part "meta_values" metaValues, part "columns" columns]

mutual

/-- The outline of a member. -/
def Member.outline : Member → Outline
  | .property p => .ofParts p.parts
  | .manyToOne r => .ofParts r.parts
  | .oneToOne r => .ofParts r.parts
  | .component c members =>
    .ofParts (c.parts "component" ++ [("attributes", ofList? (outlineMembers members))])
  | .dynamicComponent c members =>
    .ofParts (c.parts "dynamic-component" ++ [("attributes", ofList? (outlineMembers members))])
  | .properties g members =>
    .ofParts (g.parts ++ [("attributes", ofList? (outlineMembers members))])
  | .any r => .ofParts r.parts
  | .collection c none => .ofParts c.parts
  | .collection c (some element) => .ofParts (c.parts ++ [("element", some element.outline)])

/-- The outlines of members, in order. -/
def outlineMembers : List Member → List Outline
  | [] => []
  | m :: rest => m.outline :: outlineMembers rest

/-- The outline of a collection's elements. -/
def CollectionElement.outline : CollectionElement → Outline
  | .simple e => .ofParts e.parts
  | .composite e => .ofParts (part "is" "composite" :: e.parts)

/-- The parts of a composite element. -/
def CompositeElement.parts : CompositeElement → Outline.Parts
  | .mk name className parent members nested =>
    [part "name" name, part "class" className, part "parent" parent,
     ("attributes", ofList? (outlineMembers members)), ("nested", ofList? (outlineNested nested))]

/-- The outlines of nested elements, in order. -/
def outlineNested : List CompositeElement → List Outline
  | [] => []
  | e :: rest => .ofParts e.parts :: outlineNested rest

end

instance : Outlined Member where
  outline := Member.outline

/-! ### Classes -/

instance : Outlined Join where
  outline j :=
    .ofParts
      [part "table" j.table, part "schema" j.schema, part "catalog" j.catalog,
       part "fetch" j.fetch, part "inverse" j.inverse, part "optional" j.optional,
       part "key" j.key, part "attributes" j.members, part "sql_insert" j.sqlInsert,
       part "sql_update" j.sqlUpdate, part "sql_delete" j.sqlDelete]

instance : Outlined NaturalId where
  outline n := .ofParts [part "mutable" n.isMutable, part "attributes" n.members]

instance : Outlined SubclassKind where
  outline kind := .text kind.elementName

/-- The parts of a subclass, apart from its own subclasses. -/
def SubclassBody.parts (s : SubclassBody) : Outline.Parts :=
  [part "kind" s.kind, part "name" s.name, part "entity_name" s.entityName, part "proxy" s.proxy,
   part "extends" s.superclass, part "table" s.table, part "schema" s.schema,
   part "catalog" s.catalog, part "discriminator_value" s.discriminatorValue, part "lazy" s.lazy,
   part "is_abstract" s.isAbstract, part "metas" s.metas, part "key" s.key,
   part "attributes" s.members, part "joins" s.joins, part "sql_insert" s.sqlInsert,
   part "sql_update" s.sqlUpdate, part "sql_delete" s.sqlDelete, part "queries" s.queries]

mutual

/-- The outline of a subclass. -/
def Subclass.outline : Subclass → Outline
  | .mk body subclasses =>
    .ofParts (body.parts ++ [("subclasses", ofList? (outlineSubclasses subclasses))])

/-- The outlines of subclasses, in order. -/
def outlineSubclasses : List Subclass → List Outline
  | [] => []
  | s :: rest => s.outline :: outlineSubclasses rest

end

instance : Outlined Subclass where
  outline := Subclass.outline

instance : Outlined ClassMapping where
  outline c :=
    .ofParts
      [part "name" c.name, part "entity_name" c.entityName, part "proxy" c.proxy,
       part "table" c.table, part "schema" c.schema, part "catalog" c.catalog,
       part "subselect" c.subselect, part "discriminator_value" c.discriminatorValue,
       part "mutable" c.isMutable, part "is_abstract" c.isAbstract,
       part "polymorphism" c.polymorphism, part "persister" c.persister, part "lazy" c.lazy,
       part "dynamic_update" c.dynamicUpdate, part "dynamic_insert" c.dynamicInsert,
       part "select_before_update" c.selectBeforeUpdate, part "optimistic_lock" c.optimisticLock,
       part "batch_size" c.batchSize, part "where_clause" c.whereClause, part "check" c.check,
       part "rowid" c.rowid, part "metas" c.metas,
       part "synchronized_tables" c.synchronizedTables, part "cache" c.cache, part "id" c.id,
       part "composite_id" c.compositeId, part "discriminator" c.discriminator,
       part "natural_id" c.naturalId, part "version" c.version, part "timestamp" c.timestamp,
       part "attributes" c.members, part "joins" c.joins, part "subclasses" c.subclasses,
       part "loader" c.loader, part "sql_insert" c.sqlInsert, part "sql_update" c.sqlUpdate,
       part "sql_delete" c.sqlDelete, part "filters" c.filters,
       part "fetch_profiles" c.fetchProfiles, part "result_sets" c.resultSets,
       part "queries" c.queries]

/-! ### Documents -/

instance : Outlined IdentifierGenerator where
  outline g := .ofParts [part "name" g.name, part "class" g.className]

instance : Outlined TypeDef where
  outline t := .ofParts [part "name" t.name, part "class" t.className, part "params" t.params]

instance : Outlined FilterDef where
  outline f :=
    .ofParts [part "name" f.name, part "condition" f.condition, part "params" f.params]

instance : Outlined Import where
  outline i := .ofParts [part "class" i.className, part "rename" i.rename]

/-- The outline of a mapping. -/
def outline (m : Mapping) : Outline :=
  .ofParts
    [part "package" m.package, part "schema" m.schema, part "catalog" m.catalog,
     part "default_access" m.defaultAccess, part "default_cascade" m.defaultCascade,
     part "default_lazy" m.defaultLazy, part "auto_import" m.autoImport, part "metas" m.metas,
     part "identifier_generators" m.identifierGenerators, part "type_defs" m.typeDefs,
     part "filter_defs" m.filterDefs, part "imports" m.imports, part "classes" m.classes,
     part "subclasses" m.subclasses, part "result_sets" m.resultSets, part "queries" m.queries,
     part "fetch_profiles" m.fetchProfiles, part "database_objects" m.databaseObjects]

end Mapping

end PersistenceMapping
