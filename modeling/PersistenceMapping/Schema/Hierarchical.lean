/-
The elements of hierarchical documents.

A table of declarations, one for every element: its attributes, the elements that may stand
in it, and whether its character data is content.  `compiled` is the
schema that the table compiles to.
-/
import PersistenceMapping.Dialect.Hierarchical
import PersistenceMapping.Schema.Compile

namespace PersistenceMapping

namespace Schema.Hierarchical

/-- The elements that map an attribute of a class. -/
def attributeElements : List String :=
  ["property", "many-to-one", "one-to-one", "component", "dynamic-component", "properties",
   "any", "map", "set", "list", "bag", "idbag", "array", "primitive-array"]

/-- The elements that map a subclass. -/
def subclassElements : List String :=
  ["subclass", "joined-subclass", "union-subclass"]

/-- The elements that name a query. -/
def queryElements : List String :=
  ["query", "sql-query"]

/-- The elements that map the index of a collection. -/
def indexElements : List String :=
  ["list-index", "index", "map-key", "composite-map-key", "map-key-many-to-many",
   "index-many-to-any"]

/-- The elements that map the elements of a collection. -/
def elementElements : List String :=
  ["element", "one-to-many", "many-to-many", "composite-element", "many-to-any"]

/-- The elements that replace the statements on a row. -/
def customSqlElements : List String :=
  ["sql-insert", "sql-update", "sql-delete"]

/-- What a value is stored in. -/
def columnElements : List String :=
  ["column", "formula"]

/-- The children of components. -/
def componentMembers : List String :=
  ["meta", "tuplizer", "parent"]
    ++ ["property", "many-to-one", "one-to-one", "component", "dynamic-component", "any", "map",
       "set", "list", "bag", "array", "primitive-array"]

/-- The children of classes. -/
def classMembers : List String :=
  ["meta", "subselect", "cache", "synchronize", "comment", "tuplizer", "id", "composite-id",
   "discriminator", "natural-id", "version", "timestamp"] ++ attributeElements ++ ["join"]
    ++ subclassElements ++ ["loader"] ++ customSqlElements
    ++ ["filter", "fetch-profile", "resultset"] ++ queryElements

/-- The children of subclasses. -/
def subclassMembers : List String :=
  ["meta", "subselect", "synchronize", "comment", "tuplizer", "key"] ++ attributeElements
    ++ ["join"] ++ subclassElements ++ ["loader"] ++ customSqlElements
    ++ ["fetch-profile", "resultset"] ++ queryElements

/-- The children of collections without an index. -/
def collectionMembers : List String :=
  ["meta", "subselect", "cache", "synchronize", "comment"] ++ ["key"] ++ elementElements
    ++ ["loader"] ++ customSqlElements ++ ["sql-delete-all", "filter"]

/-- The children of collections with an index. -/
def indexedMembers : List String :=
  ["meta", "subselect", "cache", "synchronize", "comment"] ++ ["key"] ++ indexElements
    ++ elementElements ++ ["loader"] ++ customSqlElements ++ ["sql-delete-all", "filter"]

/-- The children of collections whose rows have an identifier of their own. -/
def idbagMembers : List String :=
  ["meta", "subselect", "cache", "synchronize", "comment", "collection-id", "key"]
    ++ elementElements.erase "one-to-many" ++ ["loader"] ++ customSqlElements
    ++ ["sql-delete-all", "filter"]

/-- The children of arrays of primitive values. -/
def primitiveArrayMembers : List String :=
  ["meta", "subselect", "cache", "synchronize", "comment", "key", "list-index", "index", "element"]
    ++ ["loader"] ++ customSqlElements ++ ["sql-delete-all"]

/-- The attributes of subclasses. -/
def subclassAttributes : List AttributeDecl :=
  [.optional "name", .optional "entity-name", .optional "proxy", .optional "extends",
   .optional "discriminator-value", .optional "table", .optional "schema", .optional "catalog",
   .optional "subselect", .optional "check", .optional "persister", .flag "lazy",
   .flag "abstract", .flagged "dynamic-update" "false", .flagged "dynamic-insert" "false",
   .flagged "select-before-update" "false", .number "batch-size", .optional "node"]

/-- The attributes of collections. -/
def collectionAttributes : List AttributeDecl :=
  [.mandatory "name", .optional "access", .optional "table", .optional "schema",
   .optional "catalog", .optional "subselect", .optional "lazy", .flagged "inverse" "false",
   .flagged "mutable" "true", .optional "cascade", .optional "order-by", .optional "where",
   .number "batch-size", .optional "outer-join", .optional "fetch", .optional "persister",
   .optional "collection-type", .optional "check", .flagged "optimistic-lock" "true",
   .optional "sort", .optional "node", .flagged "embed-xml" "true"]

/-- The attributes of arrays. -/
def arrayAttributes : List AttributeDecl :=
  [.mandatory "name", .optional "access", .optional "table", .optional "schema",
   .optional "catalog", .optional "subselect", .flagged "inverse" "false",
   .flagged "mutable" "true", .optional "element-class", .optional "cascade", .optional "where",
   .number "batch-size", .optional "outer-join", .optional "fetch", .optional "persister",
   .optional "collection-type", .optional "check", .flagged "optimistic-lock" "true",
   .optional "node", .flagged "embed-xml" "true"]

/-- The attributes of statements that replace generated ones. -/
def customSqlAttributes : List AttributeDecl :=
  [.flagged "callable" "false", .optional "check"]

/-- The root of a document and what stands beside its classes. -/
def documentElements : List ElementDecl :=
  [.plain Dialect.Hierarchical.rootName
     [.optional "schema", .optional "catalog", .defaulted "default-cascade" "none",
      .defaulted "default-access" "property", .flagged "default-lazy" "true",
      .flagged "auto-import" "true", .optional "package"]
     ["meta", "identifier-generator", "typedef", "filter-def", "import", "class", "subclass",
      "joined-subclass", "union-subclass", "resultset", "query", "sql-query", "fetch-profile",
      "database-object"],
   .mixed "meta" [.mandatory "attribute", .flagged "inherit" "true"] [],
   .plain "identifier-generator" [.mandatory "name", .mandatory "class"] [],
   .plain "typedef" [.mandatory "name", .mandatory "class"] ["param"],
   .mixed "param" [.mandatory "name"] [],
   .mixed "filter-def" [.mandatory "name", .optional "condition"] ["filter-param"],
   .plain "filter-param" [.mandatory "name", .mandatory "type"] [],
   .mixed "filter"
     [.mandatory "name", .optional "condition", .flagged "autoAliasInjection" "true"]
     [],
   .plain "import" [.mandatory "class", .optional "rename"] [],
   .plain "database-object" [] ["definition", "create", "drop", "dialect-scope"],
   .plain "definition" [.mandatory "class"] [],
   .mixed "create" [] [],
   .mixed "drop" [] [],
   .mixed "dialect-scope" [.mandatory "name"] []]

/-- Classes and subclasses, and what describes them as a whole. -/
def classElements : List ElementDecl :=
  [.plain "class"
     [.optional "name", .optional "entity-name", .optional "proxy", .optional "table",
      .optional "schema", .optional "catalog", .optional "subselect",
      .optional "discriminator-value", .flagged "mutable" "true", .flag "abstract",
      .defaulted "polymorphism" "implicit", .optional "where", .optional "persister",
      .flagged "dynamic-update" "false", .flagged "dynamic-insert" "false", .number "batch-size",
      .flagged "select-before-update" "false", .defaulted "optimistic-lock" "version",
      .flag "lazy", .optional "check", .optional "rowid", .optional "node"]
     classMembers,
   .plain "subclass" subclassAttributes subclassMembers,
   .plain "joined-subclass" subclassAttributes subclassMembers,
   .plain "union-subclass" subclassAttributes subclassMembers,
   .mixed "subselect" [] [],
   .mixed "comment" [] [],
   .plain "synchronize" [.mandatory "table"] [],
   .plain "tuplizer" [.mandatory "class", .optional "entity-mode"] [],
   .plain "cache" [.mandatory "usage", .optional "region", .defaulted "include" "all"] [],
   .plain "discriminator"
     [.optional "column", .optional "formula", .defaulted "type" "string", .number "length",
      .flagged "not-null" "true", .flagged "force" "false", .flagged "insert" "true"]
     columnElements,
   .plain "natural-id"
     [.flagged "mutable" "false"]
     ["property", "many-to-one", "component", "dynamic-component", "any"],
   .plain "join"
     [.mandatory "table", .optional "schema", .optional "catalog", .optional "subselect",
      .defaulted "fetch" "join", .flagged "inverse" "false", .flagged "optional" "false"]
     ["subselect", "comment", "key", "property", "many-to-one", "component", "dynamic-component",
      "any", "sql-insert", "sql-update", "sql-delete"],
   .plain "loader" [.mandatory "query-ref"] [],
   .mixed "sql-insert" customSqlAttributes [],
   .mixed "sql-update" customSqlAttributes [],
   .mixed "sql-delete" customSqlAttributes [],
   .mixed "sql-delete-all" customSqlAttributes [],
   .plain "fetch-profile" [.mandatory "name"] ["fetch"],
   .plain "fetch" [.optional "entity", .mandatory "association", .defaulted "style" "join"] []]

/-- Identifiers and versions. -/
def identityElements : List ElementDecl :=
  [.plain "id"
     [.optional "name", .optional "node", .optional "access", .optional "column",
      .optional "type", .number "length", .optional "unsaved-value"]
     ["meta", "column", "type", "generator"],
   .plain "composite-id"
     [.optional "name", .optional "class", .flagged "mapped" "false", .optional "access",
      .optional "node", .defaulted "unsaved-value" "undefined"]
     ["meta", "tuplizer", "key-property", "key-many-to-one", "generator"],
   .plain "generator" [.mandatory "class"] ["param"],
   .plain "version"
     [.mandatory "name", .optional "node", .optional "access", .optional "column",
      .defaulted "type" "integer", .optional "unsaved-value", .defaulted "generated" "never",
      .flag "insert"]
     ["meta", "column"],
   .plain "timestamp"
     [.mandatory "name", .optional "node", .optional "column", .optional "access",
      .optional "unsaved-value", .defaulted "source" "vm", .defaulted "generated" "never"]
     ["meta"],
   .plain "key-property"
     [.mandatory "name", .optional "access", .optional "type", .optional "column",
      .number "length", .optional "node"]
     ["meta", "column", "type"],
   .plain "key-many-to-one"
     [.mandatory "name", .optional "access", .optional "class", .optional "entity-name",
      .optional "column", .optional "foreign-key", .optional "lazy"]
     ["meta", "column"]]

/-- Attributes of classes that are no collections. -/
def memberElements : List ElementDecl :=
  [.plain "column"
     [.mandatory "name", .number "length", .number "precision", .number "scale",
      .flag "not-null", .flag "unique", .optional "unique-key", .optional "sql-type",
      .optional "index", .optional "check", .optional "default", .optional "read",
      .optional "write"]
     ["comment"],
   .mixed "formula" [] [],
   .plain "property"
     [.mandatory "name", .optional "node", .optional "access", .optional "type",
      .optional "column", .number "length", .number "precision", .number "scale",
      .flag "not-null", .flag "unique", .optional "unique-key", .optional "index",
      .flag "update", .flag "insert", .flagged "optimistic-lock" "true", .optional "formula",
      .flagged "lazy" "false", .defaulted "generated" "never"]
     ["meta", "column", "formula", "type"],
   .plain "type" [.mandatory "name"] ["param"],
   .plain "many-to-one"
     [.mandatory "name", .optional "access", .optional "class", .optional "entity-name",
      .optional "column", .flag "not-null", .flagged "unique" "false", .optional "unique-key",
      .optional "index", .optional "cascade", .optional "outer-join", .optional "fetch",
      .flagged "update" "true", .flagged "insert" "true", .flagged "optimistic-lock" "true",
      .optional "foreign-key", .optional "property-ref", .optional "formula", .optional "lazy",
      .defaulted "not-found" "exception", .optional "node", .flagged "embed-xml" "true"]
     ["meta", "column", "formula"],
   .plain "one-to-one"
     [.mandatory "name", .optional "formula", .optional "access", .optional "class",
      .optional "entity-name", .optional "cascade", .optional "outer-join", .optional "fetch",
      .flagged "constrained" "false", .optional "foreign-key", .optional "property-ref",
      .optional "lazy", .optional "node", .flagged "embed-xml" "true"]
     ["meta", "formula"],
   .plain "component"
     [.mandatory "name", .optional "class", .optional "access", .flagged "unique" "false",
      .flagged "update" "true", .flagged "insert" "true", .flagged "lazy" "false",
      .flagged "optimistic-lock" "true", .optional "node"]
     componentMembers,
   .plain "dynamic-component"
     [.mandatory "name", .optional "access", .flagged "unique" "false", .flagged "update" "true",
      .flagged "insert" "true", .flagged "optimistic-lock" "true", .optional "node"]
     componentMembers,
   .plain "parent" [.mandatory "name", .optional "access"] [],
   .plain "properties"
     [.mandatory "name", .flagged "unique" "false", .flagged "insert" "true",
      .flagged "update" "true", .flagged "optimistic-lock" "true", .optional "node"]
     ["property", "many-to-one", "component", "dynamic-component"],
   .plain "any"
     [.mandatory "name", .mandatory "id-type", .defaulted "meta-type" "string",
      .optional "access", .flagged "insert" "true", .flagged "update" "true",
      .optional "cascade", .optional "index", .flagged "optimistic-lock" "true",
      .flagged "lazy" "false", .optional "node"]
     ["meta", "meta-value", "column"],
   .plain "meta-value" [.mandatory "value", .mandatory "class"] []]

/-- Collections, their keys, indexes and elements. -/
def collectionElements : List ElementDecl :=
  [.plain "set" collectionAttributes collectionMembers,
   .plain "bag" collectionAttributes collectionMembers,
   .plain "idbag" collectionAttributes idbagMembers,
   .plain "list" collectionAttributes indexedMembers,
   .plain "map" collectionAttributes indexedMembers,
   .plain "array" arrayAttributes indexedMembers,
   .plain "primitive-array" arrayAttributes primitiveArrayMembers,
   .plain "collection-id"
     [.mandatory "column", .mandatory "type", .number "length"]
     ["meta", "column", "generator"],
   .plain "key"
     [.optional "column", .optional "property-ref", .optional "foreign-key",
      .defaulted "on-delete" "noaction", .flag "not-null", .flag "update", .flag "unique"]
     ["column"],
   .plain "list-index" [.optional "column", .counted "base" "0"] ["column"],
   .plain "index" [.optional "column", .optional "type", .number "length"] ["column"],
   .plain "map-key"
     [.optional "column", .optional "formula", .mandatory "type", .optional "node",
      .number "length"]
     columnElements,
   .plain "composite-map-key" [.mandatory "class"] ["key-property", "key-many-to-one"],
   .plain "map-key-many-to-many"
     [.optional "class", .optional "entity-name", .optional "column", .optional "formula",
      .optional "foreign-key"]
     columnElements,
   .plain "index-many-to-any" [.mandatory "id-type", .defaulted "meta-type" "string"] ["column"],
   .plain "element"
     [.optional "column", .optional "node", .optional "formula", .optional "type",
      .number "length", .number "precision", .number "scale", .flagged "not-null" "false",
      .flagged "unique" "false"]
     ["column", "formula", "type"],
   .plain "one-to-many"
     [.optional "class", .optional "node", .flagged "embed-xml" "true",
      .defaulted "not-found" "exception", .optional "entity-name"]
     [],
   .plain "many-to-many"
     [.optional "class", .optional "node", .flagged "embed-xml" "true", .optional "entity-name",
      .optional "column", .optional "formula", .defaulted "not-found" "exception",
      .optional "outer-join", .optional "fetch", .optional "lazy", .optional "foreign-key",
      .flagged "unique" "false", .optional "where", .optional "order-by",
      .optional "property-ref"]
     ["meta", "column", "formula", "filter"],
   .plain "composite-element"
     [.mandatory "class", .optional "node"]
     ["meta", "tuplizer", "parent", "property", "many-to-one", "any", "nested-composite-element"],
   .plain "nested-composite-element"
     [.mandatory "name", .optional "access", .mandatory "class", .optional "node"]
     ["tuplizer", "parent", "property", "many-to-one", "any", "nested-composite-element"],
   .plain "many-to-any"
     [.mandatory "id-type", .defaulted "meta-type" "string"]
     ["meta-value", "column"]]

/-- Queries and the shapes of their results. -/
def resultElements : List ElementDecl :=
  [.plain "resultset"
     [.mandatory "name"]
     ["return-scalar", "return", "return-join", "load-collection"],
   .plain "return-scalar" [.mandatory "column", .optional "type"] [],
   .plain "return"
     [.optional "alias", .optional "entity-name", .optional "class",
      .defaulted "lock-mode" "read"]
     ["return-discriminator", "return-property"],
   .plain "return-discriminator" [.mandatory "column"] [],
   .plain "return-property" [.mandatory "name", .optional "column"] ["return-column"],
   .plain "return-column" [.mandatory "name"] [],
   .plain "return-join"
     [.mandatory "alias", .mandatory "property", .defaulted "lock-mode" "read"]
     ["return-property"],
   .plain "load-collection"
     [.mandatory "alias", .mandatory "role", .defaulted "lock-mode" "read"]
     ["return-property"],
   .mixed "query"
     [.mandatory "name", .flagged "cacheable" "false", .optional "cache-region",
      .number "fetch-size", .number "timeout", .optional "flush-mode", .optional "cache-mode",
      .flag "read-only", .optional "comment"]
     ["query-param"],
   .mixed "sql-query"
     [.mandatory "name", .optional "resultset-ref", .flagged "cacheable" "false",
      .optional "cache-region", .number "fetch-size", .number "timeout", .optional "flush-mode",
      .optional "cache-mode", .flag "read-only", .optional "comment",
      .flagged "callable" "false"]
     ["return-scalar", "return", "return-join", "load-collection", "synchronize", "query-param"],
   .plain "query-param" [.mandatory "name", .mandatory "type"] []]

/-- All elements of a hierarchical document. -/
def elements : List ElementDecl :=
  documentElements ++ classElements ++ identityElements ++ memberElements ++ collectionElements
    ++ resultElements

/-- The schema of hierarchical documents, as compiled from the table. -/
def compiled : Except SchemaFault Schema :=
  Schema.compile elements Dialect.Hierarchical.rootName

end Schema.Hierarchical

end PersistenceMapping
