/-
What the table of hierarchical documents says of values.

A mapping reads attributes as texts, truth values or numbers, and most of them are declared alike by
all elements that have them.  The lists here name those for which it matters: the attributes that
are no texts somewhere (`typedNames`), and the truth values and numbers that no two elements declare
with different defaults (`flagDefaults`, `numberNames`).  Of the others one has to know the element.
-/
import PersistenceMapping.Schema.Hierarchical
import PersistenceMapping.Proofs.Schema.Compiled

namespace PersistenceMapping

namespace AttributeDecl

variable {declared : AttributeDecl} {α : Type} [BEq α]

/-- Whether a value of this kind that is read as `otherwise` where it says nothing has no other
default. -/
def suits (declared : AttributeDecl) (kind : ValueKind) (parse : String → Option α)
    (otherwise : Option α) : Bool :=
  declared.kind == kind && declared.default.all fun value => parse value == otherwise

/-- Whether a truth value suits what it is read as where it says nothing. -/
def suitsFlag (declared : AttributeDecl) (otherwise : Option Bool) : Bool :=
  declared.suits .boolean ValueKind.boolean? otherwise

/-- Whether a number suits what it is read as where it says nothing. -/
def suitsNumber (declared : AttributeDecl) (otherwise : Option UInt32) : Bool :=
  declared.suits .integer Number.parse? otherwise

/-- A malformed value says nothing, and its default says nothing else. -/
theorem bind_of_suits [LawfulBEq α] {kind : ValueKind} {parse : String → Option α}
    {otherwise : Option α} (haccepts : ∀ value, kind.accepts value = (parse value).isSome)
    (h : declared.suits kind parse otherwise = true) {value : String}
    (hmalformed : declared.kind.accepts value = false) :
    (declared.default.bind parse).or otherwise = ((some value).bind parse).or otherwise := by
  rw [suits, Bool.and_eq_true, beq_iff_eq] at h
  obtain ⟨hkind, hdefault⟩ := h
  rw [hkind, haccepts, Option.isSome_eq_false_iff, Option.isNone_iff_eq_none] at hmalformed
  rw [Option.bind_some, hmalformed, Option.none_or]
  cases hvalue : declared.default with
  | none => rfl
  | some value' =>
      rw [hvalue, Option.all_some, beq_iff_eq] at hdefault
      rw [Option.bind_some, hdefault, Option.or_self]

end AttributeDecl

namespace Schema

/-- The declaration of an attribute of an element. -/
def declared? (schema : Schema) (element name : String) : Option AttributeDecl :=
  (schema.element? element).bind (·.attribute? name)

/-- The default of an attribute of an element. -/
def default? (schema : Schema) (element name : String) : Option String :=
  (schema.declared? element name).bind (·.default)

/-- Whether an attribute of an element has to be there. -/
def requires (schema : Schema) (element name : String) : Bool :=
  (schema.declared? element name).any fun declared =>
    declared.required && declared.default.isNone

theorem mem_of_declared? {schema : Schema} {element name : String} {declared : AttributeDecl}
    (h : schema.declared? element name = some declared) :
    declared.name = name ∧ ∃ decl ∈ schema.elements, declared ∈ decl.attributes := by
  obtain ⟨decl, hdecl, hattribute⟩ := Option.bind_eq_some_iff.mp h
  refine ⟨by simpa using List.find?_some hattribute, decl, ?_, ?_⟩
  · exact List.mem_of_find?_eq_some hdecl
  · exact List.mem_of_find?_eq_some hattribute

namespace Hierarchical

/-- The table as a schema. -/
def table : Schema :=
  { root := Dialect.Hierarchical.rootName, elements }

theorem eq_table_of_compiled {schema : Schema} (h : compiled = .ok schema) : schema = table :=
  (consistent_of_compile h).2

/-- The table makes a schema. -/
theorem compiled_eq_table : compiled = .ok table := by
  have hok : compiled.isOk = true := by decide +kernel
  cases hcompiled : compiled with
  | error fault =>
      rw [hcompiled] at hok
      cases hok
  | ok schema => rw [eq_table_of_compiled hcompiled]

/-- The attributes that some element declares to be truth values or numbers. -/
abbrev typedNames : List String :=
  ["inherit", "autoAliasInjection", "default-lazy", "auto-import", "mutable", "abstract",
   "dynamic-update", "dynamic-insert", "select-before-update", "lazy", "not-null", "force",
   "insert", "update", "inverse", "optional", "callable", "mapped", "unique", "optimistic-lock",
   "embed-xml", "constrained", "cacheable", "read-only", "batch-size", "length", "precision",
   "scale", "base", "fetch-size", "timeout"]

/-- Truth values, each with the default that it has if it has one. -/
abbrev flagDefaults : List (String × Bool) :=
  [("inherit", true), ("autoAliasInjection", true), ("default-lazy", true), ("auto-import", true),
   ("dynamic-update", false), ("dynamic-insert", false), ("select-before-update", false),
   ("lazy", false), ("force", false), ("insert", true), ("update", true), ("inverse", false),
   ("optional", false), ("callable", false), ("mapped", false), ("unique", false),
   ("optimistic-lock", true), ("constrained", false), ("cacheable", false)]

/-- Numbers without a default. -/
abbrev numberNames : List String :=
  ["batch-size", "length", "precision", "scale"]

/-- The attributes that a mapping takes as they are, each with its element. -/
abbrev mandatoryNames : List (String × String) :=
  [("param", "name"), ("meta", "attribute"), ("identifier-generator", "name"),
   ("identifier-generator", "class"), ("typedef", "name"), ("typedef", "class"),
   ("import", "class"), ("query-param", "name"), ("query-param", "type"),
   ("filter-param", "name"), ("filter-param", "type"), ("filter-def", "name"),
   ("filter", "name"), ("fetch", "association"), ("fetch-profile", "name"),
   ("return-property", "name"), ("return-scalar", "column"), ("return-join", "alias"),
   ("return-join", "property"), ("load-collection", "alias"), ("load-collection", "role"),
   ("resultset", "name"), ("query", "name"), ("sql-query", "name"), ("column", "name"),
   ("generator", "class"), ("cache", "usage"), ("key-property", "name"),
   ("key-many-to-one", "name"), ("version", "name"), ("timestamp", "name"),
   ("collection-id", "type"), ("composite-map-key", "class"), ("index-many-to-any", "id-type"),
   ("meta-value", "value"), ("meta-value", "class"), ("many-to-any", "id-type"), ("set", "name"),
   ("bag", "name"), ("idbag", "name"), ("list", "name"), ("map", "name"), ("array", "name"),
   ("primitive-array", "name"), ("property", "name"), ("many-to-one", "name"),
   ("one-to-one", "name"), ("component", "name"), ("dynamic-component", "name"),
   ("properties", "name"), ("any", "name"), ("any", "id-type"), ("composite-element", "class"),
   ("nested-composite-element", "class"), ("join", "table")]

theorem isText_of_not_mem_typedNames : ∀ decl ∈ table.elements, ∀ declared ∈ decl.attributes,
    declared.name ∉ typedNames → declared.kind = .text := by
  decide +kernel

theorem suitsFlag_of_mem_flagDefaults : ∀ decl ∈ table.elements, ∀ declared ∈ decl.attributes,
    declared.kind ≠ .text → ∀ entry ∈ flagDefaults, entry.1 = declared.name →
      declared.suitsFlag (some entry.2) = true := by
  decide +kernel

theorem suitsNumber_of_mem_numberNames : ∀ decl ∈ table.elements, ∀ declared ∈ decl.attributes,
    declared.name ∈ numberNames → declared.suitsNumber none = true := by
  decide +kernel

theorem requires_of_mem_mandatoryNames :
    ∀ entry ∈ mandatoryNames, table.requires entry.1 entry.2 = true := by
  decide +kernel

theorem default?_column (element : String) : table.default? element "column" = none := by
  have hnone : ∀ decl ∈ table.elements, ∀ declared ∈ decl.attributes,
      declared.name = "column" → declared.default = none := by decide +kernel
  rw [default?]
  cases hdeclared : table.declared? element "column" with
  | none => rfl
  | some declared =>
      obtain ⟨hname, decl, hdecl, hmem⟩ := mem_of_declared? hdeclared
      exact hnone decl hdecl declared hmem hname

end Hierarchical

end Schema

end PersistenceMapping
