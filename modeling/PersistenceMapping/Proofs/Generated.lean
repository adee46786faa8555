/-
Generated documents and their texts.

A generated document is bound as it is written with indentation.  That gives the same mapping as it
would on one line, or none in both cases, where indentation keeps the texts of the elements that the
binder finds text in (`GeneratedMappings.produce_eq_bind`).  It does not keep all texts: blank text
between two CDATA sections is left out, and no line is broken in its place.
-/
import PersistenceMapping.Generated
import PersistenceMapping.Proofs.Mapping.Trimmed
import PersistenceMapping.Proofs.Tree.Relaid

namespace PersistenceMapping

open Dialect.Hierarchical (renamed rootName)

/-- The mapping that comes of binding, unless the document is of the other dialect. -/
def Binding.mapping? (binding : Binding) : Option Mapping :=
  match binding.root with
  | .hierarchical m => some m
  | .entity _ => none

namespace Binder

/-- Whether a binder finds text in the elements of a hierarchical document that have this name. -/
def readsText (b : Binder) (name : String) : Bool :=
  match b.compileSchema.1 with
  | .ok schema => schema.carriesText (renamed name)
  | .error _ => false

variable {b : Binder} {texts : List (String × String)} {items items' : List Outcome}

theorem options_compileSchema (b : Binder) : b.compileSchema.2.options = b.options := by
  obtain ⟨options, schema⟩ := b
  rw [compileSchema]
  -- What the table compiles to does not matter, and is not to be computed here.
  generalize Schema.Hierarchical.compiled = compiled
  cases schema <;> cases compiled <;> rfl

theorem mapping?_hierarchical (options : BinderOptions) (schema : Schema) (origin : Origin)
    (s : TokenStream) :
    ((options.bindHierarchical schema origin s).map fun m =>
        (⟨.hierarchical m, origin⟩ : Binding)).toOption.bind Binding.mapping? =
      (schema.unmarshal options.validate (Dialect.Hierarchical.normalize s)).toOption := by
  rw [BinderOptions.bindHierarchical]
  cases schema.unmarshal options.validate (Dialect.Hierarchical.normalize s) <;> rfl

theorem mapping?_entity (options : BinderOptions) (origin : Origin) (s : TokenStream) :
    ((options.bindEntity origin s).map fun d => (⟨.entity d, origin⟩ : Binding)).toOption.bind
      Binding.mapping? = none := by
  cases options.bindEntity origin s <;> rfl

/-- A mapping comes of a stream that begins with the root of a hierarchical document, and it is what
the schema reads there. -/
theorem mapping?_bind (b : Binder) (origin : Origin) (s : TokenStream) :
    (b.bind origin s).1.toOption.bind Binding.mapping? =
      (TokenStream.seekStart s.failure s.items).toOption.bind fun (tag, rest) =>
        if tag.localName = rootName then
          b.compileSchema.1.toOption.bind fun schema =>
            (schema.unmarshal b.options.validate
              (Dialect.Hierarchical.normalize { s with items := rest })).toOption
        else none := by
  rcases hseek : TokenStream.seekStart s.failure s.items with fault | ⟨tag, rest⟩
  · rw [bind, TokenStream.seekRoot, hseek]
    rfl
  · have hseek' : s.seekRoot = .ok (tag, { s with items := rest }) := by
      rw [TokenStream.seekRoot, hseek]
      rfl
    have hoptions := b.options_compileSchema
    by_cases hroot : tag.localName = rootName
    · rcases hcompile : b.compileSchema with ⟨fault | schema, b'⟩
      · simp only [bind, hseek', if_pos hroot, hcompile]
        simp [Except.toOption]
      · rw [hcompile] at hoptions
        simp only [bind, hseek', if_pos hroot, hcompile]
        rw [mapping?_hierarchical, hoptions]
        simp [Except.toOption, hroot]
    · simp only [bind, hseek', if_neg hroot]
      rw [mapping?_entity]
      simp [Except.toOption, hroot]

/-- Relaid streams are bound to the same mapping, or neither is bound to one. -/
theorem mapping?_bind_relaid (h : Relaid b.readsText texts items items') (origin origin' : Origin) :
    (b.bind origin' { items := items' }).1.toOption.bind Binding.mapping? =
      (b.bind origin { items }).1.toOption.bind Binding.mapping? := by
  rw [mapping?_bind, mapping?_bind]
  obtain ⟨fault, hseek, hseek'⟩ | ⟨tag, rest, rest', texts', hseek, hseek', hrest⟩ :=
    h.seekStart none
  · rw [hseek, hseek']
  · rw [hseek, hseek']
    cases hschema : b.compileSchema.1 with
    | error fault => rfl
    | ok schema =>
        have hreads : b.readsText = fun name => schema.carriesText (renamed name) := by
          funext name
          rw [readsText, hschema]
        rw [hreads] at hrest
        have hmapping := @Schema.unmarshal_relaid schema b.options.validate texts' _ _ none
          (hrest.normalizeItems true)
        simp only [Except.toOption, Option.bind_some, Dialect.Hierarchical.normalize, hmapping]

end Binder

namespace GeneratedMappings

variable {d : Document}

theorem mapping?_produce (g : GeneratedMappings) (d : Document) :
    (g.produce d).1.toOption =
      (g.binder.bind origin (.ofBytes (d.bytes 1))).1.toOption.bind Binding.mapping? := by
  rw [produce]
  rcases g.binder.bind origin (.ofBytes (d.bytes 1)) with ⟨fault | ⟨⟨m⟩ | ⟨d'⟩, from'⟩, b⟩ <;> rfl

/-- A document whose mapping is not to be had leaves the mappings as they are; else its own comes
last. -/
theorem mappings_produce (g : GeneratedMappings) (d : Document) :
    (g.produce d).2.mappings = g.mappings ++ (g.produce d).1.toOption.toList := by
  rw [produce]
  rcases g.binder.bind origin (.ofBytes (d.bytes 1)) with ⟨fault | ⟨⟨m⟩ | ⟨d'⟩, from'⟩, b⟩ <;>
    simp [Except.toOption]

/-- A generated document has the mapping that it would have if it were written on one line, if
indentation keeps the texts that the binder reads. -/
theorem produce_eq_bind (h : d.Reachable)
    (hwritable : ∀ c ∈ d.body, c.Everywhere Content.Writable) (g : GeneratedMappings)
    (hkeeps : d.KeepsText g.binder.readsText 1) (origin : Origin) :
    (g.produce d).1.toOption =
        (g.binder.bind origin (.ofBytes (d.bytes 0))).1.toOption.bind Binding.mapping? ∧
      (g.produce d).2.mappings = g.mappings ++ (g.produce d).1.toOption.toList := by
  obtain ⟨items, items', hbytes, hbytes', hrelaid⟩ :=
    h.wellFormed.relaid_bytes hwritable Nat.one_ne_zero hkeeps
  refine ⟨?_, mappings_produce g d⟩
  rw [mapping?_produce, hbytes, hbytes', Binder.mapping?_bind_relaid hrelaid]

/-- The query stands in two pieces, with blanks around it and a comment behind it. -/
theorem produce_eq_bind_of_pieces :
    let tokens : List Token := [.plainStart, .startTag ⟨"hibernate-mapping", none, []⟩,
      .startTag ⟨"query", none, [⟨"name", "q"⟩]⟩, .text "\n select ", .cdata "a", .text "\n",
      .comment "c", .endTag "query", .endTag "hibernate-mapping"]
    let d := (Document.ofStream false (.ofTokens tokens)).toOption.getD .empty
    let g : GeneratedMappings := { binder := { options := {} } }
    d.Reachable ∧ (∀ c ∈ d.body, c.Everywhere Content.Writable) ∧
      d.KeepsText g.binder.readsText 1 ∧
      (g.produce d).1.toOption =
        (g.binder.bind origin (.ofBytes (d.bytes 0))).1.toOption.bind Binding.mapping? ∧
      (g.produce d).2.mappings = g.mappings ++ (g.produce d).1.toOption.toList := by
  intro tokens d g
  have hbuilt : Document.ofStream false (.ofTokens tokens) = .ok d := rfl
  have hbody : d.body = [.element "hibernate-mapping" none []
      [.element "query" none [⟨"name", "q"⟩]
        [.text "\n select ", .cdata "a", .text "\n", .comment "c"]]] := by
    rfl
  have hwritable : ∀ c ∈ d.body, c.Everywhere Content.Writable := by
    have hcdata : Content.Writable (.cdata "a") := by
      show ¬ "]]>".toList <:+: "a".toList
      decide
    have hcomment : Content.Writable (.comment "c") := by
      show ¬ "-->".toList <:+: "c".toList
      decide
    simp only [hbody, List.forall_mem_cons]
    refine ⟨.intro ⟨by decide, List.forall_mem_nil _, List.isChain_singleton _⟩ ?_,
      List.forall_mem_nil _⟩
    show ∀ c ∈ [_], _
    simp only [List.forall_mem_cons]
    refine ⟨.intro ⟨by decide, fun a ha => ?_, by simp [Content.isText]⟩ ?_,
      List.forall_mem_nil _⟩
    · rw [List.mem_singleton.mp ha]
      exact ⟨by decide, Attribute.permitted_of_unqualified (by decide)⟩
    · show ∀ c ∈ [_, _, _, _], _
      simp only [List.forall_mem_cons]
      exact ⟨.of_parts_eq_nil (by simp [Content.Writable]) rfl, .of_parts_eq_nil hcdata rfl,
        .of_parts_eq_nil (by simp [Content.Writable]) rfl, .of_parts_eq_nil hcomment rfl,
        List.forall_mem_nil _⟩
  have hkeeps : d.KeepsText g.binder.readsText 1 := by
    have hall : d.KeepsText (fun _ => true) 1 := by
      rw [Document.KeepsText, hbody]
      decide
    exact hall.mono fun _ _ => rfl
  obtain ⟨hsame, hmappings⟩ := produce_eq_bind (.built hbuilt) hwritable g hkeeps origin
  exact ⟨.built hbuilt, hwritable, hkeeps, hsame, hmappings⟩

/-- Between the two sections there is a blank text, which indentation leaves out. -/
theorem produce_of_blank_between_sections :
    let tokens : List Token := [.plainStart, .startTag ⟨"hibernate-mapping", none, []⟩,
      .startTag ⟨"query", none, [⟨"name", "q"⟩]⟩, .cdata "select", .text " ", .cdata "a",
      .endTag "query", .endTag "hibernate-mapping"]
    let d := (Document.ofStream false (.ofTokens tokens)).toOption.getD .empty
    let g : GeneratedMappings := { binder := { options := {} } }
    let bound := (g.binder.bind origin (.ofBytes (d.bytes 0))).1.toOption.bind Binding.mapping?
    (g.produce d).1.toOption.map (·.queries.map (·.query)) = some ["selecta"] ∧
      bound.map (·.queries.map (·.query)) = some ["select a"] := by
  intro tokens d g bound
  have hcompile : g.binder.compileSchema.1 = .ok Schema.Hierarchical.table := by
    rw [Binder.compileSchema, Schema.Hierarchical.compiled_eq_table]
  constructor
  · rw [mapping?_produce, Binder.mapping?_bind, hcompile]
    decide +kernel
  · show ((g.binder.bind origin (.ofBytes (d.bytes 0))).1.toOption.bind Binding.mapping?).map _ = _
    rw [Binder.mapping?_bind, hcompile]
    decide +kernel

end GeneratedMappings

end PersistenceMapping
