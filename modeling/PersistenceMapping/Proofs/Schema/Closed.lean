/-
What compiling a table promises.

A fault that is found in a table is one that the table has (`occurs_of_compile`), and a consistent
table has none (`SchemaFault.Occurs.not_consistent`), so the tables that compile are the consistent
ones and no others.

Binding relies on two things that follow.  What may stand in an element is declared: wherever an
element that is permitted starts, its declaration is found, and it is neither refused as undeclared
nor skipped (`read_permitted`).  And every default that completes a start tag reads as a value of
its kind (`supplied_of_bindAttributes`).
-/
import PersistenceMapping.Error
import PersistenceMapping.Mapping.Element
import PersistenceMapping.Proofs.Schema.Leniency
import PersistenceMapping.Proofs.Schema.Reached

namespace PersistenceMapping

/-! ### Faults -/

/-- What a fault says of a table. -/
def SchemaFault.Occurs (elements : List ElementDecl) (root : String) : SchemaFault → Prop
  | repeatedAttribute name element =>
    ∃ decl ∈ elements, decl.name = element ∧ 2 ≤ (decl.attributes.map (·.name)).count name
  | badDefault value name element kind =>
    ∃ decl ∈ elements, decl.name = element ∧ ∃ a ∈ decl.attributes, a.name = name ∧ a.kind = kind ∧
      a.default = some value ∧ kind.accepts value = false
  | repeatedElement name => 2 ≤ (elements.map (·.name)).count name
  | undeclaredChild element child =>
    ∃ decl ∈ elements, decl.name = element ∧ child ∈ decl.children ∧
      child ∉ elements.map (·.name)
  | undeclaredRoot name => name = root ∧ root ∉ elements.map (·.name)

namespace Schema

variable {elements : List ElementDecl} {root : String} {fault : SchemaFault}

/-- A name that has been seen and comes again is there twice. -/
theorem two_le_count_of_seen {seen : List String} {name : String}
    (h : seen.contains name = true) (names : List String) :
    2 ≤ seen.count name + (name :: names).count name := by
  have hseen : 1 ≤ seen.count name := List.one_le_count_iff.mpr (by simpa using h)
  rw [List.count_cons_self]
  omega

/-- It does not matter to the count whether a name has been seen yet. -/
theorem count_seen (seen names : List String) (name other : String) :
    (other :: seen).count name + names.count name =
      seen.count name + (other :: names).count name := by
  rw [List.count_cons, List.count_cons]
  omega

theorem checkAttributes_eq_error {element : String} {seen : List String}
    {attributes : List AttributeDecl}
    (h : checkAttributes element seen attributes = .error fault) :
    (∃ name, fault = .repeatedAttribute name element ∧
        2 ≤ seen.count name + (attributes.map (·.name)).count name) ∨
      ∃ a ∈ attributes, ∃ value, fault = .badDefault value a.name element a.kind ∧
        a.default = some value ∧ a.kind.accepts value = false := by
  induction attributes generalizing seen with
  | nil => cases h
  | cons a rest ih =>
      rw [checkAttributes] at h
      by_cases hseen : seen.contains a.name = true
      · rw [if_pos hseen] at h
        cases h
        exact Or.inl ⟨a.name, rfl, two_le_count_of_seen hseen _⟩
      · rw [if_neg hseen] at h
        split at h
        · rename_i value hvalue
          cases h
          obtain ⟨hdefault, hrefused⟩ := Option.filter_eq_some_iff.mp hvalue
          exact Or.inr ⟨a, List.mem_cons_self, value, rfl, hdefault, by simpa using hrefused⟩
        · rcases ih h with ⟨name, hfault, hcount⟩ | ⟨b, hb, hbad⟩
          · rw [count_seen] at hcount
            exact Or.inl ⟨name, hfault, hcount⟩
          · exact Or.inr ⟨b, List.mem_cons_of_mem _ hb, hbad⟩

theorem checkElements_eq_error {seen : List String}
    (h : checkElements seen elements = .error fault) :
    (∃ decl ∈ elements, checkAttributes decl.name [] decl.attributes = .error fault) ∨
      ∃ name, fault = .repeatedElement name ∧
        2 ≤ seen.count name + (elements.map (·.name)).count name := by
  induction elements generalizing seen with
  | nil => cases h
  | cons decl rest ih =>
      rw [checkElements] at h
      cases hattributes : checkAttributes decl.name [] decl.attributes with
      | error fault' =>
          rw [hattributes] at h
          cases h
          exact Or.inl ⟨decl, List.mem_cons_self, hattributes⟩
      | ok =>
          rw [hattributes] at h
          by_cases hseen : seen.contains decl.name = true
          · rw [if_pos hseen] at h
            cases h
            exact Or.inr ⟨decl.name, rfl, two_le_count_of_seen hseen _⟩
          · rw [if_neg hseen] at h
            rcases ih h with ⟨other, hother, hfault⟩ | ⟨name, hfault, hcount⟩
            · exact Or.inl ⟨other, List.mem_cons_of_mem _ hother, hfault⟩
            · rw [count_seen] at hcount
              exact Or.inr ⟨name, hfault, hcount⟩

theorem checkChildren_eq_error {declared : List String}
    (h : checkChildren declared elements = .error fault) :
    ∃ decl ∈ elements, ∃ child ∈ decl.children, fault = .undeclaredChild decl.name child ∧
      child ∉ declared := by
  induction elements with
  | nil => cases h
  | cons decl rest ih =>
      rw [checkChildren] at h
      split at h
      · rename_i child hfind
        cases h
        exact ⟨decl, List.mem_cons_self, child, List.mem_of_find?_eq_some hfind, rfl,
          by simpa using List.find?_some hfind⟩
      · obtain ⟨other, hother, hchild⟩ := ih h
        exact ⟨other, List.mem_cons_of_mem _ hother, hchild⟩

/-- A fault that is found in a table is one that it has. -/
theorem occurs_of_compile (h : compile elements root = .error fault) :
    fault.Occurs elements root := by
  unfold compile at h
  cases helements : checkElements [] elements with
  | error fault' =>
      rw [helements] at h
      cases h
      rcases checkElements_eq_error helements with ⟨decl, hdecl, hattributes⟩ | ⟨name, rfl, hcount⟩
      · rcases checkAttributes_eq_error hattributes with
          ⟨name, rfl, hcount⟩ | ⟨a, ha, value, rfl, hdefault, hrefused⟩
        · exact ⟨decl, hdecl, rfl, by simpa using hcount⟩
        · exact ⟨decl, hdecl, rfl, a, ha, rfl, rfl, hdefault, hrefused⟩
      · simpa [SchemaFault.Occurs] using hcount
  | ok =>
      rw [helements] at h
      cases hchildren : checkChildren (elements.map (·.name)) elements with
      | error fault' =>
          simp only [hchildren] at h
          cases h
          obtain ⟨decl, hdecl, child, hchild, rfl, hnot⟩ := checkChildren_eq_error hchildren
          exact ⟨decl, hdecl, rfl, hchild, hnot⟩
      | ok =>
          simp only [hchildren] at h
          by_cases hroot : (elements.map (·.name)).contains root = true
          · rw [if_pos hroot] at h
            cases h
          · rw [if_neg hroot] at h
            cases h
            exact ⟨rfl, by simpa using hroot⟩

end Schema

/-- A consistent table has no fault. -/
theorem SchemaFault.Occurs.not_consistent {elements : List ElementDecl} {root : String}
    {fault : SchemaFault} (h : fault.Occurs elements root) :
    ¬Schema.Consistent elements root := by
  intro hs
  cases fault with
  | repeatedAttribute name element =>
      obtain ⟨decl, hdecl, -, hcount⟩ := h
      have honce := List.nodup_iff_count_le_one.mp (hs.attributeNames decl hdecl) name
      omega
  | badDefault value name element kind =>
      obtain ⟨decl, hdecl, -, a, ha, -, rfl, hdefault, hrefused⟩ := h
      rw [hs.defaults decl hdecl a ha value hdefault] at hrefused
      cases hrefused
  | repeatedElement name =>
      have honce := List.nodup_iff_count_le_one.mp hs.names name
      exact Nat.not_lt.mpr honce h
  | undeclaredChild element child =>
      obtain ⟨decl, hdecl, -, hchild, hnot⟩ := h
      exact hnot (hs.children decl hdecl child hchild)
  | undeclaredRoot name => exact h.2 hs.root

/-! ### Defaults -/

/-- The default of a declared attribute, if it has one and the attribute is not given. -/
def AttributeDecl.fallback? (declared : AttributeDecl) (given : List Attribute) :
    Option Attribute :=
  if (Attributes.get? given declared.name).isSome then none
  else declared.default.map fun value => ⟨declared.name, value⟩

/-- The defaults of the declared attributes that are not given. -/
def ElementDecl.defaultsBeside (decl : ElementDecl) (given : List Attribute) : List Attribute :=
  decl.attributes.filterMap (·.fallback? given)

/-- An attribute of an element that reads as a value of this kind, the one that its text says. -/
def BoundElement.ReadsAs (e : BoundElement) (a : Attribute) : ValueKind → Prop
  | .text => e.attribute? a.name = some a.value
  | .boolean => ∃ b, ValueKind.boolean? a.value = some b ∧ e.flag? a.name = some b
  | .integer => ∃ n, Number.parse? a.value = some n ∧ e.number? a.name = some n

/-- An element with the attributes that are given, and behind them the defaults of the others.  Each
of these is a value of its kind and reads as one. -/
structure BoundElement.Supplied (e : BoundElement) (decl : ElementDecl) (given : List Attribute) :
    Prop where
  attributes : e.attributes = given ++ decl.defaultsBeside given
  reads : ∀ a ∈ decl.defaultsBeside given, ∃ declared, decl.attribute? a.name = some declared ∧
    declared.default = some a.value ∧ declared.kind.accepts a.value = true ∧
      e.ReadsAs a declared.kind

theorem BoundElement.readsAs_of_accepts {e : BoundElement} {a : Attribute} {kind : ValueKind}
    (hvalue : e.attribute? a.name = some a.value) (haccepts : kind.accepts a.value = true) :
    e.ReadsAs a kind := by
  cases kind with
  | text => exact hvalue
  | boolean =>
      obtain ⟨b, hb⟩ := Option.isSome_iff_exists.mp haccepts
      exact ⟨b, hb, by rw [flag?, hvalue, Option.bind_some, hb]⟩
  | integer =>
      obtain ⟨n, hn⟩ := Option.isSome_iff_exists.mp haccepts
      exact ⟨n, hn, by rw [number?, hvalue, Option.bind_some, hn]⟩

theorem AttributeDecl.fallback?_eq_some_iff {declared : AttributeDecl} {given : List Attribute}
    {a : Attribute} :
    declared.fallback? given = some a ↔
      declared.name = a.name ∧ declared.default = some a.value ∧
        Attributes.get? given a.name = none := by
  obtain ⟨name, value⟩ := a
  rw [fallback?, Option.ite_none_left_eq_some, Option.not_isSome_iff_eq_none,
    Option.map_eq_some_iff]
  constructor
  · rintro ⟨hmissing, _, hdefault, ⟨⟩⟩
    exact ⟨rfl, hdefault, hmissing⟩
  · rintro ⟨rfl, hdefault, hmissing⟩
    exact ⟨hmissing, value, hdefault, rfl⟩

namespace ElementDecl

variable {decl : ElementDecl} {validate : Bool} {attributes bound : List Attribute}

theorem bindMissing_eq_filterMap (element : String) (given : List Attribute)
    (decls : List AttributeDecl) :
    bindMissing element false given decls = .ok (decls.filterMap (·.fallback? given)) := by
  induction decls with
  | nil => rfl
  | cons declared rest ih =>
      rw [bindMissing, ih, List.filterMap_cons, AttributeDecl.fallback?]
      by_cases hgiven : (Attributes.get? given declared.name).isSome = true
      · rw [if_pos hgiven, if_pos hgiven]
      · rw [if_neg hgiven, if_neg hgiven]
        cases declared.default with
        | none => simp
        | some value => rfl

/-- The attributes of a tag that is not refused are those that are taken in, and behind them the
defaults of the others. -/
theorem bindAttributes_eq_ok (h : decl.bindAttributes validate attributes = .ok bound) :
    bound = attributes.filter decl.takes ++ decl.defaultsBeside (attributes.filter decl.takes) := by
  have hlenient : decl.bindAttributes false attributes = .ok bound := by
    cases validate with
    | false => exact h
    | true => exact decl.bindAttributes_sustained attributes bound h
  rw [bindAttributes, bindGiven_lenient] at hlenient
  simp only [bind, Except.bind, bindMissing_eq_filterMap] at hlenient
  exact (Except.ok.inj hlenient).symm

end ElementDecl

namespace Schema

variable {elements : List ElementDecl} {root : String} {schema : Schema} {validate : Bool}
  {decl : ElementDecl} {p : Progress} {tag : StartTag}

/-- In a consistent table the defaults that complete a tag read as values of their kinds. -/
theorem supplied_of_bindAttributes (hs : Consistent schema.elements schema.root)
    (hdecl : decl ∈ schema.elements) {attributes : List Attribute} {e : BoundElement}
    (h : decl.bindAttributes validate attributes = .ok e.attributes) :
    e.Supplied decl (attributes.filter decl.takes) := by
  have hattributes := ElementDecl.bindAttributes_eq_ok h
  refine ⟨hattributes, fun a ha => ?_⟩
  obtain ⟨declared, hmem, hfallback⟩ := List.mem_filterMap.mp ha
  obtain ⟨hname, hdefault, hmissing⟩ := AttributeDecl.fallback?_eq_some_iff.mp hfallback
  have hnames := hs.attributeNames decl hdecl
  have hattribute : decl.attribute? a.name = some declared :=
    (ElementDecl.attribute?_eq_some_iff hnames).mpr ⟨hmem, hname⟩
  have haccepts := hs.defaults decl hdecl declared hmem a.value hdefault
  have hvalue : e.attribute? a.name = some a.value := by
    obtain ⟨bound, hbound, hcompletes⟩ := decl.bindAttributes_lenient hnames attributes
    rw [ElementDecl.bindAttributes_eq_ok hbound, ← hattributes] at hcompletes
    rw [BoundElement.attribute?, hcompletes, hmissing, hattribute, Option.none_or,
      Option.bind_some, hdefault]
  exact ⟨declared, hattribute, hdefault, haccepts, BoundElement.readsAs_of_accepts hvalue haccepts⟩

theorem bindAttributes_of_openFrame {frame : Frame} (h : openFrame validate decl tag = .ok frame) :
    decl.bindAttributes validate tag.attributes = .ok frame.attributes := by
  unfold openFrame at h
  split at h
  · cases h
  · cases hbound : decl.bindAttributes validate tag.attributes with
    | error fault =>
        rw [hbound] at h
        cases h
    | ok attributes =>
        rw [hbound] at h
        cases h
        rfl

/-! ### Children -/

/-- What may stand in an element of a consistent table is declared. -/
theorem exists_element_of_permits (hs : Consistent schema.elements schema.root)
    (hdecl : decl ∈ schema.elements) {child : String} (hpermits : decl.permits child = true) :
    ∃ declared, schema.element? child = some declared := by
  have hchild : child ∈ decl.children := by simpa [ElementDecl.permits] using hpermits
  obtain ⟨declared, hmem, hname⟩ := List.mem_map.mp (hs.children decl hdecl child hchild)
  exact ⟨declared, (element?_eq_some_iff hs).mpr ⟨hmem, hname⟩⟩

/-- Where an element that is permitted starts, its declaration is found, and nothing but its
namespace and its attributes may be wrong with it. -/
theorem read_permitted (hs : Consistent schema.elements schema.root) {tokens : List Token}
    (hafter : schema.progressAfter validate tokens = .ok p) (hskipped : p.skipped = 0)
    {parent : Frame} {above : List Frame} (hopened : p.opened = parent :: above)
    (hpermits : parent.decl.permits tag.localName = true) :
    ∃ decl, schema.element? tag.localName = some decl ∧
      schema.read validate p (.startTag tag) =
        (openFrame validate decl tag).map fun frame => { p with opened := frame :: p.opened } := by
  have harises := arises_after hafter
  have hroot : p.root = none := harises.rootless (by simp [hopened])
  obtain ⟨_, -, hparent, -⟩ := harises.frames parent (by simp [hopened])
  obtain ⟨hmem, -⟩ := (element?_eq_some_iff hs).mp hparent
  obtain ⟨decl, hdecl⟩ := exists_element_of_permits hs hmem hpermits
  refine ⟨decl, hdecl, ?_⟩
  have hfound : schema.declarationIn validate p.opened tag = .ok (some decl) := by
    simp only [hopened, declarationIn, hdecl, hpermits, Option.filter_some, if_true]
  unfold read
  rw [if_neg (by simp [hskipped])]
  simp only [readStart, hroot, hfound, Option.isSome_none, Bool.false_eq_true, if_false]

/-! ### Tables that compile -/

theorem compile_of_consistent (hs : Consistent elements root) :
    compile elements root = .ok { root, elements } := by
  cases hcompile : compile elements root with
  | error fault => exact absurd hs (occurs_of_compile hcompile).not_consistent
  | ok schema => rw [(consistent_of_compile hcompile).2]

/-- A table compiles just if it is consistent, and any other is refused for a fault that it has.  In
what has been compiled, whatever may stand in an element is declared.  So binding, validated or not,
never takes an element that is permitted for an undeclared one: it is opened by its declaration, or
refused for its namespace or its attributes.  Every element that is bound has its attributes from a
start tag of the stream, and all that comes to those that the tag gives are defaults, which are
values of their kinds and read as such. -/
theorem compile_iff_consistent (elements : List ElementDecl) (root : String) :
    ((∃ schema, compile elements root = .ok schema) ↔ Consistent elements root) ∧
      (¬Consistent elements root → ∃ fault : SchemaFault, fault.Occurs elements root ∧
        (compile elements root).mapError MappingError.configuration =
          .error (.configuration fault)) ∧
      ∀ schema, compile elements root = .ok schema →
        (∀ parent decl child, schema.element? parent = some decl → decl.permits child = true →
          schema.declares child = true) ∧
        ∀ validate,
          (∀ tokens p parent above tag, schema.progressAfter validate tokens = .ok p →
            p.skipped = 0 → p.opened = parent :: above →
            parent.decl.permits tag.localName = true →
              ∃ decl, schema.element? tag.localName = some decl ∧
                schema.read validate p (.startTag tag) =
                  (openFrame validate decl tag).map fun frame =>
                    { p with opened := frame :: p.opened }) ∧
          (∀ s e, schema.bind validate s = .ok e → e.Everywhere fun x =>
            ∃ tag decl, .ok (.startTag tag) ∈ s.items ∧ tag.localName = x.name ∧
              schema.element? x.name = some decl ∧
              decl.bindAttributes validate tag.attributes = .ok x.attributes) ∧
          ∀ decl attributes (x : BoundElement), schema.element? x.name = some decl →
            decl.bindAttributes validate attributes = .ok x.attributes →
              x.Supplied decl (attributes.filter decl.takes) := by
  refine ⟨⟨?_, ?_⟩, ?_, ?_⟩
  · rintro ⟨schema, hcompile⟩
    exact (consistent_of_compile hcompile).1
  · intro hs
    exact ⟨_, compile_of_consistent hs⟩
  · intro hnot
    cases hcompile : compile elements root with
    | ok schema => exact absurd (consistent_of_compile hcompile).1 hnot
    | error fault => exact ⟨fault, occurs_of_compile hcompile, rfl⟩
  · intro schema hcompile
    obtain ⟨hs, rfl⟩ := consistent_of_compile hcompile
    refine ⟨?_, fun validate => ⟨?_, ?_, ?_⟩⟩
    · intro parent decl child hparent hpermits
      obtain ⟨hdecl, -⟩ := (element?_eq_some_iff hs).mp hparent
      exact Option.isSome_iff_exists.mpr (exists_element_of_permits hs hdecl hpermits)
    · intro tokens p parent above tag hafter hskipped hopened hpermits
      exact read_permitted hs hafter hskipped hopened hpermits
    · intro s e hbind
      obtain ⟨tokens, hmem, hbegun⟩ := bind_begun hbind
      refine hbegun.mono ?_
      rintro x ⟨decl, hname, tag, htag, hdecl, hframe⟩
      have hlocal : tag.localName = x.name := by rw [hname, element?_name hdecl]
      exact ⟨tag, decl, hmem _ htag, hlocal, hlocal ▸ hdecl, bindAttributes_of_openFrame hframe⟩
    · intro decl attributes x hdecl hbound
      obtain ⟨hmem, -⟩ := (element?_eq_some_iff hs).mp hdecl
      exact supplied_of_bindAttributes hs hmem hbound

/-- The root gives one attribute, so that only the other has its default, and an attribute that is
not declared.  Before the child that is permitted an element is skipped, with a document end in it.
Another table has a default of another kind, as well as a child that is not declared. -/
theorem compile_iff_consistent_of_defaults :
    let a : ElementDecl := .plain "a" [.flagged "f" " 1 ", .counted "m" "+07"] ["b"]
    let schema : Schema := ⟨"a", [a, .mixed "b" [.flag "g"] ["b"]]⟩
    let tokens : List Token := [.startTag ⟨"p:a", none, [⟨"k", "1"⟩, ⟨"f", "0"⟩]⟩,
      .startTag ⟨"c", none, []⟩, .endDocument, .endTag "c"]
    let p : Progress := { opened := [{ decl := a, attributes := [⟨"f", "0"⟩, ⟨"m", "+07"⟩] }] }
    let child : StartTag := ⟨"b", none, []⟩
    let s : TokenStream :=
      .ofTokens (tokens ++ [.startTag ⟨"b", none, []⟩, .endTag "b", .endTag "a"])
    let e : BoundElement := .mk "a" [⟨"f", "0"⟩, ⟨"m", "+07"⟩] [.mk "b" [] [] ""] ""
    let refused : List ElementDecl := [.plain "a" [.flagged "f" "yes"] ["b"]]
    (compile schema.elements "a" = .ok schema ∧ Consistent schema.elements "a") ∧
      (schema.progressAfter false tokens = .ok p ∧ a.permits child.localName = true ∧
        ∃ decl, schema.element? child.localName = some decl ∧
          schema.read false p (.startTag child) =
            (openFrame false decl child).map fun frame => { p with opened := frame :: p.opened }) ∧
      (schema.bind false s = .ok e ∧
        (e.Everywhere fun x => ∃ tag decl, .ok (.startTag tag) ∈ s.items ∧
          tag.localName = x.name ∧ schema.element? x.name = some decl ∧
          decl.bindAttributes false tag.attributes = .ok x.attributes) ∧
        e.Supplied a [⟨"f", "0"⟩]) ∧
      ¬Consistent refused "a" ∧ ∃ fault : SchemaFault, fault.Occurs refused "a" ∧
        (compile refused "a").mapError MappingError.configuration =
          .error (.configuration fault) := by
  intro a schema tokens p child s e refused
  have hcompile : compile schema.elements "a" = .ok schema := by decide
  have hpermits : a.permits child.localName = true := by decide
  have hbind : schema.bind false s = .ok e := by rfl
  obtain ⟨haccepted, -, hcompiled⟩ := compile_iff_consistent schema.elements "a"
  obtain ⟨-, hbinds⟩ := hcompiled schema hcompile
  obtain ⟨hpermitted, hbound, hsupplied⟩ := hbinds false
  obtain ⟨hrefused, hfaults, -⟩ := compile_iff_consistent refused "a"
  have hnot : ¬Consistent refused "a" := fun hs => nomatch hrefused.mpr hs
  refine ⟨⟨hcompile, haccepted.mp ⟨schema, hcompile⟩⟩, ⟨rfl, hpermits, ?_⟩, ⟨hbind, ?_, ?_⟩,
    hnot, hfaults hnot⟩
  · exact hpermitted tokens p _ [] child rfl rfl rfl hpermits
  · exact hbound s e hbind
  · exact hsupplied a [⟨"k", "1"⟩, ⟨"f", "0"⟩] e rfl rfl

end Schema

end PersistenceMapping
