/-
What a mapping depends on.

A mapping is read off the attributes, the children and the texts of elements.  Of a text only what
is left once it is trimmed counts, and of an attribute that is a truth value or a number a malformed
value counts as much as the default.  So elements that differ in nothing else (`Alike`) give the
same mapping (`Mapping.ofElement_congr`).

That a malformed value and the default come to the same is a matter of the table and of how a
mapping supplies what is missing, attribute by attribute.  Where all elements agree on an attribute
the name is enough to tell; where they do not, the lemma about what is read says of which element.
-/
import Mathlib.Data.List.Forall2
import PersistenceMapping.Mapping.Root
import PersistenceMapping.Proofs.Schema.Values

namespace PersistenceMapping

/-- Of the values of an attribute in two elements the second is the first, or the default where the
first is malformed. -/
def Schema.Settles (schema : Schema) (element name : String) (value? value?' : Option String) :
    Prop :=
  value?' = value? ∨ ∃ declared value, schema.declared? element name = some declared ∧
    value? = some value ∧ declared.kind.accepts value = false ∧ value?' = declared.default

namespace BoundElement

/-- Elements that differ at most in blanks around texts and in malformed values, for which the
second has the default. -/
inductive Alike (schema : Schema) : BoundElement → BoundElement → Prop
  | mk {name : String} {attributes attributes' : List Attribute}
      {children children' : List BoundElement} {text text' : String}
      (hattributes : ∀ n,
        schema.Settles name n (Attributes.get? attributes n) (Attributes.get? attributes' n))
      (hchildren : List.Forall₂ (Alike schema) children children')
      (htext : trim text' = trim text) :
      Alike schema (.mk name attributes children text) (.mk name attributes' children' text')

namespace Alike

variable {schema : Schema} {e e' : BoundElement} {n : String} {α : Type}

theorem name_eq (h : Alike schema e e') : e'.name = e.name := by
  cases h
  rfl

theorem settles (h : Alike schema e e') (n : String) :
    schema.Settles e.name n (e.attribute? n) (e'.attribute? n) := by
  cases h with
  | mk hattributes => exact hattributes n

theorem children (h : Alike schema e e') : List.Forall₂ (Alike schema) e.children e'.children := by
  cases h with
  | mk _ hchildren => exact hchildren

theorem trimmedText_eq (h : Alike schema e e') : e'.trimmedText = e.trimmedText := by
  cases h with
  | mk _ _ htext => exact htext

/-! ### Children -/

/-- What is read off chosen elements, of which those that are alike are chosen alike. -/
theorem map_filter {es es' : List BoundElement} (h : List.Forall₂ (Alike schema) es es')
    {p : BoundElement → Bool} {f : BoundElement → α}
    (hp : ∀ c c', Alike schema c c' → p c' = p c)
    (hf : ∀ c c', Alike schema c c' → p c = true → f c' = f c) :
    (es'.filter p).map f = (es.filter p).map f := by
  induction h with
  | nil => rfl
  | @cons c c' es es' hc _ ih =>
      by_cases hchosen : p c = true
      · rw [List.filter_cons_of_pos hchosen, List.filter_cons_of_pos ((hp c c' hc).trans hchosen),
          List.map_cons, List.map_cons, ih, hf c c' hc hchosen]
      · rw [List.filter_cons_of_neg hchosen, List.filter_cons_of_neg (by rwa [hp c c' hc]), ih]

theorem filterMap_children (h : Alike schema e e') {f : BoundElement → Option α}
    (hf : ∀ c c', Alike schema c c' → f c' = f c) :
    e'.children.filterMap f = e.children.filterMap f := by
  have hchildren := h.children
  generalize e.children = es, e'.children = es' at hchildren
  induction hchildren with
  | nil => rfl
  | cons hc _ ih => rw [List.filterMap_cons, List.filterMap_cons, hf _ _ hc, ih]

theorem map_childrenNamed (h : Alike schema e e') {f : BoundElement → α}
    (hf : ∀ c c', Alike schema c c' → c.name = n → f c' = f c) :
    (e'.childrenNamed n).map f = (e.childrenNamed n).map f :=
  map_filter h.children (fun c c' hc => by rw [hc.name_eq])
    fun c c' hc hname => hf c c' hc (by simpa using hname)

theorem map_child? (h : Alike schema e e') {f : BoundElement → α}
    (hf : ∀ c c', Alike schema c c' → c.name = n → f c' = f c) :
    (e'.child? n).map f = (e.child? n).map f := by
  have hfirst : ∀ e : BoundElement, (e.child? n).map f = ((e.childrenNamed n).map f).head? := by
    intro e
    rw [child?, childrenNamed, List.head?_map, List.head?_filter]
  rw [hfirst, hfirst, h.map_childrenNamed hf]

theorem bind_child? (h : Alike schema e e') {f : BoundElement → Option α}
    (hf : ∀ c c', Alike schema c c' → c.name = n → f c' = f c) :
    (e'.child? n).bind f = (e.child? n).bind f := by
  have hjoin : ∀ o : Option BoundElement, o.bind f = (o.map f).join := by
    intro o
    cases o <;> rfl
  rw [hjoin, hjoin, h.map_child? hf]

/-! ### Values -/

/-- A reading of an attribute, for which a malformed value is as good as the default. -/
theorem read_eq (h : Alike schema e e') (read : Option String → α)
    (hread : ∀ declared value, schema.declared? e.name n = some declared →
      declared.kind.accepts value = false → read declared.default = read (some value)) :
    read (e'.attribute? n) = read (e.attribute? n) := by
  obtain hsame | ⟨declared, value, hdeclared, hvalue, hmalformed, hdefault⟩ := h.settles n
  · rw [hsame]
  · rw [hvalue, hdefault]
    exact hread declared value hdeclared hmalformed

theorem attribute?_of (h : Alike schema e e')
    (htext : (schema.declared? e.name n).all (·.kind == .text) = true) :
    e'.attribute? n = e.attribute? n := by
  refine h.read_eq id fun declared value hdeclared hmalformed => ?_
  rw [hdeclared, Option.all_some, beq_iff_eq] at htext
  rw [htext] at hmalformed
  cases hmalformed

/-- A reading of an attribute as a truth value or a number, with what it is read as where it says
nothing. -/
theorem parsed_of [BEq α] [LawfulBEq α] (h : Alike schema e e') {kind : ValueKind}
    {parse : String → Option α} {otherwise : Option α}
    (haccepts : ∀ value, kind.accepts value = (parse value).isSome)
    (hsuits : ∀ declared, schema.declared? e.name n = some declared →
      declared.kind ≠ .text → declared.suits kind parse otherwise = true) :
    ((e'.attribute? n).bind parse).or otherwise = ((e.attribute? n).bind parse).or otherwise := by
  refine h.read_eq (fun value? => (value?.bind parse).or otherwise)
    fun declared value hdeclared hmalformed => ?_
  have hkind : declared.kind ≠ .text := by
    intro htext
    rw [htext] at hmalformed
    cases hmalformed
  exact AttributeDecl.bind_of_suits haccepts (hsuits declared hdeclared hkind) hmalformed

theorem flag?_of (h : Alike schema e e')
    (hflag : ∀ declared, schema.declared? e.name n = some declared →
      declared.kind ≠ .text → declared.suitsFlag none = true) :
    e'.flag? n = e.flag? n := by
  have hparsed := h.parsed_of (fun _ => rfl) hflag
  rwa [Option.or_none, Option.or_none] at hparsed

theorem flagD_of (h : Alike schema e e') {otherwise : Bool}
    (hflag : ∀ declared, schema.declared? e.name n = some declared →
      declared.kind ≠ .text → declared.suitsFlag (some otherwise) = true) :
    e'.flagD n otherwise = e.flagD n otherwise := by
  have hparsed := h.parsed_of (fun _ => rfl) hflag
  rw [Option.or_some, Option.or_some] at hparsed
  exact Option.some.inj hparsed

theorem number?_of (h : Alike schema e e')
    (hnumber : ∀ declared, schema.declared? e.name n = some declared →
      declared.kind ≠ .text → declared.suitsNumber none = true) :
    e'.number? n = e.number? n := by
  have hparsed := h.parsed_of (fun _ => rfl) hnumber
  rwa [Option.or_none, Option.or_none] at hparsed

theorem numberD_of (h : Alike schema e e') {otherwise : UInt32}
    (hnumber : ∀ declared, schema.declared? e.name n = some declared →
      declared.kind ≠ .text → declared.suitsNumber (some otherwise) = true) :
    (e'.number? n).getD otherwise = (e.number? n).getD otherwise := by
  have hparsed := h.parsed_of (fun _ => rfl) hnumber
  rw [Option.or_some, Option.or_some] at hparsed
  exact Option.some.inj hparsed

/-! ### Hierarchical documents -/

section Hierarchical

open Schema.Hierarchical

variable {otherwise : String}

theorem attribute?_eq (h : Alike table e e') (hn : n ∉ typedNames) :
    e'.attribute? n = e.attribute? n := by
  refine h.attribute?_of ?_
  cases hdeclared : table.declared? e.name n with
  | none => rfl
  | some declared =>
      obtain ⟨hname, decl, hdecl, hmem⟩ := Schema.mem_of_declared? hdeclared
      rw [Option.all_some, beq_iff_eq]
      exact isText_of_not_mem_typedNames decl hdecl declared hmem (hname ▸ hn)

theorem attributeD_eq (h : Alike table e e') (hn : n ∉ typedNames) :
    e'.attributeD n otherwise = e.attributeD n otherwise := by
  rw [attributeD, attributeD, h.attribute?_eq hn]

theorem mandatory_eq (h : Alike table e e') (hn : n ∉ typedNames) :
    e'.mandatory n = e.mandatory n :=
  h.attributeD_eq hn

theorem flagD_eq (h : Alike table e e') {otherwise : Bool} (hn : (n, otherwise) ∈ flagDefaults) :
    e'.flagD n otherwise = e.flagD n otherwise := by
  refine h.flagD_of fun declared hdeclared hkind => ?_
  obtain ⟨hname, decl, hdecl, hmem⟩ := Schema.mem_of_declared? hdeclared
  exact suitsFlag_of_mem_flagDefaults decl hdecl declared hmem hkind (n, otherwise) hn hname.symm

theorem number?_eq (h : Alike table e e') (hn : n ∈ numberNames) :
    e'.number? n = e.number? n := by
  refine h.number?_of fun declared hdeclared _ => ?_
  obtain ⟨hname, decl, hdecl, hmem⟩ := Schema.mem_of_declared? hdeclared
  exact suitsNumber_of_mem_numberNames decl hdecl declared hmem (hname ▸ hn)

end Hierarchical

end Alike

end BoundElement

end PersistenceMapping
