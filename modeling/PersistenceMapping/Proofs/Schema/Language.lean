/-
The language of a schema.

A schema describes documents by a grammar: an element is a start tag that fits its declaration,
then elements that are declared as its children, mixed with tokens that are no tags, then an end
tag of the same local name.  `Content` is that grammar over lists of tokens, and `Accepts` adds
what stands around the root.  Neither knows of a stack or of an order of checks.

A stack is what `Closes` adds: what may still come where some elements are open.  It is put
together from `Content`, and taken apart token by token it is what validation checks.
-/
import PersistenceMapping.Schema.Bind

namespace PersistenceMapping

/-- Whether an attribute is one that a schema has a say in: it declares no namespace and has no
qualifier. -/
def Attribute.isOwn (a : Attribute) : Bool :=
  !(a.declaresNamespace || a.qualifier?.isSome)

/-- Whether a token is a tag. -/
def Token.isTag (token : Token) : Bool :=
  token.isStartTag || token.isEndTag

namespace ElementDecl

/-- A token that is no tag, and that the declared element may hold: character data that is not
blank may only stand where it is content. -/
def Admits (decl : ElementDecl) (token : Token) : Prop :=
  token.isTag = false ∧
    ∀ content, token.characters? = some content → decl.hasText = true ∨ isBlankText content = true

/-- A start tag as the declaration has it.  `counts` tells the attributes that can stand for a
required one. -/
structure Fits (counts : Attribute → Bool) (decl : ElementDecl) (tag : StartTag) : Prop where
  ns : ∀ ns, tag.ns = some ns → ns = Dialect.Hierarchical.canonicalNamespace
  declared : ∀ a ∈ tag.attributes, a.isOwn = true →
    ∃ declared ∈ decl.attributes, declared.name = a.name ∧ declared.kind.accepts a.value = true
  required : ∀ declared ∈ decl.attributes, declared.required = true → declared.default = none →
    ∃ a ∈ tag.attributes, counts a = true ∧ a.name = declared.name

end ElementDecl

namespace Schema

variable {counts : Attribute → Bool} {schema : Schema} {decl : ElementDecl}
  {above : List ElementDecl} {token : Token} {tokens : List Token}

/-- What stands between the tags of an element. -/
inductive Content (counts : Attribute → Bool) (schema : Schema) :
    (decl : ElementDecl) → List Token → Prop
  | nil {decl : ElementDecl} : Content counts schema decl []
  | other {decl : ElementDecl} {token : Token} {rest : List Token} (hadmits : decl.Admits token)
      (hrest : Content counts schema decl rest) : Content counts schema decl (token :: rest)
  | element {decl child : ElementDecl} {tag : StartTag} {name : String} {inner rest : List Token}
      (hchild : child ∈ schema.elements) (hname : child.name = tag.localName)
      (hpermits : tag.localName ∈ decl.children) (hfits : child.Fits counts tag)
      (hinner : Content counts schema child inner) (hend : QName.localName name = tag.localName)
      (hrest : Content counts schema decl rest) :
      Content counts schema decl (.startTag tag :: (inner ++ .endTag name :: rest))

/-- The documents of a schema: one root element, and around it nothing but tokens that are no
tags. -/
inductive Accepts (counts : Attribute → Bool) (schema : Schema) : List Token → Prop
  | intro {root : ElementDecl} {tag : StartTag} {name : String} {before inner after : List Token}
      (hbefore : ∀ token ∈ before, token.isTag = false) (hroot : root ∈ schema.elements)
      (hname : root.name = schema.root) (htag : tag.localName = schema.root)
      (hfits : root.Fits counts tag) (hinner : Content counts schema root inner)
      (hend : QName.localName name = tag.localName)
      (hafter : ∀ token ∈ after, token.isTag = false) :
      Accepts counts schema (before ++ .startTag tag :: (inner ++ .endTag name :: after))

/-- What may come where elements are open, innermost first, and then no more tags. -/
inductive Closes (counts : Attribute → Bool) (schema : Schema) :
    (opened : List ElementDecl) → List Token → Prop
  | nil {after : List Token} (hafter : ∀ token ∈ after, token.isTag = false) :
      Closes counts schema [] after
  | cons {decl : ElementDecl} {above : List ElementDecl} {name : String} {inner after : List Token}
      (hinner : Content counts schema decl inner) (hend : QName.localName name = decl.name)
      (habove : Closes counts schema above after) :
      Closes counts schema (decl :: above) (inner ++ .endTag name :: after)

namespace Closes

theorem outside_cons :
    Closes counts schema [] (token :: tokens) ↔
      token.isTag = false ∧ Closes counts schema [] tokens := by
  constructor
  · rintro (h | h)
    exact ⟨h token (by simp), .nil fun t ht => h t (by simp [ht])⟩
  · rintro ⟨htoken, h | h⟩
    refine .nil fun t ht => ?_
    rcases List.mem_cons.mp ht with rfl | ht
    · exact htoken
    · exact h t ht

theorem not_inside_nil : ¬Closes counts schema (decl :: above) [] := by
  intro h
  generalize htokens : ([] : List Token) = tokens at h
  cases h with
  | cons => simp at htokens

/-- A token that is no tag may come where the innermost element admits it. -/
theorem inside_other (htoken : token.isTag = false) :
    Closes counts schema (decl :: above) (token :: tokens) ↔
      decl.Admits token ∧ Closes counts schema (decl :: above) tokens := by
  constructor
  · intro h
    generalize hall : token :: tokens = all at h
    cases h with
    | cons hinner hend habove =>
        cases hinner with
        | nil =>
            obtain ⟨rfl, -⟩ := List.cons.inj hall
            cases htoken
        | other hadmits hrest =>
            obtain ⟨rfl, rfl⟩ := List.cons.inj hall
            exact ⟨hadmits, .cons hrest hend habove⟩
        | element =>
            obtain ⟨rfl, -⟩ := List.cons.inj hall
            cases htoken
  · rintro ⟨hadmits, h⟩
    cases h with
    | cons hinner hend habove => exact .cons (.other hadmits hinner) hend habove

/-- An end tag closes the innermost element, if it is of its name. -/
theorem inside_end {name : String} :
    Closes counts schema (decl :: above) (.endTag name :: tokens) ↔
      QName.localName name = decl.name ∧ Closes counts schema above tokens := by
  constructor
  · intro h
    generalize hall : Token.endTag name :: tokens = all at h
    cases h with
    | cons hinner hend habove =>
        cases hinner with
        | nil =>
            obtain ⟨hname, rfl⟩ := List.cons.inj hall
            cases hname
            exact ⟨hend, habove⟩
        | other hadmits =>
            obtain ⟨rfl, -⟩ := List.cons.inj hall
            cases hadmits.1
        | element => cases (List.cons.inj hall).1
  · rintro ⟨hend, habove⟩
    exact .cons .nil hend habove

/-- A start tag opens a declared child. -/
theorem inside_start {tag : StartTag} :
    Closes counts schema (decl :: above) (.startTag tag :: tokens) ↔
      tag.localName ∈ decl.children ∧ ∃ child ∈ schema.elements, child.name = tag.localName ∧
        child.Fits counts tag ∧ Closes counts schema (child :: decl :: above) tokens := by
  constructor
  · intro h
    generalize hall : Token.startTag tag :: tokens = all at h
    cases h with
    | cons hinner hend habove =>
        cases hinner with
        | nil => cases (List.cons.inj hall).1
        | other hadmits =>
            obtain ⟨rfl, -⟩ := List.cons.inj hall
            cases hadmits.1
        | element hchild hname hpermits hfits hinner hend' hrest =>
            rw [List.cons_append, List.append_assoc, List.cons_append] at hall
            obtain ⟨htag, rfl⟩ := List.cons.inj hall
            cases htag
            refine ⟨hpermits, _, hchild, hname, hfits, ?_⟩
            exact .cons hinner (hend'.trans hname.symm) (.cons hrest hend habove)
  · rintro ⟨hpermits, child, hchild, hname, hfits, h⟩
    cases h with
    | cons hinner hend habove =>
        cases habove with
        | cons hrest hend' habove =>
            have := Content.element hchild hname hpermits hfits hinner (hend.trans hname) hrest
            have hclosed := Closes.cons this hend' habove
            rwa [List.cons_append, List.append_assoc, List.cons_append] at hclosed

end Closes

namespace Accepts

theorem not_nil : ¬Accepts counts schema [] := by
  intro h
  generalize htokens : ([] : List Token) = tokens at h
  cases h
  simp at htokens

/-- Before the root there may be tokens that are no tags. -/
theorem cons_other (htoken : token.isTag = false) :
    Accepts counts schema (token :: tokens) ↔ Accepts counts schema tokens := by
  constructor
  · intro h
    generalize hall : token :: tokens = all at h
    cases h with
    | @intro _ _ _ before _ _ hbefore hroot hname htag hfits hinner hend hafter =>
        cases before with
        | nil =>
            obtain ⟨rfl, -⟩ := List.cons.inj hall
            cases htoken
        | cons t before =>
            obtain ⟨-, rfl⟩ := List.cons.inj hall
            exact .intro (fun t ht => hbefore t (by simp [ht])) hroot hname htag hfits hinner hend
              hafter
  · intro h
    cases h with
    | @intro _ tag name before inner after hbefore hroot hname htag hfits hinner hend hafter =>
        have hbefore' : ∀ t ∈ token :: before, t.isTag = false := by
          intro t ht
          rcases List.mem_cons.mp ht with rfl | ht
          · exact htoken
          · exact hbefore t ht
        exact .intro hbefore' hroot hname htag hfits hinner hend hafter

theorem not_cons_end {name : String} : ¬Accepts counts schema (.endTag name :: tokens) := by
  intro h
  generalize hall : Token.endTag name :: tokens = all at h
  cases h with
  | @intro _ _ _ before _ _ hbefore =>
      cases before with
      | nil => cases (List.cons.inj hall).1
      | cons t before =>
          obtain ⟨rfl, -⟩ := List.cons.inj hall
          cases hbefore (.endTag name) (by simp)

/-- The first tag opens the root. -/
theorem cons_start {tag : StartTag} :
    Accepts counts schema (.startTag tag :: tokens) ↔
      tag.localName = schema.root ∧ ∃ root ∈ schema.elements, root.name = schema.root ∧
        root.Fits counts tag ∧ Closes counts schema [root] tokens := by
  constructor
  · intro h
    generalize hall : Token.startTag tag :: tokens = all at h
    cases h with
    | @intro _ _ _ before _ _ hbefore hroot hname htag hfits hinner hend hafter =>
        cases before with
        | nil =>
            obtain ⟨ht, rfl⟩ := List.cons.inj hall
            cases ht
            exact ⟨htag, _, hroot, hname, hfits,
              .cons hinner (hend.trans (htag.trans hname.symm)) (.nil hafter)⟩
        | cons t before =>
            obtain ⟨rfl, -⟩ := List.cons.inj hall
            cases hbefore (.startTag tag) (by simp)
  · rintro ⟨htag, root, hroot, hname, hfits, h⟩
    cases h with
    | cons hinner hend habove =>
        cases habove with
        | nil hafter =>
            have hbefore : ∀ t ∈ ([] : List Token), t.isTag = false := by simp
            exact .intro hbefore hroot hname htag hfits hinner (by rw [hend, hname, htag]) hafter

end Accepts

end Schema

end PersistenceMapping
