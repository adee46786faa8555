/-
The namespaces that declarations give.

Which namespace a prefix stands for at some place is said by the attributes of the elements that are
open there: the innermost declaration of the prefix counts (`namespaceFor?`).  So the namespaces of
start tags can be found again once they are lost (`Token.resolved`), and tokens whose namespaces are
those that their attributes declare are determined by the rest of them (`resolved_congr`).
-/
import Mathlib.Data.List.Basic
import PersistenceMapping.Markup.Scope
import PersistenceMapping.Proofs.Markup.Reading

namespace PersistenceMapping

/-- The prefix that an attribute declares a namespace for, or none for the default one.  To declare
the prefix `xml` again is not to declare anything. -/
def Attribute.declared? (a : Attribute) : Option (Option String) :=
  if a.name = "xmlns" then some none
  else if a.qualifier? = some "xmlns" then
    if a.localName = "xml" then none else if a.localName = "" then some none else some a.localName
  else none

/-- The namespace that a prefix stands for inside of elements with these attributes, innermost
first.  An empty namespace is none. -/
def namespaceFor? : List (List Attribute) → Option String → Option String
  | [], qualifier =>
    if qualifier = some "xmlns" then some Markup.xmlnsNamespace
    else if qualifier = some "xml" then some Markup.xmlNamespace
    else none
  | attributes :: above, qualifier =>
    match attributes.reverse.find? (·.declared? == some qualifier) with
    | some a => if a.value.isEmpty then none else some a.value
    | none => namespaceFor? above qualifier

/-- No declaration gives an empty namespace. -/
theorem namespaceFor?_ne_empty (opened : List (List Attribute)) (qualifier : Option String) :
    namespaceFor? opened qualifier ≠ some "" := by
  induction opened with
  | nil =>
      unfold namespaceFor?
      split
      · decide
      · split <;> decide
  | cons attributes above ih =>
      unfold namespaceFor?
      split
      · rename_i a _
        split
        · nofun
        · rename_i hvalue
          intro heq
          rw [Option.some.inj heq] at hvalue
          exact hvalue rfl
      · exact ih

namespace Token

/-- The attributes of the elements that are open behind a token. -/
def openBehind (opened : List (List Attribute)) : Token → List (List Attribute)
  | startTag tag => tag.attributes :: opened
  | endTag _ => opened.tail
  | _ => opened

/-- A token with what `f` makes of the namespace that is declared for it. -/
def resolve (f : Option String → Option String) (opened : List (List Attribute)) : Token → Token
  | startTag tag =>
    .startTag { tag with ns := f (namespaceFor? (tag.attributes :: opened) tag.qualifier?) }
  | token => token

/-- Tokens with what `f` makes of the namespaces that are declared for them. -/
def resolved (f : Option String → Option String) :
    List (List Attribute) → List Token → List Token
  | _, [] => []
  | opened, token :: rest => token.resolve f opened :: resolved f (token.openBehind opened) rest

variable {f : Option String → Option String} {opened : List (List Attribute)}
  {tokens tokens' : List Token}

theorem resolved_append (f : Option String → Option String) (opened : List (List Attribute))
    (tokens tokens' : List Token) :
    resolved f opened (tokens ++ tokens') =
      resolved f opened tokens ++ resolved f (tokens.foldl openBehind opened) tokens' := by
  induction tokens generalizing opened with
  | nil => rfl
  | cons token tokens ih => rw [List.cons_append, resolved, ih, resolved, List.foldl_cons]; rfl

theorem length_resolved (f : Option String → Option String) (opened : List (List Attribute))
    (tokens : List Token) : (resolved f opened tokens).length = tokens.length := by
  induction tokens generalizing opened with
  | nil => rfl
  | cons token tokens ih => rw [resolved, List.length_cons, List.length_cons, ih]

/-- Tokens whose namespaces are those that are declared may be taken apart. -/
theorem resolved_append_eq_self (h : resolved f opened (tokens ++ tokens') = tokens ++ tokens') :
    resolved f opened tokens = tokens ∧
      resolved f (tokens.foldl openBehind opened) tokens' = tokens' := by
  rw [resolved_append] at h
  exact List.append_inj h (length_resolved f opened tokens)

/-- What is no start tag has no namespace. -/
theorem resolved_eq_self (h : ∀ token ∈ tokens, token.isStartTag = false) :
    resolved f opened tokens = tokens := by
  induction tokens generalizing opened with
  | nil => rfl
  | cons token tokens ih =>
      rw [resolved, ih fun t ht => h t (List.mem_cons_of_mem _ ht)]
      have htoken := h token List.mem_cons_self
      cases token with
      | startTag tag => cases htoken
      | _ => rfl

/-- Without a start tag nothing comes to be open. -/
theorem foldl_openBehind_nil (h : ∀ token ∈ tokens, token.isStartTag = false) :
    tokens.foldl openBehind [] = [] := by
  induction tokens with
  | nil => rfl
  | cons token tokens ih =>
      rw [List.forall_mem_cons] at h
      have htoken : openBehind [] token = [] := by
        cases token with
        | startTag tag => cases h.1
        | _ => rfl
      rw [List.foldl_cons, htoken, ih h.2]

/-- The namespaces that tokens have do not matter to those that are declared. -/
theorem resolved_congr (f : Option String → Option String) (opened : List (List Attribute))
    (h : tokens.map withoutNamespace = tokens'.map withoutNamespace) :
    resolved f opened tokens = resolved f opened tokens' := by
  induction tokens generalizing opened tokens' with
  | nil =>
      rw [List.map_nil, eq_comm, List.map_eq_nil_iff] at h
      rw [h]
  | cons token tokens ih =>
      obtain ⟨token', tokens', rfl, hhead, htail⟩ := List.map_eq_cons_iff.mp h.symm
      have hsame : ∀ token : Token,
          token.resolve f opened = token.withoutNamespace.resolve f opened ∧
            token.openBehind opened = token.withoutNamespace.openBehind opened := by
        intro token
        cases token <;> exact ⟨rfl, rfl⟩
      rw [resolved, resolved, (hsame token).1, (hsame token).2, (hsame token').1, (hsame token').2,
        hhead, ih _ htail.symm]

/-- The namespace of a tag is made of one that is declared. -/
theorem exists_of_mem_resolved {tag : StartTag} (h : .startTag tag ∈ resolved f opened tokens) :
    ∃ opened', tag.ns = f (namespaceFor? opened' tag.qualifier?) := by
  induction tokens generalizing opened with
  | nil => cases h
  | cons token tokens ih =>
      rw [resolved] at h
      rcases List.mem_cons.mp h with h | h
      · cases token with
        | startTag tag' =>
            obtain rfl := Token.startTag.inj h
            exact ⟨_, rfl⟩
        | _ => cases h
      · exact ih h

/-! ### Open start tags -/

/-- The start tags of the elements that are open, innermost first.  Each has its number, which is
how many start tags came before it. -/
structure Openings where
  count : Nat := 0
  tags : List (Nat × StartTag) := []

/-- The start tags that are open behind a token. -/
def openings (o : Openings) : Token → Openings
  | startTag tag => ⟨o.count + 1, (o.count, tag) :: o.tags⟩
  | endTag _ => { o with tags := o.tags.tail }
  | _ => o

/-- Behind each start tag, `P` holds of the start tags that are open. -/
def AtStartTags (P : List (Nat × StartTag) → Prop) : Openings → List Token → Prop
  | _, [] => True
  | o, token :: rest =>
    (token.isStartTag = true → P (token.openings o).tags) ∧ AtStartTags P (token.openings o) rest

variable {P : List (Nat × StartTag) → Prop} {o : Openings} {token : Token}

theorem openings_of_not_tag (o : Openings) (hstart : token.isStartTag = false)
    (hend : token.isEndTag = false) : token.openings o = o := by
  cases token with
  | startTag tag => cases hstart
  | endTag name => cases hend
  | _ => rfl

theorem atStartTags_append :
    AtStartTags P o (tokens ++ tokens') ↔
      AtStartTags P o tokens ∧ AtStartTags P (tokens.foldl (fun o token => token.openings o) o)
        tokens' := by
  induction tokens generalizing o with
  | nil => exact (iff_of_eq (true_and _)).symm
  | cons token tokens ih =>
      rw [List.cons_append, AtStartTags, AtStartTags, ih, List.foldl_cons, and_assoc]

/-- Without a start tag there is none that is open. -/
theorem foldl_openings_initial (h : ∀ token ∈ tokens, token.isStartTag = false) :
    tokens.foldl (fun o token => token.openings o) {} = {} := by
  induction tokens with
  | nil => rfl
  | cons token tokens ih =>
      rw [List.forall_mem_cons] at h
      have htoken : token.openings {} = {} := by
        cases token with
        | startTag tag => cases h.1
        | _ => rfl
      rw [List.foldl_cons, htoken, ih h.2]

end Token

end PersistenceMapping
