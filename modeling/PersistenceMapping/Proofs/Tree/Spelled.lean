/-
Contents and the tokens that spell them.

A builder makes of tokens what they spell: an element of its two tags and of what is spelled
between them, and a node of each other token (`Spells`).  Tokens that differ from those of some
contents by blank texts only spell contents that differ from these by blank texts only
(`Spells.recovers_bare`).  It does not matter where the blank texts stand, so nothing has to be
known of how an indented document is laid out.

Namespaces are no part of what is written.  What is compared are bare contents, that is contents
without them (`Content.bare`).
-/
import PersistenceMapping.Proofs.Markup.Layout

namespace PersistenceMapping

namespace Content

/-! ### Contents -/

/-- The contents that a content is made of. -/
def parts : Content → List Content
  | document children => children
  | element _ _ _ children => children
  | _ => []

/-- Something holds of a content and of all that is below it. -/
inductive Everywhere (p : Content → Prop) : Content → Prop
  | intro {c : Content} (h : p c) (hparts : ∀ c' ∈ c.parts, Everywhere p c') : Everywhere p c

/-- What has no parts has nothing below it. -/
theorem Everywhere.of_parts_eq_nil {p : Content → Prop} {c : Content} (h : p c)
    (hparts : c.parts = []) : c.Everywhere p :=
  .intro h (hparts ▸ List.forall_mem_nil _)

/-- Whether a content is text. -/
def isText : Content → Bool
  | text _ => true
  | _ => false

mutual

/-- A content without namespaces, and without texts of nothing but blanks unless `blanks`
holds. -/
def bare (blanks : Bool) : Content → List Content
  | .document children => [.document (bareAll blanks children)]
  | .element name _ attributes children => [.element name none attributes (bareAll blanks children)]
  | .text content => if Token.stays blanks (.text content) then [.text content] else []
  | .cdata content => [.cdata content]
  | .comment content => [.comment content]
  | .instruction target data => [.instruction target data]

/-- Contents without namespaces, and without blank texts unless `blanks` holds. -/
def bareAll (blanks : Bool) : List Content → List Content
  | [] => []
  | c :: rest => bare blanks c ++ bareAll blanks rest

end

mutual

/-- The tokens of a content below the document itself. -/
def tokens : Content → List Token
  | .document _ => []
  | .element name ns attributes children =>
    .startTag ⟨name, ns, attributes⟩ :: (tokensAll children ++ [.endTag name])
  | .text content => [.text content]
  | .cdata content => [.cdata content]
  | .comment content => [.comment content]
  | .instruction target data => [.instruction target data]

/-- The tokens of contents that follow each other. -/
def tokensAll : List Content → List Token
  | [] => []
  | c :: rest => tokens c ++ tokensAll rest

end

variable {blanks : Bool} {c : Content} {cs cs' : List Content}

theorem bareAll_eq_flatMap (cs : List Content) : bareAll blanks cs = cs.flatMap (bare blanks) := by
  induction cs with
  | nil => rfl
  | cons c cs ih => rw [bareAll, ih, List.flatMap_cons]

theorem tokensAll_eq_flatMap (cs : List Content) : tokensAll cs = cs.flatMap tokens := by
  induction cs with
  | nil => rfl
  | cons c cs ih => rw [tokensAll, ih, List.flatMap_cons]

theorem marksAll_eq_flatMap (cs : List Content) :
    marksAll blanks cs = cs.flatMap (marks blanks) := by
  induction cs with
  | nil => rfl
  | cons c cs ih => rw [marksAll, ih, List.flatMap_cons]

theorem bareAll_append : bareAll blanks (cs ++ cs') = bareAll blanks cs ++ bareAll blanks cs' := by
  simp [bareAll_eq_flatMap]

theorem tokensAll_append : tokensAll (cs ++ cs') = tokensAll cs ++ tokensAll cs' := by
  simp [tokensAll_eq_flatMap]

end Content

/-! ### Spelling -/

/-- The content that a token makes by itself. -/
def Token.content? : Token → Option Content
  | text content => some (.text content)
  | cdata content => some (.cdata content)
  | comment content => some (.comment content)
  | instruction target data => some (.instruction target data)
  | _ => none

/-- Tokens and the contents that they make where they are let stand. -/
inductive Spells : List Token → List Content → Prop
  | nil : Spells [] []
  | single {token : Token} {c : Content} {ts : List Token} {cs : List Content}
      (h : token.content? = some c) (h' : Spells ts cs) : Spells (token :: ts) (c :: cs)
  | element {tag : StartTag} {inner ts : List Token} {children cs : List Content}
      (hnodup : (tag.attributes.map (·.name)).Nodup) (h : Spells inner children)
      (h' : Spells ts cs) :
      Spells (.startTag tag :: (inner ++ .endTag tag.name :: ts))
        (.element tag.name tag.ns tag.attributes children :: cs)

namespace Spells

variable {blanks : Bool} {ts ts' : List Token} {c : Content} {cs cs' : List Content}

theorem append (h : Spells ts cs) (h' : Spells ts' cs') : Spells (ts ++ ts') (cs ++ cs') := by
  induction h with
  | nil => exact h'
  | single h _ ih => exact single h ih
  | element hnodup h _ _ ih =>
      rw [List.cons_append, List.append_assoc, List.cons_append]
      exact element hnodup h ih

/-- Tokens that are left out spell nothing that is not left out with them. -/
theorem exists_of_left_out (h : ∀ t ∈ ts, Token.stays blanks t = false) :
    ∃ cs, Spells ts cs ∧ Content.bareAll blanks cs = [] := by
  induction ts with
  | nil => exact ⟨[], nil, rfl⟩
  | cons t ts ih =>
      obtain ⟨cs, hcs, hbare⟩ := ih fun t ht => h t (by simp [ht])
      have ht := h t (by simp)
      cases t with
      | text content =>
          refine ⟨.text content :: cs, single rfl hcs, ?_⟩
          rw [Content.bareAll, Content.bare, if_neg (by simp [ht]), hbare]
          rfl
      | _ => cases ht

/-- Tokens that are those of some bare contents but for blank texts spell these contents but for
blank texts. -/
def Recovers (blanks : Bool) (bared : List Content) : Prop :=
  ∀ ts : List Token,
    (ts.filter (Token.stays blanks)).map Token.withoutNamespace = Content.tokensAll bared →
    ∃ cs, Spells ts cs ∧ Content.bareAll blanks cs = bared

theorem recovers_nil : Recovers blanks [] := by
  intro ts hts
  refine exists_of_left_out fun t ht => ?_
  rw [Content.tokensAll, List.map_eq_nil_iff, List.filter_eq_nil_iff] at hts
  simpa using hts t ht

theorem Recovers.append {bared bared' : List Content} (h : Recovers blanks bared)
    (h' : Recovers blanks bared') : Recovers blanks (bared ++ bared') := by
  intro ts hts
  rw [Content.tokensAll_append, List.map_eq_append_iff] at hts
  obtain ⟨l, l', hfilter, hl, hl'⟩ := hts
  obtain ⟨ts, ts', rfl, rfl, rfl⟩ := List.filter_eq_append_iff.mp hfilter
  obtain ⟨cs, hcs, rfl⟩ := h ts hl
  obtain ⟨cs', hcs', rfl⟩ := h' ts' hl'
  exact ⟨cs ++ cs', hcs.append hcs', Content.bareAll_append⟩

/-- A token that is not left out stands between tokens that are. -/
theorem split_of_filter {ts rest : List Token} {token : Token}
    (h : (ts.filter (Token.stays blanks)).map Token.withoutNamespace = token :: rest) :
    ∃ before t after cs, ts = before ++ t :: after ∧ t.withoutNamespace = token ∧
      (after.filter (Token.stays blanks)).map Token.withoutNamespace = rest ∧
      Spells before cs ∧ Content.bareAll blanks cs = [] := by
  obtain ⟨t, l, hfilter, ht, hl⟩ := List.map_eq_cons_iff.mp h
  obtain ⟨before, after, hts, hbefore, -, hafter⟩ := List.filter_eq_cons_iff.mp hfilter
  have hleft : ∀ t ∈ before, Token.stays blanks t = false := by simpa using hbefore
  obtain ⟨cs, hcs, hbare⟩ := exists_of_left_out hleft
  exact ⟨before, t, after, cs, hts, ht, hafter ▸ hl, hcs, hbare⟩

theorem recovers_single {token : Token} (hc : token.content? = some c)
    (htokens : Content.tokens c = [token]) (hbare : Content.bare blanks c = [c]) :
    Recovers blanks [c] := by
  intro ts hts
  rw [Content.tokensAll, Content.tokensAll, List.append_nil, htokens] at hts
  obtain ⟨before, t, after, cs, rfl, ht, hafter, hcs, hbare1⟩ := split_of_filter hts
  obtain ⟨cs', hcs', hbare2⟩ := recovers_nil after hafter
  have htoken : t = token := by
    rw [← ht] at hc ⊢
    cases t with
    | startTag => cases hc
    | _ => rfl
  refine ⟨cs ++ c :: cs', hcs.append (single (htoken ▸ hc) hcs'), ?_⟩
  rw [Content.bareAll_append, Content.bareAll, hbare1, hbare2, hbare]
  rfl

/-- Between the tags of an element stands what the element is made of. -/
theorem recovers_element {name : String} {attributes : List Attribute} {bared : List Content}
    (hnodup : (attributes.map (·.name)).Nodup) (h : Recovers blanks bared) :
    Recovers blanks [.element name none attributes bared] := by
  intro ts hts
  rw [Content.tokensAll, Content.tokensAll, List.append_nil, Content.tokens] at hts
  obtain ⟨before, start, ts, cs1, rfl, hstart, hts, hcs1, hbare1⟩ := split_of_filter hts
  rw [List.map_eq_append_iff] at hts
  obtain ⟨l, l', hfilter, hl, hl'⟩ := hts
  obtain ⟨inner, ts, rfl, rfl, rfl⟩ := List.filter_eq_append_iff.mp hfilter
  obtain ⟨between, stop, after, cs3, rfl, hstop, hafter, hcs3, hbare3⟩ := split_of_filter hl'
  obtain ⟨cs2, hcs2, hbare2⟩ := h inner hl
  obtain ⟨cs4, hcs4, hbare4⟩ := recovers_nil after hafter
  obtain ⟨tag, rfl, rfl, rfl⟩ : ∃ tag, start = .startTag tag ∧ tag.name = name ∧
      tag.attributes = attributes := by
    cases start <;> cases hstart
    exact ⟨_, rfl, rfl, rfl⟩
  obtain rfl : stop = .endTag tag.name := by
    cases stop <;> cases hstop
    rfl
  have helement : Spells (.startTag tag :: (inner ++ between ++ .endTag tag.name :: after))
      (.element tag.name tag.ns tag.attributes (cs2 ++ cs3) :: cs4) :=
    element hnodup (hcs2.append hcs3) hcs4
  rw [List.append_assoc] at helement
  refine ⟨_, hcs1.append helement, ?_⟩
  rw [Content.bareAll_append, Content.bareAll, Content.bare, Content.bareAll_append, hbare1,
    hbare2, hbare3, hbare4]
  simp

end Spells

/-- What is below the document itself.  Names of attributes are distinct, and no document stands
in a document. -/
def Content.IsProper : Content → Prop
  | .document _ => False
  | .element _ _ attributes _ => (attributes.map (·.name)).Nodup
  | _ => True

theorem Spells.recovers_bareAll {blanks : Bool} {cs : List Content}
    (h : ∀ c ∈ cs, Recovers blanks (c.bare blanks)) :
    Recovers blanks (Content.bareAll blanks cs) := by
  induction cs with
  | nil => exact recovers_nil
  | cons c cs ih => exact (h c (by simp)).append (ih fun c hc => h c (by simp [hc]))

/-- Blank texts do not matter to what is spelled but for blank texts. -/
theorem Spells.recovers_bare {blanks : Bool} {c : Content} (h : c.Everywhere Content.IsProper) :
    Recovers blanks (c.bare blanks) := by
  induction h with
  | @intro c h _ ih =>
      cases c with
      | document children => exact absurd h id
      | element name ns attributes children => exact recovers_element h (recovers_bareAll ih)
      | text content =>
          rw [Content.bare]
          split
          · rename_i hstays
            exact recovers_single rfl rfl (by rw [Content.bare, if_pos hstays])
          · exact recovers_nil
      | cdata content => exact recovers_single rfl rfl rfl
      | comment content => exact recovers_single rfl rfl rfl
      | instruction target data => exact recovers_single rfl rfl rfl

end PersistenceMapping
