/-
Contents whose marks can be told apart.

`Content.Writable` is what names, values and contents have to be for that: there is no escaping
in names, comments, CDATA sections and instructions, so nothing that ends them may be in them, and
two texts that stand side by side would become one.  The marks of such contents can each be read
back, are nested as tags have to be, and have no text beside text.
-/
import PersistenceMapping.Proofs.Tree.Spelled

namespace PersistenceMapping

namespace Content

/-- A content that can be told from what is written around it, apart from what is below it. -/
def Writable : Content → Prop
  | document _ => True
  | element name _ attributes children =>
    IsName name ∧ (∀ a ∈ attributes, IsName a.name ∧ a.Permitted) ∧
      children.IsChain fun c c' => ¬(c.isText = true ∧ c'.isText = true)
  | text content => content ≠ ""
  | cdata content => ¬ "]]>".toList <:+: content.toList
  | comment content => ¬ "-->".toList <:+: content.toList
  | instruction target data =>
    IsName target ∧ target ≠ "xml" ∧ ¬ "?>".toList <:+: data.toList ∧
      ∀ c ∈ data.toList.head?, isBlank c = false

/-- A writable content of a document, below the document itself. -/
def Legible (c : Content) : Prop :=
  c.Writable ∧ c.IsProper

variable {blanks : Bool} {c : Content} {cs : List Content} {m : Mark}

/-! ### Tokens -/

theorem tokens_marksAll (h : ∀ c ∈ cs, (marks blanks c).flatMap Mark.tokens =
    tokensAll (bare blanks c)) :
    (marksAll blanks cs).flatMap Mark.tokens = tokensAll (bareAll blanks cs) := by
  induction cs with
  | nil => rfl
  | cons c cs ih =>
      rw [marksAll, bareAll, List.flatMap_append, tokensAll_append, h c (by simp),
        ih fun c hc => h c (by simp [hc])]

/-- The marks of a content are written for its tokens. -/
theorem tokens_marks (h : c.Everywhere IsProper) :
    (marks blanks c).flatMap Mark.tokens = tokensAll (bare blanks c) := by
  induction h with
  | @intro c h _ ih =>
      cases c with
      | document children => exact absurd h id
      | element name ns attributes children =>
          have hchildren : (marksAll blanks children).flatMap Mark.tokens =
              tokensAll (bareAll blanks children) := tokens_marksAll ih
          cases children with
          | nil => rfl
          | cons c cs =>
              rw [marks, List.flatMap_cons, List.flatMap_append, hchildren, bare]
              simp [Mark.tokens, tokensAll, tokens]
      | text content =>
          by_cases hstays : (blanks || !isBlankText content) = true
          · have hdrop : ¬(!blanks && isBlankText content) = true := by
              cases blanks <;> simp_all
            rw [marks, bare, if_neg hdrop, Token.stays, if_pos hstays]
            rfl
          · have hdrop : (!blanks && isBlankText content) = true := by
              cases blanks <;> simp_all
            rw [marks, bare, if_pos hdrop, Token.stays, if_neg hstays]
            rfl
      | cdata content => rfl
      | comment content => rfl
      | instruction target data => rfl

/-! ### Marks by themselves -/

theorem mem_marksAll : m ∈ marksAll blanks cs ↔ ∃ c ∈ cs, m ∈ marks blanks c := by
  rw [marksAll_eq_flatMap, List.mem_flatMap]

theorem writable_marks (h : c.Everywhere Legible) : ∀ m ∈ marks blanks c, m.Writable := by
  induction h with
  | @intro c h _ ih =>
      intro m hm
      cases c with
      | document children => simp [marks] at hm
      | element name ns attributes children =>
          obtain ⟨⟨hname, hattributes, -⟩, hnodup⟩ := h
          cases children with
          | nil =>
              rw [List.mem_singleton.mp hm]
              exact ⟨hname, hattributes, hnodup⟩
          | cons c cs =>
              rcases List.mem_cons.mp hm with rfl | hm
              · exact ⟨hname, hattributes, hnodup⟩
              · rcases List.mem_append.mp hm with hm | hm
                · obtain ⟨c', hc', hm⟩ := mem_marksAll.mp hm
                  exact ih c' hc' m hm
                · rw [List.mem_singleton.mp hm]
                  exact hname
      | text content =>
          rw [marks] at hm
          split at hm
          · cases hm
          · rw [List.mem_singleton.mp hm]
            exact h.1
      | cdata content =>
          rw [List.mem_singleton.mp hm]
          exact h.1
      | comment content =>
          rw [List.mem_singleton.mp hm]
          exact h.1
      | instruction target data =>
          rw [List.mem_singleton.mp hm]
          exact h.1

/-! ### Tags -/

theorem nested_append {opened next last : List String} {marks marks' : List Mark}
    (h : Nested opened marks next) (h' : Nested next marks' last) :
    Nested opened (marks ++ marks') last := by
  induction h with
  | nil => exact h'
  | cons hm _ ih => exact .cons hm (ih h')

theorem nested_marksAll (h : ∀ c ∈ cs, ∀ opened, Nested opened (marks blanks c) opened)
    (opened : List String) : Nested opened (marksAll blanks cs) opened := by
  induction cs with
  | nil => exact .nil
  | cons c cs ih =>
      exact nested_append (h c (by simp) opened) (ih fun c hc => h c (by simp [hc]))

theorem nested_marks (h : c.Everywhere Legible) (opened : List String) :
    Nested opened (marks blanks c) opened := by
  induction h generalizing opened with
  | @intro c _ _ ih =>
      cases c with
      | document children => exact .nil
      | element name ns attributes children =>
          cases children with
          | nil => exact .cons rfl .nil
          | cons c cs =>
              refine .cons rfl (nested_append (nested_marksAll ih _) ?_)
              exact .cons rfl .nil
      | text content =>
          rw [marks]
          split
          · exact .nil
          · exact .cons rfl .nil
      | cdata content => exact .cons rfl .nil
      | comment content => exact .cons rfl .nil
      | instruction target data => exact .cons rfl .nil

/-! ### Text beside text -/

/-- What is no text neither begins nor ends with one. -/
theorem edges_marks (h : c.IsProper) (hc : c.isText = false) :
    (∃ m, (marks blanks c).head? = some m ∧ m.isText = false) ∧
      ∀ m ∈ (marks blanks c).getLast?, m.isText = false := by
  cases c with
  | document children => exact absurd h id
  | element name ns attributes children =>
      cases children with
      | nil => exact ⟨⟨_, rfl, rfl⟩, by simp [marks, Mark.isText]⟩
      | cons c cs =>
          refine ⟨⟨_, rfl, rfl⟩, fun m hm => ?_⟩
          rw [marks, ← List.cons_append, List.getLast?_concat] at hm
          cases hm
          rfl
  | text content => cases hc
  | cdata content => exact ⟨⟨_, rfl, rfl⟩, by simp [marks, Mark.isText]⟩
  | comment content => exact ⟨⟨_, rfl, rfl⟩, by simp [marks, Mark.isText]⟩
  | instruction target data => exact ⟨⟨_, rfl, rfl⟩, by simp [marks, Mark.isText]⟩

/-- Where no text stands beside another, leaving out texts brings none beside another. -/
theorem separated_marksAll
    (hchain : cs.IsChain fun c c' => ¬(c.isText = true ∧ c'.isText = true))
    (hproper : ∀ c ∈ cs, c.IsProper) (h : ∀ c ∈ cs, Markup.Reader.Separated (marks blanks c)) :
    Markup.Reader.Separated (marksAll blanks cs) := by
  induction cs with
  | nil => exact List.isChain_nil
  | cons c cs ih =>
      obtain ⟨hhead, hchain⟩ := List.isChain_cons.mp hchain
      refine List.isChain_append.mpr ⟨h c (by simp),
        ih hchain (fun c hc => hproper c (by simp [hc])) fun c hc => h c (by simp [hc]), ?_⟩
      rintro m hm m' hm' ⟨htext, htext'⟩
      cases hc : c.isText with
      | false =>
          rw [(edges_marks (hproper c (by simp)) hc).2 m hm] at htext
          cases htext
      | true =>
          cases cs with
          | nil => cases hm'
          | cons c' cs =>
              have hc' : c'.isText = false := by simpa [hc] using hhead c' rfl
              obtain ⟨first, hfirst, hnot⟩ := (edges_marks (hproper c' (by simp)) hc').1
              rw [marksAll, List.head?_append, hfirst] at hm'
              cases hm'
              rw [hnot] at htext'
              cases htext'

theorem separated_marks (h : c.Everywhere Legible) :
    Markup.Reader.Separated (marks blanks c) := by
  induction h with
  | @intro c h hparts ih =>
      have hproper : ∀ c' ∈ c.parts, c'.IsProper := by
        intro c' hc'
        obtain ⟨h', -⟩ := hparts c' hc'
        exact h'.2
      cases c with
      | element name ns attributes children =>
          cases children with
          | nil => exact List.isChain_singleton _
          | cons c cs =>
              have hinside : Markup.Reader.Separated (marksAll blanks (c :: cs)) :=
                separated_marksAll h.1.2.2 hproper ih
              refine List.isChain_cons.mpr ⟨by simp [Mark.isText], ?_⟩
              refine List.isChain_append.mpr ⟨hinside, List.isChain_singleton _, ?_⟩
              simp [Mark.isText]
      | text content =>
          rw [marks]
          split
          · exact List.isChain_nil
          · exact List.isChain_singleton _
      | document children => exact List.isChain_nil
      | cdata content => exact List.isChain_singleton _
      | comment content => exact List.isChain_singleton _
      | instruction target data => exact List.isChain_singleton _

end Content

end PersistenceMapping
