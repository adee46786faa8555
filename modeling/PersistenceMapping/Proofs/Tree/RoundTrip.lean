/-
A document that is written and read says what it said before.

Writing loses namespaces, which are found again while reading, and line breaks bring in texts of
nothing but blanks.  So documents are compared by bare contents, with the blank texts of both left
out where there is indentation (`parse_bytes`).
-/
import PersistenceMapping.Proofs.Markup.Streamed
import PersistenceMapping.Proofs.Tree.Body
import PersistenceMapping.Proofs.Tree.Legible
import PersistenceMapping.Proofs.Tree.Reach

namespace PersistenceMapping

namespace Content

variable {blanks : Bool} {p : Content → Prop} {c : Content} {cs : List Content}

theorem Everywhere.and {q : Content → Prop} (h : c.Everywhere p) (h' : c.Everywhere q) :
    c.Everywhere fun c => p c ∧ q c := by
  induction h with
  | intro h _ ih =>
      obtain ⟨h', hparts⟩ := h'
      exact .intro ⟨h, h'⟩ fun c hc => ih c hc (hparts c hc)

/-! ### Bare contents -/

mutual

/-- Nothing is left out twice. -/
theorem bareAll_bare : (c : Content) → bareAll blanks (bare true c) = bare blanks c
  | .document children => by
    rw [bare, bareAll, bareAll, bare, bareAll_bareAll children, List.append_nil, bare]
  | .element name ns attributes children => by
    rw [bare, bareAll, bareAll, bare, bareAll_bareAll children, List.append_nil, bare]
  | .text content => by
    rw [bare, Token.stays, Bool.true_or, if_pos rfl, bareAll, bareAll, List.append_nil]
  | .cdata content => rfl
  | .comment content => rfl
  | .instruction target data => rfl

theorem bareAll_bareAll : (cs : List Content) →
    bareAll blanks (bareAll true cs) = bareAll blanks cs
  | [] => rfl
  | c :: cs => by
    rw [bareAll, bareAll_append, bareAll_bare c, bareAll_bareAll cs, bareAll]

end

/-- What is left of a content is of its kind, if it is not left out. -/
theorem mem_bare {c' : Content} (h : c' ∈ bare blanks c) :
    c'.isElement = c.isElement ∧ c'.isCharacters = c.isCharacters := by
  cases c with
  | text content =>
      rw [bare] at h
      split at h
      · rw [List.mem_singleton.mp h]
        exact ⟨rfl, rfl⟩
      · cases h
  | _ =>
      rw [List.mem_singleton.mp h]
      exact ⟨rfl, rfl⟩

/-- It does not matter whether character data is taken out before or after. -/
theorem filter_bareAll (cs : List Content) :
    (bareAll blanks cs).filter (!·.isCharacters) =
      bareAll blanks (cs.filter (!·.isCharacters)) := by
  induction cs with
  | nil => rfl
  | cons c cs ih =>
      rw [bareAll, List.filter_append, ih, List.filter_cons]
      cases hc : c.isCharacters with
      | true =>
          have hnone : (bare blanks c).filter (!·.isCharacters) = [] := by
            rw [List.filter_eq_nil_iff]
            intro c' hc'
            simp [(mem_bare hc').2, hc]
          rw [hnone]
          rfl
      | false =>
          have hall : (bare blanks c).filter (!·.isCharacters) = bare blanks c := by
            rw [List.filter_eq_self]
            intro c' hc'
            simp [(mem_bare hc').2, hc]
          rw [hall]
          rfl

/-- No element is left out, and none comes in. -/
theorem length_elements_bareAll (cs : List Content) :
    ((bareAll blanks cs).filter isElement).length = (cs.filter isElement).length := by
  induction cs with
  | nil => rfl
  | cons c cs ih =>
      rw [bareAll, List.filter_append, List.length_append, ih, List.filter_cons]
      cases hc : c.isElement with
      | true =>
          have hone : ((bare blanks c).filter isElement).length = 1 := by
            cases c <;> first | rfl | cases hc
          rw [hone, if_pos rfl, List.length_cons, Nat.add_comm]
      | false =>
          have hnone : (bare blanks c).filter isElement = [] := by
            rw [List.filter_eq_nil_iff]
            intro c' hc'
            simp [(mem_bare hc').1, hc]
          rw [hnone, if_neg (by simp), List.length_nil, Nat.zero_add]

mutual

/-- The tokens of what is left are none of those that are left out. -/
theorem stays_tokens_bare : (c : Content) → ∀ t ∈ tokensAll (bare blanks c), t.stays blanks = true
  | .document children => nofun
  | .element name ns attributes children => by
    intro t ht
    rw [bare, tokensAll, tokensAll, List.append_nil, tokens] at ht
    rcases List.mem_cons.mp ht with rfl | ht
    · rfl
    · rcases List.mem_append.mp ht with ht | ht
      · exact stays_tokens_bareAll children t ht
      · rw [List.mem_singleton.mp ht]
        rfl
  | .text content => by
    intro t ht
    rw [bare] at ht
    split at ht
    · rename_i hstays
      rw [List.mem_singleton.mp ht]
      exact hstays
    · cases ht
  | .cdata content => by simp [bare, tokensAll, tokens, Token.stays]
  | .comment content => by simp [bare, tokensAll, tokens, Token.stays]
  | .instruction target data => by simp [bare, tokensAll, tokens, Token.stays]

theorem stays_tokens_bareAll : (cs : List Content) →
    ∀ t ∈ tokensAll (bareAll blanks cs), t.stays blanks = true
  | [] => nofun
  | c :: cs => by
    intro t ht
    rw [bareAll, tokensAll_append] at ht
    rcases List.mem_append.mp ht with ht | ht
    · exact stays_tokens_bare c t ht
    · exact stays_tokens_bareAll cs t ht

end

end Content

/-- A token stays or not whatever its namespace. -/
theorem Token.filter_withoutNamespace (blanks : Bool) (ts : List Token) :
    (ts.map withoutNamespace).filter (stays blanks) =
      (ts.filter (stays blanks)).map withoutNamespace := by
  have hstays : stays blanks ∘ withoutNamespace = stays blanks := by
    funext t
    cases t <;> rfl
  rw [List.filter_map, hstays]

namespace Document

variable {d : Document} {blanks : Bool}

/-- The tokens of a body, but for blank texts, build a document with this body. -/
theorem WellFormed.ofOpenedStream_of_tokens (h : WellFormed d) (hroot : d.root.isSome)
    {ts : List Token} (hts : (ts.filter (Token.stays blanks)).map Token.withoutNamespace =
      Content.tokensAll (Content.bareAll blanks d.body)) :
    ∃ d', ofOpenedStream false
        { items := (.plainStart :: (ts ++ [Token.endDocument])).map .ok } = .ok d' ∧
      Content.bareAll blanks d'.body = Content.bareAll blanks d.body := by
  have hrecovers : Spells.Recovers blanks (Content.bareAll blanks d.body) :=
    Spells.recovers_bareAll fun c hc => Spells.recovers_bare (h.proper_body c hc)
  obtain ⟨cs, hspells, hcs⟩ := hrecovers ts hts
  have hone : (cs.filter Content.isElement).length = 1 := by
    rw [← Content.length_elements_bareAll, hcs, Content.length_elements_bareAll,
      h.one_element_body hroot]
  obtain ⟨d', hparse, hbody⟩ := ofOpenedStream_of_spells hspells hone
  have hkept : d.body.filter (!·.isCharacters) = d.body := by
    rw [List.filter_eq_self]
    intro c hc
    rw [h.isCharacters_body c hc]
    rfl
  refine ⟨d', hparse, ?_⟩
  rw [← Content.bareAll_bareAll d'.body, hbody, Content.bareAll_bareAll, ← Content.filter_bareAll,
    hcs, Content.filter_bareAll, hkept]

/-- The marks of a document whose contents can be told apart can be told apart. -/
theorem WellFormed.marks_legible (h : WellFormed d)
    (hlegible : ∀ c ∈ d.body, c.Everywhere Content.Legible) (indent : Nat) :
    (∀ m ∈ d.marks indent, m.Writable) ∧ Markup.Reader.Separated (d.marks indent) ∧
      Nested [] (d.marks indent) [] := by
  refine ⟨fun m hm => ?_, List.isChain_cons.mpr ⟨by simp [Mark.isText], ?_⟩, .cons rfl ?_⟩
  · rcases List.mem_cons.mp hm with rfl | hm
    · trivial
    · obtain ⟨c, hc, hm⟩ := Content.mem_marksAll.mp hm
      exact Content.writable_marks (hlegible c hc) m hm
  · refine Content.separated_marksAll ?_ (fun c hc => ?_)
      fun c hc => Content.separated_marks (hlegible c hc)
    · refine List.Pairwise.isChain (List.pairwise_of_forall_mem_list ?_)
      rintro c hc c' - ⟨htext, -⟩
      have hnot := h.isCharacters_body c hc
      cases c with
      | text content => cases hnot
      | _ => cases htext
    · obtain ⟨hc, -⟩ := hlegible c hc
      exact hc.2
  · exact Content.nested_marksAll (fun c hc => Content.nested_marks (hlegible c hc)) []

/-- Indented or not, a document is written as marks that can be told apart, and these are written
for the tokens of its body, but for blank texts where it is indented. -/
theorem WellFormed.exists_marks (h : WellFormed d)
    (hlegible : ∀ c ∈ d.body, c.Everywhere Content.Legible) (indent : Nat) :
    ∃ marks, d.render indent = String.join ((Mark.declaration :: marks).map Mark.write) ∧
      (∀ m ∈ Mark.declaration :: marks, m.Writable) ∧
      Markup.Reader.Separated (.declaration :: marks) ∧ Nested [] (.declaration :: marks) [] ∧
      (marks.flatMap Mark.tokens).filter (Token.stays (indent = 0)) =
        Content.tokensAll (Content.bareAll (indent = 0) d.body) := by
  obtain ⟨hwritable, hseparated, hnested⟩ := h.marks_legible hlegible indent
  have htokens : (Content.marksAll (indent = 0) d.body).flatMap Mark.tokens =
      Content.tokensAll (Content.bareAll (indent = 0) d.body) :=
    Content.tokens_marksAll fun c hc => Content.tokens_marks (h.proper_body c hc)
  have hstays : (Content.tokensAll (Content.bareAll (indent = 0) d.body)).filter
      (Token.stays (indent = 0)) = Content.tokensAll (Content.bareAll (indent = 0) d.body) :=
    List.filter_eq_self.mpr (Content.stays_tokens_bareAll d.body)
  obtain ⟨broken, hbroken, hrender⟩ := broken_writeMarks indent (d.marks indent)
  by_cases hindent : indent = 0
  · rw [if_pos hindent] at hbroken
    rw [hbroken] at hrender
    exact ⟨_, hrender, hwritable, hseparated, hnested, by rw [htokens, hstays]⟩
  · rw [if_neg hindent] at hbroken
    obtain ⟨marks, rfl⟩ := List.head?_eq_some_iff.mp hbroken.head?_eq
    refine ⟨marks, hrender, hbroken.writable hwritable, hbroken.separated hseparated,
      hbroken.nested hnested, ?_⟩
    have hblanks : decide (indent = 0) = false := decide_eq_false hindent
    have hsame := hbroken.tokens
    rw [Document.marks, List.flatMap_cons, List.flatMap_cons, List.filter_append,
      List.filter_append] at hsame
    rw [← hstays, ← htokens, hblanks, List.append_cancel_left hsame, hblanks]

/-- What is written of a document with a root, whose names and contents can be told apart, is
read as a document that says the same.  Where it is indented, it says the same but for texts of
nothing but blanks. -/
theorem parse_bytes (h : Reachable d) (hroot : d.root.isSome)
    (hwritable : ∀ c ∈ d.body, c.Everywhere Content.Writable) (indent : Nat) :
    ∃ d', parse (d.bytes indent) = .ok d' ∧
      Content.bareAll (indent = 0) d'.body = Content.bareAll (indent = 0) d.body := by
  have hwf := h.wellFormed
  have hlegible : ∀ c ∈ d.body, c.Everywhere Content.Legible := fun c hc =>
    (hwritable c hc).and (hwf.proper_body c hc)
  obtain ⟨marks, hrender, hmarks, hseparated, hnested, htokens⟩ :=
    hwf.exists_marks hlegible indent
  obtain ⟨tokens, hstream, hread⟩ := Markup.stream_ofBytes_written rfl hmarks hseparated hnested
  rw [List.flatMap_cons, Mark.tokens, List.singleton_append] at hread
  obtain ⟨start, ts, rfl, hstart, hts⟩ := List.map_eq_cons_iff.mp hread
  obtain rfl : start = .plainStart := by
    cases start <;> first | exact hstart | cases hstart
  rw [← hts, Token.filter_withoutNamespace] at htokens
  obtain ⟨d', hparse, hbody⟩ := hwf.ofOpenedStream_of_tokens hroot htokens
  refine ⟨d', ?_, hbody⟩
  rw [parse, bytes, hrender, hstream]
  exact hparse

/-- Both texts of this document are blank, and the second is all that there is of its element. -/
theorem parse_bytes_of_blanks :
    let tokens : List Token := [.plainStart, .startTag ⟨"a", none, [⟨"n", "<\"&>"⟩]⟩, .text "\n ",
      .startTag ⟨"b", none, []⟩, .text "\t", .endTag "b", .cdata "<&", .instruction "p" "q?",
      .endTag "a", .comment "-", .endDocument]
    let d := (ofStream false (.ofTokens tokens)).toOption.getD (.empty)
    Reachable d ∧ d.root.isSome ∧ (∀ c ∈ d.body, c.Everywhere Content.Writable) ∧
      ∃ d', parse (d.bytes 2) = .ok d' ∧ Content.bareAll false d'.body =
        [.element "a" none [⟨"n", "<\"&>"⟩]
          [.element "b" none [] [], .cdata "<&", .instruction "p" "q?"], .comment "-"] := by
  intro tokens d
  have hbuilt : ofStream false (.ofTokens tokens) = .ok d := rfl
  have hbody : d.body = [.element "a" none [⟨"n", "<\"&>"⟩] [.text "\n ",
      .element "b" none [] [.text "\t"], .cdata "<&", .instruction "p" "q?"], .comment "-"] := by
    rfl
  have hattribute : Attribute.Permitted ⟨"n", "<\"&>"⟩ := by
    intro qualifier hname
    simpa using congrArg String.toList hname
  have htext : ∀ content ≠ "", (Content.text content).Everywhere Content.Writable :=
    fun _ h => .intro h nofun
  have hcdata : Content.Writable (.cdata "<&") := by
    show ¬ "]]>".toList <:+: "<&".toList
    decide
  have hcomment : Content.Writable (.comment "-") := by
    show ¬ "-->".toList <:+: "-".toList
    decide
  have hwritable : ∀ c ∈ d.body, c.Everywhere Content.Writable := by
    simp only [hbody, List.forall_mem_cons]
    refine ⟨.intro ⟨by decide, ?_, ?_⟩ ?_, .intro hcomment nofun, nofun⟩
    · intro a ha
      rw [List.mem_singleton.mp ha]
      exact ⟨by decide, hattribute⟩
    · simp [Content.isText]
    · show ∀ c ∈ [_, _, _, _], _
      simp only [List.forall_mem_cons]
      refine ⟨htext _ (by decide), .intro ⟨by decide, nofun, ?_⟩ ?_,
        .intro hcdata nofun, .intro ⟨by decide, by decide, by decide, ?_⟩ nofun, nofun⟩
      · exact List.isChain_singleton _
      · intro c hc
        rw [List.mem_singleton.mp hc]
        exact htext _ (by decide)
      · rintro _ ⟨⟩
        rfl
  refine ⟨.built hbuilt, rfl, hwritable, ?_⟩
  obtain ⟨d', hparse, hsame⟩ := parse_bytes (.built hbuilt) rfl hwritable 2
  refine ⟨d', hparse, ?_⟩
  show Content.bareAll (2 = 0) d'.body = _
  rw [hsame, hbody]
  rfl

end Document

end PersistenceMapping
