/-
A tree and the tokens that it says.

Where there are no repeated attributes, no empty namespaces and no document types inside of the
root, a tree says the tokens that it was built from, except for the character data beside the root.
Building it from the tokens that it says gives the same tree, in strict mode as well
(`Document.of_run`).

Whether a tree can be written so that it is read back depends on its tokens only: each has to be
such that it can be written, and no text may stand beside another (`Content.writable_of_tokens`).
-/
import PersistenceMapping.Proofs.Markup.Faultless
import PersistenceMapping.Proofs.Tree.Emitted
import PersistenceMapping.Proofs.Tree.Legible

namespace PersistenceMapping

/-! ### Tokens that a tree keeps -/

/-- Distinct names keep their attributes as they are. -/
theorem Attributes.collapsed_of_nodup {attributes : List Attribute}
    (h : (attributes.map (·.name)).Nodup) : collapsed attributes = attributes := by
  induction attributes using List.reverseRecOn with
  | nil => rfl
  | append_singleton attributes a ih =>
      rw [List.map_append, List.map_singleton, List.nodup_append] at h
      obtain ⟨hnodup, -, hdisjoint⟩ := h
      rw [collapsed_concat, ih hnodup, set_eq_append]
      intro hmem
      exact hdisjoint _ hmem _ List.mem_cons_self rfl

/-- Whether document types stand only where no element is open, if `depth` elements are open
before. -/
def Token.doctypesOutside : (depth : Nat) → List Token → Bool
  | _, [] => true
  | depth, .startTag _ :: rest => doctypesOutside (depth + 1) rest
  | depth, .endTag _ :: rest => doctypesOutside (depth - 1) rest
  | depth, .doctype _ :: rest => depth == 0 && doctypesOutside depth rest
  | depth, _ :: rest => doctypesOutside depth rest

/-- Without a start tag nothing comes to be open. -/
theorem Token.doctypesOutside_append {before rest : List Token}
    (h : ∀ token ∈ before, token.isStartTag = false)
    (hdoctypes : doctypesOutside 0 (before ++ rest) = true) : doctypesOutside 0 rest = true := by
  induction before with
  | nil => exact hdoctypes
  | cons token before ih =>
      rw [List.forall_mem_cons] at h
      cases token with
      | startTag tag => cases h.1
      | doctype content =>
          rw [List.cons_append, doctypesOutside, Bool.and_eq_true] at hdoctypes
          exact ih h.2 hdoctypes.2
      | _ => exact ih h.2 hdoctypes

/-- Inside of an element no document type stands. -/
theorem Nests.kept_of_doctypesOutside {inner rest : List Token} (h : Nests inner) {depth : Nat}
    (hdoctypes : Token.doctypesOutside (depth + 1) (inner ++ rest) = true)
    (htags : ∀ tag, .startTag tag ∈ inner → tag.collapsed = tag) :
    inner.flatMap Token.kept = inner ∧ Token.doctypesOutside (depth + 1) rest = true := by
  induction h generalizing depth rest with
  | nil => exact ⟨rfl, hdoctypes⟩
  | @loose token inner hloose _ ih =>
      have htags' : ∀ tag, .startTag tag ∈ inner → tag.collapsed = tag :=
        fun tag htag => htags tag (List.mem_cons_of_mem _ htag)
      cases token with
      | doctype content => simp [Token.doctypesOutside] at hdoctypes
      | startDocument | startTag | endTag | endDocument => cases hloose
      | text | cdata | comment | instruction =>
          obtain ⟨hkept, hrest⟩ := ih hdoctypes htags'
          exact ⟨by rw [List.flatMap_cons, hkept]; rfl, hrest⟩
  | @element tag inner inner' _ _ ih ih' =>
      have htag := htags tag List.mem_cons_self
      rw [List.cons_append, List.append_assoc, Token.doctypesOutside] at hdoctypes
      obtain ⟨hkept, hdoctypes⟩ := ih hdoctypes fun tag htag => htags tag (by simp [htag])
      rw [List.cons_append, Token.doctypesOutside, Nat.add_sub_cancel] at hdoctypes
      obtain ⟨hkept', hrest⟩ := ih' hdoctypes fun tag htag => htags tag (by simp [htag])
      refine ⟨?_, hrest⟩
      rw [List.flatMap_cons, List.flatMap_append, List.flatMap_cons, hkept, hkept', Token.kept,
        htag]
      rfl

namespace Builder

variable {b b' : Builder} {strict : Bool} {token : Token} {tokens after : List Token}

/-! ### Strict mode -/

/-- What is taken in in strict mode is taken in alike where that is not asked for. -/
theorem read_of_strict (h : b.read strict token = .ok b') : b.read false token = .ok b' := by
  cases strict with
  | false => exact h
  | true =>
      unfold read at h ⊢
      cases token with
      | startTag tag =>
          dsimp only at h ⊢
          split at h
          · cases h
          · rename_i hroot
            rw [if_neg hroot]
            split at h
            · cases h
            · exact h
      | text content =>
          dsimp only at h ⊢
          split at h
          · rename_i hopened
            split at h
            · cases h
            · rw [if_pos hopened, if_neg (by simp)]
              exact h
          · rename_i hopened
            rw [if_neg hopened]
            exact h
      | cdata content =>
          dsimp only at h ⊢
          split at h
          · cases h
          · rename_i hopened
            rw [if_neg hopened]
            exact h
      | _ => exact h

theorem takes_of_strict (h : tokens.foldlM (read strict) b = .ok b') : b.takes tokens = .ok b' := by
  induction tokens generalizing b with
  | nil => exact h
  | cons token tokens ih =>
      rw [List.foldlM_cons] at h
      obtain ⟨b₁, hread, h⟩ := exists_of_bind_eq_ok h
      rw [takes_cons, read_of_strict hread]
      exact ih h

/-- A run takes in one token after the other. -/
theorem run_append (h : .endDocument ∉ tokens) (b : Builder) (failure : Option TokenError)
    (items : List Outcome) :
    b.run strict failure (tokens.map .ok ++ items) =
      match tokens.foldlM (read strict) b with
      | .ok b' => b'.run strict failure items
      | .error fault => .error (.shape fault) := by
  induction tokens generalizing b with
  | nil => rfl
  | cons token tokens ih =>
      rw [List.mem_cons, not_or] at h
      rw [List.map_cons, List.cons_append, run, List.foldlM_cons]
      · cases b.read strict token with
        | error fault => rfl
        | ok b' => exact ih h.2 b'
      · exact fun heq => h.1 heq.symm

/-- Nothing is built of tokens behind which there is a failure. -/
theorem not_run_error (h : .endDocument ∉ tokens) {failure : Option TokenError} {d : Document}
    {e : TokenError} {more : List Outcome} :
    b.run strict failure (tokens.map .ok ++ .error e :: more) ≠ .ok d := by
  rw [run_append h]
  split <;> nofun

/-- At document level only remarks are taken in. -/
theorem foldlM_remarks (h : after.foldlM (read strict) b = .ok b') (hopened : b.opened = [])
    (hloose : ∀ token ∈ after, token.isLoose = true) :
    (after.filter Token.isRemark).foldlM (read strict) b = .ok b' := by
  induction after generalizing b with
  | nil => exact h
  | cons token after ih =>
      rw [List.forall_mem_cons] at hloose
      rw [List.foldlM_cons] at h
      obtain ⟨b₁, hread, h⟩ := exists_of_bind_eq_ok h
      have hempty : b.opened.isEmpty = true := by rw [hopened]; rfl
      have hsame : token.isRemark = false → b₁ = b := by
        intro hremark
        have hlenient := read_of_strict hread
        cases token with
        | text | cdata | doctype => simpa [read, hempty, eq_comm] using hlenient
        | comment | instruction => cases hremark
        | startDocument | startTag | endTag | endDocument => cases hloose.1
      cases hremark : token.isRemark with
      | false =>
          rw [List.filter_cons_of_neg (by simp [hremark])]
          rw [hsame hremark] at h
          exact ih h hopened hloose.2
      | true =>
          rw [List.filter_cons_of_pos hremark, List.foldlM_cons, hread]
          refine ih h ?_ hloose.2
          obtain ⟨b₂, hlenient, hopened₂, -⟩ := b.read_loose hloose.1
          rw [read_of_strict hread] at hlenient
          rw [Except.ok.inj hlenient, hopened₂, hopened]

end Builder

theorem not_end_of_nests {inner : List Token} (h : Nests inner) : .endDocument ∉ inner := by
  induction h with
  | nil => exact List.not_mem_nil
  | @loose token inner hloose _ ih =>
      rw [List.mem_cons, not_or]
      refine ⟨?_, ih⟩
      rintro rfl
      cases hloose
  | element _ _ ih ih' => simp [ih, ih']

namespace Document

variable {strict : Bool} {d : Document} {root : StartTag} {rest : List Token}

/-- What is built of tokens that begin with a start tag is an element and remarks behind it, and it
may be built of these as well. -/
theorem of_run (hend : .endDocument ∉ rest)
    (h : Builder.initial.run strict none
      ((.startTag root :: rest).map .ok ++ [.ok .endDocument]) = .ok d) :
    ∃ inner after, rest = inner ++ .endTag root.name :: after ∧ Nests inner ∧ WellFormed d ∧
      d.root.isSome = true ∧
      Content.tokensAll d.body = .startTag root.collapsed ::
        (inner.flatMap Token.kept ++ .endTag root.name :: after.filter Token.isRemark) ∧
      Builder.initial.run strict none ((.startTag root ::
        (inner ++ .endTag root.name :: after.filter Token.isRemark)).map .ok ++
          [.ok .endDocument]) = .ok d := by
  have hend' : .endDocument ∉ .startTag root :: rest := by simp [hend]
  rw [Builder.run_append hend'] at h
  obtain ⟨b, htakes, hfinish⟩ : ∃ b,
      (Token.startTag root :: rest).foldlM (Builder.read strict) .initial = .ok b ∧
        b.finish.mapError BuildError.shape = .ok d := by
    split at h
    · rename_i b htakes
      exact ⟨b, htakes, h⟩
    · cases h
  obtain ⟨rfl, hopened, hroot⟩ := Builder.finish_eq_ok hfinish
  have hlenient := Builder.takes_of_strict htakes
  obtain ⟨before, tag, inner, after, hone⟩ :=
    Builder.oneElement_of_takes rfl rfl hend' hlenient hopened hroot
  -- The tokens begin with a start tag, so it is the one of the element.
  obtain ⟨rfl, rfl, hrest⟩ :
      before = [] ∧ tag = root ∧ rest = inner ++ .endTag tag.name :: after := by
    have heq := hone.eq
    cases before with
    | nil =>
        obtain ⟨htag, hrest⟩ := List.cons.inj heq
        obtain rfl := Token.startTag.inj htag
        exact ⟨rfl, rfl, hrest⟩
    | cons token before =>
        have hloose := hone.before token List.mem_cons_self
        rw [← (List.cons.inj heq).1] at hloose
        cases hloose
  obtain ⟨b', htakes', -, -, hemits⟩ := Builder.takes_oneElement hone
  obtain rfl := Except.ok.inj (hlenient.symm.trans htakes')
  refine ⟨inner, after, hrest, hone.inner, hemits.sound.wellFormed, hroot,
    by simpa using hemits.tokens_body hopened, ?_⟩
  have hkept : .endDocument ∉ Token.startTag tag ::
      (inner ++ .endTag tag.name :: after.filter Token.isRemark) := by
    simp [not_end_of_nests hone.inner, Token.isRemark]
  have hsplit : ∀ l : List Token, Token.startTag tag :: (inner ++ .endTag tag.name :: l) =
      .startTag tag :: (inner ++ [.endTag tag.name]) ++ l := by simp
  have helement : (Token.startTag tag :: (inner ++ .endTag tag.name ::
      after.filter Token.isRemark)).foldlM (Builder.read strict) .initial = .ok b := by
    rw [hrest, hsplit, List.foldlM_append] at htakes
    obtain ⟨b₁, htakes₁, htakes⟩ := exists_of_bind_eq_ok htakes
    have hclosed : b₁.opened = [] := by
      obtain ⟨b₂, htakes₂, hopened₂, -⟩ := Builder.emits_initial.takes_element tag (fun _ => rfl)
        fun hemits hopened => hemits.takes_nested hone.inner hopened
      rw [Builder.takes_of_strict htakes₁] at htakes₂
      rw [Except.ok.inj htakes₂, hopened₂]
      rfl
    rw [hsplit, List.foldlM_append, htakes₁]
    exact Builder.foldlM_remarks htakes hclosed hone.after
  rw [Builder.run_append hkept, helement]
  exact hfinish

end Document

namespace Content

/-! ### Writing a tree by its tokens -/

mutual

/-- What is left of a content without its namespaces says its tokens without theirs. -/
theorem tokensAll_bare : (c : Content) →
    tokensAll (bare true c) = c.tokens.map Token.withoutNamespace
  | .document children => rfl
  | .element name ns attributes children => by
    rw [bare, tokensAll, tokensAll, List.append_nil, tokens, tokens, tokensAll_bareAll children]
    simp [Token.withoutNamespace]
  | .text content => rfl
  | .cdata content => rfl
  | .comment content => rfl
  | .instruction target data => rfl

theorem tokensAll_bareAll : (cs : List Content) →
    tokensAll (bareAll true cs) = (tokensAll cs).map Token.withoutNamespace
  | [] => rfl
  | c :: cs => by
    rw [bareAll, tokensAll_append, tokensAll_bare c, tokensAll_bareAll cs, tokensAll,
      List.map_append]

end

variable {c : Content} {cs : List Content}

theorem exists_token_of_isText (c : Content) (hc : c.isText = true) :
    ∃ token, c.tokens = [token] ∧ token.isText = true := by
  cases c with
  | text content => exact ⟨_, rfl, rfl⟩
  | _ => cases hc

/-- Where no two tokens are, no two contents are. -/
theorem separated_of_tokensAll (h : Token.Separated (tokensAll cs)) :
    cs.IsChain fun c c' => ¬(c.isText = true ∧ c'.isText = true) := by
  induction cs with
  | nil => exact List.isChain_nil
  | cons c cs ih =>
      have hrest : Token.Separated (tokensAll cs) := (List.isChain_append.mp h).2.1
      refine List.isChain_cons.mpr ⟨?_, ih hrest⟩
      rintro c' hc' ⟨htext, htext'⟩
      obtain ⟨cs, rfl⟩ := List.head?_eq_some_iff.mp hc'
      obtain ⟨token, htokens, ht⟩ := exists_token_of_isText c htext
      obtain ⟨token', htokens', ht'⟩ := exists_token_of_isText c' htext'
      rw [tokensAll, tokensAll, htokens, htokens'] at h
      exact (List.isChain_cons_cons.mp h).1 ⟨ht, ht'⟩

/-- A content can be written if its tokens can be and no text stands beside another. -/
theorem writable_of_tokens (hproper : c.Everywhere IsProper)
    (hwritable : ∀ token ∈ c.tokens, token.Writable) (hseparated : Token.Separated c.tokens) :
    c.Everywhere Writable := by
  induction hproper with
  | @intro c hproper _ ih =>
      cases c with
      | document children => exact absurd hproper id
      | element name ns attributes children =>
          rw [tokens, List.forall_mem_cons, List.forall_mem_append] at hwritable
          obtain ⟨htag, hchildren, -⟩ := hwritable
          have hinside : Token.Separated (tokensAll children) :=
            (List.isChain_append.mp (List.isChain_cons.mp hseparated).2).1
          obtain ⟨hname, hattributes, -⟩ := htag _ rfl
          refine .intro ⟨hname, hattributes, separated_of_tokensAll hinside⟩ fun c hc => ?_
          obtain ⟨before, after, rfl⟩ := List.append_of_mem hc
          rw [tokensAll_append, tokensAll] at hinside hchildren
          refine ih c hc (fun token htoken => hchildren token (by simp [htoken])) ?_
          exact (List.isChain_append.mp (List.isChain_append.mp hinside).2.1).1
      | text | cdata | comment | instruction =>
          exact .of_parts_eq_nil (hwritable _ List.mem_cons_self _ rfl) rfl

theorem writable_of_tokensAll (hproper : ∀ c ∈ cs, c.Everywhere IsProper)
    (hwritable : ∀ token ∈ tokensAll cs, token.Writable)
    (hseparated : Token.Separated (tokensAll cs)) : ∀ c ∈ cs, c.Everywhere Writable := by
  intro c hc
  obtain ⟨before, after, rfl⟩ := List.append_of_mem hc
  rw [tokensAll_append, tokensAll] at hseparated hwritable
  refine writable_of_tokens (hproper c hc)
    (fun token htoken => hwritable token (by simp [htoken])) ?_
  exact (List.isChain_append.mp (List.isChain_append.mp hseparated).2.1).1

end Content

end PersistenceMapping
