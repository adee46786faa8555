/-
Stacks of readers, read with and without looking ahead.

Each reader of a stack shows a stream that can be told from its state: what it has in hand, and then
what comes of bringing the rest to shape.  So what a stack gives token by token is what it gives as
one stream (`Stack.reads_of_build`), and looking at tokens in between changes nothing of it
(`Stack.peek_transparent`).
-/
import PersistenceMapping.Proofs.Markup.Source

namespace PersistenceMapping

universe u

open TokenSource (Gives)
open TokenReader (Shows)

/-! ### Dialects -/

section Dialect

variable {σ : Type u} [TokenSource σ] {view : σ → TokenStream}

/-- What is still to come of a hierarchical document. -/
def Dialect.Hierarchical.Source.shown (view : σ → TokenStream)
    (s : Dialect.Hierarchical.Source σ) : TokenStream :=
  { view s.inner with items := normalizeItems (!s.seenRoot) (view s.inner).items }

theorem TokenSource.Gives.hierarchical (h : Gives view) :
    Gives (Dialect.Hierarchical.Source.shown view) := by
  intro s
  show (s.shown view).next = (s.next.1, s.next.2.shown view)
  fun_induction Dialect.Hierarchical.Source.next s with
  | case1 s content inner heq hlt ih =>
      have hview := TokenStream.eq_cons_of_next ((h s.inner).trans (by rw [heq]))
      rw [← ih, Dialect.Hierarchical.Source.shown, hview]
      rfl
  | case2 s tag inner heq =>
      have hview := TokenStream.eq_cons_of_next ((h s.inner).trans (by rw [heq]))
      rw [Dialect.Hierarchical.Source.shown, hview]
      rfl
  | case3 s name inner heq =>
      have hview := TokenStream.eq_cons_of_next ((h s.inner).trans (by rw [heq]))
      rw [Dialect.Hierarchical.Source.shown, hview]
      rfl
  | case4 s pull inner hdoctype htag hend heq =>
      have hnext := h s.inner
      rw [heq] at hnext
      obtain ⟨outcome, hpull, hview⟩ | ⟨hnil, hpull, hview⟩ := TokenStream.next_cases hnext
      · rw [Dialect.Hierarchical.Source.shown, hview]
        subst hpull
        cases outcome with
        | error e => rfl
        | ok token =>
            cases token with
            | doctype content => exact absurd rfl (hdoctype content)
            | startTag tag => exact absurd rfl (htag tag)
            | endTag name => exact absurd rfl (hend name)
            | _ => rfl
      · rw [TokenStream.next_of_nil (by rw [Dialect.Hierarchical.Source.shown, hnil]; rfl)]
        refine Prod.ext hpull.symm ?_
        simp only [Dialect.Hierarchical.Source.shown, hview]

/-- What is still to come of an entity document. -/
def Dialect.Entity.Source.shown (view : σ → TokenStream) (s : Dialect.Entity.Source σ) :
    TokenStream :=
  { view s.inner with
    items :=
      if s.seenRoot then normalizeItems (view s.inner).items
      else normalizeDocument s.versions (view s.inner).items }

theorem TokenSource.Gives.entity (h : Gives view) : Gives (Dialect.Entity.Source.shown view) := by
  intro s
  show (s.shown view).next = (s.next.1, s.next.2.shown view)
  have hnext := h s.inner
  unfold Dialect.Entity.Source.next
  split
  · rename_i tag inner heq
    rw [heq] at hnext
    rw [Dialect.Entity.Source.shown, TokenStream.eq_cons_of_next hnext]
    cases hseen : s.seenRoot with
    | true => rfl
    | false =>
        simp only [Bool.false_eq_true, if_false, Dialect.Entity.normalizeDocument]
        cases Dialect.Entity.normalizeRoot s.versions tag <;> rfl
  · rename_i pull inner htag heq
    rw [heq] at hnext
    obtain ⟨outcome, hpull, hview⟩ | ⟨hnil, hpull, hview⟩ := TokenStream.next_cases hnext
    · rw [Dialect.Entity.Source.shown, hview]
      subst hpull
      cases s.seenRoot <;>
        cases outcome with
        | error e => rfl
        | ok token =>
            cases token with
            | startTag tag => exact absurd rfl (htag tag)
            | _ => rfl
    · have hnil' : (s.shown view).items = [] := by
        rw [Dialect.Entity.Source.shown, hnil]
        cases s.seenRoot <;> rfl
      rw [TokenStream.next_of_nil hnil']
      refine Prod.ext hpull.symm ?_
      simp only [Dialect.Entity.Source.shown, hview]

end Dialect

/-! ### Readers of any kind -/

namespace AnyReader

/-- Whether a reader gives and shows this stream. -/
def Reads (r : AnyReader) (s : TokenStream) : Prop :=
  ∃ view : r.State → TokenStream, Shows view ∧ view r.state = s

/-- What the pull with this number gives, if nothing is done but pulling. -/
def pullAt (r : AnyReader) (k : Nat) : Pull :=
  TokenSource.pullAt r.state k

variable {r : AnyReader} {s : TokenStream}

theorem reads_of {σ : Type} [TokenReader σ] {view : σ → TokenStream} (h : Shows view)
    {state : σ} (hs : view state = s) : (of state).Reads s :=
  ⟨view, h, hs⟩

theorem Reads.hierarchical (h : r.Reads s) :
    r.hierarchical.Reads (Dialect.Hierarchical.normalize s) := by
  obtain ⟨view, hview, rfl⟩ := h
  exact reads_of hview.gives.hierarchical.buffered rfl

theorem Reads.entity (h : r.Reads s) (versions : List String) :
    (r.entity versions).Reads (Dialect.Entity.normalize versions s) := by
  obtain ⟨view, hview, rfl⟩ := h
  exact reads_of hview.gives.entity.buffered rfl

/-- A reader is put behind a document start as its stream is. -/
theorem Reads.opened (h : r.Reads s) :
    (∃ e, r.opened = .error e ∧ s.opened = .error e) ∨
      ∃ o o', r.opened = .ok o ∧ s.opened = .ok o' ∧ o.Reads o'.stream := by
  obtain ⟨view, hview, rfl⟩ := h
  unfold AnyReader.opened TokenStream.opened TokenReader.opened
  have hpeek : TokenReader.peek (view r.state) = (view r.state).peek := rfl
  rw [hpeek, hview.peek_eq]
  rcases TokenReader.peek r.state with ⟨e | _ | token, source⟩
  · exact Or.inl ⟨e, rfl, rfl⟩
  · refine Or.inr ⟨_, _, rfl, rfl, ?_⟩
    exact reads_of hview.opened rfl
  · refine Or.inr ?_
    by_cases hstart : token.isStartDocument
    · simp only [if_pos hstart]
      refine ⟨_, _, rfl, rfl, ?_⟩
      exact reads_of hview.opened rfl
    · simp only [if_neg hstart]
      refine ⟨_, _, rfl, rfl, ?_⟩
      exact reads_of hview.opened rfl

/-- What a reader gives can be read off its stream. -/
theorem Reads.pullAt_eq (h : r.Reads s) (k : Nat) : r.pullAt k = TokenSource.pullAt s k := by
  obtain ⟨view, hview, rfl⟩ := h
  exact hview.gives.pullAt_eq r.state k

theorem Reads.play_eq_pullAt (h : r.Reads s) {calls : List Call} {i : Nat} (hi : i < calls.length)
    (hok : ∀ j < i, ∀ e, (r.play calls)[j]? ≠ some (.error e)) :
    (r.play calls)[i]? = some (r.pullAt ((calls.take i).count .next)) := by
  obtain ⟨view, hview, -⟩ := h
  exact hview.play_eq_pullAt hi hok

end AnyReader

/-! ### Stacks -/

namespace TokenStream

/-- A stream is opened by itself, or by the plain document start in front of it. -/
theorem stream_of_opened {s : TokenStream} {o : Opened TokenStream} (h : s.opened = .ok o) :
    (∃ token, s.next.1 = .ok (some token) ∧ token.isStartDocument = true ∧ o.stream = s) ∨
      (∀ token, s.next.1 = .ok (some token) → token.isStartDocument = false) ∧
        o.stream = s.behind (some .plainStart) := by
  unfold opened TokenReader.opened at h
  have hpeek : TokenReader.peek s = s.peek := rfl
  rw [hpeek] at h
  split at h
  · cases h
  · rename_i token source heq
    obtain ⟨rfl, hnext⟩ := next_eq_of_peek heq
    split at h
    · rename_i hstart
      cases h
      exact Or.inl ⟨token, hnext, hstart, rfl⟩
    · rename_i hstart
      cases h
      refine Or.inr ⟨fun token' htoken => ?_, rfl⟩
      rw [hnext] at htoken
      cases htoken
      exact Bool.eq_false_iff.mpr hstart
  · rename_i source heq
    obtain ⟨rfl, hnext⟩ := next_eq_of_peek heq
    cases h
    refine Or.inr ⟨fun token htoken => ?_, rfl⟩
    rw [hnext] at htoken
    cases htoken

end TokenStream

namespace Stack

/-- A stack gives token by token what it gives as one stream, and can be built if it gives any. -/
theorem reads_of_build (s : Stack) :
    (∃ e, s.build = .error e ∧ s.toStream = .error e) ∨
      ∃ r t, s.build = .ok r ∧ s.toStream = .ok t ∧ r.Reads t := by
  induction s with
  | stream s => exact Or.inr ⟨_, _, rfl, rfl, AnyReader.reads_of TokenStream.shows_id rfl⟩
  | bytes content failure =>
      exact Or.inr ⟨_, _, rfl, rfl, AnyReader.reads_of Markup.Source.gives_shown.buffered
        (Markup.Source.shown_ofBytes content failure)⟩
  | hierarchical below ih =>
      unfold build toStream
      obtain ⟨e, hbuild, hstream⟩ | ⟨r, t, hbuild, hstream, hreads⟩ := ih
      · rw [hbuild, hstream]
        exact Or.inl ⟨e, rfl, rfl⟩
      · rw [hbuild, hstream]
        exact Or.inr ⟨_, _, rfl, rfl, hreads.hierarchical⟩
  | entity versions below ih =>
      unfold build toStream
      obtain ⟨e, hbuild, hstream⟩ | ⟨r, t, hbuild, hstream, hreads⟩ := ih
      · rw [hbuild, hstream]
        exact Or.inl ⟨e, rfl, rfl⟩
      · rw [hbuild, hstream]
        exact Or.inr ⟨_, _, rfl, rfl, hreads.entity versions⟩
  | opened below ih =>
      unfold build toStream
      obtain ⟨e, hbuild, hstream⟩ | ⟨r, t, hbuild, hstream, hreads⟩ := ih
      · rw [hbuild, hstream]
        exact Or.inl ⟨e, rfl, rfl⟩
      · rw [hbuild, hstream]
        obtain ⟨e, hr, ht⟩ | ⟨o, o', hr, ht, ho⟩ := hreads.opened
        · exact Or.inl ⟨e, by rw [Except.bind, hr], by rw [Except.bind, ht]; rfl⟩
        · exact Or.inr ⟨o, _, by rw [Except.bind, hr], by rw [Except.bind, ht]; rfl, ho⟩

/-- Looking ahead changes nothing of what a stack gives, and a stack that opens with a document start
gives one and else what is below. -/
theorem peek_transparent (s : Stack) {r : AnyReader} (h : s.build = .ok r) :
    (∀ (calls : List Call) (i : Nat), i < calls.length →
        (∀ j < i, ∀ e, (r.play calls)[j]? ≠ some (.error e)) →
        (r.play calls)[i]? = some (r.pullAt ((calls.take i).count .next))) ∧
      ∀ below, s = .opened below → ∃ r', below.build = .ok r' ∧
        ((∃ token, r'.pullAt 0 = .ok (some token) ∧ token.isStartDocument = true ∧
            r.pullAt = r'.pullAt) ∨
          (∀ token, r'.pullAt 0 = .ok (some token) → token.isStartDocument = false) ∧
            r.pullAt 0 = .ok (some .plainStart) ∧ ∀ k, r.pullAt (k + 1) = r'.pullAt k) := by
  refine ⟨fun calls i hi hok => ?_, ?_⟩
  · obtain ⟨e, hbuild, -⟩ | ⟨r', t, hbuild, -, hreads⟩ := s.reads_of_build
    · cases h.symm.trans hbuild
    · cases h.symm.trans hbuild
      exact hreads.play_eq_pullAt hi hok
  · rintro below rfl
    unfold build at h
    obtain ⟨e, hbuild, -⟩ | ⟨r', t, hbuild, -, hreads⟩ := below.reads_of_build
    · rw [hbuild] at h
      cases h
    rw [hbuild] at h
    refine ⟨r', hbuild, ?_⟩
    obtain ⟨e, hr, -⟩ | ⟨o, o', hr, ht, ho⟩ := hreads.opened
    · cases h.symm.trans hr
    cases h.symm.trans hr
    have hfirst : r'.pullAt 0 = t.next.1 := hreads.pullAt_eq 0
    rw [hfirst]
    obtain ⟨token, hnext, hstart, hstream⟩ | ⟨hno, hstream⟩ := TokenStream.stream_of_opened ht
    · refine Or.inl ⟨token, hnext, hstart, funext fun k => ?_⟩
      rw [ho.pullAt_eq, hstream, hreads.pullAt_eq]
    · refine Or.inr ⟨hno, ?_, fun k => ?_⟩
      · rw [ho.pullAt_eq, hstream]
        rfl
      · rw [ho.pullAt_eq, hstream, hreads.pullAt_eq]
        rfl

/-- The root is looked at twice, through two layers and a document start that is not its own. -/
theorem peek_transparent_of_no_start :
    let below : Stack := .entity Dialect.Entity.defaultVersions
      (.stream (.ofTokens [.startTag ⟨"a", none, []⟩, .endTag "a", .endDocument]))
    let calls : List Call := [.peek, .next, .peek, .peek, .next]
    ∃ r r', (opened below).build = .ok r ∧ below.build = .ok r' ∧
      (r.play calls)[3]? = some (r.pullAt 1) ∧ (r.play calls)[4]? = some (r.pullAt 1) ∧
      r.pullAt 0 = .ok (some .plainStart) ∧ ∀ k, r.pullAt (k + 1) = r'.pullAt k := by
  intro below calls
  obtain ⟨r, hr, pulls, hpulls⟩ : ∃ r, (opened below).build = .ok r ∧
      ∃ pulls : List (Option Token), r.play calls = pulls.map .ok :=
    ⟨_, rfl, [_, _, _, _, _], rfl⟩
  have hok : ∀ (j : Nat) (e : TokenError), (r.play calls)[j]? ≠ some (.error e) := by
    intro j e
    rw [hpulls, List.getElem?_map]
    cases pulls[j]? <;> nofun
  obtain ⟨hplay, hopened⟩ := peek_transparent (opened below) hr
  obtain ⟨r', hr', ⟨token, htoken, hstart, -⟩ | ⟨-, hfirst, hrest⟩⟩ := hopened below rfl
  · cases (Except.ok.inj hr').symm
    cases (Option.some.inj (Except.ok.inj htoken)).symm
    cases hstart
  · exact ⟨r, r', hr, hr', hplay calls 3 (by decide) fun j _ e => hok j e,
      hplay calls 4 (by decide) fun j _ e => hok j e, hfirst, hrest⟩

end Stack

end PersistenceMapping
