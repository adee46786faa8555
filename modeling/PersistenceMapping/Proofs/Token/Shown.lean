/-
What a reader gives, as a stream.

`TokenSource.Gives view` says that `view` tells for each state of a source what is still to come: the
source and the stream give the same, and go on with the same.  `TokenReader.Shows view` says so of
looking at tokens as well.  A reader with a token in hand shows that token and then what its source
gives (`Gives.buffered`), so layers can be put on each other as often as one likes.

Of a stream it is plain that looking at its tokens changes nothing.  The same follows for all that
show one (`Shows.play_eq_pullAt`).  A stream of tokens can be told from what its pulls give
(`TokenStream.eq_ofTokens`).
-/
import PersistenceMapping.Stack

namespace PersistenceMapping

universe u

/-! ### Streams -/

namespace TokenStream

/-- A stream behind a token, if there is one. -/
def behind (token : Option Token) (s : TokenStream) : TokenStream :=
  { s with items := token.toList.map .ok ++ s.items }

/-- Tokens come before what comes of the items behind them. -/
theorem run_go_append (s : TokenStream) (tokens : List Token) (items : List Outcome) :
    run.go s (tokens.map .ok ++ items) =
      (tokens ++ (run.go s items).1, (run.go s items).2) := by
  induction tokens with
  | nil => rfl
  | cons token tokens ih =>
      rw [List.map_cons, List.cons_append, run.go, ih]
      rfl

/-- A pull gives the first item, or what there is for every pull when there are none. -/
theorem next_cases {s s' : TokenStream} {pull : Pull} (h : s.next = (pull, s')) :
    (∃ outcome : Outcome, pull = outcome.map some ∧ s = { s' with items := outcome :: s'.items }) ∨
      s.items = [] ∧ pull = s.exhausted ∧ s' = s := by
  obtain ⟨items, failure⟩ := s
  match items with
  | [] =>
    obtain ⟨hpull, hs⟩ := Prod.mk.inj h
    exact Or.inr ⟨rfl, hpull.symm, hs.symm⟩
  | .ok token :: rest =>
    obtain ⟨hpull, hs⟩ := Prod.mk.inj h
    exact Or.inl ⟨.ok token, hpull.symm, by rw [← hs]⟩
  | .error e :: rest =>
    obtain ⟨hpull, hs⟩ := Prod.mk.inj h
    exact Or.inl ⟨.error e, hpull.symm, by rw [← hs]⟩

theorem next_of_nil {s : TokenStream} (h : s.items = []) : s.next = (s.exhausted, s) := by
  rw [next, h]

/-- Looking at a token gives what pulling it gives. -/
theorem fst_peek (s : TokenStream) : s.peek.1 = s.next.1 := by
  obtain ⟨items, failure⟩ := s
  match items with
  | [] => rfl
  | .ok _ :: _ => rfl
  | .error _ :: _ => rfl

/-- What is left when a token has been taken. -/
theorem eq_cons_of_next {s s' : TokenStream} {token : Token} (h : s.next = (.ok (some token), s')) :
    s = { s' with items := .ok token :: s'.items } := by
  obtain ⟨outcome, hpull, hs⟩ | ⟨-, hpull, -⟩ := next_cases h
  · cases outcome with
    | error e => cases hpull
    | ok token' =>
        cases hpull
        exact hs
  · unfold exhausted at hpull
    split at hpull <;> cases hpull

end TokenStream

/-! ### Sources and readers of a stream -/

/-- Whether `view` tells what a source gives: the same as the stream, from then on as well. -/
def TokenSource.Gives {σ : Type u} [TokenSource σ] (view : σ → TokenStream) : Prop :=
  ∀ r : σ, (view r).next = ((next r).1, view (next r).2)

/-- Whether `view` tells what a reader gives and shows. -/
structure TokenReader.Shows {σ : Type u} [TokenReader σ] (view : σ → TokenStream) : Prop where
  gives : TokenSource.Gives view
  peek_eq : ∀ r : σ, (view r).peek = ((peek r).1, view (peek r).2)

open TokenSource (Gives)
open TokenReader (Shows)

theorem TokenStream.shows_id : Shows (id : TokenStream → TokenStream) where
  gives _ := rfl
  peek_eq _ := rfl

section Buffered

variable {σ : Type u} [TokenSource σ] {view : σ → TokenStream}

/-- What is still to come when a token is in hand. -/
def Buffered.shown (view : σ → TokenStream) (b : Buffered σ) : TokenStream :=
  (view b.source).behind b.peeked

theorem TokenSource.Gives.buffered (h : Gives view) : Shows (Buffered.shown view) where
  gives := by
    rintro ⟨source, _ | peeked⟩
    · exact h source
    · rfl
  peek_eq := by
    rintro ⟨source, _ | peeked⟩
    · show (view source).peek = ((Buffered.peek _).1, Buffered.shown view (Buffered.peek _).2)
      unfold Buffered.peek
      have hnext := h source
      rcases hpull : TokenSource.next source with ⟨e | found, source'⟩
      · rw [hpull] at hnext
        obtain ⟨outcome, hout, hview⟩ | ⟨hnil, hout, hview⟩ := TokenStream.next_cases hnext
        · cases outcome with
          | ok token => cases hout
          | error e =>
              cases hout
              rw [hview]
              rfl
        · simp only [TokenStream.peek, hnil, ← hout, Buffered.shown, hview]
          rfl
      · rw [hpull] at hnext
        obtain ⟨outcome, hout, hview⟩ | ⟨hnil, hout, hview⟩ := TokenStream.next_cases hnext
        · cases outcome with
          | error e => cases hout
          | ok token =>
              cases hout
              rw [hview]
              rfl
        · have hfound : found = none := by
            unfold TokenStream.exhausted at hout
            split at hout
            · exact Except.ok.inj hout
            · cases hout
          simp only [TokenStream.peek, hnil, ← hout, Buffered.shown, hview, hfound]
          rfl
    · rfl

end Buffered

section Reader

variable {σ : Type u} [TokenReader σ] {view : σ → TokenStream}

/-- What is still to come behind a document start. -/
def Opened.shown (view : σ → TokenStream) (r : Opened σ) : TokenStream :=
  (view r.source).behind r.supplied

theorem TokenReader.Shows.opened (h : Shows view) : Shows (Opened.shown view) where
  gives := by
    rintro ⟨_ | supplied, source, isNative⟩
    · exact h.gives source
    · rfl
  peek_eq := by
    rintro ⟨_ | supplied, source, isNative⟩
    · exact h.peek_eq source
    · rfl

/-- To look at a token gives what pulling it gives. -/
theorem TokenReader.Shows.fst_peek (h : Shows view) (r : σ) :
    (TokenReader.peek r).1 = (TokenSource.next r).1 := by
  have hfst := (view r).fst_peek
  rwa [h.peek_eq, h.gives] at hfst

/-- To look at a token changes nothing of what is still to come, unless it fails. -/
theorem TokenReader.Shows.view_peek (h : Shows view) {r : σ} {found : Option Token}
    (hfound : (TokenReader.peek r).1 = .ok found) : view (TokenReader.peek r).2 = view r :=
  (TokenStream.next_eq_of_peek (by rw [h.peek_eq, hfound])).1

end Reader

/-! ### Scripts -/

section Scripts

variable {σ : Type u}

/-- What the pull with this number gives, if nothing is done but pulling. -/
def TokenSource.pullAt [TokenSource σ] (r : σ) : Nat → Pull
  | 0 => (next r).1
  | k + 1 => pullAt (next r).2 k

/-- What a source gives can be read off its stream. -/
theorem TokenSource.Gives.pullAt_eq [TokenSource σ] {view : σ → TokenStream} (h : Gives view)
    (r : σ) (k : Nat) : TokenSource.pullAt r k = TokenSource.pullAt (view r) k := by
  induction k generalizing r with
  | zero => exact (congrArg Prod.fst (h r)).symm
  | succ k ih =>
      show TokenSource.pullAt _ k = TokenSource.pullAt (view r).next.2 k
      rw [h r]
      exact ih _

variable [TokenReader σ] {view : σ → TokenStream}

/-- What a call gives depends only on how many pulls came before it, as long as nothing has
failed. -/
theorem TokenReader.Shows.play_eq_pullAt (h : Shows view) {r : σ} {calls : List Call} {i : Nat}
    (hi : i < calls.length)
    (hok : ∀ j < i, ∀ e, (TokenReader.play r calls).1[j]? ≠ some (.error e)) :
    (TokenReader.play r calls).1[i]? =
      some (TokenSource.pullAt r ((calls.take i).count .next)) := by
  induction calls generalizing r i with
  | nil => cases hi
  | cons call calls ih =>
      have hplay : (TokenReader.play r (call :: calls)).1 =
          (TokenReader.answer r call).1 ::
            (TokenReader.play (TokenReader.answer r call).2 calls).1 := rfl
      rw [hplay] at hok ⊢
      cases i with
      | zero =>
          cases call with
          | next => rfl
          | peek => exact congrArg some (h.fst_peek r)
      | succ i =>
          rw [List.getElem?_cons_succ, ih (Nat.lt_of_succ_lt_succ hi) fun j hj e => by
            simpa using hok (j + 1) (Nat.succ_lt_succ hj) e]
          cases call with
          | next => simp [TokenSource.pullAt, TokenReader.answer]
          | peek =>
              -- The reader behind the look is another one, but it is still to give the same.
              obtain ⟨found, hfound⟩ : ∃ found, (TokenReader.peek r).1 = .ok found := by
                cases hpull : (TokenReader.peek r).1 with
                | ok found => exact ⟨found, rfl⟩
                | error e => exact absurd (congrArg some hpull) (hok 0 (Nat.succ_pos i) e)
              rw [List.take_succ_cons, List.count_cons_of_ne (by decide), h.gives.pullAt_eq,
                h.gives.pullAt_eq r]
              exact congrArg (some <| TokenSource.pullAt · _) (h.view_peek hfound)

end Scripts

/-! ### Streams told from their pulls -/

/-- What comes of a pull is the item of its number, or what every pull gives behind the last. -/
theorem TokenStream.pullAt_eq (s : TokenStream) (k : Nat) :
    TokenSource.pullAt s k = (s.items[k]?.map (·.map some)).getD s.exhausted := by
  obtain ⟨items, failure⟩ := s
  induction k generalizing items with
  | zero =>
      cases items with
      | nil => rfl
      | cons item items => cases item <;> rfl
  | succ k ih =>
      show TokenSource.pullAt (TokenStream.next _).2 k = _
      cases items with
      | nil => exact ih []
      | cons item items => cases item <;> exact ih items

/-- The pulls tell all that there is of a stream. -/
theorem TokenStream.eq_ofTokens {s : TokenStream} {tokens : List Token}
    (h : ∀ k, TokenSource.pullAt s k = .ok tokens[k]?) : s = .ofTokens tokens := by
  have hpull := fun k => (s.pullAt_eq k).symm.trans (h k)
  -- Behind the last item every pull gives the same, so there is no failure.
  have hfailure : s.failure = none := by
    have hend := hpull s.items.length
    rw [List.getElem?_eq_none (Nat.le_refl _), Option.map_none, Option.getD_none, exhausted] at hend
    split at hend
    · assumption
    · cases hend
  have hitems : s.items = tokens.map .ok := by
    refine List.ext_getElem? fun k => ?_
    have hk := hpull k
    rw [List.getElem?_map]
    cases hitem : s.items[k]? with
    | none =>
        rw [hitem, Option.map_none, Option.getD_none, exhausted, hfailure] at hk
        rw [← Except.ok.inj hk]
        rfl
    | some item =>
        rw [hitem, Option.map_some, Option.getD_some] at hk
        cases item with
        | error e => cases hk
        | ok token =>
            rw [← Except.ok.inj hk]
            rfl
  obtain ⟨items, failure⟩ := s
  subst hitems hfailure
  rfl

end PersistenceMapping
