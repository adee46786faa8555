/-
Token streams.

A stream is what a reader would see who pulls tokens from a source: the outcomes of its
pulls, and what every pull gives after the last of them.  Reading may go on after a
failure, so failures stand among the outcomes.

Looking at a token leaves it in place; a failure that is looked at is spent
(`TokenStream.peek`).
-/
import PersistenceMapping.Token.Reader

namespace PersistenceMapping

/-- One pull from a source. -/
abbrev Outcome := Except TokenError Token

/-- The outcomes of a source, first to last. -/
structure TokenStream where
  items : List Outcome
  /-- The failure of every pull after the last item; nothing when the stream just ends. -/
  failure : Option TokenError := none
  deriving Repr

namespace TokenStream

/-- A stream of tokens that then ends. -/
def ofTokens (tokens : List Token) : TokenStream :=
  { items := tokens.map .ok }

/-- What a pull gives once the items are used up. -/
def exhausted (s : TokenStream) : Except TokenError (Option Token) :=
  match s.failure with
  | none => .ok none
  | some e => .error e

/-- Takes the next token; none at the end of the stream. -/
def next (s : TokenStream) : Except TokenError (Option Token) × TokenStream :=
  match s.items with
  | [] => (s.exhausted, s)
  | .ok token :: rest => (.ok (some token), { s with items := rest })
  | .error e :: rest => (.error e, { s with items := rest })

/-- Looks at the next token. -/
def peek (s : TokenStream) : Except TokenError (Option Token) × TokenStream :=
  match s.items with
  | [] => (s.exhausted, s)
  | .ok token :: _ => (.ok (some token), s)
  | .error e :: rest => (.error e, { s with items := rest })

/-- How many outcomes are still to come. -/
def remaining (s : TokenStream) : Nat :=
  s.items.length

theorem remaining_next_lt (s : TokenStream) {token : Token} (h : s.next.1 = .ok (some token)) :
    s.next.2.remaining < s.remaining := by
  obtain ⟨items, failure⟩ := s
  match items with
  | [] => cases failure <;> cases h
  | .ok _ :: _ => exact Nat.lt_succ_self _
  | .error _ :: _ => cases h

/-- A stream is read by going through its items. -/
instance : TokenReader TokenStream where
  next := next
  peek := peek
  size := remaining
  size_next_lt := remaining_next_lt

/-- What is seen by looking at the next token, unless that fails, is what the next pull gives,
and looking at it has changed nothing. -/
theorem next_eq_of_peek {s s' : TokenStream} {found : Option Token}
    (h : s.peek = (.ok found, s')) : s' = s ∧ s.next.1 = .ok found := by
  obtain ⟨items, failure⟩ := s
  match items with
  | [] =>
    obtain ⟨hout, hs⟩ := Prod.mk.inj h
    exact ⟨hs.symm, hout⟩
  | .ok token :: rest =>
    obtain ⟨hout, hs⟩ := Prod.mk.inj h
    exact ⟨hs.symm, hout⟩
  | .error e :: rest => cases congrArg Prod.fst h

/-- The tokens before the first failure, and that failure if there is one. -/
def run (s : TokenStream) : List Token × Option TokenError :=
  go s.items
where
  go : List Outcome → List Token × Option TokenError
    | [] => ([], s.failure)
    | .ok token :: rest =>
      let (tokens, e) := go rest
      (token :: tokens, e)
    | .error e :: _ => ([], some e)

/-- All tokens of a stream that does not fail. -/
def readAll (s : TokenStream) : Except TokenError (List Token) :=
  match s.run with
  | (tokens, none) => .ok tokens
  | (_, some e) => .error e

/-- Ensures that a stream opens with a document start. -/
def opened (s : TokenStream) : Except TokenError (Opened TokenStream) :=
  TokenReader.opened s

end TokenStream

/-- An opened stream as one stream. -/
def Opened.stream (s : Opened TokenStream) : TokenStream :=
  { s.source with items := s.supplied.toList.map .ok ++ s.source.items }

end PersistenceMapping
