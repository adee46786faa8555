/-
Token readers.

A reader is asked for one token after the other.  Readers stand on each other: each remembers what
it has to of the tokens before, and asks the reader below it only for what it needs.

To show a token and not give it away, a reader keeps it in hand (`Buffered`).  A document start that
is put in front of a reader is kept in the same way (`Opened`).
-/
import PersistenceMapping.Token

namespace PersistenceMapping

universe u

/-- What comes of asking for a token; none at the end. -/
abbrev Pull := Except TokenError (Option Token)

/-- What tokens are taken from. -/
class TokenSource (σ : Type u) where
  /-- Takes the next token. -/
  next : σ → Pull × σ
  /-- A bound for how many tokens are still to come. -/
  size : σ → Nat
  size_next_lt (r : σ) {token : Token} : (next r).1 = .ok (some token) → size (next r).2 < size r

/-- What tokens are taken from and looked at. -/
class TokenReader (σ : Type u) extends TokenSource σ where
  /-- Looks at the next token. -/
  peek : σ → Pull × σ

/-! ### One token in hand -/

/-- A source, and the token of it that has been looked at. -/
structure Buffered (σ : Type u) where
  source : σ
  peeked : Option Token := none

namespace Buffered

variable {σ : Type u} [TokenSource σ]

/-- Takes the token in hand; the next one of the source if there is none. -/
def next (b : Buffered σ) : Pull × Buffered σ :=
  match b.peeked with
  | some token => (.ok (some token), { b with peeked := none })
  | none =>
    let (pull, source) := TokenSource.next b.source
    (pull, { b with source })

/-- Looks at the token in hand; the next one of the source, which is in hand then, if there is
none. -/
def peek (b : Buffered σ) : Pull × Buffered σ :=
  match b.peeked with
  | some token => (.ok (some token), b)
  | none =>
    match TokenSource.next b.source with
    | (.ok peeked, source) => (.ok peeked, { source, peeked })
    | (.error e, source) => (.error e, { b with source })

/-- A bound for how many tokens are still to come. -/
def size (b : Buffered σ) : Nat :=
  b.peeked.toList.length + TokenSource.size b.source

theorem size_next_lt (b : Buffered σ) {token : Token} (h : b.next.1 = .ok (some token)) :
    b.next.2.size < b.size := by
  obtain ⟨source, _ | peeked⟩ := b
  · have := TokenSource.size_next_lt source h
    simp only [next, size]
    omega
  · simp [next, size]

instance : TokenReader (Buffered σ) where
  next := next
  peek := peek
  size := size
  size_next_lt := size_next_lt

end Buffered

/-! ### Document starts -/

/-- A source behind a document start, either its own or one put in front of it. -/
structure Opened (σ : Type u) where
  /-- The document start that is still to come before the source itself. -/
  supplied : Option Token
  source : σ
  /-- Whether the source opens with a document start of its own. -/
  isNative : Bool
  deriving Repr

namespace Opened

variable {σ : Type u} [TokenReader σ]

def next (r : Opened σ) : Pull × Opened σ :=
  match r.supplied with
  | some token => (.ok (some token), { r with supplied := none })
  | none =>
    let (pull, source) := TokenSource.next r.source
    (pull, { r with source })

def peek (r : Opened σ) : Pull × Opened σ :=
  match r.supplied with
  | some token => (.ok (some token), r)
  | none =>
    let (pull, source) := TokenReader.peek r.source
    (pull, { r with source })

/-- A bound for how many tokens are still to come. -/
def size (r : Opened σ) : Nat :=
  r.supplied.toList.length + TokenSource.size r.source

theorem size_next_lt (r : Opened σ) {token : Token} (h : r.next.1 = .ok (some token)) :
    r.next.2.size < r.size := by
  obtain ⟨_ | supplied, source, isNative⟩ := r
  · have := TokenSource.size_next_lt source h
    simp only [next, size]
    omega
  · simp [next, size]

instance : TokenReader (Opened σ) where
  next := next
  peek := peek
  size := size
  size_next_lt := size_next_lt

end Opened

/-- Ensures that a reader opens with a document start.  It looks at one token only, and fails as
that look does. -/
def TokenReader.opened {σ : Type u} [TokenReader σ] (r : σ) : Except TokenError (Opened σ) :=
  match TokenReader.peek r with
  | (.error e, _) => .error e
  | (.ok (some token), source) =>
    if token.isStartDocument then .ok { supplied := none, source, isNative := true }
    else .ok { supplied := some .plainStart, source, isNative := false }
  | (.ok none, source) => .ok { supplied := some .plainStart, source, isNative := false }

end PersistenceMapping
