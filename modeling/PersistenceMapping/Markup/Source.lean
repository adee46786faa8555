/-
Reading a byte document token by token.

A source reads one piece of the document at a time, when it is asked for a token that the piece
before does not give.  What it gives over time is what `Reader.readAll` gives at once.
-/
import PersistenceMapping.Markup.Reader

namespace PersistenceMapping

namespace Markup

/-- Every piece gives a token or a failure, and at most two. -/
theorem Reader.length_read (r : Reader) (piece : Piece) :
    (r.read piece).1.length = 1 ∨ (r.read piece).1.length = 2 := by
  cases piece with
  | startTag content =>
    refine Or.inl ?_
    simp only [read]
    split <;> rfl
  | emptyTag content =>
    simp only [read]
    split
    · exact Or.inl rfl
    · split
      · exact Or.inr rfl
      · exact Or.inl rfl
  | endTag content =>
    refine Or.inl ?_
    simp only [read]
    split
    · rfl
    · split <;> rfl
  | _ => exact Or.inl rfl

/-- A byte document that is being read. -/
structure Source where
  /-- What the pieces before have left behind. -/
  reader : Reader
  /-- What has not been cut yet. -/
  rest : RawText
  /-- Why the source of the bytes gives no more of them where `rest` ends, if it fails there. -/
  failure : Option String
  /-- What the last piece gives and is still to come. -/
  pending : List Outcome := []
  /-- Whether there has been any byte.  A source that fails before the first one is asked again
  each time. -/
  hasBegun : Bool
  /-- Whether the end of the document has been reported. -/
  isFinished : Bool := false
  deriving Repr

namespace Source

/-- A document of these bytes, after which their source may fail. -/
def ofBytes (bytes : List UInt8) (failure : Option String := none) : Source :=
  { reader := .initial
    rest := withoutByteOrderMark (.ofBytes bytes)
    failure
    hasBegun := !bytes.isEmpty }

/-- The failure of the bytes' source, which is the last of the document but for its end; if there
is no such failure, something else. -/
def broken (s : Source) (otherwise : Pull × Source) : Pull × Source :=
  match s.failure with
  | some reason => (.error (.unreadable reason), { s with rest := [], failure := none })
  | none => otherwise

/-- Reads one piece, and gives the first of what it gives. -/
def read (s : Source) (piece : Piece) (rest : RawText) : Pull × Source :=
  match s.reader.read piece with
  | (outcome :: pending, reader) => (outcome.map some, { s with reader, rest, pending })
  | ([], reader) => (.ok none, { s with reader, rest })

/-- Takes the next token. -/
def next (s : Source) : Pull × Source :=
  match s.pending with
  | outcome :: pending => (outcome.map some, { s with pending })
  | [] =>
    if s.isFinished then (.ok none, s)
    else
      match s.hasBegun, s.failure with
      | false, some reason => (.error (.unreadable reason), s)
      | _, _ =>
        if s.rest = [] then s.broken (.ok (some .endDocument), { s with isFinished := true })
        else
          match cut s.rest with
          | .refused construct =>
            (failed (.unclosed construct), { s with rest := [], failure := none })
          | .unfinished construct => s.broken (failed (.unclosed construct), { s with rest := [] })
          | .piece piece rest =>
            match piece with
            | .text _ => if rest.isEmpty then s.broken (s.read piece rest) else s.read piece rest
            | _ => s.read piece rest

/-- A bound for how many tokens are still to come. -/
def size (s : Source) : Nat :=
  s.pending.length + 2 * s.rest.length + (if s.isFinished then 0 else 1)

theorem size_read_lt (s : Source) (piece : Piece) {rest : RawText}
    (hpending : s.pending = []) (hrest : rest.length < s.rest.length) :
    (s.read piece rest).2.size < s.size := by
  have hlength := s.reader.length_read piece
  unfold read
  split
  · rename_i outcome pending reader heq
    rw [heq] at hlength
    simp only [size, hpending, List.length_cons, List.length_nil] at hlength ⊢
    omega
  · simp only [size, hpending, List.length_nil]
    omega

theorem size_broken_lt (s : Source) {otherwise : Pull × Source} {token : Token}
    (h : (s.broken otherwise).1 = .ok (some token))
    (hlt : otherwise.1 = .ok (some token) → otherwise.2.size < s.size) :
    (s.broken otherwise).2.size < s.size := by
  unfold broken at h ⊢
  split at h
  · cases h
  · exact hlt h

theorem size_next_lt (s : Source) {token : Token} (h : s.next.1 = .ok (some token)) :
    s.next.2.size < s.size := by
  revert h
  unfold next
  split
  · rename_i outcome pending hpending
    intro _
    simp only [size, hpending, List.length_cons]
    omega
  · rename_i hpending
    split
    · nofun
    · rename_i hfinished
      split
      · nofun
      · split
        · intro h
          refine s.size_broken_lt h fun _ => ?_
          simp [size, hfinished]
        · rename_i hrest
          split
          · nofun
          · intro h
            exact s.size_broken_lt h nofun
          · rename_i piece rest hcut
            have hread := s.size_read_lt piece hpending (length_lt_of_cut hrest hcut)
            split
            · split
              · intro h
                exact s.size_broken_lt h fun _ => hread
              · exact fun _ => hread
            · exact fun _ => hread

instance : TokenSource Source where
  next := next
  size := size
  size_next_lt := size_next_lt

end Source

end Markup

end PersistenceMapping
