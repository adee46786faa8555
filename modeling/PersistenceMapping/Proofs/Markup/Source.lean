/-
What is read of a byte document token by token.

A document that is being read remembers what its last piece gives and has not been asked for, and
what it has not been cut from.  Together they are the outcomes that are still to come, so a document
gives one after the other what `Reader.readAll` gives at once (`Source.gives_shown`).
-/
import PersistenceMapping.Markup.Source
import PersistenceMapping.Proofs.Token.Shown

namespace PersistenceMapping

open TokenSource (Gives)

namespace Markup

/-! ### One piece -/

namespace Reader

/-- What comes of markup when the source of the bytes may fail inside it. -/
def brokenOff (failure : Option String) (otherwise : List Outcome) : List Outcome :=
  match failure with
  | some reason => [.error (.unreadable reason), .ok .endDocument]
  | none => otherwise

variable {failure : Option String} {r : Reader} {t rest : RawText} {construct : Construct}

theorem readAll_of_nil (failure : Option String) (r : Reader) :
    readAll failure r [] = brokenOff failure [.ok .endDocument] := by
  rw [readAll]
  rfl

theorem readAll_of_refused (ht : t ≠ []) (h : cut t = .refused construct) :
    readAll failure r t = [failed (.unclosed construct), .ok .endDocument] := by
  rw [readAll, dif_neg ht]
  split
  · rename_i heq
    cases h.symm.trans heq
    rfl
  · rename_i heq
    cases h.symm.trans heq
  · rename_i heq
    cases h.symm.trans heq

theorem readAll_of_unfinished (ht : t ≠ []) (h : cut t = .unfinished construct) :
    readAll failure r t = brokenOff failure [failed (.unclosed construct), .ok .endDocument] := by
  rw [readAll, dif_neg ht]
  split
  · rename_i heq
    cases h.symm.trans heq
  · rename_i heq
    cases h.symm.trans heq
    rfl
  · rename_i heq
    cases h.symm.trans heq

/-- Text may be cut short where the bytes end; what has a delimiter of its own is not. -/
theorem readAll_of_piece {piece : Piece} (ht : t ≠ []) (h : cut t = .piece piece rest) :
    readAll failure r t =
      match piece with
      | .text _ =>
        if rest.isEmpty then
          brokenOff failure ((r.read piece).1 ++ readAll failure (r.read piece).2 rest)
        else (r.read piece).1 ++ readAll failure (r.read piece).2 rest
      | _ => (r.read piece).1 ++ readAll failure (r.read piece).2 rest := by
  rw [readAll, dif_neg ht]
  split
  · rename_i heq
    cases h.symm.trans heq
  · rename_i heq
    cases h.symm.trans heq
  · rename_i heq
    cases h.symm.trans heq
    cases piece <;> rfl

end Reader

/-! ### What is still to come -/

namespace Source

/-- What is still to be read of a document. -/
def unread (s : Source) : TokenStream :=
  if s.isFinished then { items := [] }
  else
    match s.hasBegun, s.failure with
    | false, some reason => { items := [], failure := some (.unreadable reason) }
    | _, _ => { items := s.reader.readAll s.failure s.rest }

/-- What is still to come of a document. -/
def shown (s : Source) : TokenStream :=
  { s.unread with items := s.pending ++ s.unread.items }

/-- A document is read to its end, unless its source fails before it begins. -/
theorem unread_of_begun (s : Source) (hfinished : s.isFinished = false)
    (hbegun : s.hasBegun = false → s.failure = none) :
    s.unread = { items := s.reader.readAll s.failure s.rest } := by
  unfold unread
  rw [hfinished, if_neg Bool.false_ne_true]
  split
  · rename_i reason hno hfailure
    rw [hbegun hno] at hfailure
    cases hfailure
  · rfl

/-- A document that has been broken off just ends. -/
theorem shown_brokenOff (s : Source) (hpending : s.pending = []) (hfinished : s.isFinished = false)
    (hrest : s.rest = []) (hfailure : s.failure = none) : s.shown = .ofTokens [.endDocument] := by
  rw [shown, s.unread_of_begun hfinished fun _ => hfailure, hpending, hrest, hfailure,
    Reader.readAll_of_nil]
  rfl

variable {s : Source}

/-- Where the source fails, it fails once, and then the document just ends. -/
theorem next_brokenOff (hpending : s.pending = []) (hfinished : s.isFinished = false)
    {whole : List Outcome} {otherwise : Pull × Source}
    (h : s.failure = none →
      { items := whole : TokenStream }.next = (otherwise.1, otherwise.2.shown)) :
    { items := Reader.brokenOff s.failure whole : TokenStream }.next =
      ((s.broken otherwise).1, (s.broken otherwise).2.shown) := by
  unfold broken Reader.brokenOff
  cases hfailure : s.failure with
  | none => exact h hfailure
  | some reason =>
      have hend := shown_brokenOff { s with rest := [], failure := none } hpending hfinished rfl rfl
      exact Prod.ext rfl hend.symm

/-- What a piece gives comes first, and then what is behind the piece. -/
theorem next_read (hfinished : s.isFinished = false)
    (hbegun : s.hasBegun = false → s.failure = none) (piece : Piece) (rest : RawText) :
    { items := (s.reader.read piece).1 ++
        (s.reader.read piece).2.readAll s.failure rest : TokenStream }.next =
      ((s.read piece rest).1, (s.read piece rest).2.shown) := by
  have hlength := s.reader.length_read piece
  rcases hread : s.reader.read piece with ⟨_ | ⟨outcome, pending⟩, reader⟩
  · rw [hread] at hlength
    simp at hlength
  · have hs : s.read piece rest = (outcome.map some, { s with reader, rest, pending }) := by
      rw [read, hread]
    have hunread := unread_of_begun { s with reader, rest, pending } hfinished hbegun
    rw [hs, shown, hunread]
    cases outcome <;> rfl

/-- A document gives one after the other what reading it to its end gives. -/
theorem gives_shown : Gives shown := by
  intro s
  show s.shown.next = (s.next.1, s.next.2.shown)
  unfold next
  split
  · rename_i outcome pending hpending
    rw [shown, hpending]
    cases outcome <;> rfl
  rename_i hpending
  split
  · rename_i hfinished
    rw [shown, unread, if_pos hfinished, hpending]
    rfl
  rename_i hfinished
  rw [Bool.not_eq_true] at hfinished
  split
  · rename_i reason hno hfailure
    simp only [shown, unread, hfinished, hpending, hno, hfailure]
    rfl
  rename_i hbegun
  have hbegun : s.hasBegun = false → s.failure = none := by
    intro hno
    cases hfailure : s.failure with
    | none => rfl
    | some reason => exact absurd hfailure (hbegun reason hno)
  have hshown : s.shown = { items := s.reader.readAll s.failure s.rest } := by
    rw [shown, s.unread_of_begun hfinished hbegun, hpending, List.nil_append]
  rw [hshown]
  by_cases hrest : s.rest = []
  · rw [if_pos hrest, hrest, Reader.readAll_of_nil]
    refine next_brokenOff hpending hfinished fun _ => ?_
    rw [shown, hpending]
    rfl
  rw [if_neg hrest]
  have hread := next_read hfinished hbegun
  cases hcut : cut s.rest with
  | refused construct =>
      have hend := shown_brokenOff { s with rest := [], failure := none } hpending hfinished rfl rfl
      rw [Reader.readAll_of_refused hrest hcut]
      exact Prod.ext rfl hend.symm
  | unfinished construct =>
      rw [Reader.readAll_of_unfinished hrest hcut]
      refine next_brokenOff hpending hfinished fun hfailure => ?_
      exact Prod.ext rfl (shown_brokenOff { s with rest := [] } hpending hfinished rfl hfailure).symm
  | piece piece rest =>
      rw [Reader.readAll_of_piece hrest hcut]
      cases piece with
      | text content =>
          show TokenStream.next { items := if rest.isEmpty then _ else _ } = _
          by_cases hlast : rest.isEmpty
          · simp only [if_pos hlast]
            exact next_brokenOff hpending hfinished fun _ => hread _ _
          · simp only [if_neg hlast]
            exact hread _ _
      | _ => exact hread _ _

/-- Of a document that has not been asked for anything, all is still to come. -/
theorem shown_ofBytes (bytes : List UInt8) (failure : Option String) :
    (ofBytes bytes failure).shown = .ofBytes bytes failure := by
  cases bytes <;> cases failure <;> rfl

end Source

end Markup

end PersistenceMapping
