/-
Cutting markup into pieces.

`Piece.cut` takes one piece off the front of a document: character data up to the next
angle bracket, or one construct up to the delimiter that closes it.  It does not look
inside the piece.  A construct that the document ends in the middle of is `unfinished`; one
that is closed but does not begin as its kind has to is `refused`.

What is left after a piece is shorter than what it was cut from (`length_lt_of_cut`).
-/
import PersistenceMapping.Markup.Fault
import PersistenceMapping.Text.Space

namespace PersistenceMapping

namespace Markup

/-- One piece of a document, without its delimiters. -/
inductive Piece where
  | text (content : RawText)
  | cdata (content : RawText)
  | comment (content : RawText)
  /-- What follows the keyword of a document type declaration. -/
  | doctype (content : RawText)
  | instruction (content : RawText)
  | startTag (content : RawText)
  /-- The content of an empty element's tag, without its slash. -/
  | emptyTag (content : RawText)
  | endTag (content : RawText)
  deriving DecidableEq, Repr

/-- What a document begins with. -/
inductive Cut where
  | piece (piece : Piece) (rest : RawText)
  | unfinished (construct : Construct)
  | refused (construct : Construct)
  deriving DecidableEq, Repr

/-! ### Closing delimiters -/

/-- Splits a tag's text at the first closing bracket that stands outside quotes. -/
def splitAtClose (t : RawText) : Option (RawText × RawText) :=
  go none [] t
where
  go (quote : Option Char) (seen : RawText) : RawText → Option (RawText × RawText)
    | [] => none
    | s :: t =>
      match quote with
      | some q => go (if s = .char q then none else some q) (s :: seen) t
      | none =>
        if s = .char '>' then some (seen.reverse, t)
        else if s = .char '\'' then go (some '\'') (s :: seen) t
        else if s = .char '"' then go (some '"') (s :: seen) t
        else go none (s :: seen) t

/-- Splits a text at the first closing bracket that no opening bracket in it balances. -/
def splitAtBalance (t : RawText) : Option (RawText × RawText) :=
  go 0 [] t
where
  go (depth : Nat) (seen : RawText) : RawText → Option (RawText × RawText)
    | [] => none
    | s :: t =>
      if s = .char '<' then go (depth + 1) (s :: seen) t
      else if s = .char '>' then
        match depth with
        | 0 => some (seen.reverse, t)
        | depth + 1 => go depth (s :: seen) t
      else go depth (s :: seen) t

theorem length_lt_of_splitAtClose_go {quote : Option Char} {seen t before after : RawText}
    (h : splitAtClose.go quote seen t = some (before, after)) : after.length < t.length := by
  induction t generalizing quote seen with
  | nil => simp [splitAtClose.go] at h
  | cons s t ih =>
    simp only [splitAtClose.go] at h
    simp only [List.length_cons]
    split at h
    · have := ih h; omega
    · split at h
      · cases h; omega
      · split at h
        · have := ih h; omega
        · split at h <;> · have := ih h; omega

theorem length_lt_of_splitAtBalance_go {depth : Nat} {seen t before after : RawText}
    (h : splitAtBalance.go depth seen t = some (before, after)) : after.length < t.length := by
  induction t generalizing depth seen with
  | nil => simp [splitAtBalance.go] at h
  | cons s t ih =>
    simp only [splitAtBalance.go] at h
    simp only [List.length_cons]
    split at h
    · have := ih h; omega
    · split at h
      · split at h
        · cases h; omega
        · have := ih h; omega
      · have := ih h; omega

/-! ### Constructs -/

/-- What follows a word at the head of a text, whatever the case of the text's letters.  The
word is given in lower case. -/
def afterIgnoringCase? : (word : List Char) → RawText → Option RawText
  | [], t => some t
  | c :: word, .char d :: t => if c = d.toLower then afterIgnoringCase? word t else none
  | _ :: _, _ => none

/-- The tag of an element, given what stands between its brackets. -/
def Piece.tag (content : RawText) : Piece :=
  if content.getLast? = some (.char '/') then .emptyTag content.dropLast else .startTag content

/-- A construct up to its delimiter: `accept` gives the piece, if the construct begins as it
has to. -/
def Cut.closed (construct : Construct) (accept : RawText → Option Piece) :
    Option (RawText × RawText) → Cut
  | none => .unfinished construct
  | some (content, rest) =>
    match accept content with
    | some p => .piece p rest
    | none => .refused construct

/-- Cuts what follows an opening bracket and an exclamation mark.  A comment's closing
delimiter is looked for behind the two characters that have to be hyphens. -/
def cutDeclaration (t : RawText) : Cut :=
  match t with
  | .char '[' :: _ =>
    .closed .cdata (fun content => (RawText.after? "[CDATA[".toList content).map .cdata)
      (RawText.splitAtFirst "]]>".toList t)
  | .char '-' :: second :: body =>
    .closed .comment (fun content => if second = .char '-' then some (.comment content) else none)
      (RawText.splitAtFirst "-->".toList body)
  | [.char '-'] => .unfinished .comment
  | .char letter :: _ =>
    if letter == 'D' || letter == 'd' then
      .closed .doctype (fun content => (afterIgnoringCase? "doctype".toList content).map .doctype)
        (splitAtBalance t)
    else .refused .unknown
  | .stray _ :: _ => .refused .unknown
  | [] => .unfinished .unknown

/-- Cuts what follows an opening bracket. -/
def cutMarkup (t : RawText) : Cut :=
  match t with
  | .char '!' :: rest => cutDeclaration rest
  | .char '?' :: rest =>
    match rest with
    | .char '>' :: _ => .refused .instruction
    | _ =>
      .closed .instruction (fun content => some (.instruction content))
        (RawText.splitAtFirst "?>".toList rest)
  | .char '/' :: rest => .closed .tag (fun content => some (.endTag content)) (splitAtClose rest)
  | _ => .closed .tag (fun content => some (.tag content)) (splitAtClose t)

/-- Cuts the first piece off a document that is not empty. -/
def cut (t : RawText) : Cut :=
  match t with
  | .char '<' :: rest => cutMarkup rest
  | _ => .piece (.text (t.takeWhile (· ≠ .char '<'))) (t.dropWhile (· ≠ .char '<'))

/-! ### Progress -/

theorem length_le_of_after? {word : List Char} {t rest : RawText}
    (h : RawText.after? word t = some rest) : rest.length ≤ t.length := by
  induction word generalizing t with
  | nil =>
    simp only [RawText.after?, Option.some.injEq] at h
    exact Nat.le_of_eq (congrArg List.length h.symm)
  | cons c word ih =>
    match t, h with
    | [], h => simp [RawText.after?] at h
    | .stray _ :: t, h => simp [RawText.after?] at h
    | .char d :: t, h =>
      simp only [RawText.after?] at h
      split at h
      · have := ih h
        simp only [List.length_cons]
        omega
      · cases h

theorem length_lt_of_after?_cons {c : Char} {word : List Char} {t rest : RawText}
    (h : RawText.after? (c :: word) t = some rest) : rest.length < t.length := by
  match t, h with
  | [], h => simp [RawText.after?] at h
  | .stray _ :: t, h => simp [RawText.after?] at h
  | .char d :: t, h =>
    simp only [RawText.after?] at h
    split at h
    · have := length_le_of_after? h
      simp only [List.length_cons]
      omega
    · cases h

theorem length_lt_of_splitAtFirst {c : Char} {word : List Char} {t before after : RawText}
    (h : RawText.splitAtFirst (c :: word) t = some (before, after)) :
    after.length < t.length := by
  have go : ∀ seen, RawText.splitAtFirst.go (c :: word) seen t = some (before, after) →
      after.length < t.length := by
    clear h
    induction t with
    | nil => intro seen h; simp [RawText.splitAtFirst.go] at h
    | cons s t ih =>
      intro seen h
      simp only [RawText.splitAtFirst.go] at h
      split at h
      · rename_i rest heq
        cases h
        exact length_lt_of_after?_cons heq
      · have := ih _ h
        simp only [List.length_cons]
        omega
  exact go _ h

theorem length_lt_of_closed {construct : Construct} {accept : RawText → Option Piece}
    {split : Option (RawText × RawText)} {piece : Piece} {rest : RawText} {n : Nat}
    (hs : ∀ before after, split = some (before, after) → after.length < n)
    (h : Cut.closed construct accept split = .piece piece rest) : rest.length < n := by
  match split, hs, h with
  | none, _, h => simp [Cut.closed] at h
  | some (content, after), hs, h =>
    simp only [Cut.closed] at h
    split at h
    · cases h; exact hs _ _ rfl
    · cases h

theorem length_lt_of_cutDeclaration {t rest : RawText} {piece : Piece}
    (h : cutDeclaration t = .piece piece rest) : rest.length < t.length := by
  unfold cutDeclaration at h
  split at h
  · exact length_lt_of_closed (fun _ _ hs => length_lt_of_splitAtFirst hs) h
  · refine Nat.lt_of_lt_of_le
      (length_lt_of_closed (fun _ _ hs => length_lt_of_splitAtFirst hs) h) ?_
    simp only [List.length_cons]
    omega
  · cases h
  · split at h
    · exact length_lt_of_closed (fun _ _ hs => length_lt_of_splitAtBalance_go hs) h
    · cases h
  · cases h
  · cases h

theorem length_lt_of_cutMarkup {t rest : RawText} {piece : Piece}
    (h : cutMarkup t = .piece piece rest) : rest.length < t.length := by
  unfold cutMarkup at h
  split at h
  · exact Nat.lt_succ_of_lt (length_lt_of_cutDeclaration h)
  · split at h
    · cases h
    · exact Nat.lt_succ_of_lt
        (length_lt_of_closed (fun _ _ hs => length_lt_of_splitAtFirst hs) h)
  · exact Nat.lt_succ_of_lt
      (length_lt_of_closed (fun _ _ hs => length_lt_of_splitAtClose_go hs) h)
  · exact length_lt_of_closed (fun _ _ hs => length_lt_of_splitAtClose_go hs) h

/-- Cutting a piece off makes a document shorter. -/
theorem length_lt_of_cut {t rest : RawText} {piece : Piece} (ht : t ≠ [])
    (h : cut t = .piece piece rest) : rest.length < t.length := by
  unfold cut at h
  split at h
  · exact Nat.lt_succ_of_lt (length_lt_of_cutMarkup h)
  · rename_i hne
    cases h
    match t, ht with
    | s :: t, _ =>
      have hs : s ≠ .char '<' := fun hs => hne t (by rw [hs])
      rw [List.dropWhile_cons_of_pos (by simpa using hs)]
      exact Nat.lt_succ_of_le (List.dropWhile_suffix _).length_le

end Markup

end PersistenceMapping
