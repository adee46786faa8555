/-
Reading marks in two layouts.

A mark is always cut off as the same piece, so what a reader makes of marks does not depend on what
is written around them (`Reader.outcomes`).  Text leaves the reader as it is.  So when a document is
read in two layouts, the reader is in the same state at the same mark, and whatever it makes of the
mark, namespaces included, it makes of it in both.  What is said of two sequences of marks here
(`RelaidMarks`) is put together mark by mark.
-/
import PersistenceMapping.Proofs.Markup.Layout
import PersistenceMapping.Proofs.Markup.Streamed
import PersistenceMapping.Proofs.Text.Trimmed
import PersistenceMapping.Proofs.Token.Relaid

namespace PersistenceMapping

namespace Markup

namespace Reader

/-- The outcomes of reading marks one after the other, up to the document end. -/
def outcomes (r : Reader) : List Mark → List Outcome
  | [] => [.ok .endDocument]
  | m :: rest => (r.read m.piece).1 ++ outcomes (r.read m.piece).2 rest

/-- Marks that can be told apart are read piece by piece. -/
theorem readAll_written_eq {marks : List Mark} (hwritable : ∀ m ∈ marks, m.Writable)
    (hseparated : Separated marks) (r : Reader) :
    readAll none r (written marks) = r.outcomes marks := by
  induction marks generalizing r with
  | nil => exact readAll_nil r
  | cons m marks ih =>
      have hm := hwritable m (by simp)
      have hne : RawText.ofString m.write ++ written marks ≠ [] := by simp [write_ne_empty hm]
      show readAll none r (RawText.ofString m.write ++ written marks) = _
      rw [readAll_of_cut hne (cut_write hm (head?_written hseparated)), outcomes,
        ih (fun m hm => hwritable m (by simp [hm])) hseparated.of_cons]

/-- Text leaves the reader as it is. -/
theorem read_text (r : Reader) (content : String) :
    r.read (Mark.text content).piece = ([.ok (.text content)], r) := by
  rw [Mark.piece, Reader.read, decodeContent_escape]
  rfl

/-- A reader makes of a mark the tokens that it is written for, with the namespaces that are in
scope. -/
theorem read_piece {r : Reader} {opened after : List String} {m : Mark} (h : r.At opened)
    (hm : m.Writable) (hmoves : m.Moves opened after) :
    ∃ (tokens : List Token) (r' : Reader), r.read m.piece = (tokens.map .ok, r') ∧ r'.At after ∧
      tokens.map Token.withoutNamespace = m.tokens := by
  obtain ⟨piece, tokens, r', hcut, hread, hr', htokens⟩ :=
    reads_of_writable h hm hmoves (t := []) (by simp)
  rw [cut_write hm (by simp)] at hcut
  cases hcut
  exact ⟨tokens, r', hread, hr', htokens⟩

end Reader

/-- Marks in two layouts that any reader gets relaid outcomes of that has these elements open. -/
def RelaidMarks (carries : String → Bool) (opened : List String) (texts : List (String × String))
    (marks marks' : List Mark) : Prop :=
  ∀ r : Reader, r.At opened → Relaid carries texts (r.outcomes marks) (r.outcomes marks')

namespace RelaidMarks

variable {carries : String → Bool} {opened : List String} {texts : List (String × String)}
  {text text' content name : String} {attributes : List Attribute} {marks marks' : List Mark}

theorem nil : RelaidMarks carries opened texts [] [] :=
  fun _ _ => .aside rfl .nil

theorem blank (hblank : isBlankText content = true)
    (h : RelaidMarks carries opened ((text ++ content, text') :: texts) marks marks') :
    RelaidMarks carries opened ((text, text') :: texts) (.text content :: marks) marks' := by
  intro r hr
  rw [Reader.outcomes, Reader.read_text]
  exact .blank hblank (h r hr)

theorem blank' (hblank : isBlankText content = true)
    (h : RelaidMarks carries opened ((text, text' ++ content) :: texts) marks marks') :
    RelaidMarks carries opened ((text, text') :: texts) marks (.text content :: marks') := by
  intro r hr
  rw [Reader.outcomes, Reader.read_text]
  exact .blank' hblank (h r hr)

/-- A mark that stands in both layouts. -/
theorem cons {m : Mark} {after : List String} {texts' : List (String × String)} (hm : m.Writable)
    (hmoves : m.Moves opened after)
    (htokens : ∀ {tokens : List Token} {items items' : List Outcome},
      tokens.map Token.withoutNamespace = m.tokens → Relaid carries texts' items items' →
      Relaid carries texts (tokens.map .ok ++ items) (tokens.map .ok ++ items'))
    (h : RelaidMarks carries after texts' marks marks') :
    RelaidMarks carries opened texts (m :: marks) (m :: marks') := by
  intro r hr
  obtain ⟨tokens, r', hread, hr', hsame⟩ := Reader.read_piece hr hm hmoves
  rw [Reader.outcomes, Reader.outcomes, hread]
  exact htokens hsame (h r' hr')

/-- A token that has no namespace is what it is written for. -/
theorem eq_singleton {tokens : List Token} {token : Token}
    (h : tokens.map Token.withoutNamespace = [token]) (htoken : token.isStartTag = false) :
    tokens = [token] := by
  obtain ⟨t, rfl, ht⟩ := List.map_eq_singleton_iff.mp h
  cases t with
  | startTag tag =>
      rw [← ht] at htoken
      cases htoken
  | _ => rw [← ht]; rfl

/-- No line is broken before character data. -/
theorem characters {m : Mark} {token : Token} {indent depth : Nat} {inline : Bool}
    (hm : m.Writable) (hcharacters : m.isCharacters = true) (htokens : m.tokens = [token])
    (htoken : token.characters? = some content)
    (h : RelaidMarks carries opened ((text ++ content, text' ++ content) :: texts) marks
      (breakLines indent depth true marks')) :
    RelaidMarks carries opened ((text, text') :: texts) (m :: marks)
      (breakLines indent depth inline (m :: marks')) := by
  have hbroken : breakLines indent depth inline (m :: marks') =
      m :: breakLines indent depth true marks' := by
    cases m with
    | text content => simp [breakLines, Mark.isCharacters, Mark.opens, Mark.closes]
    | cdata content => simp [breakLines, Mark.isCharacters, Mark.opens, Mark.closes]
    | _ => cases hcharacters
  have hmoves : m.Moves opened opened := by
    cases m <;> first | rfl | cases hcharacters
  rw [hbroken]
  refine cons hm hmoves (fun hsame hitems => ?_) h
  rw [htokens] at hsame
  obtain rfl := eq_singleton hsame (by cases token <;> first | rfl | cases htoken)
  exact .characters htoken hitems

theorem aside {m : Mark} {token : Token} (hm : m.Writable) (hmoves : m.Moves opened opened)
    (htokens : m.tokens = [token]) (htoken : token.isAside = true)
    (h : RelaidMarks carries opened texts marks marks') :
    RelaidMarks carries opened texts (m :: marks) (m :: marks') := by
  refine cons hm hmoves (fun hsame hitems => ?_) h
  rw [htokens] at hsame
  obtain rfl := eq_singleton hsame (by cases token <;> first | rfl | cases htoken)
  exact .aside htoken hitems

theorem opening (hm : (Mark.opening name attributes).Writable)
    (h : RelaidMarks carries (name :: opened) (("", "") :: texts) marks marks') :
    RelaidMarks carries opened texts (.opening name attributes :: marks)
      (.opening name attributes :: marks') := by
  refine cons hm rfl (fun hsame hitems => ?_) h
  obtain ⟨t, rfl, ht⟩ := List.map_eq_singleton_iff.mp hsame
  cases t <;> cases ht
  exact .start hitems

theorem closing (hm : (Mark.closing name).Writable)
    (hsame : carries name = true → trim text = trim text')
    (h : RelaidMarks carries opened texts marks marks') :
    RelaidMarks carries (name :: opened) ((text, text') :: texts) (.closing name :: marks)
      (.closing name :: marks') := by
  refine cons hm rfl (fun htokens hitems => ?_) h
  obtain rfl := eq_singleton htokens rfl
  exact .stop hsame hitems

theorem empty (hm : (Mark.empty name attributes).Writable)
    (h : RelaidMarks carries opened texts marks marks') :
    RelaidMarks carries opened texts (.empty name attributes :: marks)
      (.empty name attributes :: marks') := by
  refine cons hm rfl (fun htokens hitems => ?_) h
  obtain ⟨t, rest, rfl, ht, hrest⟩ := List.map_eq_cons_iff.mp htokens
  obtain rfl := eq_singleton hrest rfl
  cases t <;> cases ht
  exact .start (.stop (fun _ => rfl) hitems)

/-- A line is broken before a mark, or not, in the second layout only.  The mark stands at depth
`own`, and what comes after it at depth `next`. -/
theorem broken {m : Mark} {indent depth own next : Nat} {inline : Bool}
    (hown : (if m.closes then depth - 1 else depth) = own)
    (hnext : (if m.opens then depth + 1 else own) = next) (hm : m.isCharacters = false)
    (h : RelaidMarks carries opened
      ((text, text' ++ if inline then "" else lineBreak (indent * own)) :: texts) marks
      (m :: breakLines indent next false marks')) :
    RelaidMarks carries opened ((text, text') :: texts) marks
      (breakLines indent depth inline (m :: marks')) := by
  rw [breakLines, hown, hnext, hm]
  cases inline with
  | true => simpa using h
  | false => exact blank' (isBlankText_lineBreak _) h

/-- The line break before an end tag comes at the end of the text of the element. -/
theorem brokenClosing {indent depth : Nat} {inline : Bool} (hm : (Mark.closing name).Writable)
    (hsame : carries name = true → trim text = trim text')
    (h : RelaidMarks carries opened texts marks (breakLines indent depth false marks')) :
    RelaidMarks carries (name :: opened) ((text, text') :: texts) (.closing name :: marks)
      (breakLines indent (depth + 1) inline (.closing name :: marks')) := by
  have hbreak : isBlankText (if inline then "" else lineBreak (indent * depth)) = true := by
    split
    · rfl
    · exact isBlankText_lineBreak _
  have hown : (if (Mark.closing name).closes then depth + 1 - 1 else depth + 1) = depth := rfl
  refine broken hown rfl rfl (closing hm (fun hcarries => ?_) h)
  rw [trim_append_blank hbreak]
  exact hsame hcarries

end RelaidMarks

end Markup

end PersistenceMapping
