/-
Line breaks are marks of their own.

Writing marks with indentation is writing more marks without it: a line break is a text that
stands between two marks (`broken_writeMarks`).  So whatever is shown of writing and reading marks
holds of indented documents as well, once it is known what the added texts do.  They are blank
and never stand beside other text, and they are in nobody's way otherwise.
-/
import Mathlib.Data.List.Chain
import PersistenceMapping.Proofs.Markup.Reading

namespace PersistenceMapping

/-- Whether a token stays when text of nothing but blanks is left out, unless `blanks` holds. -/
def Token.stays (blanks : Bool) : Token → Bool
  | text content => blanks || !isBlankText content
  | _ => true

variable {indent depth spaces : Nat} {inline : Bool} {m : Mark} {marks broken : List Mark}

/-! ### Line breaks -/

theorem toList_lineBreak (spaces : Nat) :
    (lineBreak spaces).toList = '\n' :: List.replicate spaces ' ' := by
  simp [lineBreak]

theorem lineBreak_ne_empty (spaces : Nat) : lineBreak spaces ≠ "" := by
  intro h
  have := toList_lineBreak spaces
  rw [h] at this
  cases this

theorem isBlankText_lineBreak (spaces : Nat) : isBlankText (lineBreak spaces) = true := by
  rw [isBlankText, toList_lineBreak, List.all_eq_true]
  intro c hc
  rcases List.mem_cons.mp hc with rfl | hc
  · rfl
  · rw [List.eq_of_mem_replicate hc]
    rfl

/-- Nothing in a line break has to be escaped. -/
theorem escape_lineBreak (spaces : Nat) :
    Reference.escape (lineBreak spaces) = lineBreak spaces := by
  have hspaces : (List.replicate spaces ' ').flatMap Reference.escapeChar =
      List.replicate spaces ' ' := by
    induction spaces with
    | zero => rfl
    | succ n ih =>
        rw [List.replicate_succ, List.flatMap_cons, ih]
        rfl
  rw [← String.toList_inj, Reference.toList_escape, toList_lineBreak, List.flatMap_cons, hspaces]
  rfl

/-- Some marks, and the same marks with line breaks between them.  There is none before the
first where no line may be broken, and none beside character data. -/
inductive Broken : (inline : Bool) → (marks broken : List Mark) → Prop
  | nil {inline : Bool} : Broken inline [] []
  | inline {inline : Bool} {m : Mark} {marks broken : List Mark}
      (h : Broken m.isCharacters marks broken) : Broken inline (m :: marks) (m :: broken)
  | newline {m : Mark} {marks broken : List Mark} {spaces : Nat} (hm : m.isCharacters = false)
      (h : Broken m.isCharacters marks broken) :
      Broken false (m :: marks) (.text (lineBreak spaces) :: m :: broken)

/-- Marks with their line breaks as marks between them, where `layOut` puts these. -/
def breakLines (indent depth : Nat) (inline : Bool) : List Mark → List Mark
  | [] => []
  | m :: rest =>
    let own := if m.closes then depth - 1 else depth
    let next := if m.opens then depth + 1 else own
    let broken := m :: breakLines indent next m.isCharacters rest
    if inline || m.isCharacters then broken else .text (lineBreak (indent * own)) :: broken

theorem broken_breakLines (indent depth : Nat) (inline : Bool) (marks : List Mark) :
    Broken inline marks (breakLines indent depth inline marks) := by
  induction marks generalizing depth inline with
  | nil => exact .nil
  | cons m marks ih =>
      rw [breakLines]
      split
      · exact .inline (ih _ _)
      · rename_i hbefore
        obtain ⟨rfl, hm⟩ : inline = false ∧ m.isCharacters = false := by simpa using hbefore
        exact .newline hm (ih _ _)

/-- What is laid out is what is written of the marks with line breaks between them. -/
theorem join_layOut (indent depth : Nat) (inline : Bool) (marks : List Mark) :
    String.join (layOut indent depth inline marks) =
      String.join ((breakLines indent depth inline marks).map Mark.write) := by
  induction marks generalizing depth inline with
  | nil => rfl
  | cons m marks ih =>
      rw [layOut, breakLines]
      split
      · simp only [String.join_cons, List.map_cons, ih, String.empty_append]
      · simp only [String.join_cons, List.map_cons, ih]
        rw [Mark.write, escape_lineBreak]

/-- Indented or not, what is written is what is written of some marks. -/
theorem broken_writeMarks (indent : Nat) (marks : List Mark) :
    ∃ broken, (if indent = 0 then broken = marks else Broken true marks broken) ∧
      writeMarks indent marks = String.join (broken.map Mark.write) := by
  by_cases h : indent = 0
  · exact ⟨marks, by rw [if_pos h], by rw [writeMarks, if_pos h]⟩
  · refine ⟨breakLines indent 0 true marks, ?_, by rw [writeMarks, if_neg h, join_layOut]⟩
    rw [if_neg h]
    exact broken_breakLines indent 0 true marks

namespace Broken

theorem writable (h : Broken inline marks broken) (hmarks : ∀ m ∈ marks, m.Writable) :
    ∀ m ∈ broken, m.Writable := by
  induction h with
  | nil => simp
  | inline _ ih =>
      intro m hm
      rcases List.mem_cons.mp hm with rfl | hm
      · exact hmarks m (by simp)
      · exact ih (fun m hm => hmarks m (by simp [hm])) m hm
  | newline _ _ ih =>
      intro m hm
      rcases List.mem_cons.mp hm with rfl | hm
      · exact lineBreak_ne_empty _
      · rcases List.mem_cons.mp hm with rfl | hm
        · exact hmarks m (by simp)
        · exact ih (fun m hm => hmarks m (by simp [hm])) m hm

theorem nested (h : Broken inline marks broken) {opened last : List String}
    (hmarks : Nested opened marks last) : Nested opened broken last := by
  induction h generalizing opened with
  | nil => exact hmarks
  | inline _ ih =>
      obtain _ | ⟨hmoves, hrest⟩ := hmarks
      exact .cons hmoves (ih hrest)
  | newline _ _ ih =>
      obtain _ | ⟨hmoves, hrest⟩ := hmarks
      exact .cons rfl (.cons hmoves (ih hrest))

/-- Where no line may be broken, the first mark stays the first. -/
theorem head?_eq (h : Broken true marks broken) : broken.head? = marks.head? := by
  cases h <;> rfl

theorem separated (h : Broken inline marks broken) (hmarks : Markup.Reader.Separated marks) :
    Markup.Reader.Separated broken := by
  induction h with
  | nil => exact List.isChain_nil
  | @inline _ m marks broken h ih =>
      obtain ⟨hhead, hmarks⟩ := List.isChain_cons.mp hmarks
      refine List.isChain_cons.mpr ⟨?_, ih hmarks⟩
      rintro m' hm' ⟨htext, htext'⟩
      -- Text is character data, so the next mark was the next one before.
      have hm : m.isCharacters = true := by
        cases m <;> cases htext
        rfl
      rw [hm] at h
      rw [h.head?_eq] at hm'
      exact hhead m' hm' ⟨htext, htext'⟩
  | @newline m marks broken spaces hm h ih =>
      have hnot : m.isText = false := by
        cases m <;> first | rfl | cases hm
      obtain ⟨-, hmarks⟩ := List.isChain_cons.mp hmarks
      refine List.isChain_cons_cons.mpr ⟨by simp [hnot], List.isChain_cons.mpr ⟨?_, ih hmarks⟩⟩
      rintro m' - ⟨htext, -⟩
      rw [hnot] at htext
      cases htext

/-- Line breaks are blank, so with blank text left out the tokens are the same. -/
theorem tokens (h : Broken inline marks broken) :
    (broken.flatMap Mark.tokens).filter (Token.stays false) =
      (marks.flatMap Mark.tokens).filter (Token.stays false) := by
  induction h with
  | nil => rfl
  | inline _ ih =>
      rw [List.flatMap_cons, List.flatMap_cons, List.filter_append, List.filter_append, ih]
  | @newline m _ _ spaces _ _ ih =>
      have hblank : ¬ Token.stays false (.text (lineBreak spaces)) = true := by
        rw [Token.stays, isBlankText_lineBreak]
        decide
      rw [List.flatMap_cons, Mark.tokens, List.singleton_append, List.filter_cons_of_neg hblank,
        List.flatMap_cons, List.flatMap_cons, List.filter_append, List.filter_append, ih]

end Broken

end PersistenceMapping
