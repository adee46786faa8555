/-
What indentation makes of the text of an element.

Where a document is indented, blank texts are left out and lines are broken, and both may fall
between two pieces of one element's character data.  `Content.laidText` is what then stands
directly in an element, and `Document.KeepsText` says that this is, but for blanks at its ends, what
stood there before, for each element of the document that carries text.  Nothing else that is read
changes: such a document is relaid when it is indented (`WellFormed.relaid_bytes`).
-/
import PersistenceMapping.Proofs.Markup.Relaid
import PersistenceMapping.Proofs.Tree.RoundTrip

namespace PersistenceMapping

namespace Content

/-- The character data that a content itself is. -/
def ownCharacters : Content → String
  | text content => content
  | cdata content => content
  | _ => ""

/-- The character data that stands directly among contents. -/
def ownText (cs : List Content) : String :=
  String.join (cs.map ownCharacters)

/-- Whether no line may be broken after a content, if `inline` tells it of what comes before. -/
def staysInline (inline : Bool) : Content → Bool
  | text content => if isBlankText content then inline else true
  | cdata _ => true
  | _ => false

/-- The character data that an indented content brings along: its own, unless it is left out, or the
line break before it. -/
def laidCharacters (spaces : Nat) (inline : Bool) : Content → String
  | text content => if isBlankText content then "" else content
  | cdata content => content
  | _ => if inline then "" else lineBreak spaces

/-- The character data that stands directly among indented contents. -/
def laidText (spaces : Nat) (inline : Bool) : List Content → String
  | [] => ""
  | c :: rest => laidCharacters spaces inline c ++ laidText spaces (c.staysInline inline) rest

mutual

/-- Whether indentation keeps the texts of a content and of all below it that carry any. -/
def keepsText (carries : String → Bool) (indent depth : Nat) : Content → Bool
  | .element name _ _ children =>
    (!carries name ||
      trim (laidText (indent * (depth + 1)) false children) == trim (ownText children)) &&
      keepsTextAll carries indent (depth + 1) children
  | _ => true

/-- Whether indentation keeps the texts of contents and of all below them that carry any. -/
def keepsTextAll (carries : String → Bool) (indent depth : Nat) : List Content → Bool
  | [] => true
  | c :: rest => keepsText carries indent depth c && keepsTextAll carries indent depth rest

end

variable {carries : String → Bool} {indent depth : Nat} {inline : Bool} {opened : List String}
  {texts : List (String × String)} {text text' : String} {marks marks' : List Mark} {c : Content}
  {cs : List Content}

theorem keepsTextAll_eq_true :
    keepsTextAll carries indent depth cs = true ↔
      ∀ c ∈ cs, c.keepsText carries indent depth = true := by
  induction cs with
  | nil => simp [keepsTextAll]
  | cons c cs ih => rw [keepsTextAll, Bool.and_eq_true, ih, List.forall_mem_cons]

mutual

/-- The fewer elements carry text, the less there is to keep. -/
theorem keepsText_mono {carries' : String → Bool}
    (hcarries : ∀ name, carries' name = true → carries name = true) :
    (c : Content) → (depth : Nat) → c.keepsText carries indent depth = true →
      c.keepsText carries' indent depth = true
  | .element name ns attributes children, depth, h => by
    rw [keepsText, Bool.and_eq_true] at h ⊢
    refine ⟨?_, keepsTextAll_mono hcarries children (depth + 1) h.2⟩
    have hself := h.1
    cases hname : carries' name with
    | false => rfl
    | true =>
        rw [hcarries name hname] at hself
        exact hself
  | .document children, _, _ => rfl
  | .text content, _, _ => rfl
  | .cdata content, _, _ => rfl
  | .comment content, _, _ => rfl
  | .instruction target data, _, _ => rfl

theorem keepsTextAll_mono {carries' : String → Bool}
    (hcarries : ∀ name, carries' name = true → carries name = true) :
    (cs : List Content) → (depth : Nat) → keepsTextAll carries indent depth cs = true →
      keepsTextAll carries' indent depth cs = true
  | [], _, _ => rfl
  | c :: cs, depth, h => by
    rw [keepsTextAll, Bool.and_eq_true] at h ⊢
    exact ⟨keepsText_mono hcarries c depth h.1, keepsTextAll_mono hcarries cs depth h.2⟩

end

/-! ### Layouts -/

open Markup (RelaidMarks)

/-- A content in two layouts, before what is relaid once its character data has been had. -/
def RelaidBefore (carries : String → Bool) (indent depth : Nat) (c : Content) : Prop :=
  ∀ {opened : List String} {texts : List (String × String)} {text text' : String} {inline : Bool}
    {marks marks' : List Mark},
    RelaidMarks carries opened
      ((text ++ c.ownCharacters, text' ++ c.laidCharacters (indent * depth) inline) :: texts) marks
      (breakLines indent depth (c.staysInline inline) marks') →
    RelaidMarks carries opened ((text, text') :: texts) (c.marks true ++ marks)
      (breakLines indent depth inline (c.marks false ++ marks'))

theorem relaid_contents (h : ∀ c ∈ cs, c.RelaidBefore carries indent depth)
    (hrest : RelaidMarks carries opened
      ((text ++ ownText cs, text' ++ laidText (indent * depth) inline cs) :: texts) marks
      (breakLines indent depth (cs.foldl staysInline inline) marks')) :
    RelaidMarks carries opened ((text, text') :: texts) (marksAll true cs ++ marks)
      (breakLines indent depth inline (marksAll false cs ++ marks')) := by
  induction cs generalizing text text' inline with
  | nil => simpa [ownText, laidText, marksAll] using hrest
  | cons c cs ih =>
      rw [marksAll, marksAll, List.append_assoc, List.append_assoc]
      refine h c (by simp) (ih (fun c hc => h c (by simp [hc])) ?_)
      simpa [ownText, laidText, String.append_assoc] using hrest

theorem marks_text_of_blank {content : String} (h : isBlankText content = true) :
    (Content.text content).marks false = [] := by
  rw [Content.marks, if_pos (by simp [h])]

theorem marks_text_of_not_blank {content : String} (h : ¬isBlankText content = true) :
    (Content.text content).marks false = [.text content] := by
  rw [Content.marks, if_neg (by simp [h])]

/-- A content that keeps its texts is relaid when it is indented, whatever comes after it. -/
theorem relaid_content (h : c.Everywhere Legible)
    (hkeeps : c.keepsText carries indent depth = true) : c.RelaidBefore carries indent depth := by
  induction h generalizing depth with
  | @intro c h _ ih =>
      intro opened texts text text' inline marks marks' hrest
      cases c with
      | document children => exact absurd h.2 id
      | element name ns attributes children =>
          obtain ⟨⟨hname, hattributes, -⟩, hnodup⟩ := h
          rw [keepsText, Bool.and_eq_true] at hkeeps
          obtain ⟨hkeep, hbelow⟩ := hkeeps
          simp only [ownCharacters, String.append_empty] at hrest
          cases children with
          | nil => exact .broken rfl rfl rfl (.empty ⟨hname, hattributes, hnodup⟩ hrest)
          | cons c cs =>
              refine .broken rfl rfl rfl (.opening ⟨hname, hattributes, hnodup⟩ ?_)
              have hinside : ∀ c' ∈ c :: cs, c'.RelaidBefore carries indent (depth + 1) :=
                fun c' hc' => ih c' hc' (keepsTextAll_eq_true.mp hbelow c' hc')
              show RelaidMarks carries (name :: opened) _
                (marksAll true (c :: cs) ++ [.closing name] ++ marks)
                (breakLines indent (depth + 1) false
                  (marksAll false (c :: cs) ++ [.closing name] ++ marks'))
              rw [List.append_assoc, List.append_assoc]
              refine relaid_contents hinside (.brokenClosing hname (fun hcarries => ?_) hrest)
              rw [String.empty_append, String.empty_append]
              have hsame : trim (laidText (indent * (depth + 1)) false (c :: cs)) =
                  trim (ownText (c :: cs)) := by
                simpa [hcarries] using hkeep
              exact hsame.symm
      | text content =>
          by_cases hblank : isBlankText content = true
          · simp only [laidCharacters, staysInline, if_pos hblank, String.append_empty] at hrest
            rw [marks_text_of_blank hblank]
            exact .blank hblank hrest
          · simp only [laidCharacters, staysInline, if_neg hblank] at hrest
            rw [marks_text_of_not_blank hblank]
            exact .characters h.1 rfl rfl rfl hrest
      | cdata content => exact .characters h.1 rfl rfl rfl hrest
      | comment content =>
          simp only [ownCharacters, String.append_empty] at hrest
          exact .broken rfl rfl rfl (.aside h.1 rfl rfl rfl hrest)
      | instruction target data =>
          simp only [ownCharacters, String.append_empty] at hrest
          exact .broken rfl rfl rfl (.aside h.1 rfl rfl rfl hrest)

end Content

namespace Document

open Markup (Reader RelaidMarks)

variable {d : Document} {carries : String → Bool} {indent : Nat}

/-- Indentation keeps the texts of a document that carry any. -/
def KeepsText (d : Document) (carries : String → Bool) (indent : Nat) : Prop :=
  Content.keepsTextAll carries indent 0 d.body = true

instance : Decidable (d.KeepsText carries indent) :=
  inferInstanceAs (Decidable (_ = true))

theorem KeepsText.mono {carries' : String → Bool} (h : d.KeepsText carries indent)
    (hcarries : ∀ name, carries' name = true → carries name = true) : d.KeepsText carries' indent :=
  Content.keepsTextAll_mono hcarries d.body 0 h

/-- The marks of a document that keeps its texts are relaid when it is indented. -/
theorem relaid_marks (hlegible : ∀ c ∈ d.body, c.Everywhere Content.Legible)
    (hindent : indent ≠ 0) (hkeeps : d.KeepsText carries indent) :
    RelaidMarks carries [] [("", "")] (d.marks 0) (breakLines indent 0 true (d.marks indent)) := by
  have hrelaid : ∀ c ∈ d.body, c.RelaidBefore carries indent 0 := fun c hc =>
    Content.relaid_content (hlegible c hc) (Content.keepsTextAll_eq_true.mp hkeeps c hc)
  have hbody : RelaidMarks carries [] [("", "")] (Content.marksAll true d.body ++ [])
      (breakLines indent 0 false (Content.marksAll false d.body ++ [])) :=
    Content.relaid_contents hrelaid .nil
  rw [List.append_nil, List.append_nil] at hbody
  have hblanks : decide (indent = 0) = false := decide_eq_false hindent
  rw [Document.marks, Document.marks, hblanks]
  exact .broken rfl rfl rfl (.aside trivial rfl rfl rfl hbody)

/-- A document that can be told apart from how it is written and keeps its texts is read as relaid
streams, on one line and indented. -/
theorem WellFormed.relaid_bytes (h : WellFormed d)
    (hwritable : ∀ c ∈ d.body, c.Everywhere Content.Writable) (hindent : indent ≠ 0)
    (hkeeps : d.KeepsText carries indent) :
    ∃ items items', TokenStream.ofBytes (d.bytes 0) = { items } ∧
      TokenStream.ofBytes (d.bytes indent) = { items := items' } ∧
      Relaid carries [("", "")] items items' := by
  have hlegible : ∀ c ∈ d.body, c.Everywhere Content.Legible := fun c hc =>
    (hwritable c hc).and (h.proper_body c hc)
  obtain ⟨hmarks, hseparated, -⟩ := h.marks_legible hlegible 0
  obtain ⟨hmarks', hseparated', -⟩ := h.marks_legible hlegible indent
  have hbroken := broken_breakLines indent 0 true (d.marks indent)
  have hwrite : d.bytes 0 = (String.join ((d.marks 0).map Mark.write)).toUTF8.toList := rfl
  have hwrite' : d.bytes indent =
      (String.join ((breakLines indent 0 true (d.marks indent)).map Mark.write)).toUTF8.toList := by
    rw [bytes, render, writeMarks, if_neg hindent, join_layOut]
  refine ⟨Reader.initial.outcomes (d.marks 0),
    Reader.initial.outcomes (breakLines indent 0 true (d.marks indent)), ?_, ?_,
    relaid_marks hlegible hindent hkeeps _ ⟨rfl, Markup.Scope.isText_initial⟩⟩
  · rw [hwrite, Markup.ofBytes_written rfl, Reader.readAll_written_eq hmarks hseparated]
  · rw [hwrite', Markup.ofBytes_written rfl,
      Reader.readAll_written_eq (hbroken.writable hmarks') (hbroken.separated hseparated')]

end Document

end PersistenceMapping
