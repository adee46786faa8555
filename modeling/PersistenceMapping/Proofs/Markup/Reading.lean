/-
Reading back the marks of a document.

Each mark is cut off where it ends and gives the tokens it was written for (`Reads`); the reader
then has the elements open that were open when the mark was written.  Where no text follows
another, and where end tags close what start tags opened, a whole sequence of marks gives its
tokens one after the other (`readAll_written`).

What is not said is which namespaces the start tags come to have.  No mark is written for these,
so they are taken out of tokens before these are compared (`Token.withoutNamespace`).
-/
import PersistenceMapping.Proofs.Markup.Tags

namespace PersistenceMapping

/-- A token without the namespace that the prefix of its name stands for. -/
def Token.withoutNamespace : Token → Token
  | startTag tag => .startTag { tag with ns := none }
  | token => token

namespace Mark

/-- The tokens that a mark is written for. -/
def tokens : Mark → List Token
  | declaration => [.plainStart]
  | opening name attributes => [.startTag ⟨name, none, attributes⟩]
  | closing name => [.endTag name]
  | empty name attributes => [.startTag ⟨name, none, attributes⟩, .endTag name]
  | text content => [.text content]
  | cdata content => [.cdata content]
  | comment content => [.comment content]
  | instruction target data => [.instruction target data]

/-- A mark that can be told from what stands around it. -/
def Writable : Mark → Prop
  | declaration => True
  | opening name attributes | empty name attributes =>
    IsName name ∧ (∀ a ∈ attributes, IsName a.name ∧ a.Permitted) ∧
      (attributes.map (·.name)).Nodup
  | closing name => IsName name
  | text content => content ≠ ""
  | cdata content => ¬ "]]>".toList <:+: content.toList
  | comment content => ¬ "-->".toList <:+: content.toList
  | instruction target data =>
    IsName target ∧ target ≠ "xml" ∧ ¬ "?>".toList <:+: data.toList ∧
      ∀ c ∈ data.toList.head?, isBlank c = false

/-- Whether a mark is text. -/
def isText : Mark → Bool
  | text _ => true
  | _ => false

/-- What is cut off where a mark is written. -/
def piece : Mark → Markup.Piece
  | declaration => .instruction (.ofString "xml version=\"1.0\" encoding=\"UTF-8\"")
  | opening name attributes => .startTag (.ofString (tagText name attributes))
  | closing name => .endTag (.ofString name)
  | empty name attributes => .emptyTag (.ofString (tagText name attributes))
  | text content => .text (.ofString (Reference.escape content))
  | cdata content => .cdata (.ofString content)
  | comment content => .comment (.ofString content)
  | instruction target data =>
    .instruction (.ofString (if data.isEmpty then target else target ++ " " ++ data))

/-- A mark may stand where these elements are open, and leaves those open. -/
def Moves (before after : List String) : Mark → Prop
  | opening name _ => after = name :: before
  | closing name => before = name :: after
  | _ => after = before

end Mark

/-- Marks whose end tags close what their start tags opened, or what was open before them. -/
inductive Nested : List String → List Mark → List String → Prop
  | nil {opened : List String} : Nested opened [] opened
  | cons {opened next last : List String} {m : Mark} {ms : List Mark} (h : m.Moves opened next)
      (h' : Nested next ms last) : Nested opened (m :: ms) last

namespace Markup

open RawText (ofString)

variable {t : RawText} {name : String} {attributes : List Attribute}

/-! ### Instructions and the declaration -/

theorem trimStart_eq_self {data : String} (h : ∀ c ∈ data.toList.head?, isBlank c = false) :
    trimStart data = data ∧ trimStart (" " ++ data) = data := by
  have hdrop : data.toList.dropWhile isBlank = data.toList :=
    dropWhile_stretch (l := []) (by simp) h
  have hspace : (" " ++ data).toList = ' ' :: data.toList := by simp
  have hblank : isBlank ' ' = true := rfl
  constructor
  · rw [trimStart, hdrop, String.ofList_toList]
  · rw [trimStart, hspace, List.dropWhile_cons_of_pos hblank, hdrop, String.ofList_toList]

/-- What begins with a target is no declaration, and the target is all before the first space. -/
theorem readInstruction_target {target : String} (htarget : IsName target) (hxml : target ≠ "xml")
    {u : RawText} (hu : ∀ x ∈ u.head?, x.satisfies isSpace = true) :
    readInstruction (ofString target ++ u) = (do
      let data ← decodeMarkup u
      .ok (.instruction target (trimStart data))) := by
  have hplain : ∀ x ∈ ofString target, (!x.satisfies isSpace) = true := by
    intro x hx
    simp [(isSpace_of_name htarget hx).1]
  have hstop : ∀ x ∈ u.head?, (!x.satisfies isSpace) = false := by simpa using hu
  have htake := takeWhile_stretch hplain hstop
  have hdrop := dropWhile_stretch hplain hstop
  -- If the word were `xml`, the target would be that word.
  have hword : ∀ rest, (∀ x ∈ rest.head?, x.satisfies isSpace = true) →
      RawText.after? "xml".toList (ofString target ++ u) ≠ some rest := by
    intro rest hrest hafter
    rw [RawText.after?_eq_some_iff] at hafter
    have htake' : (ofString "xml" ++ rest).takeWhile (!·.satisfies isSpace) = ofString "xml" :=
      takeWhile_stretch (by decide) (by simpa using hrest)
    rw [show ofString "xml" = "xml".toList.map .char from rfl, ← hafter, htake] at htake'
    exact hxml (RawText.ofString_injective htake')
  have hsplit : splitTag (ofString target ++ u) =
      (ofString target, ⟨0 + RawText.size (ofString target), u⟩) := by
    simp only [splitTag, Located.span, htake, hdrop]
  rcases hafter : RawText.after? "xml".toList (ofString target ++ u) with _ | _ | ⟨s, rest⟩
  · simp only [readInstruction, hafter, hsplit, decodeMarkup_ofString]
    rfl
  · exact absurd hafter (hword [] (by simp))
  · by_cases hs : s.satisfies isSpace = true
    · exact absurd hafter (hword _ (by simpa using hs))
    · simp only [readInstruction, hafter, if_neg hs, hsplit, decodeMarkup_ofString]
      rfl

theorem readInstruction_ok {target data : String} (htarget : IsName target) (hxml : target ≠ "xml")
    (hdata : ∀ c ∈ data.toList.head?, isBlank c = false) :
    readInstruction (ofString target) = .ok (.instruction target "") ∧
      readInstruction (ofString (target ++ " " ++ data)) = .ok (.instruction target data) := by
  constructor
  · have := readInstruction_target htarget hxml (u := []) (by simp)
    rw [List.append_nil] at this
    rw [this]
    rfl
  · have hspace : ofString (target ++ " " ++ data) = ofString target ++ ofString (" " ++ data) := by
      simp
    rw [hspace, readInstruction_target htarget hxml (by simp [ofString, Symbol.satisfies, isSpace]),
      decodeMarkup_ofString]
    show Except.ok (Token.instruction target (trimStart (" " ++ data))) = _
    rw [(trimStart_eq_self hdata).2]

/-- The declaration that every document starts with is read as the plain document start. -/
theorem readInstruction_declaration :
    readInstruction (ofString "xml version=\"1.0\" encoding=\"UTF-8\"") = .ok .plainStart := by
  have hnames : ∀ a ∈ [(⟨"version", "1.0"⟩ : Attribute), ⟨"encoding", "UTF-8"⟩], IsName a.name := by
    decide
  have htext : ofString "xml version=\"1.0\" encoding=\"UTF-8\"" = .char 'x' :: .char 'm' ::
      .char 'l' :: attributesText [⟨"version", "1.0"⟩, ⟨"encoding", "UTF-8"⟩] := by decide
  obtain ⟨raw, hraw, hwritten⟩ : ∃ raw,
      readAttributes false ⟨3, attributesText [⟨"version", "1.0"⟩, ⟨"encoding", "UTF-8"⟩]⟩ =
        (raw, none) ∧ List.Forall₂ Written raw [⟨"version", "1.0"⟩, ⟨"encoding", "UTF-8"⟩] :=
    readAttributes_text hnames (by decide) false 3
  obtain _ | ⟨ha, _ | ⟨hb, _ | _⟩⟩ := hwritten
  rename_i a b
  have hversion : declaredVersion ([a, b], none) = .ok (ofString "1.0") := by
    rw [declaredVersion, if_pos ha.1, ha.2]
    rfl
  have hencoding : declaredValue "encoding" ([a, b], none) = .ok (some (ofString "UTF-8")) := by
    have hnot : a.name ≠ ofString "encoding" := by
      rw [ha.1]
      decide
    have hescape : Reference.escape "UTF-8" = "UTF-8" := by decide
    simp [declaredValue, hnot, hb.1, hb.2, hescape]
  have hstandalone : declaredValue "standalone" ([a, b], none) = .ok none := by
    have hnot : ∀ s, s ∈ ["version", "encoding"] → ofString s ≠ ofString "standalone" := by decide
    simp [declaredValue, ha.1, hb.1, hnot]
  rw [htext]
  show readDeclaration (attributesText [⟨"version", "1.0"⟩, ⟨"encoding", "UTF-8"⟩]) = _
  simp only [readDeclaration, hraw, hversion, hencoding, hstandalone]
  rfl

/-! ### One mark -/

theorem not_infix_of_not_mem {cs : List Char} (h : '?' ∉ cs) : ¬ "?>".toList <:+: cs :=
  fun hinside => h (hinside.subset (by simp))

theorem not_infix_append {cs cs' : List Char} (h : '?' ∉ cs) (h' : ¬ "?>".toList <:+: cs') :
    ¬ "?>".toList <:+: cs ++ cs' := by
  induction cs with
  | nil => exact h'
  | cons c cs ih =>
      rw [List.mem_cons, not_or] at h
      obtain ⟨hc, hcs⟩ := h
      rw [List.cons_append, List.infix_cons_iff]
      rintro (hbegins | hinside)
      · exact hc (List.cons_prefix_cons.mp hbegins).1
      · exact ih hcs hinside

/-- A mark is cut off where it ends, whatever comes next. -/
theorem cut_write {m : Mark} (hm : m.Writable)
    (ht : m.isText = true → ∀ x ∈ t.head?, x = .char '<') :
    cut (ofString m.write ++ t) = .piece m.piece t := by
  cases m with
  | declaration =>
      have hwrite : Mark.declaration.write =
          "<?" ++ "xml version=\"1.0\" encoding=\"UTF-8\"" ++ "?>" := by
        unfold Mark.write
        decide
      rw [hwrite]
      exact cut_instruction (by decide) (by decide) (not_infix_of_not_mem (by decide)) t
  | opening name attributes => exact cut_opening hm.1 (fun a ha => (hm.2.1 a ha).1) t
  | closing name => exact cut_closing hm t
  | empty name attributes => exact cut_empty hm.1 (fun a ha => (hm.2.1 a ha).1) t
  | text content => exact cut_text hm (ht rfl)
  | cdata content => exact cut_cdata hm t
  | comment content => exact cut_comment hm t
  | instruction target data =>
      obtain ⟨htarget, -, hinside, -⟩ := hm
      have hplain : '?' ∉ target.toList := by
        intro hmem
        exact (htarget.chars _ hmem).2 (by simp)
      obtain ⟨c, rest, hc⟩ := List.exists_cons_of_ne_nil
        (mt String.toList_eq_nil_iff.mp htarget.nonempty)
      have hfirst : c ≠ '>' := by
        rintro rfl
        exact (htarget.chars '>' (by simp [hc])).2 (by simp)
      rw [Mark.write, Mark.piece]
      split
      · exact cut_instruction htarget.nonempty (by simp [hc, hfirst])
          (not_infix_of_not_mem hplain) t
      · have hwrite : "<?" ++ target ++ " " ++ data ++ "?>" =
            "<?" ++ (target ++ " " ++ data) ++ "?>" := by
          simp [String.append_assoc]
        have hspace : '?' ∉ target.toList ++ [' '] := by simp [hplain]
        rw [hwrite]
        refine cut_instruction (by simp [htarget.nonempty]) (by simp [hc, hfirst]) ?_ t
        simpa using not_infix_append hspace hinside

namespace Reader

/-- A reader that has these elements open, and only text for namespaces. -/
structure At (r : Reader) (opened : List String) : Prop where
  opened : r.opened = opened.map ofString
  scope : r.scope.IsText

/-- A mark is cut off where it ends, and gives its tokens. -/
def Reads (r : Reader) (m : Mark) (t : RawText) (after : List String) : Prop :=
  ∃ (piece : Piece) (tokens : List Token) (r' : Reader),
    cut (ofString m.write ++ t) = .piece piece t ∧
    r.read piece = (tokens.map .ok, r') ∧ r'.At after ∧
    tokens.map Token.withoutNamespace = m.tokens

variable {r : Reader} {opened : List String}

theorem reads_opening (h : r.At opened) (hname : IsName name)
    (hattributes : ∀ a ∈ attributes, IsName a.name ∧ a.Permitted)
    (hnodup : (attributes.map (·.name)).Nodup) (t : RawText) :
    r.Reads (.opening name attributes) t (name :: opened) := by
  have hnames : ∀ a ∈ attributes, IsName a.name := fun a ha => (hattributes a ha).1
  obtain ⟨scope, henter, hscope⟩ := enterTag_tagText h.scope hname hnames hnodup
    fun a ha => (hattributes a ha).2
  obtain ⟨ns, htag⟩ := readStartTag_tagText hscope hname hnames hnodup
  refine ⟨_, [.startTag ⟨name, ns, attributes⟩],
    { opened := ofString name :: r.opened, scope }, cut_opening hname hnames t, ?_,
    ⟨?_, hscope⟩, rfl⟩
  · simp only [Reader.read, henter, htag, splitTag_tagText hname]
    rfl
  · simp [h.opened]

theorem reads_empty (h : r.At opened) (hname : IsName name)
    (hattributes : ∀ a ∈ attributes, IsName a.name ∧ a.Permitted)
    (hnodup : (attributes.map (·.name)).Nodup) (t : RawText) :
    r.Reads (.empty name attributes) t opened := by
  have hnames : ∀ a ∈ attributes, IsName a.name := fun a ha => (hattributes a ha).1
  obtain ⟨scope, henter, hscope⟩ := enterTag_tagText h.scope hname hnames hnodup
    fun a ha => (hattributes a ha).2
  obtain ⟨ns, htag⟩ := readStartTag_tagText hscope hname hnames hnodup
  refine ⟨_, [.startTag ⟨name, ns, attributes⟩, .endTag name],
    { r with scope := scope.leave }, cut_empty hname hnames t, ?_, ⟨h.opened, hscope.leave⟩, rfl⟩
  simp only [Reader.read, henter, htag]
  rfl

theorem reads_closing (h : r.At (name :: opened)) (hname : IsName name) (t : RawText) :
    r.Reads (.closing name) t opened := by
  obtain ⟨ns, hns⟩ := resolveName_ok h.scope (ofString name)
  refine ⟨_, [.endTag name], { opened := opened.map ofString, scope := r.scope.leave },
    cut_closing hname t, ?_, ⟨rfl, h.scope.leave⟩, rfl⟩
  have hopened := h.opened
  rw [List.map_cons] at hopened
  simp only [Reader.read, hopened, endTagName_ofString hname, if_true, hns, decodeMarkup_ofString]
  rfl

/-- A mark of a single token that is no tag leaves the reader as it was. -/
theorem reads_single {m : Mark} {piece : Piece} (token : Token) (h : r.At opened) {t : RawText}
    (hcut : cut (ofString m.write ++ t) = .piece piece t)
    (hread : r.read piece = ([.ok token], r))
    (htoken : [token].map Token.withoutNamespace = m.tokens) : r.Reads m t opened :=
  ⟨piece, [token], r, hcut, hread, h, htoken⟩

theorem reads_instruction {target data : String} (h : r.At opened)
    (hm : (Mark.instruction target data).Writable) (t : RawText) :
    r.Reads (.instruction target data) t opened := by
  have hcut := cut_write hm (t := t) nofun
  obtain ⟨htarget, hxml, -, hdata⟩ := hm
  obtain ⟨halone, hwith⟩ := readInstruction_ok htarget hxml hdata
  refine reads_single (.instruction target data) h hcut ?_ rfl
  rw [Mark.piece, Reader.read]
  split
  · rename_i hempty
    obtain rfl : data = "" := by simpa using hempty
    rw [halone]
  · rw [hwith]

theorem reads_declaration (h : r.At opened) (t : RawText) : r.Reads .declaration t opened := by
  refine reads_single .plainStart h (cut_write trivial nofun) ?_ rfl
  rw [Mark.piece, Reader.read, readInstruction_declaration]

/-- A mark that can be told from what stands around it is read as it was written. -/
theorem reads_of_writable {after : List String} {m : Mark} (h : r.At opened) (hm : m.Writable)
    (hmoves : m.Moves opened after) {t : RawText}
    (ht : m.isText = true → ∀ x ∈ t.head?, x = .char '<') : r.Reads m t after := by
  cases m with
  | declaration =>
      obtain rfl := hmoves
      exact reads_declaration h t
  | opening name attributes =>
      obtain rfl := hmoves
      exact reads_opening h hm.1 hm.2.1 hm.2.2 t
  | closing name =>
      obtain rfl := hmoves
      exact reads_closing h hm t
  | empty name attributes =>
      obtain rfl := hmoves
      exact reads_empty h hm.1 hm.2.1 hm.2.2 t
  | text content =>
      obtain rfl := hmoves
      refine reads_single (.text content) h (cut_text hm (ht rfl)) ?_ rfl
      rw [Reader.read, decodeContent_escape]
      rfl
  | cdata content =>
      obtain rfl := hmoves
      refine reads_single (.cdata content) h (cut_cdata hm t) ?_ rfl
      rw [Reader.read, decodeMarkup_ofString]
      rfl
  | comment content =>
      obtain rfl := hmoves
      refine reads_single (.comment content) h (cut_comment hm t) ?_ rfl
      rw [Reader.read, decodeMarkup_ofString]
      rfl
  | instruction target data =>
      obtain rfl := hmoves
      exact reads_instruction h hm t

/-! ### All marks -/

/-- Marks as the symbols of which they are written. -/
def written (marks : List Mark) : RawText :=
  marks.flatMap fun m => ofString m.write

/-- No text follows another, since the two would be read as one. -/
def Separated (marks : List Mark) : Prop :=
  marks.IsChain fun m m' => ¬(m.isText = true ∧ m'.isText = true)

theorem readAll_nil (r : Reader) : readAll none r [] = [.ok .endDocument] := by
  rw [readAll]
  rfl

theorem readAll_of_cut {piece : Piece} {t rest : RawText} (ht : t ≠ [])
    (h : cut t = .piece piece rest) (r : Reader) :
    readAll none r t = (r.read piece).1 ++ readAll none (r.read piece).2 rest := by
  rw [readAll, dif_neg ht]
  split
  · rename_i heq
    rw [h] at heq
    cases heq
  · rename_i heq
    rw [h] at heq
    cases heq
  · rename_i heq
    rw [h] at heq
    cases heq
    cases piece <;> simp

/-- Whatever is no text begins with a bracket. -/
theorem head?_write {m : Mark} (hm : m.isText = false) :
    (ofString m.write).head? = some (.char '<') := by
  cases m with
  | text => cases hm
  | declaration => rfl
  | instruction target data =>
      rw [Mark.write]
      split <;> simp [ofString]
  | _ => simp [Mark.write, ofString]

theorem write_ne_empty {m : Mark} (hm : m.Writable) : ofString m.write ≠ [] := by
  cases h : m.isText with
  | false =>
      intro hnil
      have := head?_write h
      rw [hnil] at this
      cases this
  | true =>
      cases m <;> cases h
      exact mt RawText.ofString_eq_nil_iff.mp (Reference.escape_ne_empty hm)

/-- What is written after text begins with a bracket, if anything is. -/
theorem head?_written {m : Mark} {marks : List Mark} (hseparated : Separated (m :: marks))
    (htext : m.isText = true) : ∀ x ∈ (written marks).head?, x = .char '<' := by
  intro x hx
  cases marks with
  | nil => simp [written] at hx
  | cons m' marks =>
      have hnot := (List.isChain_cons_cons.mp hseparated).1
      have hhead := head?_write (m := m') (by simpa [htext] using hnot)
      simp only [written, List.flatMap_cons, List.head?_append, hhead] at hx
      simpa using hx.symm

/-- Marks that can be told apart are read as they were written, one after the other. -/
theorem readAll_written {marks : List Mark} {last : List String}
    (hwritable : ∀ m ∈ marks, m.Writable) (hseparated : Separated marks)
    (hnested : Nested opened marks last) (hr : r.At opened) :
    ∃ tokens : List Token,
      readAll none r (written marks) = (tokens ++ [Token.endDocument]).map .ok ∧
      tokens.map Token.withoutNamespace = marks.flatMap Mark.tokens := by
  induction marks generalizing r opened with
  | nil => exact ⟨[], readAll_nil r, rfl⟩
  | cons m marks ih =>
      obtain _ | ⟨hmoves, hnested⟩ := hnested
      have hm := hwritable m (by simp)
      obtain ⟨piece, tokens, r', hcut, hread, hr', htokens⟩ :=
        reads_of_writable hr hm hmoves (head?_written hseparated)
      obtain ⟨rest, hrest, htokens'⟩ := ih (fun m hm => hwritable m (by simp [hm]))
        hseparated.of_cons hnested hr'
      refine ⟨tokens ++ rest, ?_, by rw [List.map_append, htokens, htokens', List.flatMap_cons]⟩
      have hne : ofString m.write ++ written marks ≠ [] := by simp [write_ne_empty hm]
      show readAll none r (ofString m.write ++ written marks) = _
      rw [readAll_of_cut hne hcut, hread, hrest]
      simp

end Reader

end Markup

end PersistenceMapping
