/-
What was read, seen from what came of it.

Reading that does not fail leaves no doubt about what was read.  What decodes to a string is the
symbols of that string (`RawText.eq_of_decode`), a piece that has been cut off does not contain its
own delimiter (`cut_cases`), and a tag that gives a start tag has the name and the attributes of
that start tag, no two of the same name (`readStartTag_eq_ok`).

Only references hide what was written for them, so where a value is known to be free of them it is
known as it was written (`eq_of_decodeContent`).
-/
import Mathlib.Data.List.Nodup
import Mathlib.Data.List.TakeWhile
import PersistenceMapping.Proofs.Markup.Reading

namespace PersistenceMapping

/-- A computation in two steps succeeds where both do. -/
theorem exists_of_bind_eq_ok {ε α β : Type} {x : Except ε α} {f : α → Except ε β} {b : β}
    (h : x.bind f = .ok b) : ∃ a, x = .ok a ∧ f a = .ok b := by
  cases x with
  | error e => cases h
  | ok a => exact ⟨a, rfl, h⟩

theorem exists_of_map_eq_ok {ε α β : Type} {x : Except ε α} {f : α → β} {b : β}
    (h : x.map f = .ok b) : ∃ a, x = .ok a ∧ f a = b := by
  cases x with
  | error e => cases h
  | ok a => exact ⟨a, rfl, Except.ok.inj h⟩

/-! ### Text -/

namespace RawText

variable {s : String} {word : List Char} {t before after : RawText}

/-- Only the symbols of a string decode to it. -/
theorem eq_of_decode (h : t.decode = .ok s) : t = ofString s := by
  have hchars : ∀ x ∈ t, x.char?.isSome = true := by
    rw [← List.all_eq_true]
    by_contra hnot
    -- Otherwise there is a first symbol that is no character.
    have hne : t.dropWhile (fun x => x.char?.isSome) ≠ [] := by
      intro hnil
      exact hnot (List.all_eq_true.mpr (List.dropWhile_eq_nil_iff.mp hnil))
    obtain ⟨x, rest, hdrop⟩ := List.exists_cons_of_ne_nil hne
    have hx := List.head?_dropWhile_not (fun x : Symbol => x.char?.isSome) t
    rw [hdrop] at hx
    cases x with
    | char c => cases hx
    | stray b =>
        rw [decode, hdrop] at h
        cases h
  have hs : String.ofList (t.filterMap Symbol.char?) = s := by
    have hdrop : t.dropWhile (fun x => x.char?.isSome) = [] := List.dropWhile_eq_nil_iff.mpr hchars
    rw [decode, hdrop] at h
    exact Except.ok.inj h
  rw [← hs, ofString, String.toList_ofList]
  clear hs h
  induction t with
  | nil => rfl
  | cons x t ih =>
      have hx := hchars x List.mem_cons_self
      have hrest := ih fun y hy => hchars y (List.mem_cons_of_mem _ hy)
      cases x with
      | char c => exact congrArg (Symbol.char c :: ·) hrest
      | stray b => cases hx

/-- Before the place where a word is found first, the word does not occur. -/
theorem not_infix_of_splitAtFirst (hword : word ≠ [])
    (h : splitAtFirst word t = some (before, after)) : ¬ word.map .char <:+: before := by
  have hgo : ∀ seen, splitAtFirst.go word seen t = some (before, after) →
      ∃ u, before = seen.reverse ++ u ∧ u <+: t ∧ ¬ word.map .char <:+: u := by
    clear h
    induction t with
    | nil => exact nofun
    | cons x t ih =>
        intro seen h
        rw [splitAtFirst.go] at h
        split at h
        · cases h
          exact ⟨[], by simp, List.nil_prefix, by simpa using hword⟩
        · rename_i hnot
          obtain ⟨u, hbefore, hprefix, hfree⟩ := ih _ h
          refine ⟨x :: u, by simp [hbefore], List.cons_prefix_cons.mpr ⟨rfl, hprefix⟩, ?_⟩
          rw [List.infix_cons_iff]
          rintro (hbegins | hinside)
          · obtain ⟨rest, hrest⟩ := hbegins.trans (List.cons_prefix_cons.mpr ⟨rfl, hprefix⟩)
            rw [after?_eq_some_iff.mpr hrest.symm] at hnot
            cases hnot
          · exact hfree hinside
  obtain ⟨u, rfl, -, hfree⟩ := hgo [] h
  exact hfree

end RawText

namespace Reference

variable {s s' : String}

/-- Something is left of what is not empty. -/
theorem unescape_ne_empty (h : unescape s = .ok s') (hs : s ≠ "") : s' ≠ "" := by
  have hfrom : ∀ (length start : Nat) (cs cs' : List Char), cs ≠ [] →
      unescapeFrom length start cs = .ok cs' → cs' ≠ [] := by
    intro length start cs cs' hcs hcs'
    unfold unescapeFrom at hcs'
    split at hcs'
    · rename_i hdrop
      have happ := List.takeWhile_append_dropWhile (p := (· ≠ '&')) (l := cs)
      rw [hdrop, List.append_nil] at happ
      rw [← Except.ok.inj hcs', happ]
      exact hcs
    · split at hcs'
      · dsimp only at hcs'
        split at hcs'
        · cases hcs'
        · split at hcs'
          · cases hcs'
          · rw [← Except.ok.inj hcs']
            simp
      · cases hcs'
  unfold unescape at h
  split at h
  · rename_i cs hcs
    rw [← Except.ok.inj h, ne_eq, String.ofList_eq_empty_iff]
    exact hfrom _ _ _ _ (mt String.toList_eq_nil_iff.mp hs) hcs
  · cases h

/-- Text without an ampersand is left as it is. -/
theorem unescape_plain (h : '&' ∉ s.toList) : unescape s = .ok s := by
  rw [unescape, unescapeFrom_plain fun x hx heq => h (heq ▸ hx)]
  exact congrArg Except.ok String.ofList_toList

end Reference

namespace Markup

open RawText (ofString)

variable {t rest : RawText} {s : String} {attributes : List Attribute}

theorem eq_of_decodeMarkup (h : decodeMarkup t = .ok s) : t = ofString s := by
  unfold decodeMarkup at h
  split at h
  · rename_i hdecode
    rw [RawText.eq_of_decode hdecode, Except.ok.inj h]
  · cases h

/-- What character data stands for is what its references are resolved to. -/
theorem unescape_of_decodeContent (h : decodeContent t = .ok s) :
    ∃ written, t = ofString written ∧ Reference.unescape written = .ok s := by
  unfold decodeContent at h
  split at h
  · cases h
  · rename_i written hdecode
    refine ⟨written, RawText.eq_of_decode hdecode, ?_⟩
    split at h
    · rename_i hunescape
      rw [hunescape, Except.ok.inj h]
    · cases h

/-- Character data without an ampersand stands for itself. -/
theorem eq_of_decodeContent (h : decodeContent t = .ok s) (hplain : .char '&' ∉ t) :
    t = ofString s := by
  obtain ⟨written, rfl, hunescape⟩ := unescape_of_decodeContent h
  have hnot : '&' ∉ written.toList := fun hmem => hplain (RawText.mem_ofString.mpr ⟨_, hmem, rfl⟩)
  rw [Reference.unescape_plain hnot] at hunescape
  rw [Except.ok.inj hunescape]

/-! ### Pieces -/

/-- Markup that its own delimiter does not end any earlier. -/
def Piece.Closed : Piece → Prop
  | text _ => False
  | cdata content => ¬ "]]>".toList.map .char <:+: content
  | comment content => ¬ "-->".toList.map .char <:+: content
  | instruction content => ¬ "?>".toList.map .char <:+: content
  | _ => True

theorem exists_of_closed {construct : Construct} {accept : RawText → Option Piece}
    {split : Option (RawText × RawText)} {piece : Piece}
    (h : Cut.closed construct accept split = .piece piece rest) :
    ∃ content, split = some (content, rest) ∧ accept content = some piece := by
  cases split with
  | none => cases h
  | some parts =>
      obtain ⟨content, rest'⟩ := parts
      cases haccept : accept content with
      | none =>
          simp only [Cut.closed, haccept] at h
          cases h
      | some piece' =>
          simp only [Cut.closed, haccept] at h
          cases h
          exact ⟨content, rfl, haccept⟩

theorem Piece.closed_tag (content : RawText) : (Piece.tag content).Closed := by
  unfold Piece.tag
  split <;> trivial

theorem Piece.closed_of_cutDeclaration {piece : Piece} (h : cutDeclaration t = .piece piece rest) :
    piece.Closed := by
  unfold cutDeclaration at h
  split at h
  · obtain ⟨content, hsplit, haccept⟩ := exists_of_closed h
    obtain ⟨content', hafter, rfl⟩ := Option.map_eq_some_iff.mp haccept
    rw [RawText.after?_eq_some_iff] at hafter
    intro hinside
    refine RawText.not_infix_of_splitAtFirst (by decide) hsplit (hinside.trans ?_)
    rw [hafter]
    exact (List.suffix_append _ _).isInfix
  · obtain ⟨content, hsplit, haccept⟩ := exists_of_closed h
    split at haccept
    · cases haccept
      exact RawText.not_infix_of_splitAtFirst (by decide) hsplit
    · cases haccept
  · cases h
  · split at h
    · obtain ⟨content, -, haccept⟩ := exists_of_closed h
      obtain ⟨-, -, rfl⟩ := Option.map_eq_some_iff.mp haccept
      trivial
    · cases h
  · cases h
  · cases h

theorem Piece.closed_of_cutMarkup {piece : Piece} (h : cutMarkup t = .piece piece rest) :
    piece.Closed := by
  unfold cutMarkup at h
  split at h
  · exact closed_of_cutDeclaration h
  · split at h
    · cases h
    · obtain ⟨content, hsplit, haccept⟩ := exists_of_closed h
      cases haccept
      exact RawText.not_infix_of_splitAtFirst (by decide) hsplit
  · obtain ⟨content, -, haccept⟩ := exists_of_closed h
    cases haccept
    trivial
  · obtain ⟨content, -, haccept⟩ := exists_of_closed h
    cases haccept
    exact closed_tag content

/-- A piece ends where its delimiter comes first, and text where markup begins or nothing is
left. -/
theorem cut_cases {piece : Piece} (ht : t ≠ []) (h : cut t = .piece piece rest) :
    (t.head? = some (.char '<') ∧ piece.Closed) ∨
      ∃ content, piece = .text content ∧ content ≠ [] ∧ t.head? ≠ some (.char '<') ∧
        ∀ x ∈ rest.head?, x = .char '<' := by
  unfold cut at h
  split at h
  · exact Or.inl ⟨rfl, Piece.closed_of_cutMarkup h⟩
  · rename_i hne
    cases h
    obtain ⟨x, t, rfl⟩ := List.exists_cons_of_ne_nil ht
    have hx : x ≠ .char '<' := fun hx => hne t (by rw [hx])
    refine Or.inr ⟨_, rfl, ?_, by simpa using hx, fun y hy => ?_⟩
    · rw [List.takeWhile_cons_of_pos (by simpa using hx)]
      exact List.cons_ne_nil _ _
    · have hstop := List.head?_dropWhile_not (· ≠ .char '<') (x :: t)
      rw [hy] at hstop
      simpa using hstop

/-! ### Tags -/

/-- Attributes that are read without a fault end, or go on with one that is read in one step. -/
theorem readAttributesFrom_cases {seen : Option (List RawAttribute)} {t : Located}
    {raw : List RawAttribute} (h : readAttributesFrom seen t = (raw, none)) :
    (raw = [] ∧ t.skipSpaces.text = []) ∨
      ∃ (first : Symbol) (tail : RawText) (a : RawAttribute) (afterName rest : Located)
        (more : List RawAttribute), raw = a :: more ∧
        t.skipSpaces = ⟨a.position, first :: tail⟩ ∧
        readName a.position first tail = .ok (a.name, afterName) ∧
        (seen.getD []).find? (·.name == a.name) = none ∧ readValue afterName = .ok (a.value, rest) ∧
        readAttributesFrom (seen.map (a :: ·)) rest = (more, none) := by
  rw [readAttributesFrom] at h
  split at h
  · rename_i hk
    exact Or.inl ⟨(Prod.mk.inj h).1.symm, hk⟩
  rename_i first tail hk
  dsimp only at h
  split at h
  · cases (Prod.mk.inj h).2
  rename_i name afterName hn
  split at h
  · cases (Prod.mk.inj h).2
  rename_i hseen
  split at h
  · cases (Prod.mk.inj h).2
  rename_i value rest hv
  obtain ⟨hraw, hfault⟩ := Prod.mk.inj h
  refine Or.inr ⟨first, tail, ⟨t.skipSpaces.position, name, value⟩, afterName, rest, _, hraw.symm,
    by rw [← hk], hn, hseen, hv, Prod.ext rfl hfault⟩

/-- Attributes that are read without a fault although no name may be repeated are read alike where
any name may, and their names are distinct. -/
theorem readAttributesFrom_distinct {seen raw : List RawAttribute} {t : Located}
    (h : readAttributesFrom (some seen) t = (raw, none)) :
    readAttributesFrom none t = (raw, none) ∧ (raw.map (·.name)).Nodup ∧
      ∀ a ∈ raw, ∀ b ∈ seen, b.name ≠ a.name := by
  induction raw generalizing seen t with
  | nil =>
      obtain ⟨-, hk⟩ | ⟨_, _, _, _, _, _, hraw, -⟩ := readAttributesFrom_cases h
      · refine ⟨?_, List.nodup_nil, nofun⟩
        rw [readAttributesFrom]
        split
        · rfl
        · rename_i heq
          rw [hk] at heq
          cases heq
      · cases hraw
  | cons a raw ih =>
      obtain ⟨hraw, -⟩ | ⟨first, tail, a, afterName, rest, more, hraw, hk, hn, hseen, hv, hmore⟩ :=
        readAttributesFrom_cases h
      · cases hraw
      obtain ⟨rfl, rfl⟩ := List.cons.inj hraw
      obtain ⟨hlenient, hnodup, hnew⟩ := ih hmore
      refine ⟨?_, List.nodup_cons.mpr ⟨?_, hnodup⟩, ?_⟩
      · have hstep : readAttributesFrom none t = _ := readAttributesFrom_cons hk hn rfl hv
        rw [hstep]
        exact Prod.ext (by rw [Option.map_none, hlenient]) (by rw [Option.map_none, hlenient])
      · intro hmem
        obtain ⟨b, hb, heq⟩ := List.mem_map.mp hmem
        exact hnew b hb _ List.mem_cons_self heq.symm
      · rintro b hb c hc
        rcases List.mem_cons.mp hb with rfl | hb
        · have hne := List.find?_eq_none.mp hseen c hc
          simpa using hne
        · exact hnew b hb c (List.mem_cons_of_mem _ hc)

/-- An attribute and what its name and its value are read as. -/
def Decodes (raw : RawAttribute) (a : Attribute) : Prop :=
  raw.name = ofString a.name ∧ decodeContent raw.value = .ok a.value

theorem decodes_of_decodeAttributes {raw : List RawAttribute}
    (h : decodeAttributes raw = .ok attributes) : List.Forall₂ Decodes raw attributes := by
  induction raw generalizing attributes with
  | nil =>
      cases h
      exact .nil
  | cons a raw ih =>
      unfold decodeAttributes at h
      obtain ⟨value, hvalue, h⟩ := exists_of_bind_eq_ok h
      obtain ⟨name, hname, h⟩ := exists_of_bind_eq_ok h
      obtain ⟨rest, hrest, h⟩ := exists_of_bind_eq_ok h
      cases h
      exact .cons ⟨eq_of_decodeMarkup hname, hvalue⟩ (ih hrest)

theorem map_name_of_decodes {raw : List RawAttribute} (h : List.Forall₂ Decodes raw attributes) :
    raw.map (·.name) = (attributes.map (·.name)).map ofString := by
  induction h with
  | nil => rfl
  | cons ha _ ih => rw [List.map_cons, List.map_cons, List.map_cons, ih, ha.1]

/-- What a tag reads of which the start tag is known. -/
theorem readStartTag_eq_ok {scope : Scope} {content : RawText} {tag : StartTag}
    (h : readStartTag scope content = .ok tag) :
    (splitTag content).1 = ofString tag.name ∧
      resolveName scope (splitTag content).1 = .ok tag.ns ∧
      (tag.attributes.map (·.name)).Nodup ∧
      ∃ raw, readAttributes false (splitTag content).2 = (raw, none) ∧
        List.Forall₂ Decodes raw tag.attributes := by
  obtain ⟨rawName, rest, hsplit⟩ : ∃ rawName rest, splitTag content = (rawName, rest) := ⟨_, _, rfl⟩
  obtain ⟨raw, fault, hread⟩ : ∃ raw fault, readAttributes true rest = (raw, fault) := ⟨_, _, rfl⟩
  simp only [readStartTag, hsplit, hread] at h
  obtain ⟨ns, hns, h⟩ := exists_of_bind_eq_ok h
  obtain ⟨name, hname, h⟩ := exists_of_bind_eq_ok h
  obtain ⟨attributes, hattributes, h⟩ := exists_of_bind_eq_ok h
  cases fault with
  | some fault => cases h
  | none =>
      cases h
      obtain ⟨hlenient, hnodup, -⟩ := readAttributesFrom_distinct hread
      have hdecodes := decodes_of_decodeAttributes hattributes
      rw [map_name_of_decodes hdecodes] at hnodup
      rw [hsplit]
      exact ⟨eq_of_decodeMarkup hname, hns, List.Nodup.of_map _ hnodup, raw, hlenient, hdecodes⟩

/-! ### Instructions -/

/-- A declaration gives a document start. -/
theorem readDeclaration_eq_ok {rest : RawText} {token : Token}
    (h : readDeclaration rest = .ok token) :
    ∃ version encoding standalone, token = .startDocument version encoding standalone := by
  unfold readDeclaration at h
  obtain ⟨version, -, h⟩ := exists_of_bind_eq_ok h
  obtain ⟨raw, -, h⟩ := exists_of_bind_eq_ok h
  have hrest : ∀ encoding : Option String, (do
      let standalone ← declaredValue "standalone" (readAttributes false ⟨3, rest⟩)
      let version ← decodeMarkup version
      .ok (.startDocument version encoding (standalone.map fun raw => raw = .ofString "yes"))) =
        Except.ok token →
      ∃ version encoding standalone, token = .startDocument version encoding standalone := by
    intro encoding h
    obtain ⟨standalone, -, h⟩ := exists_of_bind_eq_ok h
    obtain ⟨version, -, h⟩ := exists_of_bind_eq_ok h
    cases h
    exact ⟨_, _, _, rfl⟩
  cases raw with
  | none => exact hrest none h
  | some raw =>
      obtain ⟨encoding, -, h⟩ := exists_of_bind_eq_ok h
      exact hrest encoding h

/-- What an instruction says when it does not begin like a declaration. -/
theorem instruction_parts {content : RawText} {target data : String}
    (htarget : decodeMarkup (splitTag content).1 = .ok target)
    (hdata : decodeMarkup (splitTag content).2.text = .ok data)
    (hword : ∀ rest, RawText.after? "xml".toList content = some rest →
      ∃ x ∈ rest.head?, x.satisfies isSpace = false) :
    target ≠ "xml" ∧ (∀ c ∈ (trimStart data).toList.head?, isBlank c = false) ∧
      (trimStart data).toList.map .char <:+: content := by
  have htake := eq_of_decodeMarkup htarget
  have hdrop := eq_of_decodeMarkup hdata
  have happ : ofString target ++ ofString data = content := by
    rw [← htake, ← hdrop]
    exact List.takeWhile_append_dropWhile
  refine ⟨?_, ?_, ?_⟩
  · rintro rfl
    -- The target ends at a space, but the word `xml` does not.
    obtain ⟨x, hx, hspace⟩ := hword (ofString data) (RawText.after?_eq_some_iff.mpr happ.symm)
    have hstop := List.head?_dropWhile_not (fun x : Symbol => !x.satisfies isSpace) content
    rw [show content.dropWhile _ = ofString data from hdrop, hx] at hstop
    simp [hspace] at hstop
  · intro c hc
    rw [trimStart, String.toList_ofList] at hc
    have hstop := List.head?_dropWhile_not isBlank data.toList
    rw [hc] at hstop
    simpa using hstop
  · rw [trimStart, String.toList_ofList, ← happ]
    exact ((List.dropWhile_suffix isBlank).map Symbol.char).isInfix.trans
      (List.suffix_append _ _).isInfix

/-- What is no declaration is an instruction.  Its target is not the one of a declaration, and its
data does not begin with a blank. -/
theorem readInstruction_eq_ok {content : RawText} {token : Token}
    (h : readInstruction content = .ok token) :
    (∃ version encoding standalone, token = .startDocument version encoding standalone) ∨
      ∃ target data, token = .instruction target data ∧ target ≠ "xml" ∧
        (∀ c ∈ data.toList.head?, isBlank c = false) ∧
      data.toList.map .char <:+: content := by
  let ordinary : Except TokenError Token := do
    let target ← decodeMarkup (splitTag content).1
    let data ← decodeMarkup (splitTag content).2.text
    .ok (.instruction target (trimStart data))
  have hordinary (hword : ∀ rest, RawText.after? "xml".toList content = some rest →
      ∃ x ∈ rest.head?, x.satisfies isSpace = false) (h : ordinary = .ok token) :
      ∃ target data, token = .instruction target data ∧ target ≠ "xml" ∧
        (∀ c ∈ data.toList.head?, isBlank c = false) ∧ data.toList.map .char <:+: content := by
    obtain ⟨target, htarget, h⟩ := exists_of_bind_eq_ok h
    obtain ⟨data, hdata, h⟩ := exists_of_bind_eq_ok h
    cases h
    exact ⟨target, trimStart data, rfl, instruction_parts htarget hdata hword⟩
  rcases hafter : RawText.after? "xml".toList content with _ | _ | ⟨x, rest⟩
  · have hread : readInstruction content = ordinary := by
      simp only [readInstruction, hafter]
      rfl
    refine Or.inr (hordinary (fun rest' hrest' => ?_) (hread.symm.trans h))
    cases hafter.symm.trans hrest'
  · have hread : readInstruction content = readDeclaration [] := by
      simp only [readInstruction, hafter]
    exact Or.inl (readDeclaration_eq_ok (hread.symm.trans h))
  · have hread : readInstruction content =
        if x.satisfies isSpace then readDeclaration (x :: rest) else ordinary := by
      simp only [readInstruction, hafter]
      rfl
    by_cases hspace : x.satisfies isSpace = true
    · rw [if_pos hspace] at hread
      exact Or.inl (readDeclaration_eq_ok (hread.symm.trans h))
    · rw [if_neg hspace] at hread
      refine Or.inr (hordinary (fun rest' hrest' => ⟨x, ?_, by simpa using hspace⟩)
        (hread.symm.trans h))
      rw [hafter] at hrest'
      rw [← Option.some.inj hrest']
      rfl

end Markup

end PersistenceMapping
