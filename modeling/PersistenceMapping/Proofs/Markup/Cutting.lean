/-
Cutting what has been written.

A piece ends where its closing delimiter comes first.  Behind text in which a delimiter does not
occur that is where the delimiter was written, because it ends in a character that it has nowhere
else: no occurrence of it can begin in the text and end in the delimiter
(`splitAtFirst_closing`).  A tag ends at its bracket because brackets and quotes are in no name,
and in a value only escaped (`passedOver_tagText`).
-/
import Mathlib.Data.List.Basic
import PersistenceMapping.Markup.Piece
import PersistenceMapping.Proofs.Markup.Escaped
import PersistenceMapping.Tree.Render

namespace PersistenceMapping

/-- A name that markup can tell from what stands around it. -/
structure IsName (name : String) : Prop where
  nonempty : name ≠ ""
  chars : ∀ c ∈ name.toList, isBlank c = false ∧ c ∉ ['<', '>', '/', '=', '&', '?', '!', '"', '\'']

instance : DecidablePred IsName := fun name =>
  decidable_of_iff (name ≠ "" ∧ name.toList.all fun c =>
      !(isBlank c || ['<', '>', '/', '=', '&', '?', '!', '"', '\''].contains c)) <| by
    constructor
    · rintro ⟨hne, hall⟩
      exact ⟨hne, by simpa using hall⟩
    · intro h
      exact ⟨h.nonempty, by simpa using h.chars⟩

namespace RawText

variable {s : String} {word cs : List Char} {t rest : RawText}

/-! ### Symbols of strings -/

theorem chars_injective : Function.Injective (List.map Symbol.char) :=
  List.map_injective_iff.mpr fun _ _ h => Symbol.char.inj h

@[simp] theorem ofString_append (a b : String) : ofString (a ++ b) = ofString a ++ ofString b := by
  simp [ofString]

theorem ofString_injective {a b : String} (h : ofString a = ofString b) : a = b := by
  exact String.toList_inj.mp (chars_injective h)

theorem ofString_eq_nil_iff : ofString s = [] ↔ s = "" := by
  simp [ofString]

theorem mem_ofString {x : Symbol} : x ∈ ofString s ↔ ∃ c ∈ s.toList, x = .char c := by
  simp only [ofString, List.mem_map, eq_comm]

/-! ### Words -/

theorem after?_eq_some_iff : after? word t = some rest ↔ t = word.map .char ++ rest := by
  induction word generalizing t with
  | nil => simp [after?]
  | cons c word ih =>
      cases t with
      | nil => simp [after?]
      | cons x t =>
          cases x with
          | stray b => simp [after?]
          | char d =>
              by_cases hcd : c = d
              · simp [after?, hcd, ih]
              · simp [after?, hcd, Ne.symm hcd]

/-- A word is found where it stands if it does not begin in the text before it. -/
theorem splitAtFirst_go (hword : word ≠ [])
    (h : ∀ u, u ≠ [] → u <:+ cs → ∀ rest, u.map .char ++ (word.map .char ++ t) ≠
      word.map .char ++ rest) (seen : RawText) :
    splitAtFirst.go word seen (cs.map .char ++ (word.map .char ++ t)) =
      some (seen.reverse ++ cs.map .char, t) := by
  induction cs generalizing seen with
  | nil =>
      have hfound : after? word (word.map .char ++ t) = some t := after?_eq_some_iff.mpr rfl
      obtain ⟨c, word, rfl⟩ := List.exists_cons_of_ne_nil hword
      simp only [List.map_cons, List.cons_append] at hfound
      simp [splitAtFirst.go, hfound]
  | cons c cs ih =>
      have hnone : after? word ((c :: cs).map .char ++ (word.map .char ++ t)) = none := by
        rw [Option.eq_none_iff_forall_ne_some]
        intro rest hrest
        exact h (c :: cs) (by simp) (List.suffix_refl _) rest (after?_eq_some_iff.mp hrest)
      simp only [List.map_cons, List.cons_append] at hnone ⊢
      rw [splitAtFirst.go, hnone]
      simp only
      rw [ih fun u hu hsuffix => h u hu (hsuffix.trans (List.suffix_cons c cs))]
      simp

/-- What begins in some text and goes on in a delimiter that ends in `z`, which it has nowhere
else, is no such delimiter unless it ends in the text already. -/
theorem prefix_of_closing {α : Type} [DecidableEq α] {u v t rest : List α} {z : α} (hz : z ∉ v)
    (hu : u ≠ []) (h : u ++ (v ++ z :: t) = v ++ z :: rest) : v ++ [z] <+: u := by
  rcases List.append_eq_append_iff.mp h with ⟨m, hv, hm⟩ | ⟨m, rfl, hm⟩
  · -- Up to the first `z` there is `v` on the one side and less than it on the other.
    have hleft : (v ++ z :: t).takeWhile (· ≠ z) = v :=
      takeWhile_stretch (by simpa using fun x hx => ne_of_mem_of_not_mem hx hz) (by simp)
    have hzm : z ∉ m := fun hmem => hz (by simp [hv, hmem])
    have hright : (m ++ z :: rest).takeWhile (· ≠ z) = m :=
      takeWhile_stretch (by simpa using fun x hx => ne_of_mem_of_not_mem hx hzm) (by simp)
    rw [hm, hright] at hleft
    rw [hleft] at hv
    exact absurd (List.self_eq_append_left.mp hv) hu
  · cases m with
    | nil =>
        cases v with
        | nil => exact absurd rfl hu
        | cons x v => exact absurd (List.cons.inj hm).1 (by simp_all)
    | cons x m =>
        obtain ⟨rfl, -⟩ := List.cons.inj hm
        exact ⟨m, by simp⟩

/-- A delimiter that ends in a character of its own is found behind any text in which it does
not occur. -/
theorem splitAtFirst_closing {v : List Char} {z : Char} (hz : z ∉ v)
    (hcs : ¬ (v ++ [z]) <:+: cs) (t : RawText) :
    splitAtFirst (v ++ [z]) (cs.map .char ++ ((v ++ [z]).map .char ++ t)) =
      some (cs.map .char, t) := by
  refine splitAtFirst_go (by simp) ?_ []
  intro u hu hsuffix rest heq
  have hbegins : v.map .char ++ [.char z] <+: u.map Symbol.char := by
    have heq' : u.map .char ++ (v.map .char ++ .char z :: t) = v.map .char ++ .char z :: rest := by
      simpa using heq
    exact prefix_of_closing (by simpa using hz) (by simpa using hu) heq'
  obtain ⟨w, hw⟩ := hbegins
  rw [← List.map_singleton, ← List.map_append] at hw
  obtain ⟨_, w, rfl, hv, -⟩ := List.map_eq_append_iff.mp hw.symm
  rw [chars_injective hv] at hsuffix
  exact hcs ((List.prefix_append _ w).isInfix.trans hsuffix.isInfix)

end RawText

theorem IsName.plain {name : String} (h : IsName name) {x : Symbol}
    (hx : x ∈ RawText.ofString name) : ∃ c, x = .char c ∧ isBlank c = false ∧
      c ≠ '<' ∧ c ≠ '>' ∧ c ≠ '/' ∧ c ≠ '=' ∧ c ≠ '&' ∧ c ≠ '?' ∧ c ≠ '!' ∧ c ≠ '"' ∧
      c ≠ '\'' := by
  obtain ⟨c, hc, rfl⟩ := RawText.mem_ofString.mp hx
  have hchars := h.chars c hc
  simp only [List.mem_cons, List.not_mem_nil, or_false, not_or] at hchars
  exact ⟨c, rfl, hchars⟩

namespace Markup

open RawText (ofString)

variable {t : RawText} {name : String} {attributes : List Attribute}

/-! ### Tags -/

/-- Looking for the bracket that closes a tag goes over this text and is where it was. -/
def PassedOver (u : RawText) : Prop :=
  ∀ seen t, splitAtClose.go none seen (u ++ t) = splitAtClose.go none (u.reverse ++ seen) t

namespace PassedOver

variable {u v : RawText}

theorem append (hu : PassedOver u) (hv : PassedOver v) : PassedOver (u ++ v) := by
  intro seen t
  rw [List.append_assoc, hu, hv, List.reverse_append, List.append_assoc]

theorem plain (h : ∀ x ∈ u, x ≠ .char '>' ∧ x ≠ .char '"' ∧ x ≠ .char '\'') : PassedOver u := by
  induction u with
  | nil => exact fun _ _ => rfl
  | cons x u ih =>
      intro seen t
      obtain ⟨h1, h2, h3⟩ := h x (by simp)
      rw [List.cons_append, splitAtClose.go]
      simp only [h1, h2, h3, if_false]
      rw [ih fun y hy => h y (by simp [hy])]
      simp

/-- What stands between double quotes is passed over whatever else is in it. -/
theorem quoted (h : ∀ x ∈ u, x ≠ .char '"') : PassedOver (.char '"' :: u ++ [.char '"']) := by
  have hinside : ∀ (u : RawText) (seen t : RawText), (∀ x ∈ u, x ≠ .char '"') →
      splitAtClose.go (some '"') seen (u ++ .char '"' :: t) =
        splitAtClose.go none (.char '"' :: u.reverse ++ seen) t := by
    intro u
    induction u with
    | nil =>
        intro seen t _
        simp [splitAtClose.go]
    | cons x u ih =>
        intro seen t h
        rw [List.cons_append, splitAtClose.go]
        simp only [h x (by simp), if_false]
        rw [ih _ _ fun y hy => h y (by simp [hy])]
        simp
  intro seen t
  have := hinside u (.char '"' :: seen) t h
  simpa [splitAtClose.go] using this

theorem ofName (h : IsName name) : PassedOver (ofString name) := by
  refine plain fun x hx => ?_
  obtain ⟨c, rfl, -, -, hclose, -, -, -, -, -, hdouble, hsingle⟩ := h.plain hx
  simp [hclose, hdouble, hsingle]

end PassedOver

/-- An attribute as the symbols of which it is written. -/
theorem ofString_attributeText (a : Attribute) :
    ofString (Mark.attributeText a) = .char ' ' :: ofString a.name ++ .char '=' ::
      (.char '"' :: ofString (Reference.escape a.value) ++ [.char '"']) := by
  have hspace : ofString " " = [.char ' '] := rfl
  have hopen : ofString "=\"" = [.char '=', .char '"'] := rfl
  have hclose : ofString "\"" = [.char '"'] := rfl
  simp [Mark.attributeText, hspace, hopen, hclose]

/-- Attributes as the symbols of which they are written. -/
def attributesText (attributes : List Attribute) : RawText :=
  attributes.flatMap fun a => ofString (Mark.attributeText a)

theorem ofString_tagText (name : String) (attributes : List Attribute) :
    ofString (Mark.tagText name attributes) = ofString name ++ attributesText attributes := by
  rw [Mark.tagText, RawText.ofString_append]
  congr 1
  simp [ofString, attributesText, String.toList_join, List.map_flatMap, List.flatMap_map]

theorem passedOver_tagText (hname : IsName name) (hattributes : ∀ a ∈ attributes, IsName a.name) :
    PassedOver (ofString (Mark.tagText name attributes)) := by
  rw [ofString_tagText]
  refine (PassedOver.ofName hname).append ?_
  induction attributes with
  | nil => exact fun _ _ => rfl
  | cons a attributes ih =>
      refine PassedOver.append ?_ (ih fun b hb => hattributes b (by simp [hb]))
      show PassedOver (ofString (Mark.attributeText a))
      rw [ofString_attributeText]
      have hspace : PassedOver [.char ' '] := PassedOver.plain (by simp)
      have hsign : PassedOver [.char '='] := PassedOver.plain (by simp)
      have hvalue := PassedOver.quoted (u := ofString (Reference.escape a.value)) <| by
        intro x hx
        obtain ⟨c, hc, rfl⟩ := RawText.mem_ofString.mp hx
        simp [(Reference.escape_plain hc).2.2.1]
      have hname := PassedOver.ofName (hattributes a (by simp))
      have := ((hspace.append hname).append hsign).append hvalue
      simpa using this

theorem splitAtClose_of_passedOver {u : RawText} (h : PassedOver u) (t : RawText) :
    splitAtClose (u ++ .char '>' :: t) = some (u, t) := by
  rw [splitAtClose, h]
  simp [splitAtClose.go]

/-- A tag does not end in a slash of its own. -/
theorem getLast?_tagText (hname : IsName name) (attributes : List Attribute) :
    (ofString (Mark.tagText name attributes)).getLast? ≠ some (.char '/') := by
  rw [ofString_tagText]
  rcases List.eq_nil_or_concat' attributes with rfl | ⟨before, a, rfl⟩
  · intro hlast
    rw [attributesText, List.flatMap_nil, List.append_nil] at hlast
    obtain ⟨c, hc, -, -, -, hslash, -⟩ := hname.plain (List.mem_of_getLast? hlast)
    exact hslash (Symbol.char.inj hc).symm
  · obtain ⟨u, hu⟩ : ∃ u, ofString (Mark.attributeText a) = u ++ [.char '"'] :=
      ⟨.char ' ' :: ofString a.name ++
        .char '=' :: .char '"' :: ofString (Reference.escape a.value),
        by simp [ofString_attributeText]⟩
    rw [attributesText, List.flatMap_append, List.flatMap_singleton, hu, ← List.append_assoc,
      ← List.append_assoc, List.getLast?_concat]
    decide

/-! ### Constructs -/

/-- What stands behind an opening bracket is a tag unless its first character says otherwise. -/
theorem cutMarkup_tag (hname : IsName name) (u t : RawText)
    (h : PassedOver (ofString name ++ u)) :
    cutMarkup (ofString name ++ u ++ .char '>' :: t) = .piece (.tag (ofString name ++ u)) t := by
  obtain ⟨x, rest, hx⟩ := List.exists_cons_of_ne_nil
    (mt RawText.ofString_eq_nil_iff.mp hname.nonempty)
  obtain ⟨c, rfl, -, -, -, hslash, -, -, hquestion, hmark, -⟩ :=
    hname.plain (x := x) (by rw [hx]; simp)
  have hsplit := splitAtClose_of_passedOver h t
  rw [hx] at hsplit ⊢
  simp only [List.cons_append] at hsplit ⊢
  unfold cutMarkup
  split
  · rename_i heq
    exact absurd (Symbol.char.inj (List.cons.inj heq).1) hmark
  · rename_i heq
    exact absurd (Symbol.char.inj (List.cons.inj heq).1) hquestion
  · rename_i heq
    exact absurd (Symbol.char.inj (List.cons.inj heq).1) hslash
  · rw [hsplit]
    rfl

theorem cut_opening (hname : IsName name) (hattributes : ∀ a ∈ attributes, IsName a.name)
    (t : RawText) :
    cut (ofString (Mark.opening name attributes).write ++ t) =
      .piece (.startTag (ofString (Mark.tagText name attributes))) t := by
  have hpassed := passedOver_tagText hname hattributes
  have htag : Piece.tag (ofString (Mark.tagText name attributes)) =
      .startTag (ofString (Mark.tagText name attributes)) := by
    rw [Piece.tag, if_neg (getLast?_tagText hname attributes)]
  have hcut := cutMarkup_tag hname (attributesText attributes) t (ofString_tagText _ _ ▸ hpassed)
  rw [← ofString_tagText, htag] at hcut
  have hopen : ofString "<" = [.char '<'] := rfl
  have hclose : ofString ">" = [.char '>'] := rfl
  simpa [Mark.write, hopen, hclose, cut] using hcut

theorem cut_empty (hname : IsName name) (hattributes : ∀ a ∈ attributes, IsName a.name)
    (t : RawText) :
    cut (ofString (Mark.empty name attributes).write ++ t) =
      .piece (.emptyTag (ofString (Mark.tagText name attributes))) t := by
  have hslash : PassedOver [.char '/'] := PassedOver.plain (by simp)
  have hpassed := (passedOver_tagText hname hattributes).append hslash
  rw [ofString_tagText, List.append_assoc] at hpassed
  have htag : Piece.tag (ofString (Mark.tagText name attributes) ++ [.char '/']) =
      .emptyTag (ofString (Mark.tagText name attributes)) := by
    rw [Piece.tag, List.getLast?_concat, if_pos rfl, List.dropLast_concat]
  have hcut := cutMarkup_tag hname _ t hpassed
  rw [← List.append_assoc, ← ofString_tagText, htag] at hcut
  have hopen : ofString "<" = [.char '<'] := rfl
  have hclose : ofString "/>" = [.char '/', .char '>'] := rfl
  simpa [Mark.write, hopen, hclose, cut] using hcut

theorem cut_closing (hname : IsName name) (t : RawText) :
    cut (ofString (Mark.closing name).write ++ t) = .piece (.endTag (ofString name)) t := by
  have hsplit := splitAtClose_of_passedOver (PassedOver.ofName hname) t
  have hopen : ofString "</" = [.char '<', .char '/'] := rfl
  have hclose : ofString ">" = [.char '>'] := rfl
  simp [Mark.write, hopen, hclose, cut, cutMarkup, hsplit, Cut.closed]

/-- Character data ends where markup begins or nothing is left. -/
theorem cut_text {content : String} (hcontent : content ≠ "")
    (ht : ∀ x ∈ t.head?, x = .char '<') :
    cut (ofString (Mark.text content).write ++ t) =
      .piece (.text (ofString (Reference.escape content))) t := by
  show cut (ofString (Reference.escape content) ++ t) = _
  have hplain : ∀ x ∈ ofString (Reference.escape content), decide (x ≠ .char '<') = true := by
    intro x hx
    obtain ⟨c, hc, rfl⟩ := RawText.mem_ofString.mp hx
    simp [(Reference.escape_plain hc).1]
  have hstop : ∀ x ∈ t.head?, decide (x ≠ .char '<') = false := by
    intro x hx
    simp [ht x hx]
  have htake := takeWhile_stretch hplain hstop
  have hdrop := dropWhile_stretch hplain hstop
  obtain ⟨x, u, hu⟩ := List.exists_cons_of_ne_nil
    (mt RawText.ofString_eq_nil_iff.mp (Reference.escape_ne_empty hcontent))
  unfold cut
  split
  · rename_i heq
    have hx := hplain x (by simp [hu])
    rw [hu, List.cons_append] at heq
    simp [(List.cons.inj heq).1] at hx
  · rw [htake, hdrop]

theorem cut_cdata {content : String} (hcontent : ¬ "]]>".toList <:+: content.toList) (t : RawText) :
    cut (ofString (Mark.cdata content).write ++ t) = .piece (.cdata (ofString content)) t := by
  have hinside : ¬ [']', ']', '>'] <:+: "[CDATA[".toList ++ content.toList := by
    have hword : "[CDATA[".toList = ['[', 'C', 'D', 'A', 'T', 'A', '['] := rfl
    simpa [hword, List.infix_cons_iff, List.cons_prefix_cons] using hcontent
  have hsplit : RawText.splitAtFirst "]]>".toList (ofString "[CDATA[" ++ (ofString content ++
      .char ']' :: .char ']' :: .char '>' :: t)) =
      some (ofString "[CDATA[" ++ ofString content, t) := by
    have := RawText.splitAtFirst_closing (v := [']', ']']) (by decide) hinside t
    simpa [ofString] using this
  have hopen : ofString "<![CDATA[" = .char '<' :: .char '!' :: ofString "[CDATA[" := rfl
  have hclose : ofString "]]>" = [.char ']', .char ']', .char '>'] := rfl
  have hafter : RawText.after? "[CDATA[".toList (ofString "[CDATA[" ++ ofString content) =
      some (ofString content) := RawText.after?_eq_some_iff.mpr rfl
  have hcut : cutDeclaration (ofString "[CDATA[" ++ (ofString content ++
      .char ']' :: .char ']' :: .char '>' :: t)) = .piece (.cdata (ofString content)) t := by
    show Cut.closed _ _ (RawText.splitAtFirst "]]>".toList _) = _
    rw [hsplit, Cut.closed, hafter]
    rfl
  simpa [Mark.write, hopen, hclose, cut, cutMarkup] using hcut

theorem cut_comment {content : String} (hcontent : ¬ "-->".toList <:+: content.toList)
    (t : RawText) :
    cut (ofString (Mark.comment content).write ++ t) = .piece (.comment (ofString content)) t := by
  have hsplit : RawText.splitAtFirst "-->".toList (ofString content ++
      .char '-' :: .char '-' :: .char '>' :: t) = some (ofString content, t) :=
    RawText.splitAtFirst_closing (v := ['-', '-']) (by decide) hcontent t
  have hopen : ofString "<!--" = [.char '<', .char '!', .char '-', .char '-'] := rfl
  have hclose : ofString "-->" = [.char '-', .char '-', .char '>'] := rfl
  have hcut : cutDeclaration (.char '-' :: .char '-' :: (ofString content ++
      .char '-' :: .char '-' :: .char '>' :: t)) = .piece (.comment (ofString content)) t := by
    simp only [cutDeclaration, hsplit, Cut.closed, if_true]
  simpa [Mark.write, hopen, hclose, cut, cutMarkup] using hcut

/-- An instruction, or a declaration, is all that stands between the question marks. -/
theorem cut_instruction {content : String} (hne : content ≠ "")
    (hfirst : content.toList.head? ≠ some '>') (hcontent : ¬ "?>".toList <:+: content.toList)
    (t : RawText) :
    cut (ofString ("<?" ++ content ++ "?>") ++ t) = .piece (.instruction (ofString content)) t := by
  have hsplit : RawText.splitAtFirst "?>".toList (ofString content ++
      .char '?' :: .char '>' :: t) = some (ofString content, t) :=
    RawText.splitAtFirst_closing (v := ['?']) (by decide) hcontent t
  have hopen : ofString "<?" = [.char '<', .char '?'] := rfl
  have hclose : ofString "?>" = [.char '?', .char '>'] := rfl
  have hcut : cutMarkup (.char '?' :: (ofString content ++ .char '?' :: .char '>' :: t)) =
      .piece (.instruction (ofString content)) t := by
    obtain ⟨c, rest, hc⟩ := List.exists_cons_of_ne_nil (mt String.toList_eq_nil_iff.mp hne)
    have hsymbols : ofString content = .char c :: rest.map .char := by
      rw [ofString, hc, List.map_cons]
    have hnot : ∀ u, ofString content ++ .char '?' :: .char '>' :: t ≠ .char '>' :: u := by
      intro u heq
      rw [hsymbols, List.cons_append] at heq
      rw [hc, Symbol.char.inj (List.cons.inj heq).1] at hfirst
      exact hfirst rfl
    unfold cutMarkup
    split
    · rename_i heq
      cases heq
    · rename_i rest' heq
      obtain ⟨-, rfl⟩ := List.cons.inj heq
      split
      · rename_i heq'
        exact absurd heq' (hnot _)
      · rw [hsplit]
        rfl
    · rename_i heq
      cases heq
    · rename_i hquestion _
      exact absurd rfl (hquestion _)
  simpa [hopen, hclose, cut] using hcut

end Markup

end PersistenceMapping
