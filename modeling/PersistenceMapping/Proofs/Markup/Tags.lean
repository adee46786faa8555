/-
Reading what stands inside a tag that has been written.

The name of a tag ends at the first space, the name of an attribute at its equal sign and a value
at its second quote, and none of these is in a name or an escaped value.  So the attributes come
back one by one, each under its own name and with its value escaped (`readAttributes_text`), and
decoding them gives the attributes that were written.

Namespaces that are declared do not matter to what else is read, as long as declaring them is
permitted and what is declared is text (`Scope.IsText`).
-/
import PersistenceMapping.Markup.Reader
import PersistenceMapping.Proofs.Markup.Cutting

namespace PersistenceMapping

namespace Markup

open RawText (ofString)

variable {t : RawText} {name : String} {attributes : List Attribute}

/-! ### Attributes -/

theorem isSpace_of_name (h : IsName name) {x : Symbol} (hx : x ∈ ofString name) :
    x.satisfies isSpace = false ∧ endsName x = false := by
  obtain ⟨c, rfl, hblank, -, -, -, hsign, -⟩ := h.plain hx
  have hspace : isSpace c = false := by
    by_contra hc
    rw [isBlank_of_isSpace (by simpa using hc)] at hblank
    cases hblank
  exact ⟨hspace, by simp [endsName, Symbol.satisfies, hspace, hsign]⟩

/-- Spaces end where something else begins. -/
theorem skipSpaces_of_head {x : Symbol} (hx : x.satisfies isSpace = false) (p : Nat) (t : RawText) :
    (⟨p, x :: t⟩ : Located).skipSpaces = ⟨p, x :: t⟩ ∧
      ∃ q, (⟨p, .char ' ' :: x :: t⟩ : Located).skipSpaces = ⟨q, x :: t⟩ := by
  have hspace : (Symbol.char ' ').satisfies isSpace = true := rfl
  constructor
  · simp [Located.skipSpaces, Located.span, hx, RawText.size]
  · simp [Located.skipSpaces, Located.span, hx, hspace]

theorem readName_ok {u : RawText} (hu : ∀ x ∈ u, endsName x = false) (position : Nat)
    (first : Symbol) (t : RawText) :
    ∃ p, readName position first (u ++ .char '=' :: t) = .ok (first :: u, ⟨p, t⟩) := by
  have hstretch : ∀ x ∈ u, (!endsName x) = true := by simpa using hu
  have hstop : ∀ x ∈ (Symbol.char '=' :: t).head?, (!endsName x) = false := by
    simp [endsName, Symbol.satisfies]
  simp only [readName, Located.span, takeWhile_stretch hstretch hstop,
    dropWhile_stretch hstretch hstop]
  rw [(skipSpaces_of_head rfl _ _).1]
  exact ⟨_, rfl⟩

theorem readValue_ok {u : RawText} (hu : ∀ x ∈ u, x ≠ .char '"') (position : Nat) (t : RawText) :
    ∃ p, readValue ⟨position, .char '"' :: (u ++ .char '"' :: t)⟩ = .ok (u, ⟨p, t⟩) := by
  have hstretch : ∀ x ∈ u, decide (x ≠ .char '"') = true := by simpa using hu
  have hstop : ∀ x ∈ (Symbol.char '"' :: t).head?, decide (x ≠ .char '"') = false := by simp
  rw [readValue, (skipSpaces_of_head rfl _ _).1]
  simp only [Located.span, takeWhile_stretch hstretch hstop, dropWhile_stretch hstretch hstop]
  exact ⟨_, rfl⟩

/-- One step of reading attributes, where everything is as it has to be. -/
theorem readAttributesFrom_cons {seen : Option (List RawAttribute)} {t afterName rest : Located}
    {position : Nat} {first : Symbol} {tail name value : RawText}
    (hk : t.skipSpaces = ⟨position, first :: tail⟩)
    (hn : readName position first tail = .ok (name, afterName))
    (hseen : (seen.getD []).find? (·.name == name) = none)
    (hv : readValue afterName = .ok (value, rest)) :
    readAttributesFrom seen t =
      (⟨position, name, value⟩ ::
        (readAttributesFrom (seen.map (⟨position, name, value⟩ :: ·)) rest).1,
        (readAttributesFrom (seen.map (⟨position, name, value⟩ :: ·)) rest).2) := by
  have htext : t.skipSpaces.text = first :: tail := by rw [hk]
  obtain rfl : t.skipSpaces.position = position := by rw [hk]
  rw [readAttributesFrom]
  split
  · rename_i heq
    rw [htext] at heq
    cases heq
  · rename_i heq
    rw [htext] at heq
    cases heq
    dsimp only
    split
    · rename_i heq
      rw [hn] at heq
      cases heq
    · rename_i heq
      rw [hn] at heq
      cases heq
      rw [hseen]
      dsimp only
      split
      · rename_i heq
        rw [hv] at heq
        cases heq
      · rename_i heq
        rw [hv] at heq
        cases heq
        rfl

/-- An attribute as it stands in a tag. -/
def Written (raw : RawAttribute) (a : Attribute) : Prop :=
  raw.name = ofString a.name ∧ raw.value = ofString (Reference.escape a.value)

/-- The first of the attributes of a tag is read up to its second quote. -/
theorem readAttributesFrom_attribute {a : Attribute} (ha : IsName a.name)
    (seen : Option (List RawAttribute)) (hseen : ∀ b ∈ seen.getD [], b.name ≠ ofString a.name)
    (p : Nat) (t : RawText) :
    ∃ raw q, Written raw a ∧
      readAttributesFrom seen ⟨p, ofString (Mark.attributeText a) ++ t⟩ =
        (raw :: (readAttributesFrom (seen.map (raw :: ·)) ⟨q, t⟩).1,
          (readAttributesFrom (seen.map (raw :: ·)) ⟨q, t⟩).2) := by
  obtain ⟨first, tail, hname⟩ := List.exists_cons_of_ne_nil
    (mt RawText.ofString_eq_nil_iff.mp ha.nonempty)
  have hplain : ∀ x ∈ first :: tail, x.satisfies isSpace = false ∧ endsName x = false := by
    intro x hx
    rw [← hname] at hx
    exact isSpace_of_name ha hx
  have hvalue : ∀ x ∈ ofString (Reference.escape a.value), x ≠ .char '"' := by
    intro x hx
    obtain ⟨c, hc, rfl⟩ := RawText.mem_ofString.mp hx
    simp [(Reference.escape_plain hc).2.2.1]
  have hfind : (seen.getD []).find? (·.name == first :: tail) = none := by
    rw [List.find?_eq_none]
    intro b hb
    rw [← hname]
    simpa using hseen b hb
  -- The text is taken apart behind the space, behind the equal sign and behind the value.
  have htext : ofString (Mark.attributeText a) ++ t = .char ' ' :: first :: (tail ++ .char '=' ::
      .char '"' :: (ofString (Reference.escape a.value) ++ .char '"' :: t)) := by
    simp [ofString_attributeText, hname]
  obtain ⟨q, hskip⟩ := (skipSpaces_of_head (hplain first (by simp)).1 p (tail ++ .char '=' ::
    .char '"' :: (ofString (Reference.escape a.value) ++ .char '"' :: t))).2
  obtain ⟨q1, hn⟩ := readName_ok (u := tail) (fun x hx => (hplain x (by simp [hx])).2) q first
    (.char '"' :: (ofString (Reference.escape a.value) ++ .char '"' :: t))
  obtain ⟨q2, hv⟩ := readValue_ok hvalue q1 t
  have hread := readAttributesFrom_cons hskip hn hfind hv
  rw [← htext] at hread
  have hwritten : Written ⟨q, first :: tail, ofString (Reference.escape a.value)⟩ a := by
    unfold Written
    simp only [hname, and_self]
  exact ⟨_, q2, hwritten, hread⟩

theorem readAttributesFrom_text (hnames : ∀ a ∈ attributes, IsName a.name)
    (hnodup : (attributes.map (·.name)).Nodup) (seen : Option (List RawAttribute))
    (hseen : ∀ b ∈ seen.getD [], ∀ a ∈ attributes, b.name ≠ ofString a.name) (p : Nat) :
    ∃ raw, readAttributesFrom seen ⟨p, attributesText attributes⟩ = (raw, none) ∧
      List.Forall₂ Written raw attributes := by
  induction attributes generalizing seen p with
  | nil =>
      refine ⟨[], ?_, .nil⟩
      rw [readAttributesFrom]
      rfl
  | cons a attributes ih =>
      rw [List.map_cons, List.nodup_cons] at hnodup
      obtain ⟨raw, q, hraw, hstep⟩ := readAttributesFrom_attribute (hnames a (by simp)) seen
        (fun b hb => hseen b hb a (by simp)) p (attributesText attributes)
      have hseen' : ∀ b ∈ (seen.map (raw :: ·)).getD [], ∀ c ∈ attributes,
          b.name ≠ ofString c.name := by
        intro b hb c hc
        cases seen with
        | none => simp at hb
        | some l =>
            rcases List.mem_cons.mp hb with rfl | hb
            · intro heq
              rw [hraw.1] at heq
              exact hnodup.1 (List.mem_map.mpr ⟨c, hc, (RawText.ofString_injective heq).symm⟩)
            · exact hseen b hb c (by simp [hc])
      obtain ⟨rest, hrest, hwritten⟩ := ih (fun b hb => hnames b (by simp [hb])) hnodup.2 _ hseen' q
      rw [hrest] at hstep
      exact ⟨raw :: rest, hstep, .cons hraw hwritten⟩

/-- The attributes of a tag are read as they were written, whether or not their names have to
be distinct. -/
theorem readAttributes_text (hnames : ∀ a ∈ attributes, IsName a.name)
    (hnodup : (attributes.map (·.name)).Nodup) (distinct : Bool) (p : Nat) :
    ∃ raw, readAttributes distinct ⟨p, attributesText attributes⟩ = (raw, none) ∧
      List.Forall₂ Written raw attributes := by
  refine readAttributesFrom_text hnames hnodup _ ?_ p
  cases distinct <;> simp

/-! ### Decoding -/

theorem decodeMarkup_ofString (s : String) : decodeMarkup (ofString s) = .ok s := by
  rw [decodeMarkup, RawText.decode_ofString]

theorem decodeContent_escape (s : String) :
    decodeContent (ofString (Reference.escape s)) = .ok s := by
  rw [decodeContent, RawText.decode_ofString]
  simp only [Reference.unescape_escape]

theorem decodeAttributes_written {raw : List RawAttribute}
    (h : List.Forall₂ Written raw attributes) : decodeAttributes raw = .ok attributes := by
  induction h with
  | nil => rfl
  | cons h _ ih =>
      rw [decodeAttributes, h.1, h.2, decodeContent_escape, decodeMarkup_ofString, ih]
      rfl

/-! ### Declared namespaces -/

/-- A scope in which every namespace is text. -/
def Scope.IsText (scope : Scope) : Prop :=
  ∀ b ∈ scope.bindings, ∃ s, b.uri = ofString s

namespace Scope

variable {scope : Scope}

theorem isText_initial : Scope.initial.IsText := by
  intro b hb
  rcases List.mem_cons.mp hb with rfl | hb
  · exact ⟨_, rfl⟩
  · rw [List.mem_singleton.mp hb]
    exact ⟨_, rfl⟩

theorem IsText.bind (h : scope.IsText) (qualifier : RawText) (uri : String) :
    (scope.bind qualifier (ofString uri)).IsText := by
  intro b hb
  rcases List.mem_cons.mp hb with rfl | hb
  · exact ⟨uri, rfl⟩
  · exact h b hb

theorem IsText.leave (h : scope.IsText) : scope.leave.IsText := by
  intro b hb
  exact h b ((List.dropWhile_suffix _).subset hb)

end Scope

theorem resolveName_ok {scope : Scope} (h : scope.IsText) (name : RawText) :
    ∃ ns, resolveName scope name = .ok ns := by
  unfold resolveName
  rcases hns : scope.resolve name with _ | uri
  · exact ⟨none, rfl⟩
  · obtain ⟨s, rfl⟩ : ∃ s, uri = ofString s := by
      simp only [Scope.resolve] at hns
      split at hns
      · rename_i b hb
        split at hns
        · cases hns
        · cases hns
          exact h b (List.mem_of_find?_eq_some hb)
      · cases hns
    refine ⟨some s, ?_⟩
    simp only [decodeMarkup_ofString]
    rfl

end Markup

/-- A namespace declaration that gives nothing away that is reserved.  The prefix `xml` may only
be given the namespace that it has, and neither that one nor the one of `xmlns` may be given to
another prefix. -/
def Attribute.Permitted (a : Attribute) : Prop :=
  ∀ qualifier, a.name = "xmlns:" ++ qualifier →
    (qualifier = "xml" → a.value = Markup.xmlNamespace) ∧
    (qualifier ≠ "xml" → qualifier ≠ "xmlns" ∧ a.value ≠ Markup.xmlNamespace ∧
      a.value ≠ Markup.xmlnsNamespace)

theorem Attribute.permitted_of_unqualified {a : Attribute}
    (h : ¬ "xmlns:".toList <+: a.name.toList) : a.Permitted := by
  intro qualifier hname
  refine absurd ?_ h
  rw [hname, String.toList_append]
  exact List.prefix_append _ _

namespace Markup

open RawText (ofString)

variable {t : RawText} {name : String} {attributes : List Attribute}

/-- Text in which nothing has to be escaped is written as it is, and nothing else is written so. -/
theorem ofString_escape_eq_iff {value uri : String} (huri : Reference.escape uri = uri) :
    ofString (Reference.escape value) = ofString uri ↔ value = uri := by
  constructor
  · intro h
    have hescape := RawText.ofString_injective h
    have := Reference.unescape_escape value
    rw [hescape, ← huri, Reference.unescape_escape] at this
    exact (Except.ok.inj this).symm
  · rintro rfl
    rw [huri]

/-- Only a name behind the prefix `xmlns` declares a prefix, and it declares what follows. -/
theorem eq_of_declared? {qualifier : RawText}
    (h : declared? (ofString name) = some (.qualifier qualifier)) :
    ∃ q, qualifier = ofString q ∧ name = "xmlns:" ++ q := by
  unfold declared? at h
  split at h
  · cases h
  · rename_i hafter
    cases h
    rw [RawText.after?_eq_some_iff, ofString, List.map_eq_append_iff] at hafter
    obtain ⟨before, after, hname, hbefore, hafter⟩ := hafter
    obtain ⟨c, q, rfl, hc, rfl⟩ := List.map_eq_cons_iff.mp hafter
    rw [RawText.chars_injective hbefore, Symbol.char.inj hc] at hname
    refine ⟨String.ofList q, by simp [ofString], String.toList_inj.mp ?_⟩
    simp [hname]
  · cases h

theorem declare_written {scope : Scope} {raw : List RawAttribute} (hscope : scope.IsText)
    (h : List.Forall₂ Written raw attributes) (hpermitted : ∀ a ∈ attributes, a.Permitted) :
    ∃ scope', scope.declare raw = (scope', none) ∧ scope'.IsText := by
  induction h generalizing scope with
  | nil => exact ⟨scope, rfl, hscope⟩
  | @cons r a raw attributes h _ ih =>
      have hrest : ∀ scope : Scope, scope.IsText →
          ∃ scope', scope.declare raw = (scope', none) ∧ scope'.IsText :=
        fun scope hscope => ih hscope fun b hb => hpermitted b (by simp [hb])
      have hvalue : ∀ uri, Reference.escape uri = uri →
          (r.value = ofString uri ↔ a.value = uri) := by
        intro uri huri
        rw [h.2]
        exact ofString_escape_eq_iff huri
      have hxml := hvalue xmlNamespace (by decide)
      have hxmlns := hvalue xmlnsNamespace (by decide)
      unfold Scope.declare
      split
      · exact hrest scope hscope
      · rw [h.2]
        exact hrest _ (hscope.bind [] _)
      · rename_i qualifier hdeclared
        rw [h.1] at hdeclared
        obtain ⟨q, rfl, hname⟩ := eq_of_declared? hdeclared
        have hreserved := hpermitted a (by simp) q hname
        have hq : ∀ s, ofString q = ofString s ↔ q = s :=
          fun s => ⟨RawText.ofString_injective, congrArg ofString⟩
        by_cases hcase : q = "xml"
        · rw [if_pos ((hq _).mpr hcase), if_pos (hxml.mpr (hreserved.1 hcase))]
          exact hrest scope hscope
        · obtain ⟨hnot, hnot1, hnot2⟩ := hreserved.2 hcase
          rw [if_neg (mt (hq _).mp hcase),
            if_neg (by simp [hq, hxml, hxmlns, hnot, hnot1, hnot2]), h.2]
          exact hrest _ (hscope.bind _ _)

/-! ### Start tags and end tags -/

theorem splitTag_tagText (hname : IsName name) (attributes : List Attribute) :
    splitTag (ofString (Mark.tagText name attributes)) =
      (ofString name, ⟨0 + RawText.size (ofString name), attributesText attributes⟩) := by
  have hstretch : ∀ x ∈ ofString name, (!x.satisfies isSpace) = true := by
    intro x hx
    simp [(isSpace_of_name hname hx).1]
  have hstop : ∀ x ∈ (attributesText attributes).head?, (!x.satisfies isSpace) = false := by
    intro x hx
    cases attributes with
    | nil => simp [attributesText] at hx
    | cons a attributes =>
        simp only [attributesText, List.flatMap_cons, ofString_attributeText] at hx
        cases hx
        rfl
  rw [splitTag, Located.span, ofString_tagText]
  simp only [takeWhile_stretch hstretch hstop, dropWhile_stretch hstretch hstop]

variable {scope : Scope}

/-- A tag that has been written may be entered. -/
theorem enterTag_tagText (hscope : scope.IsText) (hname : IsName name)
    (hnames : ∀ a ∈ attributes, IsName a.name) (hnodup : (attributes.map (·.name)).Nodup)
    (hpermitted : ∀ a ∈ attributes, a.Permitted) :
    ∃ scope', enterTag scope (ofString (Mark.tagText name attributes)) = (scope', none) ∧
      scope'.IsText := by
  obtain ⟨raw, hraw, hwritten⟩ := readAttributes_text hnames hnodup false
    (0 + RawText.size (ofString name))
  rw [enterTag, splitTag_tagText hname, hraw]
  have hdeeper : Scope.IsText { scope with level := scope.level + 1 } := hscope
  exact declare_written hdeeper hwritten hpermitted

/-- A tag that has been written is read as it was, in the namespace that its prefix then has. -/
theorem readStartTag_tagText (hscope : scope.IsText) (hname : IsName name)
    (hnames : ∀ a ∈ attributes, IsName a.name) (hnodup : (attributes.map (·.name)).Nodup) :
    ∃ ns, readStartTag scope (ofString (Mark.tagText name attributes)) =
      .ok ⟨name, ns, attributes⟩ := by
  obtain ⟨raw, hraw, hwritten⟩ := readAttributes_text hnames hnodup true
    (0 + RawText.size (ofString name))
  obtain ⟨ns, hns⟩ := resolveName_ok hscope (ofString name)
  refine ⟨ns, ?_⟩
  simp only [readStartTag, splitTag_tagText hname, hns, decodeMarkup_ofString, hraw,
    decodeAttributes_written hwritten]
  rfl

theorem endTagName_ofString (hname : IsName name) : endTagName (ofString name) = ofString name := by
  have hplain : ∀ x ∈ (ofString name).reverse, x.satisfies isSpace = false := by
    intro x hx
    exact (isSpace_of_name hname (List.mem_reverse.mp hx)).1
  have hdrop :
      (ofString name).reverse.dropWhile (·.satisfies isSpace) = (ofString name).reverse := by
    rcases hreverse : (ofString name).reverse with _ | ⟨x, u⟩
    · rfl
    · exact List.dropWhile_cons_of_neg (by simp [hplain x (by simp [hreverse])])
  simp only [endTagName, hdrop, List.reverse_reverse, ite_self]

end Markup

end PersistenceMapping
