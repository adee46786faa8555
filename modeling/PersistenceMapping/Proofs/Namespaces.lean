/-
The namespaces of the elements of a document that is parsed.

An element is in the namespace that the nearest declaration of its prefix gives, at the element
itself or at one of its ancestors, and in none where that is empty or where there is no declaration
(`namespace?_parse`).  A reader keeps declarations as they are written
(`Document.inheritedAsWritten?`), and attributes as they are meant (`Document.inherited?`).  So this
can be told from the tree only where that one declaration is written without references, and a
reader takes a declaration of the empty prefix for one of the default namespace
(`namespace?_parse_of_reference`).
-/
import Mathlib.Data.List.Find
import Mathlib.Data.Option.Basic
import PersistenceMapping.Proofs.Markup.AsWritten
import PersistenceMapping.Proofs.Tree.Ancestry
import PersistenceMapping.Proofs.Tree.Taken

namespace PersistenceMapping

/-- The name of the attribute that declares the namespace of a prefix, or the default one. -/
def namespaceAttribute : Option String → String
  | none => "xmlns"
  | some qualifier => "xmlns:" ++ qualifier

/-! ### Declarations by name -/

variable {qualifier : Option String}

/-- A declaration of a prefix other than `xml` is an attribute of that name, and there is no other
unless it is of the empty prefix. -/
theorem Attribute.declared?_eq_some_iff {a : Attribute} (hxml : qualifier ≠ some "xml")
    (hempty : qualifier.getD "" = "" → a.name ≠ "xmlns:") :
    a.declared? = some qualifier ↔ a.name = namespaceAttribute qualifier := by
  have happend : ∀ q q' : String, "xmlns:" ++ q = "xmlns:" ++ q' ↔ q = q' := by
    intro q q'
    rw [← String.toList_inj, String.toList_append, String.toList_append, List.append_cancel_left_eq,
      String.toList_inj]
  have hdefault : ∀ q : String, "xmlns" ≠ "xmlns:" ++ q := by
    intro q heq
    simpa using congrArg String.toList heq
  by_cases h : a.name = "xmlns"
  · rw [declared?_of_plain h, h]
    cases qualifier with
    | none => exact iff_of_true rfl rfl
    | some q => exact iff_of_false nofun (hdefault q)
  by_cases h' : ∃ q, a.name = "xmlns:" ++ q
  · obtain ⟨q, hname⟩ := h'
    rw [declared?_of_qualified hname, hname]
    cases qualifier with
    | none =>
        have hq : q ≠ "" := by
          rintro rfl
          exact hempty rfl hname
        rw [if_neg hq]
        refine iff_of_false ?_ (Ne.symm (hdefault q))
        split <;> nofun
    | some q' =>
        rw [namespaceAttribute, happend]
        split
        · rename_i hq
          exact iff_of_false nofun fun heq => hxml (congrArg some (heq.symm.trans hq))
        · split
          · rename_i hq
            refine iff_of_false nofun fun heq => ?_
            rw [hq] at heq hname
            exact hempty heq.symm hname
          · rw [Option.some.injEq, Option.some.injEq]
  · rw [not_exists] at h'
    rw [declared?_of_other h h']
    refine iff_of_false nofun ?_
    cases qualifier with
    | none => exact h
    | some q => exact h' q

/-- The namespace that is declared is the last value of the attribute that declares it, in the
innermost of the elements that have it. -/
theorem namespaceFor?_eq_findSome? {opened : List (List Attribute)} (hxml : qualifier ≠ some "xml")
    (hxmlns : qualifier ≠ some "xmlns")
    (hempty : qualifier.getD "" = "" → ∀ attributes ∈ opened, ∀ a ∈ attributes,
      a.name ≠ "xmlns:") :
    namespaceFor? opened qualifier =
      (opened.findSome? fun attributes =>
        Attributes.get? attributes.reverse (namespaceAttribute qualifier)).filter (!·.isEmpty) := by
  induction opened with
  | nil => rw [namespaceFor?, if_neg hxmlns, if_neg hxml]; rfl
  | cons attributes opened ih =>
      have hfind : attributes.reverse.find? (·.declared? == some qualifier) =
          attributes.reverse.find? (·.name == namespaceAttribute qualifier) := by
        refine List.find?_congr fun a ha => ?_
        rw [Bool.eq_iff_iff, beq_iff_eq, beq_iff_eq]
        exact Attribute.declared?_eq_some_iff hxml fun h =>
          hempty h attributes List.mem_cons_self a (List.mem_reverse.mp ha)
      rw [namespaceFor?, hfind, List.findSome?_cons, Attributes.get?]
      cases attributes.reverse.find? (·.name == namespaceAttribute qualifier) with
      | none => exact ih fun h above habove => hempty h above (List.mem_cons_of_mem _ habove)
      | some a =>
          show (if a.value.isEmpty then none else some a.value) = _
          rw [Option.map_some, Option.filter_some]
          cases a.value.isEmpty <;> rfl

/-! ### Attributes as they are written -/

open Markup (IsWrittenFor IsWrittenIn Unescapes)

theorem Markup.Unescapes.get? {written attributes : List Attribute}
    (h : List.Forall₂ Unescapes written attributes) (name : String) :
    Option.Rel IsWrittenFor (Attributes.get? written name) (Attributes.get? attributes name) := by
  induction h with
  | nil => exact .none
  | @cons a a' written attributes ha _ ih =>
      rw [Attributes.get?_cons, Attributes.get?_cons, ha.1]
      split
      · exact .some ha.2
      · exact ih

/-- What is found first in the one list is written for what is found first in the other. -/
theorem rel_findSome? {α β : Type} {l : List α} {l' : List β} {f : α → Option String}
    {g : β → Option String}
    (h : List.Forall₂ (fun a b => Option.Rel IsWrittenFor (f a) (g b)) l l') :
    Option.Rel IsWrittenFor (l.findSome? f) (l'.findSome? g) := by
  induction h with
  | nil => exact .none
  | @cons a b l l' hab _ ih =>
      rw [List.findSome?_cons, List.findSome?_cons]
      cases hf : f a <;> cases hg : g b <;> rw [hf, hg] at hab <;> cases hab
      · exact ih
      · rename_i hwritten
        exact .some hwritten

namespace Document

variable {d : Document} {id : NodeId}

/-- The prefix of an element. -/
def qualifier? (d : Document) (id : NodeId) : Option String :=
  (d.name? id).bind QName.qualifier?

/-- The value that an attribute has at a node, or else at the nearest of its ancestors that has
it. -/
def inherited? (d : Document) (id : NodeId) (name : String) : Option String :=
  (d.ancestorsOrSelf id).findSome? (d.attribute? · name)

theorem WellFormed.attribute?_documentNode (h : WellFormed d) (name : String) :
    d.attribute? documentNode name = none := by
  obtain ⟨value, hvalue, hkind⟩ := Option.map_eq_some_iff.mp h.top
  cases value with
  | document =>
      rw [attribute?, attributes, storedAttributes, hvalue]
      rfl
  | _ => cases hkind

/-- The attributes of an element as they are written in its tag.  Elements have the numbers of the
pieces that open them. -/
def attributesAsWritten (d : Document) (bytes : List UInt8) (id : NodeId) : List Attribute :=
  if d.isElement id then Markup.attributesAsWritten bytes (d.elementsBefore id) else []

/-- The value, as it is written, that an attribute has at a node, or else at the nearest of its
ancestors that has it. -/
def inheritedAsWritten? (d : Document) (bytes : List UInt8) (id : NodeId) (name : String) :
    Option String :=
  (d.ancestorsOrSelf id).findSome? fun x =>
    Attributes.get? (d.attributesAsWritten bytes x).reverse name

variable {bytes : List UInt8} {ids : List NodeId} {opened : List (Nat × StartTag)}

theorem WellFormed.attributesAsWritten_documentNode (h : WellFormed d) (bytes : List UInt8) :
    d.attributesAsWritten bytes documentNode = [] := by
  have hnot : ¬d.isElement documentNode = true := by
    rw [Document.isElement, h.top]
    decide
  rw [attributesAsWritten, if_neg hnot]

/-- What is found first above an element is found in the start tags of the elements that it stands
in. -/
theorem Stands.findSome? (h : d.Stands (id :: ids) opened) (hd : WellFormed d)
    {f : NodeId → Option String} {g : Nat × StartTag → Option String}
    (hfg : ∀ x o, o.1 = d.elementsBefore x → d.HasTag x o.2 → f x = g o)
    (htop : f documentNode = none) : (d.ancestorsOrSelf id).findSome? f = opened.findSome? g := by
  have htags : (id :: ids).findSome? f = opened.findSome? g := by
    have hmade := h.forall₂
    clear h
    generalize id :: ids = ids at hmade ⊢
    induction hmade with
    | nil => rfl
    | cons htag _ ih => rw [List.findSome?_cons, List.findSome?_cons, hfg _ _ htag.1 htag.2, ih]
  rw [h.ancestorsOrSelf hd, List.findSome?_append, htags, List.findSome?_singleton, htop,
    Option.or_none]

theorem Stands.inherited? (h : d.Stands (id :: ids) opened) (hd : WellFormed d) (name : String) :
    d.inherited? id name =
      opened.findSome? fun o => Attributes.get? o.2.attributes.reverse name :=
  h.findSome? hd (fun _ _ _ htag => htag.attribute? hd name) (hd.attribute?_documentNode name)

/-- What is written for it stands in the pieces of the same numbers. -/
theorem Stands.inheritedAsWritten? (h : d.Stands (id :: ids) opened) (hd : WellFormed d)
    (bytes : List UInt8) (name : String) :
    d.inheritedAsWritten? bytes id name = opened.findSome? fun o =>
      Attributes.get? (Markup.attributesAsWritten bytes o.1).reverse name := by
  refine h.findSome? hd (fun x o hnumber htag => ?_) ?_
  · rw [attributesAsWritten, if_pos htag.isElement, hnumber]
  · rw [hd.attributesAsWritten_documentNode]
    rfl

/-- What is inherited as it is written is written for what is inherited. -/
theorem IsPlaced.isWrittenFor (hd : WellFormed d)
    (h : IsPlaced (IsWrittenIn (Markup.attributesAsWritten bytes)) d id) (name : String) :
    Option.Rel IsWrittenFor (d.inheritedAsWritten? bytes id name) (d.inherited? id name) := by
  obtain ⟨ids, opened, hstands, hin⟩ := h
  rw [hstands.inheritedAsWritten? hd, hstands.inherited? hd]
  refine rel_findSome? (List.forall₂_same.mpr fun o ho => ?_)
  exact Unescapes.get? (List.forall₂_reverse_iff.mpr (hin.unescapes o ho)) name

/-- What no element has as an attribute is not written for one either. -/
theorem IsPlaced.not_written (hd : WellFormed d)
    (h : IsPlaced (IsWrittenIn (Markup.attributesAsWritten bytes)) d id) {name : String}
    (hnone : ∀ x ∈ d.ancestorsOrSelf id, d.attribute? x name = none) :
    d.inheritedAsWritten? bytes id name = none := by
  have hrel := h.isWrittenFor hd name
  rw [show d.inherited? id name = none from List.findSome?_eq_none_iff.mpr hnone] at hrel
  generalize d.inheritedAsWritten? bytes id name = written at hrel ⊢
  cases hrel
  rfl

/-- An element whose start tag is in the namespace that is written is in that namespace. -/
theorem IsPlaced.namespace? (hd : WellFormed d)
    (h : IsPlaced (IsWrittenIn (Markup.attributesAsWritten bytes)) d id)
    (hxml : d.qualifier? id ≠ some "xml") (hxmlns : d.qualifier? id ≠ some "xmlns")
    (hempty : (d.qualifier? id).getD "" = "" →
      ∀ x ∈ d.ancestorsOrSelf id, d.attribute? x "xmlns:" = none) :
    d.namespace? id =
      (d.inheritedAsWritten? bytes id (namespaceAttribute (d.qualifier? id))).filter
        (!·.isEmpty) := by
  have hnot := fun hq => h.not_written hd (hempty hq)
  obtain ⟨ids, opened, hstands, hin⟩ := h
  cases hstands with
  | @cons _ tag _ opened htag hparent habove =>
      have hstands : d.Stands (id :: ids) ((d.elementsBefore id, tag) :: opened) :=
        .cons htag hparent habove
      have hqualifier : d.qualifier? id = tag.qualifier? := by
        rw [qualifier?, htag.name?]
        rfl
      rw [hqualifier] at hxml hxmlns hnot ⊢
      have hnone : tag.qualifier?.getD "" = "" →
          ∀ attributes ∈ ((d.elementsBefore id, tag) :: opened).map
            (Markup.attributesAsWritten bytes ·.1), ∀ a ∈ attributes, a.name ≠ "xmlns:" := by
        intro hq attributes hattributes a ha hname
        have hget := hnot hq
        rw [hstands.inheritedAsWritten? hd, List.findSome?_eq_none_iff] at hget
        obtain ⟨o, ho, rfl⟩ := List.mem_map.mp hattributes
        have hget := hget o ho
        rw [Attributes.get?, Option.map_eq_none_iff, List.find?_eq_none] at hget
        exact hget a (List.mem_reverse.mpr ha) (beq_iff_eq.mpr hname)
      rw [htag.namespace? hd, hin.resolved _ rfl, namespaceFor?_eq_findSome? hxml hxmlns hnone,
        hstands.inheritedAsWritten? hd, Option.filter_filter, List.findSome?_map]
      simp only [Bool.and_self]
      rfl

/-! ### Parsing -/

variable {strict : Bool}

/-- A stream is taken in behind its document start, or from its first token on. -/
theorem ofOpenedStream_cons (strict : Bool) (token : Token) (rest : List Outcome) :
    ofOpenedStream strict { items := .ok token :: rest } =
      Builder.initial.run strict none
        (if token.isStartDocument then rest else .ok token :: rest) := by
  cases token <;> rfl

/-- A document that is parsed is read without a failure, and built of what is read. -/
theorem exists_tokens_of_parse (h : parse bytes strict = .ok d) :
    ∃ before tokens,
      Markup.Reader.ReadsAll .initial (Markup.pieces (Markup.withoutByteOrderMark (.ofBytes bytes)))
        (before ++ tokens) ∧
      (∀ token ∈ before, token.isStartTag = false) ∧
      Builder.initial.run strict none (tokens.map .ok ++ [.ok .endDocument]) = .ok d := by
  rw [parse, TokenStream.ofBytes_eq] at h
  generalize Markup.withoutByteOrderMark (.ofBytes bytes) = text at h ⊢
  rcases Markup.Reader.readsAll_or_fails .initial text with
    ⟨tokens, hreads, hitems⟩ | ⟨tokens, e, more, hitems, hend⟩
  · rw [hitems, List.map_append] at h
    cases tokens with
    | nil => exact ⟨[], [], hreads, nofun, h⟩
    | cons token tokens =>
        rw [List.map_cons, List.cons_append, ofOpenedStream_cons] at h
        cases hstart : token.isStartDocument with
        | true =>
            rw [hstart] at h
            refine ⟨[token], tokens, hreads, ?_, h⟩
            rw [List.forall_mem_singleton]
            cases token <;> first | rfl | cases hstart
        | false =>
            rw [hstart] at h
            exact ⟨[], token :: tokens, hreads, nofun, h⟩
  · rw [hitems] at h
    cases tokens with
    | nil => cases h
    | cons token tokens =>
        rw [List.map_cons, List.cons_append, ofOpenedStream_cons] at h
        cases hstart : token.isStartDocument with
        | true =>
            rw [hstart] at h
            exact absurd h (Builder.not_run_error fun hmem => hend (List.mem_cons_of_mem _ hmem))
        | false =>
            rw [hstart] at h
            exact absurd h (Builder.not_run_error hend)

/-- An element is in the namespace that is written in the nearest declaration of its prefix, unless a
declaration of the empty prefix is taken for one of the default namespace.  The value that the tree
has for that declaration is what is read of it, and so the two are the same where that one
declaration is written without a reference. -/
theorem namespace?_parse (h : parse bytes strict = .ok d) (helement : d.isElement id = true)
    (hxml : d.qualifier? id ≠ some "xml") (hxmlns : d.qualifier? id ≠ some "xmlns")
    (hempty : (d.qualifier? id).getD "" = "" →
      ∀ x ∈ d.ancestorsOrSelf id, d.attribute? x "xmlns:" = none) :
    let name := namespaceAttribute (d.qualifier? id)
    d.namespace? id = (d.inheritedAsWritten? bytes id name).filter (!·.isEmpty) ∧
      Option.Rel IsWrittenFor (d.inheritedAsWritten? bytes id name) (d.inherited? id name) ∧
      ((∀ written, d.inheritedAsWritten? bytes id name = some written → '&' ∉ written.toList) →
        d.namespace? id = (d.inherited? id name).filter (!·.isEmpty)) := by
  intro name
  obtain ⟨before, tokens, hreads, hbefore, hrun⟩ := exists_tokens_of_parse h
  have hend : .endDocument ∉ tokens := fun hmem => hreads.not_end (List.mem_append_right _ hmem)
  obtain ⟨-, hat⟩ := Token.atStartTags_append.mp (hreads.asWritten
    (Markup.Reader.keeps_initial (Markup.attributesAsWritten bytes)) fun i attributes hi => by
      rw [Markup.attributesAsWritten, Nat.zero_add, hi, Option.getD_some])
  rw [Token.foldl_openings_initial hbefore] at hat
  obtain ⟨hd, hall⟩ := (Builder.Places.initial _).run hend hat hrun
  have hnamespace := (hall id helement).namespace? hd hxml hxmlns hempty
  have hname := (hall id helement).isWrittenFor hd name
  refine ⟨hnamespace, hname, fun hliteral => hnamespace.trans ?_⟩
  change Option.filter _ (d.inheritedAsWritten? bytes id name) = _
  generalize d.inheritedAsWritten? bytes id name = asWritten at hname hliteral ⊢
  generalize d.inherited? id name = value at hname ⊢
  cases hname with
  | none => rfl
  | some hwritten =>
      have hplain := Reference.unescape_plain (hliteral _ rfl)
      rw [Except.ok.inj (hwritten.symm.trans hplain)]

/-- The default namespace is taken back in an element, and the one inside of it is in none, whatever
is declared with references for another prefix or elsewhere. -/
theorem namespace?_parse_of_undeclared :
    let bytes := "<a xmlns='u' xmlns:p='&lt;'><b xmlns=''><c/></b><d xmlns='&amp;'/></a>".toUTF8.toList
    ∃ d, parse bytes = .ok d ∧ d.name? 3 = some "c" ∧ d.inherited? 3 "xmlns" = some "" ∧
      d.namespace? 3 = none := by
  intro bytes
  have hsource : RawText.ofBytes bytes = _ := TokenStream.source_of_chars rfl
  obtain ⟨d, hparse, hd⟩ : ∃ d, parse bytes = .ok d ∧
      ((d.name? 3, d.isElement 3, d.qualifier? 3), d.inherited? 3 "xmlns", d.inherited? 3 "xmlns:",
        d.inheritedAsWritten? bytes 3 "xmlns") =
      ((some "c", true, none), some "", none, some "") := by
    refine exists_of_map_eq_ok ?_
    simp only [inheritedAsWritten?, attributesAsWritten, Markup.attributesAsWritten]
    rw [parse, TokenStream.ofBytes_eq, hsource]
    decide +kernel
  simp only [Prod.mk.injEq] at hd
  obtain ⟨⟨hname, helement, hqualifier⟩, hinherited, hempty, hwritten⟩ := hd
  obtain ⟨-, -, hnamespace⟩ := namespace?_parse hparse helement (by rw [hqualifier]; decide)
    (by rw [hqualifier]; decide) fun _ => List.findSome?_eq_none_iff.mp hempty
  rw [hqualifier, namespaceAttribute, hwritten, hinherited] at hnamespace
  refine ⟨d, hparse, hname, hinherited, (hnamespace ?_).trans rfl⟩
  rintro _ ⟨⟩
  decide

/-- A declaration with a reference gives the namespace as it is written, and one of the empty prefix
gives one where none is declared. -/
theorem namespace?_parse_of_reference :
    let told : Document → Option String × Option String × Option String := fun d =>
      (d.name? 1, d.inherited? 1 "xmlns", d.namespace? 1)
    (∃ d, parse "<a xmlns=\"u&amp;v\"/>".toUTF8.toList = .ok d ∧
      told d = (some "a", some "u&v", some "u&amp;v")) ∧
    ∃ d, parse "<a xmlns:=\"u\"/>".toUTF8.toList = .ok d ∧
      told d = (some "a", none, some "u") := by
  intro told
  constructor
  · refine exists_of_map_eq_ok ?_
    rw [parse, TokenStream.ofBytes_eq, TokenStream.source_of_chars rfl]
    decide +kernel
  · refine exists_of_map_eq_ok ?_
    rw [parse, TokenStream.ofBytes_eq, TokenStream.source_of_chars rfl]
    decide +kernel

end Document

end PersistenceMapping
