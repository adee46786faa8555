/-
Documents whose end tags match.

Of bytes only end tags come that match, and every reader that may stand on them goes on to give such
(`Stack.matched_toStream`).  The consumers, who compare end tags with the elements that they have
open, therefore never find one that does not fit.  A tree in the making has the same elements open
as the tokens before (`Builder.run_matched`).  What binds a document has those of them open that it
does not skip, under their local names (`Schema.run_matched`); of names that are the same the local
names are, too.
-/
import PersistenceMapping.Proofs.Markup.Matched
import PersistenceMapping.Proofs.Schema.Relaid
import PersistenceMapping.Proofs.Stack

namespace PersistenceMapping

/-- Whether a fault is that of an end tag that closes nothing, or not what is open. -/
def ShapeFault.isTagFault : ShapeFault → Bool
  | strayEnd _ | mismatchedEnd .. => true
  | _ => false

/-- Whether no document is built because of an end tag. -/
def BuildError.isTagFault : BuildError → Bool
  | source _ => false
  | shape fault => fault.isTagFault

/-- Whether a document is not bound because of an end tag. -/
def BindFault.isTagFault : BindFault → Bool
  | strayEnd _ | mismatchedEnd .. => true
  | _ => false

/-- A result that is as it has to be, or that is none for another reason than these. -/
def Spares {ε α : Type} (isTagFault : ε → Bool) (P : α → Prop) : Except ε α → Prop
  | .ok a => P a
  | .error fault => isTagFault fault = false

namespace Spares

variable {ε α β : Type} {isTagFault : ε → Bool} {P : α → Prop} {Q : β → Prop} {x : Except ε α}

theorem map {f : α → β} (h : Spares isTagFault P x) (hf : ∀ a, P a → Q (f a)) :
    Spares isTagFault Q (x.map f) := by
  cases x with
  | error fault => exact h
  | ok a => exact hf a h

theorem bind {f : α → Except ε β} (h : Spares isTagFault P x)
    (hf : ∀ a, P a → Spares isTagFault Q (f a)) : Spares isTagFault Q (x >>= f) := by
  cases x with
  | error fault => exact h
  | ok a => exact hf a h

/-- What is refused for another reason is none of these faults. -/
theorem guard {c : Prop} [Decidable c] {fault : ε} (hfault : isTagFault fault = false)
    (h : Spares isTagFault P x) : Spares isTagFault P (if c then .error fault else x) := by
  by_cases hc : c
  · rw [if_pos hc]
    exact hfault
  · rw [if_neg hc]
    exact h

theorem not_error (h : Spares isTagFault P x) {fault : ε} (hx : x = .error fault) :
    isTagFault fault = false := by
  rwa [hx] at h

end Spares

/-! ### Trees -/

namespace Builder

variable {strict : Bool} {b : Builder} {opened : List String}

/-- Every token leaves the elements open that are open behind it, and an end tag that matches is
taken in. -/
theorem read_matched {token : Token} (hb : b.opened.map (·.2) = opened)
    (hend : ∀ name, token = .endTag name → opened.head? = some name) :
    Spares ShapeFault.isTagFault (fun b' => b'.opened.map (·.2) = token.namesBehind opened)
      (b.read strict token) := by
  have happend : ∀ node, (b.append node).opened.map (·.2) = opened := fun _ => hb
  unfold read
  cases token with
  | startDocument version encoding standalone => rfl
  | startTag tag =>
      refine .guard rfl ?_
      cases (if strict then Attributes.firstRepeated? tag.attributes else none) with
      | some name => rfl
      | none => exact congrArg (tag.name :: ·) hb
  | endTag name =>
      have hname := hend name rfl
      cases hopened : b.opened with
      | nil =>
          rw [← hb, hopened] at hname
          cases hname
      | cons element rest =>
          rw [← hb, hopened] at hname
          obtain rfl : element.2 = name := Option.some.inj hname
          dsimp only
          rw [if_pos rfl, ← hb, hopened]
          rfl
  | text content =>
      dsimp only
      by_cases hempty : b.opened.isEmpty = true
      · rw [if_pos hempty]
        exact .guard rfl hb
      · rw [if_neg hempty]
        exact happend _
  | cdata content =>
      dsimp only
      by_cases hempty : b.opened.isEmpty = true
      · rw [if_pos hempty]
        exact .guard rfl hb
      · rw [if_neg hempty]
        exact happend _
  | comment | instruction => exact happend _
  | doctype | endDocument => exact hb

theorem finish_spares (b : Builder) :
    Spares BuildError.isTagFault (fun _ => True) (b.finish.mapError .shape) := by
  unfold finish
  cases b.opened with
  | cons element rest => rfl
  | nil =>
      cases hroot : b.document.root.isSome with
      | true => trivial
      | false => rfl

/-- End tags that match are taken in to the end of the document. -/
theorem run_matched {items : List Outcome} (h : Matched opened items) (failure : Option TokenError)
    (hb : b.opened.map (·.2) = opened) :
    Spares BuildError.isTagFault (fun _ => True) (b.run strict failure items) := by
  induction h generalizing b with
  | nil =>
      cases failure with
      | none => exact b.finish_spares
      | some e => rfl
  | failed => rfl
  | @cons opened token rest hend _ ih =>
      by_cases hlast : token = .endDocument
      · rw [hlast]
        exact b.finish_spares
      · rw [run]
        · have hread : Spares _ _ (b.read strict token) := read_matched hb hend
          cases htoken : b.read strict token with
          | error fault =>
              rw [htoken] at hread
              exact hread
          | ok b' =>
              rw [htoken] at hread
              exact ih hread
        · exact hlast

end Builder

/-- No end tag is a reason to build no document. -/
theorem Document.ofStream_matched (strict : Bool) {s : TokenStream} (h : Matched [] s.items) :
    Spares BuildError.isTagFault (fun _ => True) (ofStream strict s) := by
  obtain ⟨items, failure⟩ := s
  unfold ofStream
  cases h with
  | nil => cases failure <;> rfl
  | failed => rfl
  | @cons _ token rest _ hrest =>
      cases token with
      | startDocument version encoding standalone => exact Builder.run_matched hrest failure rfl
      | _ => rfl

/-! ### Bound documents -/

namespace ElementDecl

/-- What is wrong with attributes does not concern end tags. -/
theorem bindGiven_spares (decl : ElementDecl) (validate : Bool) (attributes : List Attribute) :
    Spares BindFault.isTagFault (fun _ => True) (decl.bindGiven validate attributes) := by
  induction attributes with
  | nil => trivial
  | cons a rest ih =>
      rw [bindGiven]
      by_cases hforeign : (a.declaresNamespace || a.qualifier?.isSome) = true
      · rw [if_pos hforeign]
        exact ih
      · rw [if_neg hforeign]
        cases decl.attribute? a.name with
        | some declared => exact .guard rfl (ih.map fun _ _ => trivial)
        | none => exact .guard rfl ih

theorem bindMissing_spares (element : String) (validate : Bool) (given : List Attribute)
    (declared : List AttributeDecl) :
    Spares BindFault.isTagFault (fun _ => True)
      (bindMissing element validate given declared) := by
  induction declared with
  | nil => trivial
  | cons declared rest ih =>
      rw [bindMissing]
      by_cases hgiven : (Attributes.get? given declared.name).isSome = true
      · rw [if_pos hgiven]
        exact ih
      · rw [if_neg hgiven]
        cases declared.default with
        | some value => exact ih.map fun _ _ => trivial
        | none => exact .guard rfl ih

theorem bindAttributes_spares (decl : ElementDecl) (validate : Bool) (attributes : List Attribute) :
    Spares BindFault.isTagFault (fun _ => True) (decl.bindAttributes validate attributes) :=
  (decl.bindGiven_spares validate attributes).bind fun given _ =>
    (bindMissing_spares decl.name validate given decl.attributes).bind fun _ _ => trivial

end ElementDecl

namespace Schema

variable {schema : Schema} {validate : Bool} {p : Progress} {opened : List String}

/-- What is bound inside these elements.  Those that are skipped are the innermost. -/
structure Progress.At (p : Progress) (opened : List String) : Prop where
  skipped : p.skipped ≤ opened.length
  opened : p.opened.map (·.decl.name) = (opened.drop p.skipped).map QName.localName

/-- A start tag is declared under its local name, or is skipped. -/
theorem declarationIn_spares (schema : Schema) (validate : Bool) (frames : List Frame)
    (tag : StartTag) :
    Spares BindFault.isTagFault (fun found => ∀ decl ∈ found, decl.name = tag.localName)
      (schema.declarationIn validate frames tag) := by
  cases hfound : schema.declarationIn validate frames tag with
  | ok found =>
      rintro decl rfl
      exact element?_name (element?_of_declarationIn hfound)
  | error fault =>
      cases frames with
      | nil =>
          simp only [declarationIn] at hfound
          split at hfound <;> cases hfound
          rfl
      | cons parent above =>
          simp only [declarationIn] at hfound
          split at hfound
          · cases hfound
          · split at hfound <;> cases hfound
            rfl

theorem openFrame_spares (validate : Bool) (decl : ElementDecl) (tag : StartTag) :
    Spares BindFault.isTagFault (fun frame => frame.decl = decl)
      (openFrame validate decl tag) := by
  unfold openFrame
  split
  · rfl
  · exact (decl.bindAttributes_spares validate tag.attributes).map fun _ _ => rfl

theorem readStart_matched (hp : p.At opened) (hskipped : p.skipped = 0) (tag : StartTag) :
    Spares BindFault.isTagFault (fun p' => p'.At (tag.name :: opened))
      (schema.readStart validate p tag) := by
  have hopened := hp.opened
  rw [hskipped, List.drop_zero] at hopened
  have hdeclared := schema.declarationIn_spares validate p.opened tag
  unfold readStart
  refine .guard rfl ?_
  cases hfound : schema.declarationIn validate p.opened tag with
  | error fault =>
      rw [hfound] at hdeclared
      exact hdeclared
  | ok found =>
      rw [hfound] at hdeclared
      cases found with
      | none => exact ⟨by simp, hopened⟩
      | some decl =>
          refine (openFrame_spares validate decl tag).map fun frame hframe => ⟨?_, ?_⟩
          · exact hskipped ▸ Nat.zero_le _
          · rw [hskipped, List.drop_zero, List.map_cons, List.map_cons, hframe,
              hdeclared decl rfl, hopened]
            rfl

/-- An end tag that matches closes the innermost element. -/
theorem readEnd_matched {name : String} (hp : p.At opened) (hskipped : p.skipped = 0)
    (hend : opened.head? = some name) :
    Spares BindFault.isTagFault (fun p' => p'.At opened.tail) (readEnd p name) := by
  obtain ⟨above, rfl⟩ := List.head?_eq_some_iff.mp hend
  have hopened := hp.opened
  rw [hskipped, List.drop_zero, List.map_cons, List.map_eq_cons_iff] at hopened
  obtain ⟨frame, rest, hframes, hname, hrest⟩ := hopened
  unfold readEnd
  rw [hframes]
  dsimp only
  rw [if_pos hname.symm]
  cases rest with
  | nil => exact ⟨hskipped ▸ Nat.zero_le _, by rw [hskipped, List.drop_zero]; exact hrest⟩
  | cons parent rest =>
      exact ⟨hskipped ▸ Nat.zero_le _, by rw [hskipped, List.drop_zero]; exact hrest⟩

theorem readText_matched (hp : p.At opened) (content : String) :
    Spares BindFault.isTagFault (fun p' => p'.At opened) (readText validate p content) := by
  unfold readText
  cases hframes : p.opened with
  | nil => exact hp
  | cons frame rest =>
      dsimp only
      by_cases htext : frame.decl.hasText = true
      · rw [if_pos htext]
        have hopened := hp.opened
        rw [hframes] at hopened
        exact ⟨hp.skipped, hopened⟩
      · rw [if_neg htext]
        exact .guard rfl hp

/-- Inside of an element that is skipped tags are counted. -/
theorem skip_matched {token : Token} (hp : p.At opened) (hskipped : 0 < p.skipped) :
    (skip p token).At (token.namesBehind opened) := by
  cases token with
  | startTag tag => exact ⟨Nat.succ_le_succ hp.skipped, hp.opened⟩
  | endTag name =>
      refine ⟨?_, ?_⟩
      · have := hp.skipped
        simp only [skip, Token.namesBehind, List.length_tail]
        omega
      · rw [Token.namesBehind, ← List.drop_one, List.drop_drop]
        have hcount : 1 + (skip p (.endTag name)).skipped = p.skipped := by
          simp only [skip]
          omega
        rw [hcount]
        exact hp.opened
  | _ => exact hp

theorem read_matched {token : Token} (hp : p.At opened)
    (hend : ∀ name, token = .endTag name → opened.head? = some name) :
    Spares BindFault.isTagFault (fun p' => p'.At (token.namesBehind opened))
      (schema.read validate p token) := by
  unfold read
  by_cases hskips : 0 < p.skipped
  · rw [if_pos hskips]
    exact skip_matched hp hskips
  · rw [if_neg hskips]
    have hskipped := Nat.eq_zero_of_not_pos hskips
    cases token with
    | startTag tag => exact readStart_matched hp hskipped tag
    | endTag name => exact readEnd_matched hp hskipped (hend name rfl)
    | text content | cdata content => exact readText_matched hp content
    | _ => exact hp

theorem Progress.finish_spares (p : Progress) :
    Spares BindFault.isTagFault (fun _ => True) p.finish := by
  unfold finish
  cases p.opened with
  | cons frame rest => rfl
  | nil => cases p.root <;> trivial

/-- End tags that match are taken in to the end of the document. -/
theorem run_matched {items : List Outcome} (h : Matched opened items) (failure : Option TokenError)
    (hp : p.At opened) :
    Spares BindFault.isTagFault (fun _ => True) (schema.run validate failure p items) := by
  induction h generalizing p with
  | nil =>
      cases failure with
      | none => exact p.finish_spares
      | some e => rfl
  | failed => rfl
  | @cons opened token rest hend _ ih =>
      rw [run]
      by_cases hlast : (decide (token = .endDocument) && decide (p.skipped = 0)) = true
      · rw [if_pos hlast]
        exact p.finish_spares
      · rw [if_neg hlast]
        have hread : Spares _ _ (schema.read validate p token) := read_matched hp hend
        cases htoken : schema.read validate p token with
        | error fault =>
            rw [htoken] at hread
            exact hread
        | ok p' =>
            rw [htoken] at hread
            exact ih hread

/-- No end tag is a reason not to bind a document. -/
theorem bind_matched (schema : Schema) (validate : Bool) {s : TokenStream}
    (h : Matched [] s.items) :
    Spares BindFault.isTagFault (fun _ => True) (schema.bind validate s) :=
  run_matched h s.failure ⟨Nat.zero_le _, rfl⟩

end Schema

/-! ### Stacks -/

namespace Stack

/-- The source that the readers of a stack stand on. -/
def source : Stack → Stack
  | .hierarchical below => below.source
  | .entity _ below => below.source
  | .opened below => below.source
  | source => source

/-- A stack on a source whose tags match gives tags that match. -/
theorem matched_toStream {stack : Stack} {s : TokenStream} (h : stack.toStream = .ok s)
    (hsource : ∀ t, stack.source.toStream = .ok t → Matched [] t.items) : Matched [] s.items := by
  induction stack generalizing s with
  | stream | bytes => exact hsource s h
  | hierarchical below ih =>
      obtain ⟨t, ht, rfl⟩ := exists_of_map_eq_ok h
      exact (ih ht hsource).hierarchical true
  | entity versions below ih =>
      obtain ⟨t, ht, rfl⟩ := exists_of_map_eq_ok h
      exact (ih ht hsource).entity versions
  | opened below ih =>
      obtain ⟨t, ht, hopened⟩ := exists_of_bind_eq_ok h
      obtain ⟨o, ho, rfl⟩ := exists_of_map_eq_ok hopened
      obtain ⟨-, -, -, hstream⟩ | ⟨-, hstream⟩ := TokenStream.stream_of_opened ho
      · rw [hstream]
        exact ih ht hsource
      · rw [hstream]
        exact .cons nofun (ih ht hsource)

/-- The tokens that are read of bytes before the first failure nest, each empty element giving its
start and its end, and the document end is the last of them if there is no failure.  So whatever
readers stand on the bytes, no end tag keeps a document from being built or bound. -/
theorem tags_match (bytes : List UInt8) (failure : Option String) :
    let s := TokenStream.ofBytes bytes failure
    let pieces := Markup.pieces (Markup.withoutByteOrderMark (.ofBytes bytes))
    Token.Nested s.run.1 ∧
      (∃ read groups, read <+: pieces ∧ Markup.Reader.initial.ReadsEach read groups ∧
        List.Forall₂ (fun piece group => ∀ content, piece = Markup.Piece.emptyTag content →
          ∃ tag : StartTag, group = [.startTag tag, .endTag tag.name]) read groups ∧
        .endDocument ∉ groups.flatten ∧
        (s.run = (groups.flatten ++ [.endDocument], none) ∧ read = pieces ∨
          ∃ e, s.run = (groups.flatten, some e))) ∧
      ∀ (stack : Stack) (s' : TokenStream), stack.source = .bytes bytes failure →
        stack.toStream = .ok s' →
        Token.Nested s'.run.1 ∧
          (∀ strict e, Document.ofStream strict s' = .error e → e.isTagFault = false) ∧
          ∀ (schema : Schema) validate fault,
            schema.bind validate s' = .error fault → fault.isTagFault = false := by
  intro s pieces
  have hmatched := matched_ofBytes bytes failure
  refine ⟨hmatched.nested, ?_, fun stack s' hsource hstream => ?_⟩
  · obtain ⟨read, groups, hprefix, hreads, hrun⟩ := TokenStream.run_ofBytes bytes failure
    exact ⟨read, groups, hprefix, hreads, hreads.empty, hreads.readsAll.not_end, hrun⟩
  · have hmatched' : Matched [] s'.items := by
      refine matched_toStream hstream fun t ht => ?_
      rw [hsource] at ht
      obtain rfl := Except.ok.inj ht
      exact hmatched
    refine ⟨hmatched'.nested, fun strict e he => ?_, fun schema validate fault hfault => ?_⟩
    · exact (Document.ofStream_matched strict hmatched').not_error he
    · exact (schema.bind_matched validate hmatched').not_error hfault

/-- An element with an outdated name, read through both dialects. -/
theorem tags_match_renamed :
    let bytes := "<composite-index><a/></composite-index>".toUTF8.toList
    let stack := entity Dialect.Entity.defaultVersions (hierarchical (.bytes bytes none))
    ∃ s, stack.toStream = .ok s ∧ Token.Nested s.run.1 ∧
      (∀ strict e, Document.ofStream strict s = .error e → e.isTagFault = false) ∧
      ∀ (schema : Schema) validate fault,
        schema.bind validate s = .error fault → fault.isTagFault = false := by
  intro bytes stack
  obtain ⟨-, -, hstacks⟩ := tags_match bytes none
  exact ⟨_, rfl, hstacks stack _ rfl rfl⟩

end Stack

end PersistenceMapping
