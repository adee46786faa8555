/-
Entity documents that are written and bound again.

A document that becomes an entity tree is read without a failure, and its tokens in current shape
are those that the tree says (`InShape`, `exists_inShape_of_bind`).  They can be written, so they
are read back, with the namespaces that their attributes declare (`InShape.ofBytes_written`).
Bringing that to current shape again only puts the canonical namespace where none is declared, which
is how the tree came to have it; so the same tree is built (`bind_again`).

A root may lose the declaration of a prefix on the way: what is taken from it as a schema location
is told by its local name, and a declaration of the prefix `schemaLocation` has that name too
(`bind_again_of_location`).
-/
import PersistenceMapping.Proofs.Dialect.Entity
import PersistenceMapping.Proofs.Dispatch
import PersistenceMapping.Proofs.Tree.RoundTrip
import PersistenceMapping.Proofs.Tree.Taken

namespace PersistenceMapping

open Dialect.Entity (normalizeRoot normalizeTag normalizeItems normalizeToken)

/-- A name with a local part that markup can tell from what stands around it. -/
structure IsQName (name : String) : Prop where
  isName : IsName name
  localName : QName.localName name ≠ ""

instance : DecidablePred IsQName := fun name =>
  decidable_of_iff (IsName name ∧ QName.localName name ≠ "")
    ⟨fun h => ⟨h.1, h.2⟩, fun h => ⟨h.isName, h.localName⟩⟩

/-- A byte document whose tree can be written and read back. -/
structure IsRegular (bytes : List UInt8) : Prop where
  /-- The names of elements and attributes and the targets of instructions are qualified names. -/
  names : ∀ token ∈ (TokenStream.ofBytes bytes).run.1, ∀ name ∈ token.names, IsQName name
  /-- Namespaces are declared without references, brackets and quotes. -/
  declarations : ∀ piece ∈ Markup.pieces (Markup.withoutByteOrderMark (.ofBytes bytes)),
    piece.DeclaresPlainly
  /-- No document type stands inside of an element. -/
  doctypes : Token.doctypesOutside 0 (TokenStream.ofBytes bytes).run.1 = true

/-- The tree that comes of binding, unless the document is of the other dialect. -/
def Binding.document? (binding : Binding) : Option Document :=
  match binding.root with
  | .hierarchical _ => none
  | .entity d => some d

/-! ### The way to a tree -/

namespace TokenStream

variable {before tokens : List Token} {items : List Outcome}

theorem run_tokens (tokens : List Token) (failure : Option TokenError) :
    { items := tokens.map .ok, failure : TokenStream }.run = (tokens, failure) := by
  rw [run, ← List.append_nil (tokens.map _), run_go_append, run.go, List.append_nil]

/-- What comes before the first start tag is passed over. -/
theorem seekStart_append (h : ∀ token ∈ before, token.isStartTag = false)
    (failure : Option TokenError) (items : List Outcome) :
    seekStart failure (before.map .ok ++ items) = seekStart failure items := by
  induction before with
  | nil => rfl
  | cons token before ih =>
      rw [List.forall_mem_cons] at h
      rw [List.map_cons, List.cons_append, seekStart, ih h.2]
      rintro tag rfl
      cases h.1

theorem firstTagIn_append (h : ∀ token ∈ before, token.isStartTag = false) (items : List Outcome) :
    firstTagIn (before.map .ok ++ items) = firstTagIn items := by
  induction before with
  | nil => rfl
  | cons token before ih =>
      rw [List.forall_mem_cons] at h
      rw [List.map_cons, List.cons_append, firstTagIn, ih h.2]
      rintro tag rfl
      cases h.1

theorem exists_first_tag (tokens : List Token) :
    (∃ before tag rest, tokens = before ++ .startTag tag :: rest ∧
        ∀ token ∈ before, token.isStartTag = false) ∨
      ∀ token ∈ tokens, token.isStartTag = false := by
  induction tokens with
  | nil => exact Or.inr nofun
  | cons token tokens ih =>
      cases htoken : token.isStartTag with
      | true =>
          cases token <;> cases htoken
          exact Or.inl ⟨[], _, tokens, rfl, nofun⟩
      | false =>
          rcases ih with ⟨before, tag, rest, rfl, hbefore⟩ | hnone
          · exact Or.inl ⟨token :: before, tag, rest, rfl,
              List.forall_mem_cons.mpr ⟨htoken, hbefore⟩⟩
          · exact Or.inr (List.forall_mem_cons.mpr ⟨htoken, hnone⟩)

/-- Where no root is found behind the tokens, it is found among them. -/
theorem exists_of_seekRoot {last : List Outcome} {tag : StartTag} {s : TokenStream}
    (h : { items := tokens.map .ok ++ last : TokenStream }.seekRoot = .ok (tag, s))
    (hlast : ∀ root, seekStart none last ≠ .ok root) :
    ∃ before rest, tokens = before ++ .startTag tag :: rest ∧
      (∀ token ∈ before, token.isStartTag = false) ∧
      s = { items := .ok (.startTag tag) :: (rest.map .ok ++ last) } := by
  obtain ⟨⟨tag, items⟩, hseek, heq⟩ := exists_of_map_eq_ok h
  cases heq
  rcases exists_first_tag tokens with ⟨before, tag, rest, rfl, hbefore⟩ | hnone
  · rw [List.map_append, List.append_assoc, seekStart_append hbefore] at hseek
    cases hseek
    exact ⟨before, rest, rfl, hbefore, rfl⟩
  · rw [seekStart_append hnone] at hseek
    exact absurd hseek (hlast _)

end TokenStream

/-- An entity document becomes a tree if its root can be brought to current shape and what it is
then can be built. -/
theorem BinderOptions.bindEntity_eq_ok_iff {options : BinderOptions} {origin : Origin}
    {tag : StartTag} {rest : List Outcome} {failure : Option TokenError} {d : Document} :
    options.bindEntity origin { items := .ok (.startTag tag) :: rest, failure } = .ok d ↔
      ∃ tag', normalizeRoot options.versions tag = .ok tag' ∧
        Builder.initial.run options.strict failure
          (.ok (.startTag (normalizeTag tag')) :: normalizeItems rest) = .ok d := by
  rw [bindEntity, Dialect.Entity.normalize]
  cases hroot : normalizeRoot options.versions tag with
  | error version =>
      simp only [Dialect.Entity.normalizeDocument, hroot]
      constructor
      · intro h
        cases h
      · rintro ⟨_, ⟨⟩, -⟩
  | ok tag' =>
      simp only [Dialect.Entity.normalizeDocument, hroot, Document.ofOpenedStream_of_tag]
      constructor
      · intro h
        refine ⟨tag', rfl, ?_⟩
        split at h
        · rename_i hrun
          rw [hrun, Except.ok.inj h]
        · cases h
        · cases h
      · rintro ⟨_, ⟨⟩, hrun⟩
        rw [hrun]

namespace Binder

variable {b : Binder} {origin o : Origin} {s s' : TokenStream} {tag : StartTag} {d : Document}

theorem bind_of_entity (hseek : s.seekRoot = .ok (tag, s'))
    (hname : tag.localName ≠ Dialect.Hierarchical.rootName) :
    b.bind origin s = ((b.options.bindEntity origin s').map fun d => ⟨.entity d, origin⟩, b) := by
  simp only [bind, hseek, if_neg hname]

/-- A tree comes of the root of an entity document, and the binder stays as it is. -/
theorem exists_of_bind (h : (b.bind origin s).1 = .ok ⟨.entity d, o⟩) :
    ∃ tag s', s.seekRoot = .ok (tag, s') ∧ tag.localName ≠ Dialect.Hierarchical.rootName ∧
      b.options.bindEntity origin s' = .ok d ∧ (b.bind origin s).2 = b := by
  cases hseek : s.seekRoot with
  | error fault =>
      rw [bind, hseek] at h
      cases h
  | ok root =>
      obtain ⟨tag, s'⟩ := root
      by_cases hname : tag.localName = Dialect.Hierarchical.rootName
      · simp only [bind, hseek, if_pos hname] at h
        split at h
        · cases h
        · obtain ⟨_, -, hroot⟩ := exists_of_map_eq_ok h
          cases hroot
      · have hbind : b.bind origin s = _ := bind_of_entity hseek hname
        rw [hbind] at h
        obtain ⟨d', hd', hroot⟩ := exists_of_map_eq_ok h
        cases hroot
        exact ⟨tag, s', rfl, hname, hd', by rw [hbind]⟩

end Binder

/-! ### Documents in current shape -/

/-- The tokens of an entity document in current shape from its root on, as they can be written. -/
structure InShape (root : StartTag) (rest : List Token) : Prop where
  settled : Dialect.Entity.Settled root
  current : ∀ tag, .startTag tag ∈ .startTag root :: rest →
    Attributes.redeclare Dialect.Entity.currentNamespace? tag.attributes = tag.attributes
  resolved : Token.resolved (some ∘ Dialect.Entity.namespaceOf) [] (.startTag root :: rest) =
    .startTag root :: rest
  faultless : ∀ tag, .startTag tag ∈ .startTag root :: rest → tag.Faultless
  writable : ∀ token ∈ .startTag root :: rest, token.Writable
  separated : Token.Separated (.startTag root :: rest)

namespace InShape

open Dialect.Entity

variable {versions : List String} {tag tag' root : StartTag} {before rest inner after : List Token}

theorem doctypesOutside_normalizeToken (depth : Nat) (tokens : List Token) :
    Token.doctypesOutside depth (tokens.map normalizeToken) =
      Token.doctypesOutside depth tokens := by
  induction tokens generalizing depth with
  | nil => rfl
  | cons token tokens ih =>
      cases token <;> simp only [List.map_cons, normalizeToken, Token.doctypesOutside, ih]

theorem isText_normalizeToken (token : Token) : (normalizeToken token).isText = token.isText := by
  cases token <;> rfl

/-- A document that is read without a failure comes to be in current shape. -/
theorem of_normalized
    (hfaultless : ∀ tag₁, .startTag tag₁ ∈ before ++ .startTag tag :: rest → tag₁.Faultless)
    (hresolved : Token.resolved id [] (before ++ .startTag tag :: rest) =
      before ++ .startTag tag :: rest)
    (hbefore : ∀ token ∈ before, token.isStartTag = false)
    (hwritable : ∀ token ∈ rest, token.Writable)
    (hseparated : Token.Separated (before ++ .startTag tag :: rest))
    (hnames : ∀ token ∈ .startTag tag :: rest, ∀ name ∈ token.names, IsName name)
    (hlocal : ∀ a ∈ tag.attributes, QName.localName a.name ≠ "")
    (hlocation : tag.get? "xmlns:schemaLocation" = none)
    (hroot : normalizeRoot versions tag = .ok tag') :
    InShape (normalizeTag tag') (rest.map normalizeToken) := by
  have htag : tag.Faultless := hfaultless tag (by simp)
  have htag' : tag'.Faultless := faultless_normalizeRoot htag hroot
  have hrest : ∀ tag₁, .startTag tag₁ ∈ rest → tag₁.Faultless :=
    fun tag₁ h => hfaultless tag₁ (by simp [h])
  rw [List.forall_mem_cons] at hnames
  -- A start tag in current shape comes of the root, or of a start tag behind it.
  have hcases : ∀ tag₂, .startTag tag₂ ∈ .startTag (normalizeTag tag') :: rest.map normalizeToken →
      ∃ tag₁, normalizeTag tag₁ = tag₂ ∧ tag₁.Faultless := by
    intro tag₂ h
    rcases List.mem_cons.mp h with h | h
    · exact ⟨tag', (Token.startTag.inj h).symm, htag'⟩
    · obtain ⟨token, htoken, heq⟩ := List.mem_map.mp h
      cases token with
      | startTag tag₁ => exact ⟨tag₁, Token.startTag.inj heq, hrest tag₁ htoken⟩
      | _ => cases heq
  refine ⟨(settled_of_normalizeRoot htag.nodup hroot).normalizeTag, ?_, ?_, ?_, ?_, ?_⟩
  · intro tag₂ h
    obtain ⟨tag₁, rfl, -⟩ := hcases tag₂ h
    exact redeclare_redeclare tag₁.attributes
  · obtain ⟨-, hroot'⟩ := Token.resolved_append_eq_self hresolved
    rw [Token.foldl_openBehind_nil hbefore] at hroot'
    exact resolved_normalized hlocal hlocation hroot hroot'
  · intro tag₂ h
    obtain ⟨tag₁, rfl, hfaultless⟩ := hcases tag₂ h
    exact faultless_normalizeTag hfaultless
  · rw [List.forall_mem_cons, List.forall_mem_map]
    constructor
    · refine writable_normalizeTag htag' fun name hname => ?_
      rcases List.mem_cons.mp (names_normalizeRoot hroot hname) with rfl | hname
      · decide
      · exact hnames.1 name hname
    · intro token htoken
      cases token with
      | startTag tag₁ => exact writable_normalizeTag (hrest tag₁ htoken) (hnames.2 _ htoken)
      | _ => exact hwritable _ htoken
  · have hbehind : Token.Separated rest :=
      (List.isChain_cons.mp (List.isChain_append.mp hseparated).2.1).2
    refine List.isChain_cons.mpr ⟨by simp [Token.isText], ?_⟩
    rw [List.isChain_map]
    simp only [isText_normalizeToken]
    exact hbehind

/-- A tree has a place for all that a start tag in current shape says. -/
theorem collapsed (h : InShape root rest) :
    ∀ tag, .startTag tag ∈ .startTag root :: rest → tag.collapsed = tag := by
  intro tag htag
  have hresolved := h.resolved
  obtain ⟨opened, hns⟩ := Token.exists_of_mem_resolved (hresolved.symm ▸ htag)
  have hne : (namespaceOf (namespaceFor? opened tag.qualifier?)).isEmpty = false := by
    rw [Bool.eq_false_iff, ne_eq, String.isEmpty_iff]
    exact namespaceOf_ne_empty (namespaceFor?_ne_empty _ _)
  rw [StartTag.collapsed, Attributes.collapsed_of_nodup (h.faultless tag htag).nodup]
  rw [Function.comp_apply] at hns
  rw [hns, Option.filter_some, hne]
  simp [← hns]

/-- Leaving out what no tree has a place for leaves a document in current shape. -/
theorem remarks (h : InShape root (inner ++ .endTag root.name :: after)) :
    InShape root (inner ++ .endTag root.name :: after.filter Token.isRemark) := by
  have hsplit : ∀ l : List Token, Token.startTag root :: (inner ++ .endTag root.name :: l) =
      .startTag root :: (inner ++ [.endTag root.name]) ++ l := by simp
  have hsubset : (Token.startTag root :: (inner ++ .endTag root.name ::
      after.filter Token.isRemark)) ⊆ .startTag root :: (inner ++ .endTag root.name :: after) :=
    (((List.filter_sublist.cons_cons _).append_left inner).cons_cons _).subset
  have hremark : ∀ token ∈ after.filter Token.isRemark, token.isRemark = true :=
    fun token htoken => (List.mem_filter.mp htoken).2
  refine ⟨h.settled, fun tag htag => h.current tag (hsubset htag), ?_,
    fun tag htag => h.faultless tag (hsubset htag),
    fun token htoken => h.writable token (hsubset htoken), ?_⟩
  · have hresolved := h.resolved
    rw [hsplit] at hresolved ⊢
    rw [Token.resolved_append, (Token.resolved_append_eq_self hresolved).1,
      Token.resolved_eq_self]
    intro token htoken
    have hkind := hremark token htoken
    cases token with
    | startTag tag => cases hkind
    | _ => rfl
  · have hseparated := h.separated
    rw [hsplit] at hseparated ⊢
    refine List.isChain_append.mpr ⟨(List.isChain_append.mp hseparated).1, ?_, ?_⟩
    · refine List.Pairwise.isChain (List.pairwise_of_forall_mem_list ?_)
      rintro token htoken - - ⟨htext, -⟩
      have hkind := hremark token htoken
      cases token with
      | text content => cases hkind
      | _ => cases htext
    · rintro token htoken - - ⟨htext, -⟩
      rw [← List.cons_append, List.getLast?_concat] at htoken
      cases htoken
      cases htext

/-- The stream of a document that is written with the tokens of a document in current shape. -/
theorem ofBytes_written {d : Document} (h : InShape root rest) (hwf : Document.WellFormed d)
    (hbody : Content.tokensAll d.body = .startTag root :: rest) :
    TokenStream.ofBytes (d.bytes 0) = { items :=
      (Token.plainStart :: Token.resolved id [] (.startTag root :: rest)).map .ok ++
        [.ok .endDocument] } := by
  have hwritable := Content.writable_of_tokensAll hwf.proper_body (hbody ▸ h.writable)
    (hbody ▸ h.separated)
  obtain ⟨marks, hrender, hmarks, hseparated, hnested, htokens⟩ :=
    hwf.exists_marks (fun c hc => (hwritable c hc).and (hwf.proper_body c hc)) 0
  have hblanks : decide ((0 : Nat) = 0) = true := rfl
  have hstays : (marks.flatMap Mark.tokens).filter (Token.stays true) =
      marks.flatMap Mark.tokens := by
    rw [List.filter_eq_self]
    intro token _
    cases token <;> rfl
  rw [hblanks, hstays, Content.tokensAll_bareAll, hbody] at htokens
  obtain ⟨tokens, hreads, hread, houtcomes⟩ := Markup.Reader.readsAll_written hmarks hnested
    (r := .initial) ⟨rfl, Markup.Scope.isText_initial⟩
  rw [List.flatMap_cons, htokens] at hread
  -- The declarations of the tags that are written are those of the tokens.
  have hplain : ∀ piece ∈ (Mark.declaration :: marks).map Mark.piece, piece.DeclaresPlainly := by
    rw [List.forall_mem_map]
    intro m hm
    refine Markup.declaresPlainly_piece (hmarks m hm) fun tag htag => ?_
    have hmem := List.mem_flatMap.mpr ⟨m, hm, htag⟩
    rw [List.flatMap_cons, htokens] at hmem
    rcases List.mem_append.mp hmem with hmem | hmem
    · cases List.mem_singleton.mp hmem
    · obtain ⟨token, htoken, heq⟩ := List.mem_map.mp hmem
      cases token with
      | startTag tag₁ =>
          rw [← Token.startTag.inj heq]
          exact (h.faultless tag₁ htoken).plain
      | _ => cases heq
  have hresolved := hreads.follows Markup.Reader.follows_initial fun piece hpiece =>
    (hplain piece hpiece).literally
  have hbare : tokens.map Token.withoutNamespace =
      (Token.plainStart :: .startTag root :: rest).map Token.withoutNamespace := by
    rw [hread]
    rfl
  have hsame : tokens = Token.plainStart :: Token.resolved id [] (.startTag root :: rest) := by
    rw [← hresolved, Token.resolved_congr id [] hbare]
    rfl
  rw [Document.bytes, hrender, Markup.ofBytes_written rfl,
    Markup.Reader.readAll_written_eq hmarks hseparated, houtcomes, hsame, List.map_append]
  rfl

end InShape

namespace Binder

variable {b : Binder} {origin origin' o : Origin} {bytes : List UInt8} {d : Document}

/-- The tree of a document that becomes one. -/
theorem bind_eq_of_document? {s : TokenStream}
    (h : (b.bind origin s).1.toOption.bind Binding.document? = some d) :
    (b.bind origin s).1 = .ok ⟨.entity d, origin⟩ := by
  cases hbind : (b.bind origin s).1 with
  | error e =>
      rw [hbind] at h
      cases h
  | ok binding =>
      rw [hbind] at h
      obtain ⟨_ | d', o⟩ := binding
      · cases h
      · cases h
        obtain ⟨tag, s', hseek, hname, -, -⟩ := exists_of_bind hbind
        rw [bind_of_entity hseek hname] at hbind
        obtain ⟨_, -, heq⟩ := exists_of_map_eq_ok hbind
        cases heq
        rfl

theorem exists_of_map_document? {α : Type} {s : TokenStream} {f : Document → α} {x : α}
    (h : ((b.bind origin s).1.toOption.bind Binding.document?).map f = some x) :
    ∃ d, (b.bind origin s).1 = .ok ⟨.entity d, origin⟩ ∧ f d = x := by
  obtain ⟨d, hd, hx⟩ := Option.map_eq_some_iff.mp h
  exact ⟨d, bind_eq_of_document? hd, hx⟩

/-- A document that becomes a tree is read without a failure, and its tokens have a root. -/
theorem exists_tokens_of_bind (h : (b.bind origin (.ofBytes bytes)).1 = .ok ⟨.entity d, o⟩) :
    ∃ before tag rest tag',
      Markup.Reader.ReadsAll .initial (Markup.pieces (Markup.withoutByteOrderMark (.ofBytes bytes)))
        (before ++ .startTag tag :: rest) ∧
      TokenStream.ofBytes bytes =
        { items := (before ++ .startTag tag :: rest ++ [Token.endDocument]).map .ok } ∧
      (∀ token ∈ before, token.isStartTag = false) ∧ .endDocument ∉ rest ∧
      tag.localName ≠ Dialect.Hierarchical.rootName ∧
      normalizeRoot b.options.versions tag = .ok tag' ∧
      Builder.initial.run b.options.strict none
        ((.startTag (normalizeTag tag') :: rest.map normalizeToken).map .ok ++
          [.ok .endDocument]) = .ok d ∧
      (b.bind origin (.ofBytes bytes)).2 = b := by
  obtain ⟨tag₀, s, hseek, hname, hentity, hbinder⟩ := exists_of_bind h
  rw [TokenStream.ofBytes_eq] at hseek hbinder ⊢
  generalize Markup.withoutByteOrderMark (.ofBytes bytes) = text at hseek hbinder ⊢
  rcases Markup.Reader.readsAll_or_fails .initial text with
    ⟨tokens, hreads, hitems⟩ | ⟨tokens, e, more, hitems, hend⟩
  · rw [hitems, List.map_append] at hseek
    obtain ⟨before, rest, rfl, hbefore, rfl⟩ :=
      TokenStream.exists_of_seekRoot hseek (by simp [TokenStream.seekStart])
    obtain ⟨tag', hroot, hrun⟩ := BinderOptions.bindEntity_eq_ok_iff.mp hentity
    have hend : .endDocument ∉ rest := fun hmem => hreads.not_end (by simp [hmem])
    rw [Dialect.Entity.normalizeItems_append, Dialect.Entity.normalizeItems_ok] at hrun
    exact ⟨before, tag₀, rest, tag', hreads, by rw [hitems], hbefore, hend, hname, hroot, hrun,
      hbinder⟩
  · rw [hitems] at hseek
    obtain ⟨before, rest, rfl, hbefore, rfl⟩ :=
      TokenStream.exists_of_seekRoot hseek (by simp [TokenStream.seekStart])
    obtain ⟨tag', -, hrun⟩ := BinderOptions.bindEntity_eq_ok_iff.mp hentity
    have hnot : .endDocument ∉ Token.startTag (normalizeTag tag') :: rest.map normalizeToken := by
      rw [List.mem_cons, not_or]
      refine ⟨nofun, Dialect.Entity.not_end_normalizeToken fun hmem => hend (by simp [hmem])⟩
    rw [Dialect.Entity.normalizeItems_append, Dialect.Entity.normalizeItems_ok, ← List.cons_append,
      ← List.map_cons] at hrun
    exact absurd hrun (Builder.not_run_error hnot)

/-- The tree of an entity document says the tokens of a document in current shape, and is built of
these. -/
theorem exists_inShape_of_bind (h : (b.bind origin (.ofBytes bytes)).1 = .ok ⟨.entity d, o⟩)
    (hregular : IsRegular bytes)
    (hlocation : ∀ tag ∈ (TokenStream.ofBytes bytes).firstTag?,
      tag.get? "xmlns:schemaLocation" = none) :
    ∃ root rest, InShape root rest ∧ root.localName ≠ Dialect.Hierarchical.rootName ∧
      Document.WellFormed d ∧ Content.tokensAll d.body = .startTag root :: rest ∧
      Builder.initial.run b.options.strict none
        ((.startTag root :: rest).map .ok ++ [.ok .endDocument]) = .ok d ∧
      (b.bind origin (.ofBytes bytes)).2 = b := by
  obtain ⟨before, tag, rest, tag', hreads, hstream, hbefore, hend, hname, hroot, hrun, hbinder⟩ :=
    exists_tokens_of_bind h
  obtain ⟨hnames, hplain, hdoctypes⟩ := hregular
  have htokens : (TokenStream.ofBytes bytes).run.1 =
      before ++ .startTag tag :: rest ++ [Token.endDocument] := by
    rw [hstream, TokenStream.run_tokens]
  have hfirst : (TokenStream.ofBytes bytes).firstTag? = some tag := by
    rw [hstream, TokenStream.firstTag?, List.append_assoc, List.map_append,
      TokenStream.firstTagIn_append hbefore]
    rfl
  rw [htokens] at hnames hdoctypes
  obtain ⟨hwhole, hchain⟩ := Markup.whole_pieces (Markup.withoutByteOrderMark (.ofBytes bytes))
  have hfaultless := hreads.faultless Markup.Reader.follows_initial hplain
  have hresolved := hreads.follows Markup.Reader.follows_initial fun piece hpiece =>
    (hplain piece hpiece).literally
  have hisName : ∀ token ∈ before ++ .startTag tag :: rest, ∀ name ∈ token.names, IsName name :=
    fun token htoken name hname => (hnames token (List.mem_append_left _ htoken) name hname).isName
  have hwritable : ∀ token ∈ rest, token.Writable := fun token htoken =>
    hreads.writable hwhole hfaultless token (by simp [htoken]) (hisName token (by simp [htoken]))
  have hlocal : ∀ a ∈ tag.attributes, QName.localName a.name ≠ "" := fun a ha =>
    (hnames (.startTag tag) (by simp) a.name
      (List.mem_cons_of_mem _ (List.mem_map_of_mem ha))).localName
  have hshape := InShape.of_normalized hfaultless hresolved hbefore hwritable
    (hreads.separated hchain) (fun token htoken => hisName token (by simp [htoken])) hlocal
    (hlocation tag hfirst) hroot
  obtain ⟨inner, after, hrest, hnests, hwf, hisSome, hbody, hrun'⟩ :=
    Document.of_run (Dialect.Entity.not_end_normalizeToken hend) hrun
  rw [hrest] at hshape
  have hcollapsed := hshape.collapsed
  have hkept : inner.flatMap Token.kept = inner := by
    rw [List.append_assoc] at hdoctypes
    have hroot' := Token.doctypesOutside_append hbefore hdoctypes
    have hinside : Token.doctypesOutside 1
        ((rest ++ [Token.endDocument]).map normalizeToken) = true := by
      rw [InShape.doctypesOutside_normalizeToken]
      exact hroot'
    rw [List.map_append, hrest, List.append_assoc] at hinside
    exact (hnests.kept_of_doctypesOutside hinside fun tag₁ htag₁ =>
      hcollapsed tag₁ (by simp [htag₁])).1
  have hname' : (normalizeTag tag').localName ≠ Dialect.Hierarchical.rootName := by
    show QName.localName tag'.name ≠ _
    rw [(Dialect.Entity.name_of_normalizeRoot hroot).1]
    exact hname
  rw [hkept, hcollapsed _ List.mem_cons_self] at hbody
  exact ⟨_, _, hshape.remarks, hname', hwf, hbody, hrun', hbinder⟩

/-- An entity document that is written without indentation and bound again becomes the same tree,
unless its root declares the prefix `schemaLocation`.  Nothing of it is left to be brought to
current shape then, but for namespaces that are missing. -/
theorem bind_again (b : Binder) (origin origin' : Origin) {bytes : List UInt8} {d : Document}
    {o : Origin} (h : (b.bind origin (.ofBytes bytes)).1 = .ok ⟨.entity d, o⟩)
    (hregular : IsRegular bytes)
    (hlocation : ∀ tag ∈ (TokenStream.ofBytes bytes).firstTag?,
      tag.get? "xmlns:schemaLocation" = none) :
    ((b.bind origin (.ofBytes bytes)).2.bind origin' (.ofBytes (d.bytes 0))).1 =
        .ok ⟨.entity d, origin'⟩ ∧
      ∃ root s, (TokenStream.ofBytes (d.bytes 0)).seekRoot = .ok (root, s) ∧
        normalizeRoot b.options.versions root = .ok root ∧
        ∀ tag, .ok (.startTag tag) ∈ s.items → normalizeTag tag =
          { tag with ns := some (tag.ns.getD Dialect.Entity.canonicalNamespace) } := by
  obtain ⟨root, rest, hshape, hname, hwf, hbody, hrun, hbinder⟩ :=
    exists_inShape_of_bind h hregular hlocation
  have hbytes := hshape.ofBytes_written hwf hbody
  let tag : StartTag := { root with ns := namespaceFor? [root.attributes] root.qualifier? }
  let again : List Outcome :=
    (Token.resolved id [root.attributes] rest).map .ok ++ [.ok .endDocument]
  have hseek : (TokenStream.ofBytes (d.bytes 0)).seekRoot =
      .ok (tag, { items := .ok (.startTag tag) :: again }) := by
    rw [hbytes]
    rfl
  have hsettled : Dialect.Entity.Settled tag :=
    ⟨hshape.settled.version, hshape.settled.location, hshape.settled.default⟩
  rw [hbinder]
  refine ⟨?_, tag, _, hseek, hsettled.normalizeRoot _, fun tag₁ htag₁ => ?_⟩
  · rw [bind_of_entity hseek hname]
    have hentity : b.options.bindEntity origin' { items := .ok (.startTag tag) :: again } =
        .ok d := by
      rw [BinderOptions.bindEntity_eq_ok_iff]
      refine ⟨tag, hsettled.normalizeRoot _, ?_⟩
      have hsame := (Dialect.Entity.map_resolved hshape.current).trans hshape.resolved
      have hitems : .ok (.startTag (normalizeTag tag)) :: normalizeItems again =
          (Token.startTag root :: rest).map Except.ok ++ [.ok .endDocument] := by
        rw [← hsame]
        rw [Dialect.Entity.normalizeItems_append, Dialect.Entity.normalizeItems_ok]
        rfl
      rw [hitems]
      exact hrun
    rw [hentity]
    rfl
  · have hnone : ∀ attributes ∈ ([] : List (List Attribute)), Attributes.redeclare
        Dialect.Entity.currentNamespace? attributes = attributes := nofun
    refine Dialect.Entity.normalizeTag_of_mem_resolved hnone hshape.current ?_
    rcases List.mem_cons.mp htag₁ with heq | hmem
    · rw [Token.startTag.inj (Except.ok.inj heq)]
      exact List.mem_cons_self
    · rcases List.mem_append.mp hmem with hmem | hmem
      · obtain ⟨token, htoken, heq⟩ := List.mem_map.mp hmem
        rw [← Except.ok.inj heq]
        exact List.mem_cons_of_mem _ htoken
      · cases List.mem_singleton.mp hmem

/-- A prefixed root of a standard generation, inside of which there is no namespace. -/
theorem bind_again_of_standard :
    let bytes := ("<!DOCTYPE e><j:e version='2.0' x:schemaLocation='s' " ++
      "xmlns:j='http://java.sun.com/xml/ns/persistence/orm'><a xmlns='' n='&lt;'/>\n" ++
      "<![CDATA[<]]><?p q?></j:e> <!--d-->").toUTF8.toList
    let b : Binder := { options := {} }
    let origin : Origin := ⟨.file, "orm.xml"⟩
    let said : List Token := [
      .startTag ⟨"j:e", some "http://www.hibernate.org/xsd/orm/mapping",
        [⟨"xmlns:j", "http://www.hibernate.org/xsd/orm/mapping"⟩]⟩,
      .startTag ⟨"a", some "http://www.hibernate.org/xsd/orm/mapping",
        [⟨"xmlns", ""⟩, ⟨"n", "<"⟩]⟩,
      .endTag "a", .text "\n", .cdata "<", .instruction "p" "q", .endTag "j:e", .comment "d"]
    ∃ d, (b.bind origin (.ofBytes bytes)).1 = .ok ⟨.entity d, origin⟩ ∧
      Content.tokensAll d.body = said ∧ IsRegular bytes ∧
      (∀ tag ∈ (TokenStream.ofBytes bytes).firstTag?, tag.get? "xmlns:schemaLocation" = none) ∧
      ((b.bind origin (.ofBytes bytes)).2.bind origin (.ofBytes (d.bytes 0))).1 =
        .ok ⟨.entity d, origin⟩ := by
  intro bytes b origin said
  have hsource : RawText.ofBytes bytes = _ := TokenStream.source_of_chars
    (TokenStream.append_of_chars (TokenStream.append_of_chars rfl rfl) rfl)
  have hstream : TokenStream.ofBytes bytes = { items := [
      .ok (.doctype "e"),
      .ok (.startTag ⟨"j:e", some "http://java.sun.com/xml/ns/persistence/orm",
        [⟨"version", "2.0"⟩, ⟨"x:schemaLocation", "s"⟩,
          ⟨"xmlns:j", "http://java.sun.com/xml/ns/persistence/orm"⟩]⟩),
      .ok (.startTag ⟨"a", none, [⟨"xmlns", ""⟩, ⟨"n", "<"⟩]⟩), .ok (.endTag "a"),
      .ok (.text "\n"), .ok (.cdata "<"), .ok (.instruction "p" "q"), .ok (.endTag "j:e"),
      .ok (.text " "), .ok (.comment "d"), .ok .endDocument] } := by
    rw [TokenStream.ofBytes_eq, hsource]
    refine congrArg (TokenStream.mk · none) ?_
    decide +kernel
  have hregular : IsRegular bytes := by
    refine ⟨?_, ?_, ?_⟩
    · rw [hstream]
      decide +kernel
    · rw [hsource]
      decide +kernel
    · rw [hstream]
      decide
  have hlocation : ∀ tag ∈ (TokenStream.ofBytes bytes).firstTag?,
      tag.get? "xmlns:schemaLocation" = none := by
    rw [hstream]
    decide
  obtain ⟨d, hbound, hsaid⟩ : ∃ d, (b.bind origin (.ofBytes bytes)).1 = .ok ⟨.entity d, origin⟩ ∧
      Content.tokensAll d.body = said := by
    refine exists_of_map_document? ?_
    rw [hstream]
    decide +kernel
  exact ⟨d, hbound, hsaid, hregular, hlocation,
    (bind_again b origin origin hbound hregular hlocation).1⟩

/-- With a prefix of the name `schemaLocation`, the declaration goes with the schema locations, and
the root is in the canonical namespace when it is bound again. -/
theorem bind_again_of_location :
    let bytes := "<schemaLocation:r xmlns:schemaLocation=\"urn:x\"/>".toUTF8.toList
    let b : Binder := { options := {} }
    let origin : Origin := ⟨.file, "orm.xml"⟩
    let said : String → List Token := fun ns =>
      [.startTag ⟨"schemaLocation:r", some ns, []⟩, .endTag "schemaLocation:r"]
    IsRegular bytes ∧ ∃ d d',
      (b.bind origin (.ofBytes bytes)).1 = .ok ⟨.entity d, origin⟩ ∧
      Content.tokensAll d.body = said "urn:x" ∧
      ((b.bind origin (.ofBytes bytes)).2.bind origin (.ofBytes (d.bytes 0))).1 =
        .ok ⟨.entity d', origin⟩ ∧
      Content.tokensAll d'.body = said "http://www.hibernate.org/xsd/orm/mapping" := by
  intro bytes b origin said
  have hsource : RawText.ofBytes bytes = _ := TokenStream.source_of_chars rfl
  have hstream : TokenStream.ofBytes bytes = { items := [
      .ok (.startTag ⟨"schemaLocation:r", some "urn:x", [⟨"xmlns:schemaLocation", "urn:x"⟩]⟩),
      .ok (.endTag "schemaLocation:r"), .ok .endDocument] } := by
    rw [TokenStream.ofBytes_eq, hsource]
    refine congrArg (TokenStream.mk · none) ?_
    decide +kernel
  have hregular : IsRegular bytes := by
    refine ⟨?_, ?_, ?_⟩
    · rw [hstream]
      decide
    · rw [hsource]
      decide +kernel
    · rw [hstream]
      decide
  obtain ⟨d, hbound, hd⟩ : ∃ d, (b.bind origin (.ofBytes bytes)).1 = .ok ⟨.entity d, origin⟩ ∧
      (Content.tokensAll d.body, d.render 0) =
        (said "urn:x", "<?xml version=\"1.0\" encoding=\"UTF-8\"?><schemaLocation:r/>") := by
    refine exists_of_map_document? ?_
    rw [hstream]
    decide +kernel
  obtain ⟨hsaid, hwritten⟩ := Prod.mk.inj hd
  obtain ⟨-, -, -, -, -, hbinder⟩ := exists_of_bind hbound
  -- The declaration has not been written, so the prefix stands for nothing.
  have hagain : TokenStream.ofBytes (d.bytes 0) = { items := [
      .ok .plainStart, .ok (.startTag ⟨"schemaLocation:r", none, []⟩),
      .ok (.endTag "schemaLocation:r"), .ok .endDocument] } := by
    rw [TokenStream.ofBytes_eq, Document.bytes, hwritten, TokenStream.source_of_chars rfl]
    refine congrArg (TokenStream.mk · none) ?_
    decide +kernel
  obtain ⟨d', hbound', hsaid'⟩ : ∃ d',
      (b.bind origin (.ofBytes (d.bytes 0))).1 = .ok ⟨.entity d', origin⟩ ∧
        Content.tokensAll d'.body = said "http://www.hibernate.org/xsd/orm/mapping" := by
    refine exists_of_map_document? ?_
    rw [hagain]
    decide +kernel
  exact ⟨hregular, d, d', hbound, hsaid, by rw [hbinder, hbound'], hsaid'⟩

end Binder

end PersistenceMapping
