/-
Documents that are read without a failure.

A reader that does not fail takes a document piece by piece (`Markup.pieces`), and each piece gives
a few tokens (`Reader.ReadsAll`).  These tokens are such as could have been written: names and
values come out of tags, contents do not have the delimiters in them that they were cut off at, and
no text stands beside another (`ReadsAll.writable`, `ReadsAll.separated`).

Where the values of declarations are written without references, the namespaces that start tags have
are those that the attributes around them declare (`ReadsAll.follows`).  Where they are plain, so are
those of the start tags (`ReadsAll.faultless`).
-/
import Mathlib.Data.List.Chain
import PersistenceMapping.Proofs.Markup.Relaid
import PersistenceMapping.Proofs.Markup.Scoped
import PersistenceMapping.Proofs.Markup.Source

namespace PersistenceMapping

namespace Token

/-- The names in a token. -/
def names : Token → List String
  | startTag tag => tag.name :: tag.attributes.map (·.name)
  | endTag name => [name]
  | instruction target _ => [target]
  | _ => []

/-- The mark that is written for a token by itself, if it can be written. -/
def mark? : Token → Option Mark
  | startTag tag => some (.opening tag.name tag.attributes)
  | endTag name => some (.closing name)
  | text content => some (.text content)
  | cdata content => some (.cdata content)
  | comment content => some (.comment content)
  | instruction target data => some (.instruction target data)
  | _ => none

/-- A token that can be told from what is written around it. -/
def Writable (token : Token) : Prop :=
  ∀ m ∈ token.mark?, m.Writable

/-- Whether a token is text. -/
def isText : Token → Bool
  | text _ => true
  | _ => false

/-- No text follows another. -/
def Separated (tokens : List Token) : Prop :=
  tokens.IsChain fun token token' => ¬(token.isText = true ∧ token'.isText = true)

end Token

/-- An attribute that is written without references if it is a declaration. -/
def Attribute.DeclaresPlainly (a : Attribute) : Prop :=
  (Markup.declared? (.ofString a.name)).isSome = true → Markup.IsPlain (.ofString a.value)

/-- A start tag of attributes that have distinct names and declare nothing that they may not. -/
structure StartTag.Faultless (tag : StartTag) : Prop where
  nodup : (tag.attributes.map (·.name)).Nodup
  permitted : ∀ a ∈ tag.attributes, a.Permitted
  plain : ∀ a ∈ tag.attributes, a.DeclaresPlainly

theorem StartTag.Faultless.writable {tag : StartTag} (h : tag.Faultless)
    (hnames : ∀ name ∈ (Token.startTag tag).names, IsName name) :
    (Token.startTag tag).Writable := by
  rintro _ ⟨⟩
  rw [Token.names, List.forall_mem_cons, List.forall_mem_map] at hnames
  exact ⟨hnames.1, fun a ha => ⟨hnames.2 a ha, h.permitted a ha⟩, h.nodup⟩

namespace Markup

open RawText (ofString)

/-! ### Pieces -/

/-- The pieces of a document, as far as it can be cut. -/
def pieces (t : RawText) : List Piece :=
  if ht : t = [] then []
  else
    match h : cut t with
    | .piece piece rest =>
      have : rest.length < t.length := length_lt_of_cut ht h
      piece :: pieces rest
    | _ => []
termination_by t.length

/-- A piece whose declarations are written without references, brackets and quotes. -/
def Piece.DeclaresPlainly : Piece → Prop
  | startTag content | emptyTag content =>
    ∀ a ∈ (readAttributes false (splitTag content).2).1, a.DeclaresPlainly
  | _ => True

instance : DecidablePred Piece.DeclaresPlainly
  | .startTag content | .emptyTag content =>
    inferInstanceAs (Decidable (∀ a ∈ (readAttributes false (splitTag content).2).1,
      a.DeclaresPlainly))
  | .text _ | .cdata _ | .comment _ | .doctype _ | .instruction _ | .endTag _ => isTrue trivial

/-- A piece whose declarations are written without references. -/
def Piece.DeclaresLiterally : Piece → Prop
  | startTag content | emptyTag content =>
    ∀ a ∈ (readAttributes false (splitTag content).2).1, a.DeclaresLiterally
  | _ => True

instance : DecidablePred Piece.DeclaresLiterally
  | .startTag content | .emptyTag content =>
    inferInstanceAs (Decidable (∀ a ∈ (readAttributes false (splitTag content).2).1,
      a.DeclaresLiterally))
  | .text _ | .cdata _ | .comment _ | .doctype _ | .instruction _ | .endTag _ => isTrue trivial

theorem Piece.DeclaresPlainly.literally {piece : Piece} (h : piece.DeclaresPlainly) :
    piece.DeclaresLiterally := by
  cases piece with
  | startTag content | emptyTag content => exact fun a ha => (h a ha).literally
  | _ => trivial

/-- Whether a piece is text. -/
def Piece.isText : Piece → Bool
  | text _ => true
  | _ => false

/-- A piece that ends where it has to. -/
def Piece.Whole : Piece → Prop
  | text content => content ≠ []
  | piece => piece.Closed

variable {t rest : RawText} {piece : Piece}

theorem pieces_nil : pieces [] = [] := by
  rw [pieces]
  rfl

theorem pieces_of_cut (ht : t ≠ []) (h : cut t = .piece piece rest) :
    pieces t = piece :: pieces rest := by
  rw [pieces, dif_neg ht]
  split
  · rename_i heq
    cases h.symm.trans heq
    rfl
  · rename_i hnot
    exact absurd h (hnot piece rest)

theorem pieces_of_not_cut (h : ∀ piece rest, cut t ≠ .piece piece rest) : pieces t = [] := by
  rw [pieces]
  split
  · rfl
  · split
    · rename_i heq
      exact absurd heq (h _ _)
    · rfl

/-- The first piece of a document is what is cut off it first. -/
theorem cut_of_head?_pieces (h : (pieces t).head? = some piece) :
    t ≠ [] ∧ ∃ rest, cut t = .piece piece rest := by
  have ht : t ≠ [] := by
    rintro rfl
    rw [pieces_nil] at h
    cases h
  refine ⟨ht, ?_⟩
  cases hcut : cut t with
  | piece piece' rest =>
      rw [pieces_of_cut ht hcut] at h
      cases h
      exact ⟨rest, rfl⟩
  | refused construct | unfinished construct =>
      rw [pieces_of_not_cut (by rw [hcut]; nofun)] at h
      cases h

/-- Pieces end where they have to, and no text stands beside another. -/
theorem whole_pieces (t : RawText) :
    (∀ piece ∈ pieces t, piece.Whole) ∧
      (pieces t).IsChain fun p p' => ¬(p.isText = true ∧ p'.isText = true) := by
  fun_induction pieces t with
  | case1 => exact ⟨nofun, List.isChain_nil⟩
  | case2 t ht piece rest hcut _ ih =>
      obtain ⟨hwhole, hchain⟩ := ih
      rw [List.forall_mem_cons, List.isChain_cons]
      rcases cut_cases ht hcut with ⟨-, hclosed⟩ | ⟨content, rfl, hne, -, hrest⟩
      · have hmarkup : piece.isText = false ∧ piece.Whole := by
          cases piece with
          | text content => cases hclosed
          | _ => exact ⟨rfl, hclosed⟩
        exact ⟨⟨hmarkup.2, hwhole⟩, by simp [hmarkup.1], hchain⟩
      · refine ⟨⟨hne, hwhole⟩, ?_, hchain⟩
        rintro piece hpiece ⟨-, htext⟩
        obtain ⟨hne', rest', hcut'⟩ := cut_of_head?_pieces hpiece
        rcases cut_cases hne' hcut' with ⟨-, hclosed⟩ | ⟨-, -, -, hhead, -⟩
        · cases piece with
          | text content => exact hclosed
          | _ => cases htext
        · obtain ⟨x, rest, rfl⟩ := List.exists_cons_of_ne_nil hne'
          exact hhead (congrArg some (hrest x rfl))
  | case3 t ht hnot => exact ⟨nofun, List.isChain_nil⟩

namespace Reader

/-! ### Reading without a failure -/

/-- What a piece gives when the reader does not fail. -/
inductive Gives (r : Reader) : Piece → List Token → Reader → Prop
  | text {content : RawText} {s : String} (h : decodeContent content = .ok s) :
      Gives r (.text content) [.text s] r
  | cdata {content : RawText} {s : String} (h : decodeMarkup content = .ok s) :
      Gives r (.cdata content) [.cdata s] r
  | comment {content : RawText} {s : String} (h : decodeMarkup content = .ok s) :
      Gives r (.comment content) [.comment s] r
  | doctype {content : RawText} {s : String} : Gives r (.doctype content) [.doctype s] r
  | instruction {content : RawText} {token : Token} (h : readInstruction content = .ok token) :
      Gives r (.instruction content) [token] r
  | startTag {content : RawText} {scope : Scope} {tag : StartTag}
      (henter : enterTag r.scope content = (scope, none))
      (htag : readStartTag scope content = .ok tag) :
      Gives r (.startTag content) [.startTag tag]
        { opened := (splitTag content).1 :: r.opened, scope }
  | emptyTag {content : RawText} {scope : Scope} {tag : StartTag}
      (henter : enterTag r.scope content = (scope, none))
      (htag : readStartTag scope content = .ok tag) :
      Gives r (.emptyTag content) [.startTag tag, .endTag tag.name] { r with scope := scope.leave }
  | endTag {content expected : RawText} {above : List RawText} {name : String}
      (hopened : r.opened = expected :: above) :
      Gives r (.endTag content) [.endTag name] { opened := above, scope := r.scope.leave }

variable {r r' : Reader} {tokens : List Token}

/-- A piece gives tokens, or one failure. -/
theorem gives_or_fails (r : Reader) (piece : Piece) :
    (∃ tokens r', r.read piece = (tokens.map .ok, r') ∧ r.Gives piece tokens r') ∨
      ∃ e, (r.read piece).1 = [.error e] := by
  -- A piece other than the tag of an empty element has one outcome.
  have hsingle : ∀ (outcome : Outcome) (r' : Reader), r.read piece = ([outcome], r') →
      (∀ token, outcome = .ok token → r.Gives piece [token] r') →
      (∃ tokens r', r.read piece = (tokens.map .ok, r') ∧ r.Gives piece tokens r') ∨
        ∃ e, (r.read piece).1 = [.error e] := by
    intro outcome r' hread hgives
    cases outcome with
    | error e => exact Or.inr ⟨e, by rw [hread]⟩
    | ok token => exact Or.inl ⟨[token], r', hread, hgives token rfl⟩
  cases piece with
  | text content =>
      refine hsingle _ _ rfl fun token h => ?_
      obtain ⟨s, hs, rfl⟩ := exists_of_map_eq_ok h
      exact .text hs
  | cdata content =>
      refine hsingle _ _ rfl fun token h => ?_
      obtain ⟨s, hs, rfl⟩ := exists_of_map_eq_ok h
      exact .cdata hs
  | comment content =>
      refine hsingle _ _ rfl fun token h => ?_
      obtain ⟨s, hs, rfl⟩ := exists_of_map_eq_ok h
      exact .comment hs
  | doctype content =>
      refine hsingle _ _ rfl fun token h => ?_
      unfold readDoctype at h
      split at h
      · cases h
      · obtain ⟨s, -, rfl⟩ := exists_of_map_eq_ok h
        exact .doctype
  | instruction content => exact hsingle _ _ rfl fun token h => .instruction h
  | startTag content =>
      rw [read]
      rcases henter : enterTag r.scope content with ⟨scope, _ | fault⟩
      · cases htag : readStartTag scope content with
        | error e => exact Or.inr ⟨e, by simp only [htag]; rfl⟩
        | ok tag => exact Or.inl ⟨_, _, by simp only [htag]; rfl, .startTag henter htag⟩
      · exact Or.inr ⟨_, rfl⟩
  | emptyTag content =>
      rw [read]
      rcases henter : enterTag r.scope content with ⟨scope, _ | fault⟩
      · cases htag : readStartTag scope content with
        | error e => exact Or.inr ⟨e, by simp only [htag]⟩
        | ok tag => exact Or.inl ⟨_, _, by simp only [htag]; rfl, .emptyTag henter htag⟩
      · exact Or.inr ⟨_, rfl⟩
  | endTag content =>
      cases hopened : r.opened with
      | nil => exact Or.inr ⟨_, by rw [read, hopened]⟩
      | cons expected above =>
          by_cases hname : endTagName content = expected
          · refine hsingle _ _ (by simp only [read, hopened, if_pos hname]; rfl) fun token h => ?_
            obtain ⟨-, -, h⟩ := exists_of_bind_eq_ok h
            obtain ⟨name, -, h⟩ := exists_of_bind_eq_ok h
            cases h
            exact .endTag hopened
          · exact Or.inr ⟨_, by simp only [read, hopened, if_neg hname]; rfl⟩

/-- Tokens that are read of a piece are such as it gives. -/
theorem gives_of_read {piece : Piece} (h : r.read piece = (tokens.map .ok, r')) :
    r.Gives piece tokens r' := by
  rcases r.gives_or_fails piece with ⟨tokens', r'', hread, hgives⟩ | ⟨e, herror⟩
  · obtain ⟨htokens, rfl⟩ := Prod.mk.inj (h.symm.trans hread)
    rwa [List.map_injective_iff.mpr (fun _ _ h => Except.ok.inj h) htokens]
  · rw [h] at herror
    cases tokens <;> cases herror

/-- What a reader makes of pieces when it does not fail. -/
inductive ReadsAll : Reader → List Piece → List Token → Prop
  | nil {r : Reader} : ReadsAll r [] []
  | cons {r r' : Reader} {piece : Piece} {pieces : List Piece} {tokens more : List Token}
      (hgives : r.Gives piece tokens r') (hmore : ReadsAll r' pieces more) :
      ReadsAll r (piece :: pieces) (tokens ++ more)

/-- A piece does not give the document end. -/
theorem Gives.not_end {piece : Piece} (h : r.Gives piece tokens r') : .endDocument ∉ tokens := by
  cases h with
  | instruction h =>
      rintro hmem
      obtain rfl := List.mem_singleton.mp hmem
      rcases readInstruction_eq_ok h with ⟨_, _, _, heq⟩ | ⟨_, _, heq, -⟩ <;> cases heq
  | _ => simp

theorem ReadsAll.not_end {pieces : List Piece} (h : r.ReadsAll pieces tokens) :
    .endDocument ∉ tokens := by
  induction h with
  | nil => exact List.not_mem_nil
  | cons hgives _ ih =>
      rw [List.mem_append, not_or]
      exact ⟨hgives.not_end, ih⟩

/-! ### Reading up to a failure -/

/-- What a reader makes of each of some pieces. -/
inductive ReadsEach : Reader → List Piece → List (List Token) → Prop
  | nil {r : Reader} : ReadsEach r [] []
  | cons {r r' : Reader} {piece : Piece} {pieces : List Piece} {tokens : List Token}
      {groups : List (List Token)} (hread : r.read piece = (tokens.map .ok, r'))
      (hmore : ReadsEach r' pieces groups) : ReadsEach r (piece :: pieces) (tokens :: groups)

theorem ReadsEach.readsAll {pieces : List Piece} {groups : List (List Token)}
    (h : r.ReadsEach pieces groups) : r.ReadsAll pieces groups.flatten := by
  induction h with
  | nil => exact .nil
  | cons hread _ ih => exact .cons (gives_of_read hread) ih

theorem brokenOff_cases (failure : Option String) (otherwise : List Outcome) :
    brokenOff failure otherwise = otherwise ∨
      ∃ e more, brokenOff failure otherwise = .error e :: more := by
  cases failure with
  | none => exact Or.inl rfl
  | some reason => exact Or.inr ⟨_, _, rfl⟩

/-- A piece is read, and then what is behind it, unless the source fails where text is cut short. -/
theorem readAll_piece_or_fails (failure : Option String) (r : Reader) (ht : t ≠ [])
    (hcut : cut t = .piece piece rest) :
    readAll failure r t = (r.read piece).1 ++ readAll failure (r.read piece).2 rest ∨
      ∃ e more, readAll failure r t = .error e :: more := by
  rw [readAll_of_piece ht hcut]
  cases piece with
  | text content =>
      dsimp only
      by_cases hlast : rest.isEmpty
      · rw [if_pos hlast]
        exact brokenOff_cases failure _
      · rw [if_neg hlast]
        exact Or.inl rfl
  | _ => exact Or.inl rfl

/-- A document is read piece by piece to its end, or up to a failure. -/
theorem readsEach_or_fails (failure : Option String) (r : Reader) (t : RawText) :
    ∃ read groups rest, read <+: pieces t ∧ r.ReadsEach read groups ∧
      readAll failure r t = groups.flatten.map .ok ++ rest ∧
      (read = pieces t ∧ rest = [.ok .endDocument] ∨ ∃ e more, rest = .error e :: more) := by
  fun_induction pieces t generalizing r with
  | case1 =>
      refine ⟨[], [], _, List.prefix_rfl, .nil, readAll_of_nil failure r, ?_⟩
      rcases brokenOff_cases failure [.ok .endDocument] with hwhole | ⟨e, more, hfails⟩
      · exact Or.inl ⟨rfl, hwhole⟩
      · exact Or.inr ⟨e, more, hfails⟩
  | case2 t ht piece rest hcut _ ih =>
      rcases readAll_piece_or_fails failure r ht hcut with hwhole | ⟨e, more, hfails⟩
      · rw [hwhole]
        rcases r.gives_or_fails piece with ⟨tokens, r', hread, -⟩ | ⟨e, hread⟩
        · obtain ⟨read, groups, last, hprefix, hreads, hall, hlast⟩ := ih r'
          refine ⟨piece :: read, tokens :: groups, last, ?_, .cons hread hreads, ?_, ?_⟩
          · exact List.cons_prefix_cons.mpr ⟨rfl, hprefix⟩
          · rw [hread, hall, List.flatten_cons, List.map_append, List.append_assoc]
          · exact hlast.imp_left fun ⟨hall, hend⟩ => ⟨by rw [hall], hend⟩
        · rw [hread]
          exact ⟨[], [], _, List.nil_prefix, .nil, rfl, Or.inr ⟨e, _, rfl⟩⟩
      · exact ⟨[], [], _, List.nil_prefix, .nil, hfails, Or.inr ⟨e, more, rfl⟩⟩
  | case3 t ht hnot =>
      cases hcut : cut t with
      | piece piece rest => exact absurd hcut (hnot piece rest)
      | refused construct =>
          exact ⟨[], [], _, List.prefix_rfl, .nil, readAll_of_refused ht hcut, Or.inr ⟨_, _, rfl⟩⟩
      | unfinished construct =>
          refine ⟨[], [], _, List.prefix_rfl, .nil, readAll_of_unfinished ht hcut, ?_⟩
          rcases brokenOff_cases failure [failed (.unclosed construct), .ok .endDocument] with
            hwhole | ⟨e, more, hfails⟩
          · exact Or.inr ⟨_, _, hwhole⟩
          · exact Or.inr ⟨e, more, hfails⟩

theorem readsAll_or_fails (r : Reader) (t : RawText) :
    (∃ tokens, r.ReadsAll (pieces t) tokens ∧
        readAll none r t = (tokens ++ [Token.endDocument]).map .ok) ∨
      ∃ (tokens : List Token) (e : TokenError) (more : List Outcome),
        readAll none r t = tokens.map .ok ++ .error e :: more ∧ .endDocument ∉ tokens := by
  obtain ⟨read, groups, rest, -, hreads, hall, hrest⟩ := readsEach_or_fails none r t
  rcases hrest with ⟨rfl, rfl⟩ | ⟨e, more, rfl⟩
  · refine Or.inl ⟨groups.flatten, hreads.readsAll, ?_⟩
    rw [hall, List.map_append]
    rfl
  · exact Or.inr ⟨groups.flatten, e, more, hall, hreads.readsAll.not_end⟩

/-! ### Namespaces -/

/-- A reader whose scope is that of elements with these attributes. -/
structure Follows (r : Reader) (opened : List (List Attribute)) : Prop where
  length : r.opened.length = opened.length
  scope : r.scope = .of opened

variable {opened : List (List Attribute)} {pieces : List Piece}

theorem follows_initial : Reader.initial.Follows [] :=
  ⟨rfl, rfl⟩

/-- A tag is read in the scope of what is written for its own attributes. -/
theorem follows_of_enter {content : RawText} {scope : Scope} {tag : StartTag}
    {attributes : List Attribute} (henter : enterTag (.of opened) content = (scope, none))
    (htag : readStartTag scope content = .ok tag)
    (hbinds : List.Forall₂ Binds (readAttributes false (splitTag content).2).1 attributes) :
    scope = .of (attributes :: opened) ∧ (∀ a ∈ attributes, a.Permitted) ∧
      tag.ns = namespaceFor? (attributes :: opened) tag.qualifier? := by
  obtain ⟨hname, hns, -⟩ := readStartTag_eq_ok htag
  obtain ⟨rfl, hpermitted⟩ := Scope.enter_of hbinds henter
  refine ⟨rfl, hpermitted, ?_⟩
  rw [hname, resolveName, Scope.resolve_of] at hns
  rw [StartTag.qualifier?]
  cases hfor : namespaceFor? (attributes :: opened) (QName.qualifier? tag.name) with
  | none =>
      rw [hfor] at hns
      exact (Except.ok.inj hns).symm
  | some ns =>
      rw [hfor] at hns
      simp only [Option.map_some, decodeMarkup_ofString] at hns
      exact (Except.ok.inj hns).symm

/-- What is written for attributes are their values where there are no references. -/
theorem binds_attributes {content : RawText} {scope : Scope} {tag : StartTag}
    (htag : readStartTag scope content = .ok tag)
    (hliteral : ∀ a ∈ (readAttributes false (splitTag content).2).1, a.DeclaresLiterally) :
    List.Forall₂ Binds (readAttributes false (splitTag content).2).1 tag.attributes := by
  obtain ⟨-, -, -, raw, hraw, hdecodes⟩ := readStartTag_eq_ok htag
  rw [hraw] at hliteral ⊢
  exact binds_of_decodes hdecodes hliteral

/-- Start tags are read in the namespaces that the attributes around them declare. -/
theorem Gives.follows {piece : Piece} (h : r.Gives piece tokens r') (hr : r.Follows opened)
    (hliteral : piece.DeclaresLiterally) :
    Token.resolved id opened tokens = tokens ∧
      r'.Follows (tokens.foldl Token.openBehind opened) := by
  cases h with
  | startTag henter htag =>
      rw [hr.scope] at henter
      obtain ⟨rfl, -, hns⟩ := follows_of_enter henter htag (binds_attributes htag hliteral)
      refine ⟨?_, by simp [hr.length, Token.openBehind], rfl⟩
      simp only [Token.resolved, Token.resolve, id_eq, ← hns]
  | emptyTag henter htag =>
      rw [hr.scope] at henter
      obtain ⟨rfl, -, hns⟩ := follows_of_enter henter htag (binds_attributes htag hliteral)
      refine ⟨?_, hr.length, Scope.leave_of _ _⟩
      simp only [Token.resolved, Token.resolve, id_eq, ← hns]
  | endTag hopened =>
      have hlength := hr.length
      rw [hopened] at hlength
      cases opened with
      | nil => cases hlength
      | cons attributes above =>
          refine ⟨rfl, Nat.succ.inj hlength, ?_⟩
          show r.scope.leave = .of above
          rw [hr.scope, Scope.leave_of]
  | instruction h =>
      rcases readInstruction_eq_ok h with ⟨_, _, _, rfl⟩ | ⟨_, _, rfl, -⟩ <;>
        exact ⟨rfl, hr⟩
  | _ => exact ⟨rfl, hr⟩

theorem ReadsAll.follows (h : r.ReadsAll pieces tokens) (hr : r.Follows opened)
    (hliteral : ∀ piece ∈ pieces, piece.DeclaresLiterally) :
    Token.resolved id opened tokens = tokens := by
  induction h generalizing opened with
  | nil => rfl
  | cons hgives _ ih =>
      rw [List.forall_mem_cons] at hliteral
      obtain ⟨hresolved, hr'⟩ := hgives.follows hr hliteral.1
      rw [Token.resolved_append, hresolved, ih hr' hliteral.2]

/-! ### Plain declarations -/

theorem declaresPlainly_of_decodes {raw : List RawAttribute} {attributes : List Attribute}
    (h : List.Forall₂ Decodes raw attributes) (hplain : ∀ r ∈ raw, r.DeclaresPlainly) :
    ∀ a ∈ attributes, a.DeclaresPlainly := by
  induction h with
  | nil => exact nofun
  | @cons r a raw attributes hr _ ih =>
      rw [List.forall_mem_cons] at hplain ⊢
      refine ⟨fun hdeclared => ?_, ih hplain.2⟩
      rw [← hr.1] at hdeclared
      rw [← eq_of_declaresLiterally hr hplain.1.literally hdeclared]
      exact hplain.1 hdeclared

/-- A tag with plain declarations is read without a fault. -/
theorem faultless_of_enter {content : RawText} {scope : Scope} {tag : StartTag}
    (henter : enterTag (.of opened) content = (scope, none))
    (htag : readStartTag scope content = .ok tag)
    (hplain : ∀ a ∈ (readAttributes false (splitTag content).2).1, a.DeclaresPlainly) :
    tag.Faultless := by
  obtain ⟨-, hpermitted, -⟩ := follows_of_enter henter htag
    (binds_attributes htag fun a ha => (hplain a ha).literally)
  obtain ⟨-, -, hnodup, raw, hraw, hdecodes⟩ := readStartTag_eq_ok htag
  rw [hraw] at hplain
  exact ⟨hnodup, hpermitted, declaresPlainly_of_decodes hdecodes hplain⟩

theorem Gives.faultless {piece : Piece} (h : r.Gives piece tokens r') (hr : r.Follows opened)
    (hplain : piece.DeclaresPlainly) : ∀ tag, .startTag tag ∈ tokens → tag.Faultless := by
  intro tag htag
  cases h with
  | startTag henter hread =>
      rw [hr.scope] at henter
      cases List.mem_singleton.mp htag
      exact faultless_of_enter henter hread hplain
  | emptyTag henter hread =>
      rw [hr.scope] at henter
      rcases List.mem_cons.mp htag with heq | hend
      · rw [Token.startTag.inj heq]
        exact faultless_of_enter henter hread hplain
      · cases List.mem_singleton.mp hend
  | instruction h =>
      rcases readInstruction_eq_ok h with ⟨_, _, _, rfl⟩ | ⟨_, _, rfl, -⟩ <;>
        cases List.mem_singleton.mp htag
  | _ => cases List.mem_singleton.mp htag

theorem ReadsAll.faultless (h : r.ReadsAll pieces tokens) (hr : r.Follows opened)
    (hplain : ∀ piece ∈ pieces, piece.DeclaresPlainly) :
    ∀ tag, .startTag tag ∈ tokens → tag.Faultless := by
  induction h generalizing opened with
  | nil => exact nofun
  | cons hgives _ ih =>
      rw [List.forall_mem_cons] at hplain
      obtain ⟨-, hr'⟩ := hgives.follows hr hplain.1.literally
      intro tag htag
      rcases List.mem_append.mp htag with htag | htag
      · exact hgives.faultless hr hplain.1 tag htag
      · exact ih hr' hplain.2 tag htag

/-! ### Tokens that could have been written -/

theorem not_infix_toList {word : List Char} {s : String} (h : ¬ word.map .char <:+: ofString s) :
    ¬ word <:+: s.toList :=
  fun hinside => h (hinside.map Symbol.char)

/-- What a piece gives could have been written, if its names can be. -/
theorem Gives.writable {piece : Piece} (h : r.Gives piece tokens r') (hwhole : piece.Whole)
    (hfaultless : ∀ tag, .startTag tag ∈ tokens → tag.Faultless) :
    ∀ token ∈ tokens, (∀ name ∈ token.names, IsName name) → token.Writable := by
  intro token htoken hnames
  cases h with
  | text h =>
      rintro _ hm
      rw [List.mem_singleton.mp htoken] at hm
      cases hm
      obtain ⟨written, rfl, hunescape⟩ := unescape_of_decodeContent h
      exact Reference.unescape_ne_empty hunescape (mt RawText.ofString_eq_nil_iff.mpr hwhole)
  | cdata h =>
      rintro _ hm
      rw [List.mem_singleton.mp htoken] at hm
      cases hm
      rw [eq_of_decodeMarkup h] at hwhole
      exact not_infix_toList hwhole
  | comment h =>
      rintro _ hm
      rw [List.mem_singleton.mp htoken] at hm
      cases hm
      rw [eq_of_decodeMarkup h] at hwhole
      exact not_infix_toList hwhole
  | doctype =>
      rintro _ hm
      rw [List.mem_singleton.mp htoken] at hm
      cases hm
  | instruction h =>
      rintro _ hm
      obtain rfl := List.mem_singleton.mp htoken
      rcases readInstruction_eq_ok h with
        ⟨_, _, _, rfl⟩ | ⟨target, data, rfl, hxml, hblank, hinside⟩
      · cases hm
      · cases hm
        exact ⟨hnames target (by simp [Token.names]), hxml,
          fun h => hwhole ((h.map Symbol.char).trans hinside), hblank⟩
  | startTag =>
      obtain rfl := List.mem_singleton.mp htoken
      exact (hfaultless _ (by simp)).writable hnames
  | @emptyTag _ _ tag =>
      rcases List.mem_cons.mp htoken with rfl | htoken
      · exact (hfaultless _ (by simp)).writable hnames
      · rintro _ hm
        rw [List.mem_singleton.mp htoken] at hm hnames
        cases hm
        exact hnames _ (by simp [Token.names])
  | endTag =>
      rintro _ hm
      rw [List.mem_singleton.mp htoken] at hm hnames
      cases hm
      exact hnames _ (by simp [Token.names])

theorem ReadsAll.writable (h : r.ReadsAll pieces tokens) (hwhole : ∀ piece ∈ pieces, piece.Whole)
    (hfaultless : ∀ tag, .startTag tag ∈ tokens → tag.Faultless) :
    ∀ token ∈ tokens, (∀ name ∈ token.names, IsName name) → token.Writable := by
  induction h with
  | nil => exact nofun
  | cons hgives _ ih =>
      rw [List.forall_mem_cons] at hwhole
      intro token htoken
      rcases List.mem_append.mp htoken with htoken | htoken
      · exact hgives.writable hwhole.1 (fun tag htag =>
          hfaultless tag (List.mem_append_left _ htag)) token htoken
      · exact ih hwhole.2 (fun tag htag => hfaultless tag (List.mem_append_right _ htag)) token
          htoken

/-- A piece gives something, and it gives text just if it is text. -/
theorem Gives.isText {piece : Piece} (h : r.Gives piece tokens r') :
    tokens ≠ [] ∧ (∀ token ∈ tokens, token.isText = piece.isText) ∧
      (piece.isText = true → ∃ token, tokens = [token]) := by
  cases h with
  | instruction h =>
      rcases readInstruction_eq_ok h with ⟨_, _, _, rfl⟩ | ⟨_, _, rfl, -⟩ <;>
        simp [Token.isText, Piece.isText]
  | _ => simp [Token.isText, Piece.isText]

/-- No text stands beside another if none is cut off beside another. -/
theorem ReadsAll.separated (h : r.ReadsAll pieces tokens)
    (hpieces : pieces.IsChain fun p p' => ¬(p.isText = true ∧ p'.isText = true)) :
    Token.Separated tokens := by
  induction h with
  | nil => exact List.isChain_nil
  | @cons r r' piece pieces tokens more hgives hmore ih =>
      obtain ⟨hhead, htail⟩ := List.isChain_cons.mp hpieces
      obtain ⟨-, htext, hone⟩ := hgives.isText
      refine List.isChain_append.mpr ⟨?_, ih htail, ?_⟩
      · cases hpiece : piece.isText with
        | true =>
            obtain ⟨token, rfl⟩ := hone hpiece
            exact List.isChain_singleton _
        | false =>
            refine List.Pairwise.isChain (List.pairwise_of_forall_mem_list ?_)
            rintro token htoken - - ⟨hnot, -⟩
            rw [htext token htoken, hpiece] at hnot
            cases hnot
      · rintro token htoken token' htoken' ⟨h, h'⟩
        cases hmore with
        | nil => cases htoken'
        | @cons _ _ piece' _ tokens' _ hgives' _ =>
            obtain ⟨hne', htext', -⟩ := hgives'.isText
            obtain ⟨first, rest, rfl⟩ := List.exists_cons_of_ne_nil hne'
            cases htoken'
            rw [htext token (List.mem_of_getLast? htoken)] at h
            rw [htext' _ List.mem_cons_self] at h'
            exact hhead piece' rfl ⟨h, h'⟩

/-! ### What has been written -/

variable {marks : List Mark}

/-- Marks that can be told apart are read without a failure. -/
theorem readsAll_written {opened last : List String} (hwritable : ∀ m ∈ marks, m.Writable)
    (hnested : Nested opened marks last) (hr : r.At opened) :
    ∃ tokens, r.ReadsAll (marks.map Mark.piece) tokens ∧
      tokens.map Token.withoutNamespace = marks.flatMap Mark.tokens ∧
      r.outcomes marks = (tokens ++ [Token.endDocument]).map .ok := by
  induction marks generalizing r opened with
  | nil => exact ⟨[], .nil, rfl, rfl⟩
  | cons m marks ih =>
      obtain _ | ⟨hmoves, hnested⟩ := hnested
      rw [List.forall_mem_cons] at hwritable
      obtain ⟨tokens, r', hread, hr', htokens⟩ := read_piece hr hwritable.1 hmoves
      obtain ⟨more, hmore, hmoreTokens, houtcomes⟩ := ih hwritable.2 hnested hr'
      refine ⟨tokens ++ more, .cons (gives_of_read hread) hmore, ?_, ?_⟩
      · rw [List.map_append, htokens, hmoreTokens, List.flatMap_cons]
      · rw [outcomes, hread, houtcomes]
        simp

end Reader

/-- Text without any character that has to be escaped is written as it is. -/
theorem escape_of_isPlain {s : String} (h : IsPlain (ofString s)) : Reference.escape s = s := by
  have hnot : ∀ c ∈ s.toList, Reference.escapeChar c = [c] := by
    intro c hc
    have hne : ∀ c' ∈ ['&', '<', '>', '"', '\''], c ≠ c' := by
      rintro c' hc' rfl
      exact h c hc' (RawText.mem_ofString.mpr ⟨c, hc, rfl⟩)
    simp only [List.forall_mem_cons] at hne
    obtain ⟨h1, h2, h3, h4, h5, -⟩ := hne
    simp only [Reference.escapeChar, Reference.name?, h1, h2, h3, h4, h5, if_false]
  rw [← String.toList_inj, Reference.toList_escape]
  generalize s.toList = cs at hnot
  induction cs with
  | nil => rfl
  | cons c cs ih =>
      rw [List.forall_mem_cons] at hnot
      rw [List.flatMap_cons, hnot.1, ih hnot.2, List.singleton_append]

/-- Declarations that do not need references are written without. -/
theorem declaresPlainly_written {raw : List RawAttribute} {attributes : List Attribute}
    (h : List.Forall₂ Written raw attributes) (hplain : ∀ a ∈ attributes, a.DeclaresPlainly) :
    ∀ r ∈ raw, r.DeclaresPlainly := by
  induction h with
  | nil => exact nofun
  | @cons r a raw attributes hr _ ih =>
      rw [List.forall_mem_cons] at hplain ⊢
      refine ⟨fun hdeclared => ?_, ih hplain.2⟩
      rw [hr.1] at hdeclared
      have hvalue := hplain.1 hdeclared
      rwa [hr.2, escape_of_isPlain hvalue]

/-- A mark is written with plain declarations if the token that it is for has such. -/
theorem declaresPlainly_piece {m : Mark} (hm : m.Writable)
    (hplain : ∀ tag, .startTag tag ∈ m.tokens → ∀ a ∈ tag.attributes, a.DeclaresPlainly) :
    m.piece.DeclaresPlainly := by
  have htag : ∀ name attributes, (Mark.opening name attributes).Writable →
      (∀ a ∈ attributes, a.DeclaresPlainly) →
      (Mark.opening name attributes).piece.DeclaresPlainly := by
    rintro name attributes ⟨hname, hattributes, hnodup⟩ hplain
    obtain ⟨raw, hraw, hwritten⟩ := readAttributes_text (fun a ha => (hattributes a ha).1) hnodup
      false (0 + RawText.size (ofString name))
    show ∀ a ∈ (readAttributes false (splitTag (ofString (Mark.tagText name attributes))).2).1, _
    rw [splitTag_tagText hname, hraw]
    exact declaresPlainly_written hwritten hplain
  cases m with
  | opening name attributes | empty name attributes =>
      exact htag name attributes hm (hplain ⟨name, none, attributes⟩ (by simp [Mark.tokens]))
  | _ => trivial

end Markup

end PersistenceMapping
