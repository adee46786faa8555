/-
Entity documents that are bound strictly.

A strict binder asks of an entity document what strict mode asks for, but not of all of it.  What
comes before the root is passed over before anything is built, whatever it is.  The root itself is
brought to current shape first, so its first version and its schema locations are gone when the
names of its attributes are compared.  Behind the start tag of the root nothing is left out.

That is all there is between the two ways of binding (`bind_strict_iff`): bringing a document to
current shape keeps the names of attributes and leaves character data where it is, so the tokens
that the builder gets are such as strict mode asks for just if those of the document are.
-/
import PersistenceMapping.Proofs.Rebound
import PersistenceMapping.Proofs.Tree.Strict

namespace PersistenceMapping

open TokenStream (upToEnd upToEnd_ok)

namespace Dialect.Entity

variable {versions : List String} {tag tag' : StartTag} {depth : Nat} {tokens : List Token}

/-! ### Tokens in current shape -/

theorem upToEnd_normalizeItems (items : List Outcome) :
    upToEnd (normalizeItems items) = (upToEnd items).map normalizeToken := by
  induction items with
  | nil => rfl
  | cons item items ih =>
      show upToEnd (_ :: normalizeItems items) = _
      cases item with
      | error e => rfl
      | ok token =>
          cases token with
          | endDocument => rfl
          | _ => exact congrArg (_ :: ·) ih

theorem outside_normalizeToken (depth : Nat) (tokens : List Token) :
    Token.outside depth (tokens.map normalizeToken) =
      (Token.outside depth tokens).map normalizeToken := by
  induction tokens generalizing depth with
  | nil => rfl
  | cons token tokens ih =>
      have hdepth : (normalizeToken token).depthBehind depth = token.depthBehind depth := by
        cases token <;> rfl
      rw [List.map_cons, Token.outside, Token.outside, hdepth]
      by_cases h : depth = 0
      · rw [if_pos h, if_pos h, List.map_cons, ih]
      · rw [if_neg h, if_neg h, ih]

/-- Strict mode asks the same of tokens and of what they are in current shape. -/
theorem isStrict_normalizeToken :
    Token.IsStrict depth (tokens.map normalizeToken) ↔ Token.IsStrict depth tokens := by
  have hstray : ∀ token : Token, (normalizeToken token).isStray = token.isStray := by
    intro token
    cases token <;> rfl
  have houtside : (∀ token ∈ Token.outside depth (tokens.map normalizeToken),
      token.isStray = false) ↔ ∀ token ∈ Token.outside depth tokens, token.isStray = false := by
    rw [outside_normalizeToken, List.forall_mem_map]
    exact forall₂_congr fun token _ => by rw [hstray]
  constructor
  · intro h
    refine ⟨fun tag htag => ?_, houtside.mp h.outside⟩
    have hnodup := h.attributes (normalizeTag tag) (List.mem_map_of_mem htag)
    rwa [normalizeTag, Attributes.names_redeclare] at hnodup
  · intro h
    refine ⟨fun tag htag => ?_, houtside.mpr h.outside⟩
    obtain ⟨token, htoken, heq⟩ := List.mem_map.mp htag
    cases token with
    | startTag tag' =>
        rw [← Token.startTag.inj heq, normalizeTag, Attributes.names_redeclare]
        exact h.attributes tag' htoken
    | _ => cases heq

/-- What strict mode asks of a document in current shape, from its root on. -/
theorem isStrict_document (h : normalizeRoot versions tag = .ok tag') (items : List Outcome) :
    Token.IsStrict 0 (upToEnd (.ok (.startTag (normalizeTag tag')) :: normalizeItems items)) ↔
      ((keptOfRoot tag.attributes).map (·.name)).Nodup ∧
        Token.IsStrict 1 (upToEnd items) := by
  rw [upToEnd_ok (by nofun), upToEnd_normalizeItems, Token.isStrict_cons, Token.isStrict_singleton]
  refine and_congr ?_ isStrict_normalizeToken
  rw [← nodup_normalizeRoot h]
  constructor
  · intro h
    have hnodup := h.1 _ rfl
    rwa [normalizeTag, Attributes.names_redeclare] at hnodup
  · intro h
    refine ⟨fun tag₁ heq => ?_, fun _ => rfl⟩
    rw [← Token.startTag.inj heq, normalizeTag, Attributes.names_redeclare]
    exact h

end Dialect.Entity

namespace Binder

open Dialect.Entity (keptOfRoot isStrict_document)

variable {b : Binder} {s : TokenStream} {before : List Token} {tag : StartTag}
  {rest : List Outcome}

/-! ### Binding -/

/-- The binder that is not strict. -/
def lenient (b : Binder) : Binder :=
  { b with options := { b.options with strict := false } }

/-- What a strict binder asks of an entity document over what any binder asks: the attributes that
the root keeps have distinct names, and so have those of the start tags behind it, and behind the
root there is no character data but white space. -/
theorem bind_strict_iff (origin : Origin) (hstrict : b.options.strict = true)
    (hitems : s.items = before.map .ok ++ .ok (.startTag tag) :: rest)
    (hbefore : ∀ token ∈ before, token.isStartTag = false)
    (hname : tag.localName ≠ Dialect.Hierarchical.rootName) (binding : Binding) :
    (b.bind origin s).1 = .ok binding ↔
      (b.lenient.bind origin s).1 = .ok binding ∧
        ((keptOfRoot tag.attributes).map (·.name)).Nodup ∧ Token.IsStrict 1 (upToEnd rest) := by
  have hseek : s.seekRoot = .ok (tag, { s with items := .ok (.startTag tag) :: rest }) := by
    rw [TokenStream.seekRoot, hitems, TokenStream.seekStart_append hbefore]
    rfl
  have hbind : ∀ b' : Binder, (b'.bind origin s).1 =
      (b'.options.bindEntity origin { s with items := .ok (.startTag tag) :: rest }).map
        fun d => ⟨.entity d, origin⟩ := by
    intro b'
    rw [bind_of_entity hseek hname]
  have hentity : ∀ d, b.options.bindEntity origin
        { s with items := .ok (.startTag tag) :: rest } = .ok d ↔
      b.lenient.options.bindEntity origin { s with items := .ok (.startTag tag) :: rest } = .ok d ∧
        ((keptOfRoot tag.attributes).map (·.name)).Nodup ∧ Token.IsStrict 1 (upToEnd rest) := by
    intro d
    rw [BinderOptions.bindEntity_eq_ok_iff, BinderOptions.bindEntity_eq_ok_iff, hstrict]
    constructor
    · rintro ⟨tag', hroot, hrun⟩
      obtain ⟨hlenient, hasked⟩ := (Builder.run_strict_iff _ _).mp hrun
      exact ⟨⟨tag', hroot, hlenient⟩, (isStrict_document hroot rest).mp hasked⟩
    · rintro ⟨⟨tag', hroot, hlenient⟩, hasked⟩
      refine ⟨tag', hroot, (Builder.run_strict_iff _ _).mpr ⟨hlenient, ?_⟩⟩
      exact (isStrict_document hroot rest).mpr hasked
  rw [hbind, hbind]
  constructor
  · intro h
    obtain ⟨d, hd, heq⟩ := exists_of_map_eq_ok h
    obtain ⟨hlenient, hasked⟩ := (hentity d).mp hd
    refine ⟨?_, hasked⟩
    rw [hlenient, ← heq]
    rfl
  · rintro ⟨h, hasked⟩
    obtain ⟨d, hd, heq⟩ := exists_of_map_eq_ok h
    rw [(hentity d).mpr ⟨hd, hasked⟩, ← heq]
    rfl

/-- A document with a comment before its root and white space behind it is bound strictly, and one
with a repeated attribute inside is not. -/
theorem bind_strict_iff_of_child :
    let document : List Attribute → TokenStream := fun attributes => .ofTokens [.comment "c",
      .startTag ⟨"entity-mappings", none, [⟨"version", "2.1"⟩]⟩,
      .startTag ⟨"package", none, attributes⟩, .cdata "p", .endTag "package",
      .endTag "entity-mappings", .text "\n"]
    let b : Binder := { options := { strict := true } }
    let origin : Origin := ⟨.file, "orm.xml"⟩
    (∃ binding, (b.bind origin (document [])).1 = .ok binding ∧
        (b.lenient.bind origin (document [])).1 = .ok binding) ∧
      ∀ binding, (b.bind origin (document [⟨"a", "1"⟩, ⟨"a", "2"⟩])).1 ≠ .ok binding := by
  intro document b origin
  have hlenient : (b.lenient.bind origin (document [])).1.isOk = true := by decide +kernel
  have hiff := fun attributes => @bind_strict_iff b (document attributes) [.comment "c"] _ _
    origin rfl rfl (by decide) (by decide)
  refine ⟨?_, fun binding h => ?_⟩
  · rcases hbound : (b.lenient.bind origin (document [])).1 with e | binding
    · rw [hbound] at hlenient
      cases hlenient
    · refine ⟨binding, (hiff [] binding).mpr ⟨hbound, by decide, fun tag htag => ?_, by decide⟩, rfl⟩
      obtain rfl : tag = ⟨"package", none, []⟩ := by simpa [upToEnd] using htag
      exact List.nodup_nil
  · have hnodup := ((hiff _ binding).mp h).2.2.attributes
      ⟨"package", none, [⟨"a", "1"⟩, ⟨"a", "2"⟩]⟩ (by simp [upToEnd])
    exact absurd hnodup (by decide)

/-- A strict binder takes in character data before the root, and a root with two versions. -/
theorem bind_strict_of_stray :
    let root : List Attribute → List Token := fun attributes =>
      [.startTag ⟨"entity-mappings", none, attributes⟩, .endTag "entity-mappings"]
    let stray : List Token := .text "stray" :: root []
    let repeated : List Attribute := [⟨"version", "2.1"⟩, ⟨"version", "2.2"⟩]
    let b : Binder := { options := { strict := true } }
    let origin : Origin := ⟨.file, "orm.xml"⟩
    ((b.bind origin (.ofTokens stray)).1.isOk = true ∧
        .text "stray" ∈ Token.outside 0 stray ∧ Token.isStray (.text "stray") = true) ∧
      (b.bind origin (.ofTokens (root repeated))).1.isOk = true ∧
        ¬(repeated.map (·.name)).Nodup := by
  decide +kernel

end Binder

end PersistenceMapping
