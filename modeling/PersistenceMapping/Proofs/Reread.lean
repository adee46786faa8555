/-
Documents that are brought to current shape once more.

A dialect stands on a reader and gives the tokens of a document in current shape.  What they are
depends on nothing but the tokens that it gets, one pull after the other (`Stack.Yields`).  What
comes out is such that nothing is left to be changed, `IsCurrent` in the one dialect as in the
other, and such tokens come out of the same dialect as they are.  So reading in either dialect is
idempotent (`current_again`), and apart from document types, which the hierarchical dialect drops,
every token that goes in comes out as what it was.

An entity document may be of a version that is not supported.  Then a failure comes out instead of
its root, and to read what comes behind it would be to take the next start tag for a root.
-/
import PersistenceMapping.Proofs.Dialect.Entity
import PersistenceMapping.Proofs.Dialect.Hierarchical
import PersistenceMapping.Proofs.Stack

namespace PersistenceMapping

/-! ### Entity documents -/

namespace Dialect.Entity

variable {versions : List String} {tag tag' : StartTag} {token : Token} {tokens : List Token}

/-- The attributes that are kept wherever they stand. -/
def isKept (a : Attribute) : Bool :=
  !(a.declaresNamespace || a.name == "version" || isSchemaLocation a)

theorem isKept_eq_true {a : Attribute} (h : isKept a = true) :
    a.declaresNamespace = false ∧ a.name ≠ "version" ∧ isSchemaLocation a = false := by
  simp only [isKept, Bool.not_eq_true', Bool.or_eq_false_iff, beq_eq_false_iff_ne] at h
  exact ⟨h.1.1, h.1.2, h.2⟩

theorem kept_normalizeTag (tag : StartTag) :
    (normalizeTag tag).attributes.filter isKept = tag.attributes.filter isKept := by
  refine Attributes.filter_redeclare _ _ fun a ha => ?_
  simp only [isKept, ha, Bool.true_or, Bool.not_true]

theorem kept_normalizeRoot (h : normalizeRoot versions tag = .ok tag') :
    tag'.attributes.filter isKept = tag.attributes.filter isKept := by
  have hkept : (keptOfRoot tag.attributes).filter isKept = tag.attributes.filter isKept := by
    rw [keptOfRoot, List.filter_filter, ← filter_remove fun a _ ha => (isKept_eq_true ha).2.1]
    refine List.filter_congr fun a _ => ?_
    cases ha : isKept a with
    | false => rfl
    | true => simp only [(isKept_eq_true ha).2.2, Bool.not_false, Bool.and_self]
  rcases attributes_of_normalizeRoot h with ⟨hsame, -⟩ | ⟨hadded, -⟩
  · rw [hsame, hkept]
  · rw [hadded, List.filter_append, hkept]
    exact List.append_nil _

theorem isFreeOf_normalizeTag (tag : StartTag) :
    (normalizeTag tag).IsFreeOf standardNamespaces where
  ns := by
    refine ⟨_, rfl, ?_⟩
    cases tag.ns with
    | none => exact replaces.canonical
    | some ns => exact replaces.getD_not_mem ns
  declarations := replaces.declarations_redeclare

theorem normalizeTag_of_isFreeOf (h : tag.IsFreeOf standardNamespaces) :
    normalizeTag tag = tag := by
  obtain ⟨ns, hns, hfree⟩ := h.ns
  have hnamespace : namespaceOf tag.ns = ns := by
    rw [hns]
    exact replaces.getD_of_not_mem hfree
  rw [normalizeTag, hnamespace, replaces.redeclare_eq_self h.declarations, ← hns]

/-- The tokens of an entity document of which nothing is left to be changed. -/
structure IsCurrent (tokens : List Token) : Prop where
  tags : ∀ tag, .startTag tag ∈ tokens → tag.IsFreeOf standardNamespaces
  root : ∀ tag, tokens.findSome? Token.startTag? = some tag → Settled tag

theorem isCurrent_nil : IsCurrent [] :=
  ⟨nofun, nofun⟩

theorem isCurrent_cons_other (h : token.isStartTag = false) :
    IsCurrent (token :: tokens) ↔ IsCurrent tokens := by
  have hnone := Token.startTag?_eq_none h
  have hne : ∀ tag, Token.startTag tag ≠ token := by
    rintro tag rfl
    cases h
  constructor
  · intro hcurrent
    refine ⟨fun tag htag => hcurrent.tags tag (List.mem_cons_of_mem _ htag), fun tag htag => ?_⟩
    refine hcurrent.root tag ?_
    rw [List.findSome?_cons, hnone]
    exact htag
  · intro hcurrent
    refine ⟨fun tag htag => ?_, fun tag htag => ?_⟩
    · exact hcurrent.tags tag ((List.mem_cons.mp htag).resolve_left (hne tag))
    · rw [List.findSome?_cons, hnone] at htag
      exact hcurrent.root tag htag

/-- Behind the root there is nothing to be changed but namespaces. -/
theorem isCurrent_root (hsettled : Settled tag) (hfree : tag.IsFreeOf standardNamespaces)
    (hrest : ∀ tag', .startTag tag' ∈ tokens → tag'.IsFreeOf standardNamespaces) :
    IsCurrent (.startTag tag :: tokens) := by
  refine ⟨fun tag₁ htag => ?_, fun tag₁ htag => ?_⟩
  · rcases List.mem_cons.mp htag with heq | htag
    · rw [Token.startTag.inj heq]
      exact hfree
    · exact hrest tag₁ htag
  · obtain rfl : tag = tag₁ := Option.some.inj htag
    exact hsettled

theorem isFreeOf_of_mem_map (h : .startTag tag ∈ tokens.map normalizeToken) :
    tag.IsFreeOf standardNamespaces := by
  obtain ⟨token, -, heq⟩ := List.mem_map.mp h
  cases token with
  | startTag tag' =>
      rw [← Token.startTag.inj heq]
      exact isFreeOf_normalizeTag tag'
  | _ => cases heq

theorem map_normalizeToken_eq_self
    (h : ∀ tag, .startTag tag ∈ tokens → tag.IsFreeOf standardNamespaces) :
    tokens.map normalizeToken = tokens := by
  refine (List.map_congr_left fun token htoken => ?_).trans (List.map_id tokens)
  cases token with
  | startTag tag => exact congrArg Token.startTag (normalizeTag_of_isFreeOf (h tag htoken))
  | _ => rfl

theorem reshaped_normalizeToken (tokens : List Token) :
    List.Forall₂ (Token.Reshaped id isKept) tokens (tokens.map normalizeToken) := by
  rw [List.forall₂_map_right_iff, List.forall₂_same]
  intro token _
  cases token with
  | startTag tag => exact .startTag rfl (kept_normalizeTag tag)
  | endTag name => exact .endTag name
  | _ => exact .other rfl

theorem normalizeDocument_cons_other (versions : List String) (h : token.isStartTag = false)
    (items : List Outcome) :
    normalizeDocument versions (.ok token :: items) =
      .ok token :: normalizeDocument versions items := by
  cases token with
  | startTag tag => cases h
  | _ => rfl

theorem normalizeDocument_root (hroot : normalizeRoot versions tag = .ok tag')
    (tokens : List Token) :
    normalizeDocument versions (.ok (.startTag tag) :: tokens.map .ok) =
      (.startTag (normalizeTag tag') :: tokens.map normalizeToken).map .ok := by
  rw [normalizeDocument, hroot, normalizeItems_ok]
  rfl

/-- If the version is supported, every token is there, as what it was, and nothing is left to be
changed. -/
theorem exists_normalizeDocument (versions : List String) (tokens : List Token)
    (hnodup : ∀ tag, .startTag tag ∈ tokens → (tag.attributes.map (·.name)).Nodup)
    (hversion : ∀ version,
      .error (.unsupportedVersion version) ∉ normalizeDocument versions (tokens.map .ok)) :
    ∃ tokens', normalizeDocument versions (tokens.map .ok) = tokens'.map .ok ∧
      List.Forall₂ (Token.Reshaped id isKept) tokens tokens' ∧ IsCurrent tokens' := by
  -- Up to the root nothing happens.  Behind it no version is looked for, so the induction ends there.
  induction tokens with
  | nil => exact ⟨[], rfl, .nil, isCurrent_nil⟩
  | cons token tokens ih =>
      by_cases hstart : token.isStartTag = true
      · obtain ⟨tag, rfl⟩ := Token.exists_of_isStartTag hstart
        cases hroot : normalizeRoot versions tag with
        | error version =>
            refine absurd ?_ (hversion version)
            rw [List.map_cons, normalizeDocument, hroot]
            exact List.mem_cons_self
        | ok tag' =>
            have hsettled := settled_of_normalizeRoot (hnodup tag List.mem_cons_self) hroot
            refine ⟨_, normalizeDocument_root hroot tokens, ?_, ?_⟩
            · refine .cons (.startTag (name_of_normalizeRoot hroot).1 ?_)
                (reshaped_normalizeToken tokens)
              rw [kept_normalizeTag, kept_normalizeRoot hroot]
            · exact isCurrent_root hsettled.normalizeTag (isFreeOf_normalizeTag tag')
                fun _ htag => isFreeOf_of_mem_map htag
      · have hother : token.isStartTag = false := Bool.eq_false_iff.mpr hstart
        have hdocument := normalizeDocument_cons_other versions hother (tokens.map .ok)
        rw [List.map_cons, hdocument] at hversion ⊢
        obtain ⟨tokens', htokens', hreshaped, hcurrent⟩ :=
          ih (fun tag htag => hnodup tag (List.mem_cons_of_mem _ htag))
            fun version hmem => hversion version (List.mem_cons_of_mem _ hmem)
        refine ⟨token :: tokens', by rw [htokens']; rfl, ?_, ?_⟩
        · exact .cons (Token.reshaped_self_of_id (fun _ => rfl) token) hreshaped
        · exact (isCurrent_cons_other hother).mpr hcurrent

theorem IsCurrent.normalizeDocument (h : IsCurrent tokens) (versions : List String) :
    normalizeDocument versions (tokens.map .ok) = tokens.map .ok := by
  induction tokens with
  | nil => rfl
  | cons token tokens ih =>
      by_cases hstart : token.isStartTag = true
      · obtain ⟨tag, rfl⟩ := Token.exists_of_isStartTag hstart
        have hroot := (h.root tag rfl).normalizeRoot versions
        rw [List.map_cons, normalizeDocument_root hroot,
          normalizeTag_of_isFreeOf (h.tags tag List.mem_cons_self), map_normalizeToken_eq_self
            fun tag' htag' => h.tags tag' (List.mem_cons_of_mem _ htag')]
        rfl
      · have hother : token.isStartTag = false := Bool.eq_false_iff.mpr hstart
        rw [List.map_cons, normalizeDocument_cons_other versions hother,
          ih ((isCurrent_cons_other hother).mp h)]

end Dialect.Entity

/-! ### Reading token by token -/

namespace Stack

variable {s below : Stack} {items : List Outcome} {tokens tokens' : List Token}

/-- What the pull with this number gives, if nothing is done but pulling.  Where the stack cannot be
built, that is what every pull gives. -/
def pullAt (s : Stack) (k : Nat) : Pull :=
  match s.build with
  | .ok r => r.pullAt k
  | .error e => .error e

/-- Whether a stack gives these tokens and then ends. -/
def Yields (s : Stack) (tokens : List Token) : Prop :=
  ∀ k, s.pullAt k = .ok tokens[k]?

theorem Yields.unique (h : s.Yields tokens) (h' : s.Yields tokens') : tokens = tokens' :=
  List.ext_getElem? fun k => Except.ok.inj ((h k).symm.trans (h' k))

theorem pullAt_of_toStream {t : TokenStream} (h : s.toStream = .ok t) (k : Nat) :
    s.pullAt k = TokenSource.pullAt t k := by
  unfold pullAt
  obtain ⟨e, -, hstream⟩ | ⟨r, t', hbuild, hstream, hreads⟩ := s.reads_of_build
  · cases h.symm.trans hstream
  · cases h.symm.trans hstream
    rw [hbuild]
    exact hreads.pullAt_eq k

theorem yields_iff : s.Yields tokens ↔ s.toStream = .ok (.ofTokens tokens) := by
  constructor
  · intro h
    obtain ⟨e, hbuild, -⟩ | ⟨r, t, -, hstream, -⟩ := s.reads_of_build
    · have hfirst := h 0
      rw [pullAt, hbuild] at hfirst
      cases hfirst
    · rw [hstream, TokenStream.eq_ofTokens fun k => (pullAt_of_toStream hstream k).symm.trans (h k)]
  · intro h k
    rw [pullAt_of_toStream h, TokenStream.pullAt_eq, TokenStream.ofTokens, List.getElem?_map]
    cases tokens[k]? <;> rfl

theorem yields_stream (tokens : List Token) : (stream (.ofTokens tokens)).Yields tokens :=
  yields_iff.mpr rfl

/-- A failure among the items comes of some pull. -/
theorem exists_pullAt_of_error {e : TokenError} (h : s.toStream = .ok { items })
    (he : .error e ∈ items) : ∃ k, s.pullAt k = .error e := by
  obtain ⟨k, hk⟩ := List.mem_iff_getElem?.mp he
  exact ⟨k, by rw [pullAt_of_toStream h, TokenStream.pullAt_eq, hk]; rfl⟩

theorem Yields.hierarchical (h : below.Yields tokens) :
    (hierarchical below).Yields (Dialect.Hierarchical.normalizeTokens true tokens) := by
  rw [yields_iff, toStream, yields_iff.mp h]
  show Except.ok (Dialect.Hierarchical.normalize (.ofTokens tokens)) = _
  rw [Dialect.Hierarchical.normalize, TokenStream.ofTokens, Dialect.Hierarchical.normalizeItems_ok]
  rfl

theorem Yields.entity (h : below.Yields tokens) {versions : List String}
    (hdocument : Dialect.Entity.normalizeDocument versions (tokens.map .ok) = tokens'.map .ok) :
    (entity versions below).Yields tokens' := by
  rw [yields_iff, toStream, yields_iff.mp h]
  show Except.ok (Dialect.Entity.normalize versions (.ofTokens tokens)) = _
  rw [Dialect.Entity.normalize, TokenStream.ofTokens, hdocument]
  rfl

/-- In either dialect every token comes out as what it was and in current shape, wherever it comes
from, and what comes out is not changed any more if it is read in that dialect again. -/
theorem current_again (tokens : List Token) :
    (∀ name, Dialect.Hierarchical.IsRenamed name (Dialect.Hierarchical.renamed name)) ∧
      (∃ tokens', (∀ below, Yields below tokens → (hierarchical below).Yields tokens') ∧
        List.Forall₂ (Token.Reshaped Dialect.Hierarchical.renamed fun a => !a.declaresNamespace)
          (tokens.filter fun token => !token.isDoctype) tokens' ∧
        (Nests (tokens.filter Token.isTag) → Nests (tokens'.filter Token.isTag)) ∧
        (∀ token ∈ tokens', Dialect.Hierarchical.IsCurrent token) ∧
        ∀ below, Yields below tokens' → (hierarchical below).Yields tokens') ∧
      ∀ versions : List String,
        (∀ tag, .startTag tag ∈ tokens → (tag.attributes.map (·.name)).Nodup) →
        (∀ k version, (entity versions (.stream (.ofTokens tokens))).pullAt k ≠
          .error (.unsupportedVersion version)) →
        ∃ tokens', (∀ below, Yields below tokens → (entity versions below).Yields tokens') ∧
          List.Forall₂ (Token.Reshaped id Dialect.Entity.isKept) tokens tokens' ∧
          (Nests (tokens.filter Token.isTag) → Nests (tokens'.filter Token.isTag)) ∧
          Dialect.Entity.IsCurrent tokens' ∧
          ∀ below, Yields below tokens' → (entity versions below).Yields tokens' := by
  refine ⟨Dialect.Hierarchical.isRenamed_renamed, ?_, fun versions hnodup hversion => ?_⟩
  · refine ⟨Dialect.Hierarchical.normalizeTokens true tokens, fun below h => h.hierarchical,
      Dialect.Hierarchical.reshaped_normalizeTokens true tokens,
      Dialect.Hierarchical.nests_normalizeTokens true,
      Dialect.Hierarchical.isCurrent_normalizeTokens true tokens, fun below h => ?_⟩
    have hagain := h.hierarchical
    rwa [Dialect.Hierarchical.normalizeTokens_normalizeTokens] at hagain
  · have hfails : ∀ version, .error (.unsupportedVersion version) ∉
        Dialect.Entity.normalizeDocument versions (tokens.map .ok) := by
      intro version hmem
      have hstream : (entity versions (.stream (.ofTokens tokens))).toStream =
          .ok { items := Dialect.Entity.normalizeDocument versions (tokens.map .ok) } := rfl
      obtain ⟨k, hk⟩ := exists_pullAt_of_error hstream hmem
      exact hversion k version hk
    obtain ⟨tokens', htokens', hreshaped, hcurrent⟩ :=
      Dialect.Entity.exists_normalizeDocument versions tokens hnodup hfails
    exact ⟨tokens', fun below h => h.entity htokens', hreshaped, Nests.filter_isTag hreshaped,
      hcurrent, fun below h => h.entity (hcurrent.normalizeDocument versions)⟩

/-- Documents of older generations come out in current shape, and a second reader on the first gives
the same: in the one dialect an entity document with the namespace and the version of a standard, in
the other a mapping without a namespace at its root, with legacy names and a document type. -/
theorem current_again_of_standard :
    let standard := "http://java.sun.com/xml/ns/persistence/orm"
    let canonical := Dialect.Entity.canonicalNamespace
    let schema := "http://www.w3.org/2001/XMLSchema-instance"
    let tokens : List Token := [.comment "c",
      .startTag ⟨"entity-mappings", some standard, [⟨"xmlns", standard⟩, ⟨"version", "1.0"⟩,
        ⟨"xmlns:xsi", schema⟩, ⟨"xsi:schemaLocation", "orm.xsd"⟩]⟩,
      .startTag ⟨"p:entity", none, [⟨"xmlns:p", standard⟩, ⟨"version", "1.0"⟩]⟩,
      .endTag "p:entity", .endTag "entity-mappings"]
    let tokens' : List Token := [.comment "c",
      .startTag ⟨"entity-mappings", some canonical, [⟨"xmlns", canonical⟩, ⟨"xmlns:xsi", schema⟩]⟩,
      .startTag ⟨"p:entity", some canonical, [⟨"xmlns:p", canonical⟩, ⟨"version", "1.0"⟩]⟩,
      .endTag "p:entity", .endTag "entity-mappings"]
    let legacy := "http://www.hibernate.org/xsd/hibernate-mapping"
    let current := "http://www.hibernate.org/xsd/orm/hbm"
    let mapping : List Token := [.doctype "hibernate-mapping",
      .startTag ⟨"hibernate-mapping", none, [⟨"package", "p"⟩]⟩,
      .startTag ⟨"m:composite-index", some legacy, [⟨"xmlns:m", legacy⟩]⟩,
      .startTag ⟨"index-many-to-many", none, []⟩, .endTag "index-many-to-many",
      .endTag "m:composite-index", .endTag "hibernate-mapping"]
    let mapping' : List Token := [
      .startTag ⟨"hibernate-mapping", some current, [⟨"package", "p"⟩, ⟨"xmlns", current⟩]⟩,
      .startTag ⟨"m:composite-map-key", some current, [⟨"xmlns:m", current⟩]⟩,
      .startTag ⟨"map-key-many-to-many", some current, []⟩, .endTag "map-key-many-to-many",
      .endTag "m:composite-map-key", .endTag "hibernate-mapping"]
    (entity ["1.0"] (.stream (.ofTokens tokens))).Yields tokens' ∧
      (entity ["1.0"] (entity ["1.0"] (.stream (.ofTokens tokens)))).Yields tokens' ∧
      (hierarchical (.stream (.ofTokens mapping))).Yields mapping' ∧
      (hierarchical (hierarchical (.stream (.ofTokens mapping)))).Yields mapping' := by
  intro standard canonical schema tokens tokens' legacy current mapping mapping'
  have hyields : (entity ["1.0"] (.stream (.ofTokens tokens))).Yields tokens' :=
    (yields_stream tokens).entity (by decide +kernel)
  obtain ⟨out, hout, -, -, -, hagain⟩ := (current_again tokens).2.2 ["1.0"]
    (by simp [tokens]) fun k version herror => by
      rw [hyields k] at herror
      cases herror
  obtain rfl : out = tokens' := (hout _ (yields_stream tokens)).unique hyields
  have hmapping : Dialect.Hierarchical.normalizeTokens true mapping = mapping' := by decide +kernel
  have hcurrent : (hierarchical (.stream (.ofTokens mapping))).Yields mapping' :=
    hmapping ▸ (yields_stream mapping).hierarchical
  obtain ⟨out', hout', -, -, -, hagain'⟩ := (current_again mapping).2.1
  obtain rfl : out' = mapping' := (hout' _ (yields_stream mapping)).unique hcurrent
  exact ⟨hyields, hagain _ hyields, hcurrent, hagain' _ hcurrent⟩

end Stack

end PersistenceMapping
