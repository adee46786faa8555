/-
What the hierarchical dialect leaves to be done.

A tag is changed in three places, and the change of each leaves nothing for a second one: a current
name has no other current name (`current_renamed`), an outdated namespace is replaced by one that is
not, and a root that has been given a default namespace declares it from then on.  So a tag in
current shape is left as it is (`Settled.normalizeTag`), and with it every token
(`normalizeTokens_normalizeTokens`).

Start and end tags get the same names, as both keep their qualifiers (`split_renamed`).
-/
import PersistenceMapping.Dialect.Hierarchical
import PersistenceMapping.Proofs.Dialect.Reshaped

namespace PersistenceMapping

/-- Whether a token is a document type declaration. -/
def Token.isDoctype : Token → Bool
  | doctype _ => true
  | _ => false

namespace Dialect.Hierarchical

/-! ### Names -/

theorem currentName?_of_current {localName current : String}
    (h : currentName? localName = some current) :
    currentName? current = none ∧ ':' ∉ current.toList := by
  unfold currentName? at h
  split at h
  · obtain rfl := Option.some.inj h
    decide
  · split at h
    · obtain rfl := Option.some.inj h
      decide
    · cases h

/-- A name keeps its qualifier, and a legacy local name gives way to the current one. -/
theorem split_renamed (name : String) :
    QName.split (renamed name) =
      (QName.qualifier? name, (currentName? (QName.localName name)).getD (QName.localName name)) := by
  unfold renamed
  cases hcurrent : currentName? (QName.localName name) with
  | none => rfl
  | some current => exact QName.split_withLocalName name (currentName?_of_current hcurrent).2

example : renamed "m:composite-index" = "m:composite-map-key" := by decide

theorem qualifier?_renamed (name : String) :
    QName.qualifier? (renamed name) = QName.qualifier? name := by
  rw [QName.qualifier?, split_renamed]

theorem localName_renamed (name : String) :
    QName.localName (renamed name) =
      (currentName? (QName.localName name)).getD (QName.localName name) := by
  rw [QName.localName, split_renamed]

theorem current_renamed (name : String) :
    currentName? (QName.localName (renamed name)) = none := by
  rw [localName_renamed]
  cases hcurrent : currentName? (QName.localName name) with
  | none => exact hcurrent
  | some current => exact (currentName?_of_current hcurrent).1

theorem renamed_of_current {name : String} (h : currentName? (QName.localName name) = none) :
    renamed name = name := by
  rw [renamed, h]

/-- The local names that elements had in older documents. -/
def legacyNames : List String := ["composite-index", "index-many-to-many"]

theorem currentName?_eq_none_iff {localName : String} :
    currentName? localName = none ↔ localName ∉ legacyNames := by
  unfold currentName? legacyNames
  split <;> simp_all

/-- The name of an element, and its name in current shape. -/
structure IsRenamed (name current : String) : Prop where
  qualifier : QName.qualifier? current = QName.qualifier? name
  compositeIndex : QName.localName name = "composite-index" →
    QName.localName current = "composite-map-key"
  indexManyToMany : QName.localName name = "index-many-to-many" →
    QName.localName current = "map-key-many-to-many"
  other : QName.localName name ∉ legacyNames → current = name

theorem isRenamed_renamed (name : String) : IsRenamed name (renamed name) where
  qualifier := qualifier?_renamed name
  compositeIndex h := by
    rw [localName_renamed, h]
    rfl
  indexManyToMany h := by
    rw [localName_renamed, h]
    rfl
  other h := renamed_of_current (currentName?_eq_none_iff.mpr h)

/-! ### Start tags -/

variable {isRoot : Bool} {tag : StartTag}

theorem replaces : Replaces currentNamespace? [legacyNamespace] canonicalNamespace where
  eq ns := by simp only [currentNamespace?, List.mem_singleton]
  canonical := by decide

theorem namespaceOf_not_mem (ns : Option String) : namespaceOf ns ∉ [legacyNamespace] := by
  cases ns with
  | none => exact replaces.canonical
  | some ns => exact replaces.getD_not_mem ns

/-- A tag with current namespaces. -/
def redeclared (tag : StartTag) : StartTag :=
  { tag with
    ns := some (namespaceOf tag.ns)
    attributes := Attributes.redeclare currentNamespace? tag.attributes }

theorem normalizeTag_false (tag : StartTag) :
    normalizeTag false tag = { redeclared tag with name := renamed tag.name } :=
  rfl

theorem normalizeTag_true (tag : StartTag) :
    normalizeTag true tag =
      { (redeclared tag).declareDefault canonicalNamespace with name := renamed tag.name } := by
  have hunfold : normalizeTag true tag = { (redeclared tag).declareDefault canonicalNamespace with
      name := renamed ((redeclared tag).declareDefault canonicalNamespace).name } := rfl
  rw [hunfold, StartTag.name_declareDefault]
  rfl

theorem name_normalizeTag (isRoot : Bool) (tag : StartTag) :
    (normalizeTag isRoot tag).name = renamed tag.name := by
  cases isRoot with
  | false => rw [normalizeTag_false]
  | true => rw [normalizeTag_true]

theorem ns_normalizeTag (isRoot : Bool) (tag : StartTag) :
    (normalizeTag isRoot tag).ns = some (namespaceOf tag.ns) := by
  cases isRoot with
  | false => rfl
  | true =>
      rw [normalizeTag_true]
      exact StartTag.ns_declareDefault (redeclared tag) canonicalNamespace

/-- The attributes of a tag in current shape are those that it had, with current declarations, and
at the root maybe a declaration of the default namespace. -/
theorem attributes_normalizeTag (isRoot : Bool) (tag : StartTag) :
    (normalizeTag isRoot tag).attributes =
          Attributes.redeclare currentNamespace? tag.attributes ∧
        (isRoot = true → tag.qualifier? = none →
          ∃ a ∈ (normalizeTag isRoot tag).attributes, a.name = "xmlns") ∨
      (normalizeTag isRoot tag).attributes =
        Attributes.redeclare currentNamespace? tag.attributes ++ [⟨"xmlns", canonicalNamespace⟩] := by
  cases isRoot with
  | false => exact Or.inl ⟨rfl, nofun⟩
  | true =>
      rw [normalizeTag_true]
      rcases (redeclared tag).declareDefault_cases canonicalNamespace with
        ⟨hsame, hdefault⟩ | ⟨hadded, -⟩
      · rw [hsame]
        exact Or.inl ⟨rfl, fun _ => hdefault⟩
      · rw [hadded]
        exact Or.inr rfl

/-- Attributes that declare nothing are kept. -/
theorem kept_normalizeTag (isRoot : Bool) (tag : StartTag) :
    (normalizeTag isRoot tag).attributes.filter (fun a => !a.declaresNamespace) =
      tag.attributes.filter fun a => !a.declaresNamespace := by
  have hkept : (Attributes.redeclare currentNamespace? tag.attributes).filter
      (fun a => !a.declaresNamespace) = tag.attributes.filter fun a => !a.declaresNamespace :=
    Attributes.filter_redeclare _ _ fun a ha => by rw [ha]; rfl
  rcases attributes_normalizeTag isRoot tag with ⟨hsame, -⟩ | hadded
  · rw [hsame, hkept]
  · rw [hadded, List.filter_append, hkept]
    exact List.append_nil _

/-- A start tag of which nothing is left to be changed. -/
structure Settled (isRoot : Bool) (tag : StartTag) : Prop where
  free : tag.IsFreeOf [legacyNamespace]
  name : currentName? tag.localName = none
  default : isRoot = true → tag.qualifier? = none → ∃ a ∈ tag.attributes, a.name = "xmlns"

theorem settled_normalizeTag (isRoot : Bool) (tag : StartTag) :
    Settled isRoot (normalizeTag isRoot tag) := by
  have hqualifier : (normalizeTag isRoot tag).qualifier? = tag.qualifier? := by
    rw [StartTag.qualifier?, name_normalizeTag, qualifier?_renamed]
    rfl
  have hname : currentName? (normalizeTag isRoot tag).localName = none := by
    rw [StartTag.localName, name_normalizeTag]
    exact current_renamed tag.name
  have hns : ∃ ns, (normalizeTag isRoot tag).ns = some ns ∧ ns ∉ [legacyNamespace] :=
    ⟨_, ns_normalizeTag isRoot tag, namespaceOf_not_mem tag.ns⟩
  have hdeclarations : ∀ a ∈ Attributes.redeclare currentNamespace? tag.attributes,
      a.declaresNamespace = true → a.value ∉ [legacyNamespace] := replaces.declarations_redeclare
  rcases attributes_normalizeTag isRoot tag with ⟨hsame, hdefault⟩ | hadded
  · refine ⟨⟨hns, ?_⟩, hname, ?_⟩
    · rw [hsame]
      exact hdeclarations
    · rw [hqualifier]
      exact hdefault
  · refine ⟨⟨hns, ?_⟩, hname, fun _ _ => ?_⟩
    · rw [hadded, List.forall_mem_append, List.forall_mem_singleton]
      exact ⟨hdeclarations, fun _ => replaces.canonical⟩
    · rw [hadded]
      exact ⟨_, List.mem_concat_self, rfl⟩

theorem Settled.normalizeTag (h : Settled isRoot tag) : normalizeTag isRoot tag = tag := by
  have hredeclared : redeclared tag = tag := by
    obtain ⟨ns, hns, hfree⟩ := h.free.ns
    have hnamespace : namespaceOf tag.ns = ns := by
      rw [hns]
      exact replaces.getD_of_not_mem hfree
    rw [redeclared, hnamespace, replaces.redeclare_eq_self h.free.declarations, ← hns]
  have hname : renamed tag.name = tag.name := renamed_of_current h.name
  cases isRoot with
  | false => rw [normalizeTag_false, hredeclared, hname]
  | true =>
      rw [normalizeTag_true, hredeclared, StartTag.declareDefault_eq_self (h.default rfl), hname]

/-! ### Tokens -/

/-- Tokens in current shape.  `isRoot` holds until a start tag has been seen. -/
def normalizeTokens (isRoot : Bool) : List Token → List Token
  | [] => []
  | .doctype _ :: rest => normalizeTokens isRoot rest
  | .startTag tag :: rest => .startTag (normalizeTag isRoot tag) :: normalizeTokens false rest
  | .endTag name :: rest => .endTag (renamed name) :: normalizeTokens isRoot rest
  | token :: rest => token :: normalizeTokens isRoot rest

/-- A token of which nothing is left to be changed, wherever it stands. -/
def IsCurrent : Token → Prop
  | .startTag tag => tag.IsFreeOf [legacyNamespace] ∧ tag.localName ∉ legacyNames
  | .endTag name => QName.localName name ∉ legacyNames
  | token => token.isDoctype = false

variable {tokens : List Token}

theorem normalizeItems_ok (isRoot : Bool) (tokens : List Token) :
    normalizeItems isRoot (tokens.map .ok) = (normalizeTokens isRoot tokens).map .ok := by
  induction tokens generalizing isRoot with
  | nil => rfl
  | cons token tokens ih =>
      cases token with
      | doctype content => exact ih isRoot
      | startTag tag => exact congrArg (_ :: ·) (ih false)
      | _ => exact congrArg (_ :: ·) (ih isRoot)

/-- Every token but the document types is there, as what it was. -/
theorem reshaped_normalizeTokens (isRoot : Bool) (tokens : List Token) :
    List.Forall₂ (Token.Reshaped renamed fun a => !a.declaresNamespace)
      (tokens.filter fun token => !token.isDoctype) (normalizeTokens isRoot tokens) := by
  induction tokens generalizing isRoot with
  | nil => exact .nil
  | cons token tokens ih =>
      cases token with
      | doctype content => exact ih isRoot
      | startTag tag =>
          have hname := name_normalizeTag isRoot tag
          exact .cons (.startTag hname (kept_normalizeTag isRoot tag)) (ih false)
      | endTag name => exact .cons (.endTag name) (ih isRoot)
      | _ => exact .cons (.other rfl) (ih isRoot)

theorem isCurrent_normalizeTokens (isRoot : Bool) (tokens : List Token) :
    ∀ token ∈ normalizeTokens isRoot tokens, IsCurrent token := by
  induction tokens generalizing isRoot with
  | nil => exact nofun
  | cons token tokens ih =>
      cases token with
      | doctype content => exact ih isRoot
      | startTag tag =>
          have hsettled := settled_normalizeTag isRoot tag
          have hname := currentName?_eq_none_iff.mp hsettled.name
          exact List.forall_mem_cons.mpr ⟨⟨hsettled.free, hname⟩, ih false⟩
      | endTag name =>
          have hname := currentName?_eq_none_iff.mp (current_renamed name)
          exact List.forall_mem_cons.mpr ⟨hname, ih isRoot⟩
      | _ => exact List.forall_mem_cons.mpr ⟨rfl, ih isRoot⟩

/-- Tags that match still match. -/
theorem nests_normalizeTokens (isRoot : Bool) (h : Nests (tokens.filter Token.isTag)) :
    Nests ((normalizeTokens isRoot tokens).filter Token.isTag) := by
  refine Nests.filter_isTag (reshaped_normalizeTokens isRoot tokens) ?_
  rw [List.filter_filter]
  refine (List.filter_congr fun token _ => ?_).symm ▸ h
  cases token <;> rfl

theorem normalizeTokens_normalizeTokens (isRoot : Bool) (tokens : List Token) :
    normalizeTokens isRoot (normalizeTokens isRoot tokens) = normalizeTokens isRoot tokens := by
  induction tokens generalizing isRoot with
  | nil => rfl
  | cons token tokens ih =>
      cases token with
      | doctype content => exact ih isRoot
      | startTag tag =>
          refine congrArg₂ List.cons ?_ (ih false)
          rw [(settled_normalizeTag isRoot tag).normalizeTag]
      | endTag name =>
          refine congrArg₂ List.cons ?_ (ih isRoot)
          rw [renamed_of_current (current_renamed name)]
      | _ => exact congrArg (_ :: ·) (ih isRoot)

end Dialect.Hierarchical

end PersistenceMapping
