/-
What the entity dialect leaves to be done.

Bringing a document to current shape replaces namespaces in two places, in the start tags and in
the declarations around them, and the two stay together: a namespace in current shape is the one
that the declarations in current shape give (`resolved_normalized`).  Doing it again therefore
changes nothing, although the namespaces of the start tags may have been lost and been found again
in between (`map_resolved`).

That takes two things of the root.  No schema location may be taken from it that is itself the
declaration of a prefix, and no attribute may declare the default namespace but the one of the name
`xmlns`.
-/
import PersistenceMapping.Dialect.Entity
import PersistenceMapping.Proofs.Dialect.Reshaped
import PersistenceMapping.Proofs.Markup.Faultless

namespace PersistenceMapping

namespace Dialect.Entity

/-! ### Current namespaces -/

theorem replaces : Replaces currentNamespace? standardNamespaces canonicalNamespace where
  eq ns := by simp only [currentNamespace?, List.contains_iff_mem]
  canonical := by decide

/-- What stands in a declaration instead of a namespace. -/
def current (ns : String) : String :=
  (currentNamespace? ns).getD ns

theorem current_current (ns : String) : current (current ns) = current ns :=
  replaces.getD_of_not_mem (replaces.getD_not_mem ns)

theorem current_cases (ns : String) : current ns = ns ∨ current ns = canonicalNamespace := by
  unfold current currentNamespace?
  split
  · exact Or.inr rfl
  · exact Or.inl rfl

theorem isEmpty_current (ns : String) : (current ns).isEmpty = ns.isEmpty := by
  unfold current currentNamespace?
  split
  · rename_i h
    simp only [standardNamespaces, List.contains_cons, List.contains_nil, Bool.or_false,
      Bool.or_eq_true, beq_iff_eq] at h
    rcases h with rfl | rfl <;> decide
  · rfl

theorem namespaceOf_current (ns : String) :
    namespaceOf (some (current ns)) = namespaceOf (some ns) :=
  current_current ns

theorem namespaceOf_ne_empty {ns : Option String} (h : ns ≠ some "") : namespaceOf ns ≠ "" := by
  cases ns with
  | none => decide
  | some ns =>
      intro heq
      have hempty := isEmpty_current ns
      rw [show current ns = "" from heq] at hempty
      exact h (congrArg some (String.isEmpty_iff.mp hempty.symm))

/-! ### Declarations in current shape -/

/-- An attribute in current shape. -/
def currentAttribute (a : Attribute) : Attribute :=
  if a.declaresNamespace then { a with value := current a.value } else a

theorem redeclare_eq_map (attributes : List Attribute) :
    Attributes.redeclare currentNamespace? attributes = attributes.map currentAttribute :=
  rfl

theorem currentAttribute_name (a : Attribute) : (currentAttribute a).name = a.name := by
  unfold currentAttribute
  split <;> rfl

theorem declared?_currentAttribute (a : Attribute) :
    (currentAttribute a).declared? = a.declared? := by
  unfold currentAttribute
  split <;> rfl

/-- What declares a prefix declares a namespace. -/
theorem declaresNamespace_of_declared? {a : Attribute} {qualifier : Option String}
    (h : a.declared? = some qualifier) : a.declaresNamespace = true := by
  unfold Attribute.declared? at h
  split at h
  · rename_i hname
    simp [Attribute.declaresNamespace, QName.declaresNamespace, hname]
  · split at h
    · rename_i hqualifier
      rw [Attribute.qualifier?] at hqualifier
      simp [Attribute.declaresNamespace, QName.declaresNamespace, hqualifier]
    · cases h

theorem redeclare_redeclare (attributes : List Attribute) :
    Attributes.redeclare currentNamespace? (Attributes.redeclare currentNamespace? attributes) =
      Attributes.redeclare currentNamespace? attributes :=
  replaces.redeclare_eq_self replaces.declarations_redeclare

/-! ### Namespaces inside of elements -/

/-- Two ways in which the same elements are open, in which prefixes stand for the same namespaces
but for replacement. -/
def Agree (opened opened' : List (List Attribute)) : Prop :=
  ∀ depth qualifier, namespaceOf (namespaceFor? (opened.drop depth) qualifier) =
    namespaceOf (namespaceFor? (opened'.drop depth) qualifier)

namespace Agree

variable {opened opened' : List (List Attribute)}

theorem tail (h : Agree opened opened') : Agree opened.tail opened'.tail := by
  intro depth
  rw [List.drop_tail, List.drop_tail]
  exact h (depth + 1)

theorem cons (h : Agree opened opened') {attributes attributes' : List Attribute}
    (hhead : ∀ qualifier, namespaceOf (namespaceFor? (attributes :: opened) qualifier) =
      namespaceOf (namespaceFor? (attributes' :: opened') qualifier)) :
    Agree (attributes :: opened) (attributes' :: opened') := by
  rintro (_ | depth)
  · exact hhead
  · exact h depth

theorem trans {opened'' : List (List Attribute)} (h : Agree opened opened')
    (h' : Agree opened' opened'') : Agree opened opened'' :=
  fun depth qualifier => (h depth qualifier).trans (h' depth qualifier)

/-- Replacement in a declaration is replacement in what it declares. -/
theorem redeclare (h : Agree opened opened') (attributes : List Attribute) :
    Agree (Attributes.redeclare currentNamespace? attributes :: opened)
      (attributes :: opened') := by
  refine h.cons fun qualifier => ?_
  have hsame : (fun a : Attribute => a.declared? == some qualifier) ∘ currentAttribute =
      fun a => a.declared? == some qualifier := by
    funext a
    rw [Function.comp_apply, declared?_currentAttribute]
  rw [namespaceFor?, namespaceFor?, redeclare_eq_map, ← List.map_reverse, List.find?_map, hsame]
  cases hfind : attributes.reverse.find? (·.declared? == some qualifier) with
  | none => exact h 0 qualifier
  | some a =>
      have hdeclared : a.declared? = some qualifier := by simpa using List.find?_some hfind
      have hvalue : (currentAttribute a).value = current a.value := by
        rw [currentAttribute, if_pos (declaresNamespace_of_declared? hdeclared)]
      simp only [Option.map_some, hvalue, isEmpty_current]
      split
      · rfl
      · exact namespaceOf_current a.value

end Agree

/-! ### The root -/

/-- The attributes that a root keeps. -/
def keptOfRoot (attributes : List Attribute) : List Attribute :=
  (Attributes.remove "version" attributes).filter fun a => !isSchemaLocation a

/-- A root with the attributes that it keeps. -/
def strippedRoot (tag : StartTag) : StartTag :=
  { tag with attributes := keptOfRoot tag.attributes }

variable {versions : List String} {tag tag' : StartTag} {attributes : List Attribute}

theorem normalizeRoot_eq_ok (h : normalizeRoot versions tag = .ok tag') :
    tag' = (strippedRoot tag).declareDefault canonicalNamespace := by
  unfold normalizeRoot at h
  split at h
  · cases h
  · exact (Except.ok.inj h).symm

theorem name_of_normalizeRoot (h : normalizeRoot versions tag = .ok tag') :
    tag'.name = tag.name ∧ tag'.ns = tag.ns := by
  rw [normalizeRoot_eq_ok h]
  exact ⟨StartTag.name_declareDefault _ _, StartTag.ns_declareDefault _ _⟩

theorem keptOfRoot_sublist (attributes : List Attribute) :
    (keptOfRoot attributes).Sublist attributes :=
  List.filter_sublist.trans List.eraseP_sublist

theorem filter_remove {p : Attribute → Bool} {name : String}
    (h : ∀ a ∈ attributes, p a = true → a.name ≠ name) :
    (Attributes.remove name attributes).filter p = attributes.filter p := by
  unfold Attributes.remove
  induction attributes with
  | nil => rfl
  | cons a attributes ih =>
      rw [List.forall_mem_cons] at h
      by_cases hname : a.name = name
      · have hnot : ¬p a = true := fun hp => h.1 hp hname
        rw [List.eraseP_cons_of_pos (by simpa using hname), List.filter_cons_of_neg hnot]
      · rw [List.eraseP_cons_of_neg (by simpa using hname), List.filter_cons, List.filter_cons,
          ih h.2]

/-- What does not ask for a version or a schema location finds the same among the attributes that a
root keeps. -/
theorem find?_keptOfRoot {p : Attribute → Bool} (h : ∀ a ∈ attributes, p a = true →
    a.name ≠ "version" ∧ isSchemaLocation a = false) :
    (keptOfRoot attributes).reverse.find? p = attributes.reverse.find? p := by
  have hlocation : (keptOfRoot attributes).filter p =
      (Attributes.remove "version" attributes).filter p := by
    rw [keptOfRoot, List.filter_filter]
    refine List.filter_congr fun a ha => ?_
    cases hp : p a with
    | false => rfl
    | true => simp [(h a (List.eraseP_sublist.subset ha) hp).2]
  rw [← List.head?_filter, ← List.head?_filter, List.filter_reverse, List.filter_reverse, hlocation,
    filter_remove fun a ha hp => (h a ha hp).1]

/-- What declares a prefix is not dropped from a root, unless it is a schema location itself. -/
theorem kept_of_declared? {a : Attribute} {qualifier : Option String}
    (h : a.declared? = some qualifier) (hlocation : a.name ≠ "xmlns:schemaLocation") :
    a.name ≠ "version" ∧ isSchemaLocation a = false := by
  constructor
  · intro hname
    have hnone : QName.qualifier? "version" = none := by decide
    rw [Attribute.declared?, Attribute.qualifier?, hname, hnone] at h
    simp at h
  · by_contra hnot
    simp only [Bool.not_eq_false, isSchemaLocation, Bool.and_eq_true, beq_iff_eq] at hnot
    obtain ⟨hlocal, hqualifier⟩ := hnot
    have hjoin := QName.join_split a.name
    rw [show (QName.split a.name).2 = "schemaLocation" from hlocal] at hjoin
    unfold Attribute.declared? at h
    split at h
    · rename_i hname
      have hnone : QName.qualifier? "xmlns" = none := by decide
      rw [Attribute.qualifier?, hname, hnone] at hqualifier
      cases hqualifier
    · split at h
      · rename_i hxmlns
        rw [show (QName.split a.name).1 = some "xmlns" from hxmlns] at hjoin
        exact hlocation (hjoin.symm.trans (by decide))
      · cases h

/-- The attributes of a root in current shape are those that it keeps, and maybe a declaration of
the default namespace. -/
theorem attributes_of_normalizeRoot (h : normalizeRoot versions tag = .ok tag') :
    (tag'.attributes = keptOfRoot tag.attributes ∧
        (tag.qualifier? = none → ∃ a ∈ tag'.attributes, a.name = "xmlns")) ∨
      tag'.attributes = keptOfRoot tag.attributes ++ [⟨"xmlns", canonicalNamespace⟩] ∧
        ∀ a ∈ keptOfRoot tag.attributes, a.name ≠ "xmlns" := by
  rw [normalizeRoot_eq_ok h]
  rcases (strippedRoot tag).declareDefault_cases canonicalNamespace with
    ⟨hsame, hdefault⟩ | ⟨hadded, hnot⟩
  · rw [hsame]
    exact Or.inl ⟨rfl, hdefault⟩
  · rw [hadded]
    exact Or.inr ⟨rfl, hnot⟩

theorem mem_of_normalizeRoot (h : normalizeRoot versions tag = .ok tag') {a : Attribute}
    (ha : a ∈ tag'.attributes) : a ∈ tag.attributes ∨ a = ⟨"xmlns", canonicalNamespace⟩ := by
  have hkept := (keptOfRoot_sublist tag.attributes).subset
  rcases attributes_of_normalizeRoot h with ⟨hattributes, -⟩ | ⟨hattributes, -⟩
  · rw [hattributes] at ha
    exact Or.inl (hkept ha)
  · rw [hattributes] at ha
    rcases List.mem_append.mp ha with hold | hnew
    · exact Or.inl (hkept hold)
    · exact Or.inr (List.mem_singleton.mp hnew)

/-- Where local names are not empty, only the name `xmlns` declares the default namespace. -/
theorem name_of_declared? {a : Attribute} (h : a.declared? = some none)
    (hname : QName.localName a.name ≠ "") : a.name = "xmlns" := by
  unfold Attribute.declared? at h
  split at h
  · assumption
  · split at h
    · rw [Attribute.localName, if_neg hname] at h
      split at h <;> cases h
    · cases h

/-- A root in current shape declares what it did before, except for the canonical namespace. -/
theorem agree_root (hnames : ∀ a ∈ tag.attributes, QName.localName a.name ≠ "")
    (hlocation : tag.get? "xmlns:schemaLocation" = none)
    (h : normalizeRoot versions tag = .ok tag') : Agree [tag'.attributes] [tag.attributes] := by
  have hkept : ∀ qualifier,
      (keptOfRoot tag.attributes).reverse.find? (·.declared? == some qualifier) =
        tag.attributes.reverse.find? (·.declared? == some qualifier) := by
    intro qualifier
    refine find?_keptOfRoot fun a ha hdeclared => ?_
    exact kept_of_declared? (by simpa using hdeclared)
      (Attributes.get?_eq_none_iff.mp hlocation a ha)
  refine Agree.cons (fun _ _ => rfl) fun qualifier => ?_
  rcases attributes_of_normalizeRoot h with ⟨hattributes, -⟩ | ⟨hattributes, hnot⟩
  · simp only [hattributes, namespaceFor?, hkept]
  simp only [hattributes, namespaceFor?, List.reverse_append, List.reverse_singleton,
    List.singleton_append]
  cases qualifier with
  | none =>
      have hnone : tag.attributes.reverse.find? (·.declared? == some none) = none := by
        rw [← hkept, List.find?_eq_none]
        intro a ha hdeclared
        have hmem := List.mem_reverse.mp ha
        refine hnot a hmem (name_of_declared? (by simpa using hdeclared) ?_)
        exact hnames a ((keptOfRoot_sublist _).subset hmem)
      rw [hnone]
      rfl
  | some qualifier => rw [List.find?_cons_of_neg (by simp [Attribute.declared?]), hkept]

/-! ### Tokens in current shape -/

/-- A token behind the root in current shape. -/
def normalizeToken : Token → Token
  | .startTag tag => .startTag (normalizeTag tag)
  | token => token

theorem normalizeItems_ok (tokens : List Token) :
    normalizeItems (tokens.map .ok) = (tokens.map normalizeToken).map .ok := by
  rw [normalizeItems, List.map_map, List.map_map]
  refine List.map_congr_left fun token _ => ?_
  cases token <;> rfl

theorem normalizeItems_append (items items' : List Outcome) :
    normalizeItems (items ++ items') = normalizeItems items ++ normalizeItems items' :=
  List.map_append

variable {opened opened' : List (List Attribute)} {tokens rest : List Token}

theorem not_end_normalizeToken (h : .endDocument ∉ tokens) :
    .endDocument ∉ tokens.map normalizeToken := by
  intro hmem
  obtain ⟨token, htoken, heq⟩ := List.mem_map.mp hmem
  cases token with
  | endDocument => exact h htoken
  | _ => cases heq

/-- The namespaces of tokens in current shape are those that their attributes declare. -/
theorem resolved_normalizeToken (h : Agree opened opened')
    (hresolved : Token.resolved id opened' tokens = tokens) :
    Token.resolved (some ∘ namespaceOf) opened (tokens.map normalizeToken) =
      tokens.map normalizeToken := by
  induction tokens generalizing opened opened' with
  | nil => rfl
  | cons token tokens ih =>
      obtain ⟨htoken, htokens⟩ := List.cons.inj hresolved
      rw [List.map_cons, Token.resolved]
      cases token with
      | startTag tag =>
          have hagree := h.redeclare tag.attributes
          have hns : tag.ns = namespaceFor? (tag.attributes :: opened') tag.qualifier? :=
            (congrArg StartTag.ns (Token.startTag.inj htoken)).symm
          have hsame := hagree 0 tag.qualifier?
          rw [List.drop_zero, List.drop_zero, ← hns] at hsame
          refine congrArg₂ List.cons ?_ (ih hagree htokens)
          rw [normalizeToken, normalizeTag, ← hsame]
          rfl
      | endTag name => exact congrArg _ (ih h.tail htokens)
      | _ => exact congrArg _ (ih h htokens)

/-- The same with the root, from which declarations may be dropped and to which one may be added. -/
theorem resolved_normalized (hnames : ∀ a ∈ tag.attributes, QName.localName a.name ≠ "")
    (hlocation : tag.get? "xmlns:schemaLocation" = none)
    (hroot : normalizeRoot versions tag = .ok tag')
    (hresolved : Token.resolved id [] (.startTag tag :: rest) = .startTag tag :: rest) :
    Token.resolved (some ∘ namespaceOf) []
        (.startTag (normalizeTag tag') :: rest.map normalizeToken) =
      .startTag (normalizeTag tag') :: rest.map normalizeToken := by
  obtain ⟨htag, hrest⟩ := List.cons.inj hresolved
  have hagree : Agree [(normalizeTag tag').attributes] [tag.attributes] :=
    (Agree.redeclare (fun _ _ => rfl) tag'.attributes).trans (agree_root hnames hlocation hroot)
  have hns : tag.ns = namespaceFor? [tag.attributes] tag.qualifier? :=
    (congrArg StartTag.ns (Token.startTag.inj htag)).symm
  obtain ⟨hname, hns'⟩ := name_of_normalizeRoot hroot
  have hsame := hagree 0 tag.qualifier?
  rw [List.drop_zero, List.drop_zero, ← hns, ← hns'] at hsame
  rw [Token.resolved]
  refine congrArg₂ List.cons ?_ (resolved_normalizeToken hagree hrest)
  rw [Token.resolve, Function.comp_apply, StartTag.qualifier?]
  rw [StartTag.qualifier?, ← hname] at hsame
  exact congrArg (fun ns => Token.startTag { normalizeTag tag' with ns := some ns }) hsame

/-! ### Doing it again -/

/-- A root of which nothing is left to be dropped or added. -/
structure Settled (tag : StartTag) : Prop where
  version : ∀ a ∈ tag.attributes, a.name ≠ "version"
  location : ∀ a ∈ tag.attributes, isSchemaLocation a = false
  default : tag.qualifier? = none → ∃ a ∈ tag.attributes, a.name = "xmlns"

theorem Settled.normalizeRoot (h : Settled tag) (versions : List String) :
    normalizeRoot versions tag = .ok tag := by
  have hversion : tag.get? "version" = none := Attributes.get?_eq_none_iff.mpr h.version
  have hkept : keptOfRoot tag.attributes = tag.attributes := by
    have hremove : Attributes.remove "version" tag.attributes = tag.attributes :=
      List.eraseP_of_forall_not fun a ha => by simpa using h.version a ha
    rw [keptOfRoot, hremove, List.filter_eq_self]
    intro a ha
    rw [h.location a ha]
    rfl
  have hdefault : tag.declareDefault canonicalNamespace = tag :=
    StartTag.declareDefault_eq_self h.default
  rw [Entity.normalizeRoot, hversion]
  show Except.ok (({ tag with attributes := keptOfRoot tag.attributes } : StartTag).declareDefault
    canonicalNamespace) = _
  rw [hkept, hdefault]

theorem not_mem_remove {name : String} (hnodup : (attributes.map (·.name)).Nodup) :
    ∀ a ∈ Attributes.remove name attributes, a.name ≠ name := by
  unfold Attributes.remove
  induction attributes with
  | nil => exact nofun
  | cons a attributes ih =>
      rw [List.map_cons, List.nodup_cons] at hnodup
      by_cases hname : a.name = name
      · rw [List.eraseP_cons_of_pos (by simpa using hname)]
        rintro b hb rfl
        exact hnodup.1 (List.mem_map.mpr ⟨b, hb, hname.symm⟩)
      · rw [List.eraseP_cons_of_neg (by simpa using hname), List.forall_mem_cons]
        exact ⟨hname, ih hnodup.2⟩

theorem settled_of_normalizeRoot (hnodup : (tag.attributes.map (·.name)).Nodup)
    (h : normalizeRoot versions tag = .ok tag') : Settled tag' := by
  obtain ⟨hname, -⟩ := name_of_normalizeRoot h
  have hversion : ∀ a ∈ keptOfRoot tag.attributes, a.name ≠ "version" :=
    fun a ha => not_mem_remove hnodup a (List.mem_filter.mp ha).1
  have hlocation : ∀ a ∈ keptOfRoot tag.attributes, isSchemaLocation a = false :=
    fun a ha => by simpa using (List.mem_filter.mp ha).2
  rcases attributes_of_normalizeRoot h with ⟨hattributes, hdefault⟩ | ⟨hattributes, -⟩
  · refine ⟨hattributes ▸ hversion, hattributes ▸ hlocation, fun hqualifier => hdefault ?_⟩
    rwa [StartTag.qualifier?, hname] at hqualifier
  · refine ⟨?_, ?_, fun _ => ⟨_, by rw [hattributes]; exact List.mem_concat_self, rfl⟩⟩
    · rw [hattributes, List.forall_mem_append, List.forall_mem_singleton]
      exact ⟨hversion, by decide⟩
    · rw [hattributes, List.forall_mem_append, List.forall_mem_singleton]
      exact ⟨hlocation, by decide⟩

theorem isSchemaLocation_currentAttribute (a : Attribute) :
    isSchemaLocation (currentAttribute a) = isSchemaLocation a := by
  unfold currentAttribute
  split <;> rfl

theorem Settled.normalizeTag (h : Settled tag) : Settled (normalizeTag tag) := by
  refine ⟨?_, ?_, fun hqualifier => ?_⟩
  · show ∀ a ∈ tag.attributes.map currentAttribute, _
    simpa only [List.forall_mem_map, currentAttribute_name] using h.version
  · show ∀ a ∈ tag.attributes.map currentAttribute, _
    simpa only [List.forall_mem_map, isSchemaLocation_currentAttribute] using h.location
  · obtain ⟨a, ha, hname⟩ := h.default hqualifier
    exact ⟨currentAttribute a, List.mem_map_of_mem ha, (currentAttribute_name a).trans hname⟩

/-- Where the declarations are current, only namespaces are left to be replaced. -/
theorem map_resolved (hcurrent : ∀ tag, .startTag tag ∈ tokens →
      Attributes.redeclare currentNamespace? tag.attributes = tag.attributes) :
    (Token.resolved id opened tokens).map normalizeToken =
      Token.resolved (some ∘ namespaceOf) opened tokens := by
  induction tokens generalizing opened with
  | nil => rfl
  | cons token tokens ih =>
      rw [Token.resolved, Token.resolved, List.map_cons,
        ih fun tag htag => hcurrent tag (List.mem_cons_of_mem _ htag)]
      cases token with
      | startTag tag =>
          rw [Token.resolve, Token.resolve, normalizeToken, normalizeTag,
            hcurrent tag List.mem_cons_self]
          rfl
      | _ => rfl

/-- Current declarations give current namespaces. -/
theorem current_of_namespaceFor? {qualifier : Option String} {ns : String}
    (hopened : ∀ attributes ∈ opened,
      Attributes.redeclare currentNamespace? attributes = attributes)
    (h : namespaceFor? opened qualifier = some ns) : current ns = ns := by
  induction opened with
  | nil =>
      unfold namespaceFor? at h
      split at h
      · rw [← Option.some.inj h]
        decide
      · split at h
        · rw [← Option.some.inj h]
          decide
        · cases h
  | cons attributes above ih =>
      rw [List.forall_mem_cons] at hopened
      unfold namespaceFor? at h
      split at h
      · rename_i a hfind
        split at h
        · cases h
        have hdeclared : a.declared? = some qualifier := by simpa using List.find?_some hfind
        have hmem : a ∈ attributes := List.mem_reverse.mp (List.mem_of_find?_eq_some hfind)
        have hsame : attributes.map currentAttribute = attributes.map id := by
          rw [List.map_id]
          exact hopened.1
        have hvalue := congrArg Attribute.value (List.map_inj_left.mp hsame a hmem)
        rw [currentAttribute, if_pos (declaresNamespace_of_declared? hdeclared)] at hvalue
        rw [← Option.some.inj h]
        exact hvalue
      · exact ih hopened.2 h

/-- Where the declarations are current, a tag is left as it is, but for a namespace that is
missing. -/
theorem normalizeTag_of_mem_resolved
    (hopened : ∀ attributes ∈ opened,
      Attributes.redeclare currentNamespace? attributes = attributes)
    (hcurrent : ∀ tag, .startTag tag ∈ tokens →
      Attributes.redeclare currentNamespace? tag.attributes = tag.attributes)
    (h : .startTag tag ∈ Token.resolved id opened tokens) :
    normalizeTag tag = { tag with ns := some (tag.ns.getD canonicalNamespace) } := by
  induction tokens generalizing opened with
  | nil => cases h
  | cons token tokens ih =>
      have hrest : ∀ tag, .startTag tag ∈ tokens →
          Attributes.redeclare currentNamespace? tag.attributes = tag.attributes :=
        fun tag htag => hcurrent tag (List.mem_cons_of_mem _ htag)
      rw [Token.resolved] at h
      rcases List.mem_cons.mp h with h | h
      · cases token with
        | startTag tag' =>
            obtain rfl := Token.startTag.inj h
            have hattributes := hcurrent tag' List.mem_cons_self
            rw [normalizeTag, hattributes]
            cases hns : namespaceFor? (tag'.attributes :: opened) tag'.qualifier? with
            | none => rfl
            | some ns =>
                have hcurrent := current_of_namespaceFor?
                  (List.forall_mem_cons.mpr ⟨hattributes, hopened⟩) hns
                exact congrArg (fun ns => { tag' with ns := some ns }) hcurrent
        | _ => cases h
      · refine ih ?_ hrest h
        cases token with
        | startTag tag' =>
            exact List.forall_mem_cons.mpr ⟨hcurrent tag' List.mem_cons_self, hopened⟩
        | endTag name => exact fun attributes ha => hopened attributes (List.mem_of_mem_tail ha)
        | _ => exact hopened

/-! ### What stays as it is -/

/-- The value of an attribute in current shape is the one that it had, or the canonical
namespace. -/
theorem currentAttribute_cases (a : Attribute) :
    currentAttribute a = a ∨ currentAttribute a = ⟨a.name, canonicalNamespace⟩ := by
  unfold currentAttribute
  split
  · rcases current_cases a.value with hvalue | hvalue
    · exact Or.inl (by rw [hvalue])
    · exact Or.inr (by rw [hvalue])
  · exact Or.inl rfl

theorem permitted_currentAttribute {a : Attribute} (h : a.Permitted) :
    (currentAttribute a).Permitted := by
  intro qualifier hname
  rw [currentAttribute_name] at hname
  obtain ⟨hxml, hother⟩ := h qualifier hname
  constructor
  · intro hqualifier
    have hvalue := hxml hqualifier
    unfold currentAttribute
    split
    · show current a.value = _
      rw [hvalue]
      decide
    · exact hvalue
  · intro hqualifier
    obtain ⟨hxmlns, hvalue⟩ := hother hqualifier
    rcases currentAttribute_cases a with hsame | hsame
    · rw [hsame]
      exact ⟨hxmlns, hvalue⟩
    · rw [hsame]
      refine ⟨hxmlns, ?_⟩
      show canonicalNamespace ≠ _ ∧ canonicalNamespace ≠ _
      decide

theorem declaresPlainly_currentAttribute {a : Attribute} (h : a.DeclaresPlainly) :
    (currentAttribute a).DeclaresPlainly := by
  rcases currentAttribute_cases a with hsame | hsame
  · rwa [hsame]
  · rw [hsame]
    have hplain : Markup.IsPlain (.ofString canonicalNamespace) := by decide
    exact fun _ => hplain

/-- A start tag in current shape may still be written and read. -/
theorem faultless_normalizeTag (h : tag.Faultless) : (normalizeTag tag).Faultless := by
  refine ⟨?_, ?_, ?_⟩
  · show ((Attributes.redeclare currentNamespace? tag.attributes).map (·.name)).Nodup
    rw [Attributes.names_redeclare]
    exact h.nodup
  · show ∀ a ∈ tag.attributes.map currentAttribute, _
    rw [List.forall_mem_map]
    exact fun a ha => permitted_currentAttribute (h.permitted a ha)
  · show ∀ a ∈ tag.attributes.map currentAttribute, _
    rw [List.forall_mem_map]
    exact fun a ha => declaresPlainly_currentAttribute (h.plain a ha)

/-- The root in current shape repeats an attribute just if one is repeated among those that it
keeps. -/
theorem nodup_normalizeRoot (h : normalizeRoot versions tag = .ok tag') :
    (tag'.attributes.map (·.name)).Nodup ↔
      ((keptOfRoot tag.attributes).map (·.name)).Nodup := by
  rcases attributes_of_normalizeRoot h with ⟨hkept, -⟩ | ⟨hadded, hnot⟩
  · rw [hkept]
  · -- The default namespace has been declared because it was not.
    have hnew : "xmlns" ∉ (keptOfRoot tag.attributes).map (·.name) := by
      intro hmem
      obtain ⟨a, ha, hname⟩ := List.mem_map.mp hmem
      exact hnot a ha hname
    rw [hadded, List.map_append, List.map_singleton, List.nodup_append]
    constructor
    · intro h
      exact h.1
    · intro h
      refine ⟨h, List.nodup_singleton _, fun name hname other hother heq => ?_⟩
      rw [heq, List.mem_singleton.mp hother] at hname
      exact hnew hname

theorem faultless_normalizeRoot (h : tag.Faultless)
    (hroot : normalizeRoot versions tag = .ok tag') : tag'.Faultless := by
  have hkept := (keptOfRoot_sublist tag.attributes).map (·.name)
  refine ⟨(nodup_normalizeRoot hroot).mpr (hkept.nodup h.nodup), fun a ha => ?_, fun a ha => ?_⟩
  · rcases mem_of_normalizeRoot hroot ha with hold | rfl
    · exact h.permitted a hold
    · exact Attribute.permitted_of_unqualified (by decide)
  · rcases mem_of_normalizeRoot hroot ha with hold | rfl
    · exact h.plain a hold
    · exact fun _ => by decide

/-- No token in current shape has a name that was not there before. -/
theorem names_normalizeToken (token : Token) : (normalizeToken token).names = token.names := by
  cases token with
  | startTag tag =>
      exact congrArg (tag.name :: ·) (Attributes.names_redeclare currentNamespace? tag.attributes)
  | _ => rfl

/-- A start tag in current shape can be written if its names can be. -/
theorem writable_normalizeTag (h : tag.Faultless)
    (hnames : ∀ name ∈ (Token.startTag tag).names, IsName name) :
    (Token.startTag (normalizeTag tag)).Writable := by
  refine (faultless_normalizeTag h).writable ?_
  rw [← normalizeToken, names_normalizeToken]
  exact hnames

/-- The only name that a root in current shape may have got is the one of the default namespace. -/
theorem names_normalizeRoot (h : normalizeRoot versions tag = .ok tag') :
    (Token.startTag tag').names ⊆ "xmlns" :: (Token.startTag tag).names := by
  intro name hname
  rcases List.mem_cons.mp hname with rfl | hname
  · rw [(name_of_normalizeRoot h).1]
    exact List.mem_cons_of_mem _ List.mem_cons_self
  obtain ⟨a, ha, rfl⟩ := List.mem_map.mp hname
  rcases mem_of_normalizeRoot h ha with hold | rfl
  · exact List.mem_cons_of_mem _ (List.mem_cons_of_mem _ (List.mem_map_of_mem hold))
  · exact List.mem_cons_self

end Dialect.Entity

end PersistenceMapping
