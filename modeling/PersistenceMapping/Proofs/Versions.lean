/-
The versions of entity documents.

The root of an entity document gets past its version just if that is supported, and loses it then.
Only the first attribute of that name is looked at, and only the first is dropped.  A tree keeps the
last value of an attribute, so of several versions the last one is what the root of the tree says,
supported or not (`attribute?_version_of_bind`).  Where there is one at most, the tree says none, and
all that the document said was supported (`versions_of_bind`).
-/
import PersistenceMapping.Proofs.Dialect.Entity
import PersistenceMapping.Proofs.Rebound
import PersistenceMapping.Proofs.Tree.Tagged

namespace PersistenceMapping

namespace Attributes

variable {attributes : List Attribute} {name : String}

/-- The attributes of a name. -/
def named (name : String) (attributes : List Attribute) : List Attribute :=
  attributes.filter (·.name == name)

theorem mem_named {a : Attribute} : a ∈ named name attributes ↔ a ∈ attributes ∧ a.name = name := by
  rw [named, List.mem_filter, beq_iff_eq]

theorem get?_eq_head? (attributes : List Attribute) (name : String) :
    get? attributes name = (named name attributes).head?.map (·.value) := by
  rw [named, List.head?_filter]
  rfl

theorem get?_reverse (attributes : List Attribute) (name : String) :
    get? attributes.reverse name = (named name attributes).getLast?.map (·.value) := by
  rw [get?_eq_head?, named, List.filter_reverse, List.head?_reverse]
  rfl

/-- Removing an attribute leaves the others of its name. -/
theorem named_remove (name : String) (attributes : List Attribute) :
    named name (remove name attributes) = (named name attributes).tail := by
  unfold named remove
  induction attributes with
  | nil => rfl
  | cons a attributes ih =>
      by_cases h : a.name = name
      · rw [List.eraseP_cons_of_pos (by simpa using h), List.filter_cons_of_pos (by simpa using h),
          List.tail_cons]
      · rw [List.eraseP_cons_of_neg (by simpa using h), List.filter_cons_of_neg (by simpa using h),
          List.filter_cons_of_neg (by simpa using h), ih]

end Attributes

namespace Dialect.Entity

variable {versions : List String} {tag tag' : StartTag}

/-- The root in current shape has all versions but the first. -/
theorem named_version_of_normalizeRoot (h : normalizeRoot versions tag = .ok tag') :
    Attributes.named "version" (normalizeTag tag').attributes =
      (Attributes.named "version" tag.attributes).tail := by
  have hcurrent : Attributes.named "version" (normalizeTag tag').attributes =
      Attributes.named "version" tag'.attributes := by
    refine Attributes.filter_redeclare _ _ fun a ha => ?_
    refine beq_false_of_ne fun hname => ?_
    rw [Attribute.declaresNamespace, hname] at ha
    revert ha
    decide
  have hkept : Attributes.named "version" (keptOfRoot tag.attributes) =
      (Attributes.named "version" tag.attributes).tail := by
    rw [← Attributes.named_remove, keptOfRoot, Attributes.named, List.filter_filter]
    refine List.filter_congr fun a _ => ?_
    by_cases hname : a.name = "version"
    · have hlocation : isSchemaLocation a = false := by
        rw [isSchemaLocation, Attribute.localName, Attribute.qualifier?, hname]
        decide
      rw [hlocation, Bool.not_false, Bool.and_true]
    · rw [beq_false_of_ne hname, Bool.false_and]
  rw [hcurrent, ← hkept]
  rcases attributes_of_normalizeRoot h with ⟨hattributes, -⟩ | ⟨hattributes, -⟩
  · rw [hattributes]
  · rw [hattributes, Attributes.named, List.filter_append]
    exact List.append_nil _

end Dialect.Entity

namespace Binder

open Dialect.Entity (named_version_of_normalizeRoot)

variable {b : Binder} {origin o : Origin} {s : TokenStream} {d : Document}

/-- The first version of a document that becomes a tree is supported, and of those behind it the
root of the tree says the last one. -/
theorem attribute?_version_of_bind (h : (b.bind origin s).1 = .ok ⟨.entity d, o⟩) :
    ∃ tag root, s.firstTag? = some tag ∧ d.rootElement? = some root ∧
      (∀ version, tag.get? "version" = some version → version ∈ b.options.versions) ∧
      d.attribute? root "version" =
        (Attributes.named "version" tag.attributes).tail.getLast?.map (·.value) := by
  obtain ⟨tag, s', hseek, -, hentity, -⟩ := exists_of_bind h
  cases hfirst : s.firstTag? with
  | none =>
      obtain ⟨fault, hnone⟩ := TokenStream.seekRoot_of_none hfirst
      rw [hnone] at hseek
      cases hseek
  | some first =>
      obtain ⟨rest, hsome, -⟩ := TokenStream.seekRoot_of_some hfirst
      rw [hsome] at hseek
      cases hseek
      obtain ⟨tag', hroot, hrun⟩ := BinderOptions.bindEntity_eq_ok_iff.mp hentity
      obtain ⟨root, hrootElement, htag, hd⟩ := Builder.hasTag_of_run hrun
      refine ⟨tag, root, rfl, hrootElement, ?_, ?_⟩
      · rcases BinderOptions.normalizeRoot_cases b.options.versions tag with
          ⟨version, -, -, hrefused⟩ | ⟨hsupported, -⟩
        · rw [hrefused] at hroot
          cases hroot
        · exact hsupported
      · rw [htag.attribute? hd, Attributes.get?_reverse, named_version_of_normalizeRoot hroot]

/-- No version that is not supported gets into a tree, just if the root of the document says one
version at most. -/
theorem versions_of_bind (h : (b.bind origin s).1 = .ok ⟨.entity d, o⟩) :
    ∃ tag root, s.firstTag? = some tag ∧ d.rootElement? = some root ∧
      (((∀ a ∈ tag.attributes, a.name = "version" → a.value ∈ b.options.versions) ∧
          d.attribute? root "version" = none) ↔
        (tag.attributes.filter (·.name == "version")).length ≤ 1) := by
  obtain ⟨tag, root, hfirst, hroot, hsupported, hversion⟩ := attribute?_version_of_bind h
  refine ⟨tag, root, hfirst, hroot, ?_⟩
  rw [hversion, Option.map_eq_none_iff, List.getLast?_eq_none_iff, ← Attributes.named]
  rw [StartTag.get?, Attributes.get?_eq_head?] at hsupported
  constructor
  · rintro ⟨-, htail⟩
    have hlength := congrArg List.length htail
    rw [List.length_tail, List.length_nil] at hlength
    omega
  · intro hlength
    constructor
    · intro a ha hname
      have hmem := Attributes.mem_named.mpr ⟨ha, hname⟩
      obtain ⟨first, hone⟩ := List.length_eq_one_iff.mp
        (Nat.le_antisymm hlength (List.length_pos_of_mem hmem))
      rw [hone] at hmem hsupported
      obtain rfl := List.mem_singleton.mp hmem
      exact hsupported _ rfl
    · refine List.eq_nil_of_length_eq_zero ?_
      rw [List.length_tail]
      omega

/-- A version that is supported stays out of the tree, and an attribute of a like name does not. -/
theorem versions_of_bind_of_one :
    let b : Binder := { options := {} }
    let origin : Origin := ⟨.file, "orm.xml"⟩
    let tag : StartTag := ⟨"entity-mappings", none, [⟨"version", "2.1"⟩, ⟨"a:version", "9"⟩]⟩
    let s : TokenStream := .ofTokens [.comment "", .startTag tag, .endTag "entity-mappings"]
    ∃ d root, (b.bind origin s).1 = .ok ⟨.entity d, origin⟩ ∧ s.firstTag? = some tag ∧
      d.rootElement? = some root ∧ d.attribute? root "a:version" = some "9" ∧
      d.attribute? root "version" = none := by
  intro b origin tag s
  obtain ⟨d, hbound, hother⟩ : ∃ d, (b.bind origin s).1 = .ok ⟨.entity d, origin⟩ ∧
      d.rootElement?.bind (d.attribute? · "a:version") = some "9" := by
    refine exists_of_map_document? ?_
    decide +kernel
  obtain ⟨tag', root, hfirst, hroot, hversions⟩ := versions_of_bind hbound
  obtain rfl : tag = tag' := Option.some.inj hfirst
  have hone := hversions.mpr (by decide)
  rw [hroot] at hother
  exact ⟨d, root, hbound, rfl, hroot, hother, hone.2⟩

/-- Of two versions the second gets into the tree, supported or not. -/
theorem bind_of_two_versions :
    let b : Binder := { options := {} }
    let origin : Origin := ⟨.file, "orm.xml"⟩
    let tag : StartTag := ⟨"entity-mappings", none, [⟨"version", "2.1"⟩, ⟨"version", "9"⟩]⟩
    let s : TokenStream := .ofTokens [.startTag tag, .endTag "entity-mappings"]
    ∃ d root, (b.bind origin s).1 = .ok ⟨.entity d, origin⟩ ∧ s.firstTag? = some tag ∧
      "9" ∉ b.options.versions ∧ d.rootElement? = some root ∧
      d.attribute? root "version" = some "9" := by
  intro b origin tag s
  obtain ⟨d, hbound, hsaid⟩ : ∃ d, (b.bind origin s).1 = .ok ⟨.entity d, origin⟩ ∧
      d.rootElement?.bind (d.attribute? · "version") = some "9" := by
    refine exists_of_map_document? ?_
    decide +kernel
  obtain ⟨root, hroot, hversion⟩ := Option.bind_eq_some_iff.mp hsaid
  exact ⟨d, root, hbound, rfl, by decide, hroot, hversion⟩

end Binder

end PersistenceMapping
