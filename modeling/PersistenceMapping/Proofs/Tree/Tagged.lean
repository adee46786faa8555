/-
What an element says of its start tag.

An element is made of a start tag, and stays so whatever is read behind it (`HasTag.read`): what a
reader says of a start tag is what the tree says of the element.  Of a repeated attribute that is
the value that comes last.
-/
import PersistenceMapping.Proofs.Tree.Built
import PersistenceMapping.Proofs.Tree.Repeated
import PersistenceMapping.Tree.Element

namespace PersistenceMapping

namespace Attributes

theorem get?_set (name value other : String) (attributes : List Attribute) :
    get? (set name value attributes) other =
      if other = name then some value else get? attributes other := by
  induction attributes with
  | nil => rw [set, get?_cons]
  | cons a attributes ih =>
      rw [set, get?_cons a]
      by_cases hname : a.name = name
      · rw [if_pos (by simpa using hname), get?_cons, hname]
        split <;> rfl
      · rw [if_neg (by simpa using hname), get?_cons, ih]
        by_cases hother : other = a.name
        · rw [if_pos hother, if_pos hother, if_neg (hother ▸ hname)]
        · rw [if_neg hother, if_neg hother]

/-- Of what is said several times the last counts. -/
theorem get?_collapsed (attributes : List Attribute) (name : String) :
    get? (collapsed attributes) name = get? attributes.reverse name := by
  induction attributes using List.reverseRecOn with
  | nil => rfl
  | append_singleton attributes a ih =>
      rw [collapsed_concat, get?_set, ih, List.reverse_append, List.reverse_singleton,
        List.singleton_append, get?_cons]

end Attributes

/-- A number of an interned string, with the empty one for none, reads as that string. -/
theorem Pool.Valid.get?_eq_filter {pool : Pool} (h : pool.Valid) {id : StringId}
    {ns : Option String} (hget : pool.get? id = some (ns.getD "")) :
    (if id = 0 then none else pool.get? id) = ns.filter (!·.isEmpty) := by
  by_cases hzero : id = 0
  · rw [if_pos hzero]
    rw [hzero, h.zero] at hget
    cases ns with
    | none => rfl
    | some ns =>
        obtain rfl : "" = ns := Option.some.inj hget
        rfl
  · rw [if_neg hzero, hget]
    have hne : ns.getD "" ≠ "" := by
      intro heq
      rw [heq] at hget
      exact hzero (h.injective _ _ _ hget h.zero)
    cases ns with
    | none => exact absurd rfl hne
    | some ns => rw [Option.filter_some, if_pos (by simpa using hne), Option.getD_some]

namespace Document

variable {d d' : Document} {id p : NodeId} {tag : StartTag} {value : NodeValue}

/-- A node is an element that was made of a start tag. -/
def HasTag (d : Document) (id : NodeId) (tag : StartTag) : Prop :=
  ∃ nameId nsId stored, d.value? id = some (.element nameId nsId (collapse stored)) ∧
    d.pool.get? nameId = some tag.name ∧ d.pool.get? nsId = some (tag.ns.getD "") ∧
    List.Forall₂ (Stored d.pool) stored tag.attributes

namespace HasTag

theorem isElement (h : d.HasTag id tag) : d.isElement id = true := by
  obtain ⟨_, _, _, hvalue, -⟩ := h
  rw [Document.isElement, kind?, hvalue]
  rfl

theorem name? (h : d.HasTag id tag) : d.name? id = some tag.name := by
  obtain ⟨_, _, _, hvalue, hname, -⟩ := h
  rw [Document.name?, hvalue]
  exact hname

theorem namespace? (h : d.HasTag id tag) (hd : WellFormed d) :
    d.namespace? id = tag.ns.filter (!·.isEmpty) := by
  obtain ⟨_, _, _, hvalue, -, hns, -⟩ := h
  rw [Document.namespace?, hvalue]
  exact hd.pool.get?_eq_filter hns

theorem attributes (h : d.HasTag id tag) (hd : WellFormed d) :
    d.attributes id = Attributes.collapsed tag.attributes := by
  obtain ⟨_, _, _, hvalue, -, -, hstored⟩ := h
  rw [Document.attributes, storedAttributes, hvalue]
  exact map_readAttribute (stored_collapse hd.pool hstored) (.refl _)

theorem attribute? (h : d.HasTag id tag) (hd : WellFormed d) (name : String) :
    d.attribute? id name = Attributes.get? tag.attributes.reverse name := by
  rw [Document.attribute?, h.attributes hd, Attributes.get?_collapsed]

theorem lt_size (h : d.HasTag id tag) : id < d.nodes.size := by
  obtain ⟨_, _, _, hvalue, -⟩ := h
  exact lt_size_of_value? hvalue

theorem mono (h : d.HasTag id tag) (hvalue : d'.value? id = d.value? id)
    (hpool : d.pool.Extends d'.pool) : d'.HasTag id tag := by
  obtain ⟨nameId, nsId, stored, hid, hname, hns, hstored⟩ := h
  exact ⟨nameId, nsId, stored, hvalue.trans hid, hpool _ _ hname, hpool _ _ hns,
    hstored.imp fun _ _ h => h.mono hpool⟩

theorem appended (h : d.HasTag id tag) (happended : Appended p value d d') : d'.HasTag id tag := by
  refine h.mono ?_ happended.pool
  rw [happended.value, if_neg (Nat.ne_of_lt h.lt_size)]

end HasTag

end Document

namespace Builder

open Document

variable {b b' : Builder} {strict : Bool} {token : Token} {id : NodeId} {tag : StartTag}
  {d : Document}

namespace Sound

/-- What is opened is made of its start tag. -/
theorem hasTag_enter (h : b.Sound) (tag : StartTag)
    (hroot : b.opened = [] → b.document.root = none) :
    (b.enter tag).document.HasTag b.document.nodes.size tag := by
  obtain ⟨nameId, nsId, stored, happended, -, hname, hns, hstored⟩ := h.element_enter tag hroot
  refine ⟨nameId, nsId, stored, ?_, hname, hns, hstored⟩
  rw [happended.value, if_pos rfl]

/-- What is no tag becomes a node in the innermost open element, if it becomes one. -/
theorem appended_append (h : b.Sound) {value : NodeValue} {node : NodeId × Document}
    (hmade : Made b.document value node) (hread : b.read strict token = .ok (b.append node)) :
    Appended b.parent value b.document (b.append node).document :=
  hmade.appended h.wellFormed (h.read hread).wellFormed h.parent_lt rfl (pool_link _ _ _)

/-- An element stays what it was made of. -/
theorem hasTag_read (h : b.Sound) (hread : b.read strict token = .ok b')
    (htag : b.document.HasTag id tag) : b'.document.HasTag id tag := by
  cases h.reads hread with
  | enter tag' hroot =>
      obtain ⟨_, _, _, happended, -⟩ := h.element_enter tag' hroot
      exact htag.appended happended
  | append hmade => exact htag.appended (h.appended_append hmade hread)
  | leave | pass => exact htag

/-- The root stays the root. -/
theorem root_read (h : b.Sound) (hread : b.read strict token = .ok b')
    (hroot : b.document.root = some id) : b'.document.root = some id := by
  cases h.reads hread with
  | enter tag hfirst =>
      have hopened : ¬b.opened.isEmpty = true := by
        intro hempty
        rw [hfirst (List.isEmpty_iff.mp hempty)] at hroot
        cases hroot
      simp only [Builder.enter, if_neg hopened]
      rw [root_link, root_pushElement, hroot]
  | append hmade => exact (root_link _ _ _).trans (hmade.root.trans hroot)
  | leave | pass => exact hroot

end Sound

/-- The root is made of the start tag that comes first. -/
theorem hasTag_of_run {failure : Option TokenError} {items : List Outcome}
    (hrun : Builder.initial.run strict failure (.ok (.startTag tag) :: items) = .ok d) :
    ∃ root, d.rootElement? = some root ∧ d.HasTag root tag ∧ WellFormed d := by
  rw [run] at hrun
  · split at hrun
    · cases hrun
    · rename_i b hread
      have hfirst : b.document.root = some Builder.initial.document.nodes.size ∧
          b.document.HasTag Builder.initial.document.nodes.size tag := by
        cases Sound.initial.reads hread with
        | enter _ hnone =>
            obtain ⟨_, _, _, hmade, -⟩ := made_pushElement Sound.initial.wellFormed tag.name tag.ns
              tag.attributes
            exact ⟨congrArg some hmade.id, Sound.initial.hasTag_enter tag hnone⟩
        | append _ _ _ hstart => cases hstart
        | pass hstart => cases hstart
      obtain ⟨b', ⟨hsound, hroot, htag⟩, hfinish⟩ := exists_finish_of_run
        (P := fun b' => b'.Sound ∧ b'.document.root = some Builder.initial.document.nodes.size ∧
          b'.document.HasTag Builder.initial.document.nodes.size tag)
        (fun hb hread => ⟨hb.1.read hread, hb.1.root_read hread hb.2.1,
          hb.1.hasTag_read hread hb.2.2⟩)
        ⟨Sound.initial.read hread, hfirst⟩ hrun
      obtain ⟨rfl, -, -⟩ := finish_eq_ok hfinish
      refine ⟨_, ?_, htag, hsound.wellFormed⟩
      rw [rootElement?, hroot, Option.filter_some, if_pos htag.isElement]
  · rintro ⟨⟩

end Builder

end PersistenceMapping
