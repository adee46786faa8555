/-
What an element stands in.

When an element is opened, what is open already are the elements that it stands in.  These were made
of their start tags, and neither what they were made of nor where they stand changes as more is read
(`Document.Stands`).  Nor does their number change, which is how many elements come before them and
how many start tags came before theirs.  So whatever was known of a start tag and of the start tags
that were open before it is known of an element of the tree and of its ancestors (`Builder.Places`).
-/
import PersistenceMapping.Proofs.Token.Scoped
import PersistenceMapping.Proofs.Tree.Tagged

namespace PersistenceMapping

namespace Document

variable {d d' : Document} {id p x : NodeId} {ids : List NodeId} {opened : List (Nat × StartTag)}
  {P : List (Nat × StartTag) → Prop} {value : NodeValue}

theorem WellFormed.parent?_documentNode (h : WellFormed d) : d.parent? documentNode = none := by
  rcases hparent : d.parent? documentNode with _ | p
  · rfl
  · obtain ⟨pk, ck, -, hck, hkinds⟩ := h.kinds p documentNode hparent
    obtain rfl : NodeKind.document = ck := Option.some.inj (h.top.symm.trans hck)
    cases pk <;> cases hkinds

/-- The new node stands where it has been put, and all others stand where they stood. -/
theorem Appended.parent? (h : Appended p value d d') (hd : WellFormed d) (x : NodeId) :
    d'.parent? x = if x = d.nodes.size then some p else d.parent? x := by
  refine Option.ext fun q => ?_
  rw [h.wellFormed.linked.parent, h.children]
  have hnew : ∀ q, d.nodes.size ∉ d.children q := fun q hmem =>
    Nat.lt_irrefl _ (hd.linked.child_lt hmem)
  by_cases hq : q = p
  · rw [hq, Function.update_self, List.mem_append, List.mem_singleton]
    by_cases hx : x = d.nodes.size
    · simp [hx]
    · simp [hx, hd.linked.parent]
  · rw [Function.update_of_ne hq]
    by_cases hx : x = d.nodes.size
    · simp [hx, hnew q, Ne.symm hq]
    · rw [if_neg hx, hd.linked.parent]

theorem Appended.isElement (h : Appended p value d d') (hx : x ≠ d.nodes.size) :
    d'.isElement x = d.isElement x := by
  rw [Document.isElement, Document.isElement, kind?, kind?, h.value, if_neg hx]

/-- How many elements come before a node. -/
def elementsBefore (d : Document) (id : NodeId) : Nat :=
  (List.range id).countP d.isElement

theorem Appended.elementsBefore (h : Appended p value d d') (hid : id ≤ d.nodes.size) :
    d'.elementsBefore id = d.elementsBefore id := by
  refine List.countP_congr fun x hx => ?_
  rw [h.isElement (Nat.ne_of_lt (Nat.lt_of_lt_of_le (List.mem_range.mp hx) hid))]

/-- A new element comes behind all that there are. -/
theorem Appended.elementsBefore_size (h : Appended p value d d') :
    d'.elementsBefore d'.nodes.size =
      d.elementsBefore d.nodes.size + if value.kind = .element then 1 else 0 := by
  have hnew : d'.isElement d.nodes.size = decide (value.kind = .element) := by
    rw [Document.isElement, kind?, h.value, if_pos rfl, Option.map_some, Bool.eq_iff_iff,
      beq_iff_eq, Option.some.injEq, decide_eq_true_iff]
  have hsame := h.elementsBefore (Nat.le_refl _)
  rw [Document.elementsBefore] at hsame
  rw [h.size, Document.elementsBefore, List.range_succ, List.countP_append, hsame,
    List.countP_singleton, hnew]
  simp only [decide_eq_true_eq]

/-- Elements that stand in each other, the innermost first and the outermost at document level, and
the start tags that they were made of, with their numbers. -/
inductive Stands (d : Document) : List NodeId → List (Nat × StartTag) → Prop
  | nil : Stands d [] []
  | cons {id : NodeId} {tag : StartTag} {ids : List NodeId} {opened : List (Nat × StartTag)}
      (htag : d.HasTag id tag) (hparent : d.parent? id = some (ids.head?.getD documentNode))
      (habove : Stands d ids opened) :
      Stands d (id :: ids) ((d.elementsBefore id, tag) :: opened)

namespace Stands

theorem forall₂ (h : d.Stands ids opened) :
    List.Forall₂ (fun id o => o.1 = d.elementsBefore id ∧ d.HasTag id o.2) ids opened := by
  induction h with
  | nil => exact .nil
  | cons htag _ _ ih => exact .cons ⟨rfl, htag⟩ ih

theorem appended (h : d.Stands ids opened) (happended : Appended p value d d')
    (hd : WellFormed d) : d'.Stands ids opened := by
  induction h with
  | nil => exact .nil
  | cons htag hparent _ ih =>
      rw [← happended.elementsBefore (Nat.le_of_lt htag.lt_size)]
      refine .cons (htag.appended happended) ?_ ih
      rw [happended.parent? hd, if_neg (Nat.ne_of_lt htag.lt_size), hparent]

theorem chain (h : d.Stands ids opened) (hd : WellFormed d) :
    Chain d.parent? (some (ids.head?.getD documentNode)) (ids ++ [documentNode]) := by
  induction h with
  | nil =>
      refine .cons ?_
      show Chain d.parent? (d.parent? documentNode) []
      rw [hd.parent?_documentNode]
      exact .nil
  | @cons id _ ids _ _ hparent _ ih =>
      refine .cons ?_
      show Chain d.parent? (d.parent? id) (ids ++ [documentNode])
      rw [hparent]
      exact ih

/-- What an element stands in are its ancestors. -/
theorem ancestorsOrSelf (h : d.Stands (id :: ids) opened) (hd : WellFormed d) :
    d.ancestorsOrSelf id = id :: ids ++ [documentNode] := by
  have hid : id < d.nodes.size := by
    cases h with
    | cons htag _ _ => exact htag.lt_size
  exact (hd.linked.chain_parent hid).unique (h.chain hd)

end Stands

/-- An element stands somewhere, and `P` holds of the start tags that were open behind its own. -/
def IsPlaced (P : List (Nat × StartTag) → Prop) (d : Document) (id : NodeId) : Prop :=
  ∃ ids opened, d.Stands (id :: ids) opened ∧ P opened

theorem IsPlaced.appended (h : IsPlaced P d id) (happended : Appended p value d d')
    (hd : WellFormed d) : IsPlaced P d' id := by
  obtain ⟨ids, opened, hstands, hP⟩ := h
  exact ⟨ids, opened, hstands.appended happended hd, hP⟩

end Document

namespace Builder

open Document

variable {b b' : Builder} {strict : Bool} {token : Token} {tokens : List Token}
  {o : Token.Openings} {P : List (Nat × StartTag) → Prop} {d : Document}

/-- A builder in which elements of these start tags are open, and all elements are placed where `P`
holds. -/
structure Places (P : List (Nat × StartTag) → Prop) (b : Builder) (o : Token.Openings) :
    Prop where
  sound : b.Sound
  count : b.document.elementsBefore b.document.nodes.size = o.count
  stands : b.document.Stands (b.opened.map (·.1)) o.tags
  placed : ∀ id, b.document.isElement id = true → IsPlaced P b.document id

namespace Places

theorem initial (P : List (Nat × StartTag) → Prop) : Builder.initial.Places P {} where
  sound := .initial
  count := rfl
  stands := .nil
  placed id helement := by
    have hkind : ∀ id, (Document.empty).kind? id = some .document ∨
        (Document.empty).kind? id = none := by
      rintro (_ | id)
      · exact Or.inl rfl
      · exact Or.inr rfl
    rw [Document.isElement, beq_iff_eq] at helement
    rcases hkind id with h | h <;> cases h.symm.trans helement

/-- All elements but a new one are where they were. -/
theorem placed_appended (h : b.Places P o) {p : NodeId} {value : NodeValue}
    (happended : Appended p value b.document d) {id : NodeId} (hid : id ≠ b.document.nodes.size)
    (helement : d.isElement id = true) : IsPlaced P d id := by
  rw [happended.isElement hid] at helement
  exact (h.placed id helement).appended happended h.sound.wellFormed

theorem read (h : b.Places P o) (hread : b.read strict token = .ok b')
    (hP : token.isStartTag = true → P (token.openings o).tags) : b'.Places P (token.openings o) := by
  have hsound := h.sound.read hread
  cases h.sound.reads hread with
  | enter tag hroot =>
      obtain ⟨_, _, _, happended, hopened, -⟩ := h.sound.element_enter tag hroot
      have hnumber : (b.enter tag).document.elementsBefore b.document.nodes.size = o.count :=
        (happended.elementsBefore (Nat.le_refl _)).trans h.count
      have hstands : (b.enter tag).document.Stands
          (b.document.nodes.size :: b.opened.map (·.1)) ((o.count, tag) :: o.tags) := by
        rw [← hnumber]
        refine .cons (h.sound.hasTag_enter tag hroot) ?_
          (h.stands.appended happended h.sound.wellFormed)
        rw [happended.parent? h.sound.wellFormed, if_pos rfl, List.head?_map]
        rfl
      refine ⟨hsound, ?_, by rwa [hopened, List.map_cons], fun id helement => ?_⟩
      · rw [happended.elementsBefore_size, h.count]
        rfl
      · by_cases hid : id = b.document.nodes.size
        · rw [hid]
          exact ⟨_, _, hstands, hP rfl⟩
        · exact h.placed_appended happended hid helement
  | leave name hopened =>
      have hstands := h.stands
      rw [hopened, List.map_cons] at hstands
      obtain ⟨count, tags⟩ := o
      cases hstands with
      | cons _ _ habove => exact ⟨hsound, h.count, habove, h.placed⟩
  | append hmade hkind hlevel hstart hend =>
      have happended := h.sound.appended_append hmade hread
      rw [Token.openings_of_not_tag o hstart hend]
      refine ⟨hsound, ?_, h.stands.appended happended h.sound.wellFormed, fun id helement => ?_⟩
      · rw [happended.elementsBefore_size, if_neg hkind.1, Nat.add_zero, h.count]
      · refine h.placed_appended happended ?_ helement
        rintro rfl
        rw [Document.isElement, kind?, happended.value, if_pos rfl, Option.map_some, beq_iff_eq]
          at helement
        exact hkind.1 (Option.some.inj helement)
  | pass hstart hend =>
      rw [Token.openings_of_not_tag o hstart hend]
      exact h

/-- What holds at the start tags of a document holds where its elements stand. -/
theorem run (h : b.Places P o) (hend : .endDocument ∉ tokens) (hP : Token.AtStartTags P o tokens)
    (hrun : b.run strict none (tokens.map .ok ++ [.ok .endDocument]) = .ok d) :
    WellFormed d ∧ ∀ id, d.isElement id = true → IsPlaced P d id := by
  induction tokens generalizing b o with
  | nil =>
      obtain ⟨rfl, -, -⟩ := finish_eq_ok hrun
      exact ⟨h.sound.wellFormed, h.placed⟩
  | cons token tokens ih =>
      rw [List.mem_cons, not_or] at hend
      rw [List.map_cons, List.cons_append, Builder.run] at hrun
      · split at hrun
        · cases hrun
        · rename_i hread
          exact ih (h.read hread hP.1) hend.2 hP.2 hrun
      · exact fun heq => hend.1 heq.symm

end Places

end Builder

end PersistenceMapping
