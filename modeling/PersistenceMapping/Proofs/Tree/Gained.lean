/-
What a builder adds to a document.

Whatever tokens a builder takes in, it adds nodes and changes nothing that was there but the
children of the innermost open element, which it adds to at their end (`Gained`).  What it adds
there has the contents that the tokens spell.  The two things that are done to a document are
appending a node and filling an element that has been appended, and each of them keeps what
was added before.
-/
import PersistenceMapping.Proofs.Tree.Building
import PersistenceMapping.Proofs.Tree.Contents
import PersistenceMapping.Proofs.Tree.Spelled

namespace PersistenceMapping

namespace Document

open Function (update)

variable {d d' d'' : Document} {p : NodeId} {value : NodeValue} {cs cs' : List Content}

/-- One new node has been put behind the children of another. -/
structure Appended (p : NodeId) (value : NodeValue) (d d' : Document) : Prop where
  wellFormed : WellFormed d'
  size : d'.nodes.size = d.nodes.size + 1
  pool : d.pool.Extends d'.pool
  value : ∀ x, d'.value? x = if x = d.nodes.size then some value else d.value? x
  children : d'.children = update d.children p (d.children p ++ [d.nodes.size])

/-- Nodes have been added, and some of them put behind the children of a node that was there.
These have the given contents, but for namespaces. -/
structure Gained (p : NodeId) (cs : List Content) (d d' : Document) : Prop where
  wellFormed : WellFormed d'
  size : d.nodes.size ≤ d'.nodes.size
  pool : d.pool.Extends d'.pool
  value : ∀ x < d.nodes.size, d'.value? x = d.value? x
  children : ∀ x < d.nodes.size, x ≠ p → d'.children x = d.children x
  /-- New nodes have new nodes below them. -/
  fresh : ∀ x, d.nodes.size ≤ x → ∀ c ∈ d'.children x, d.nodes.size ≤ c
  added : ∃ ids, d'.children p = d.children p ++ ids ∧ (∀ id ∈ ids, d.nodes.size ≤ id) ∧
    Content.bareAll true (ids.filterMap d'.content?) = Content.bareAll true cs

/-- What has no node has no children. -/
theorem WellFormed.children_eq_nil (h : WellFormed d) {x : NodeId} (hx : d.nodes.size ≤ x) :
    d.children x = [] := by
  rw [List.eq_nil_iff_forall_not_mem]
  intro c hc
  exact Nat.not_lt_of_le hx (h.linked.parent_lt hc)

/-- A node that has been made is appended by linking it. -/
theorem Made.appended {node : NodeId × Document} (h : Made d value node) (hd : WellFormed d)
    (hd' : WellFormed d') (hp : p < d.nodes.size)
    (hnodes : d'.nodes = (node.2.link p node.1).nodes) (hpool : d'.pool = node.2.pool) :
    Appended p value d d' where
  wellFormed := hd'
  size := by rw [hnodes, size_link, h.size]
  pool := hpool ▸ h.pool
  value x := by
    have hvalue : d'.value? x = (node.2.link p node.1).value? x := by
      rw [Document.value?, Document.value?, Document.node?, Document.node?, hnodes]
    rw [hvalue, value?_link, Document.value?, h.node?]
    split <;> rfl
  children := by
    have hnew : node.1 < node.2.nodes.size := by
      rw [h.id, h.size]
      exact Nat.lt_succ_self _
    have hold : p < node.2.nodes.size := by
      rw [h.size]
      exact Nat.lt_succ_of_lt hp
    have hlinked := (h.linked hd.linked).link hold hnew h.parent? ?_
    · rw [(hlinked.of_nodes hnodes).children_eq, h.id]
    · -- What stands above an old node is old.
      intro l hl hmem
      have habove := hl.unique ((hd.linked.chain_parent hp).congr fun x _ => h.link rfl x)
      rw [habove, h.id] at hmem
      exact Nat.lt_irrefl _ (hd.linked.ancestors_lt hp _ hmem)

theorem Gained.refl (h : WellFormed d) (p : NodeId) : Gained p [] d d where
  wellFormed := h
  size := Nat.le_refl _
  pool := .refl d.pool
  value _ _ := rfl
  children _ _ _ := rfl
  fresh x hx c hc := by
    rw [h.children_eq_nil hx] at hc
    cases hc
  added := ⟨[], by simp, by simp, rfl⟩

/-- What was added before stays what it is. -/
theorem Gained.trans (h : Gained p cs d d') (h' : Gained p cs' d' d'') (hp : p < d.nodes.size) :
    Gained p (cs ++ cs') d d'' where
  wellFormed := h'.wellFormed
  size := Nat.le_trans h.size h'.size
  pool := h.pool.trans h'.pool
  value x hx := by rw [h'.value x (Nat.lt_of_lt_of_le hx h.size), h.value x hx]
  children x hx hne := by
    rw [h'.children x (Nat.lt_of_lt_of_le hx h.size) hne, h.children x hx hne]
  fresh x hx c hc := by
    by_cases hlt : x < d'.nodes.size
    · rw [h'.children x hlt (Nat.ne_of_gt (Nat.lt_of_lt_of_le hp hx))] at hc
      exact h.fresh x hx c hc
    · exact Nat.le_trans h.size (h'.fresh x (Nat.le_of_not_lt hlt) c hc)
  added := by
    obtain ⟨ids, hids, hnew, hcontent⟩ := h.added
    obtain ⟨ids', hids', hnew', hcontent'⟩ := h'.added
    have hmem : ∀ id ∈ ids, id ∈ d'.children p := fun id hid => by simp [hids, hid]
    -- At and below what was added first there are nodes that were new then.
    have hold : ids.filterMap d''.content? = ids.filterMap d'.content? := by
      refine List.filterMap_congr fun id hid => ?_
      refine content?_eq_of_agree (fun x => d.nodes.size ≤ x ∧ x < d'.nodes.size)
        h.wellFormed h'.wellFormed h'.size h'.pool (fun x hx => hx.2)
        (fun x hx => h'.value x hx.2) (fun x hx => ⟨?_, fun c hc => ?_⟩) ?_
      · exact h'.children x hx.2 (Nat.ne_of_gt (Nat.lt_of_lt_of_le hp hx.1))
      · exact ⟨h.fresh x hx.1 c hc, h.wellFormed.linked.child_lt hc⟩
      · exact ⟨hnew id hid, h.wellFormed.linked.child_lt (hmem id hid)⟩
    refine ⟨ids ++ ids', by rw [hids', hids, List.append_assoc], ?_, ?_⟩
    · intro id hid
      rcases List.mem_append.mp hid with hid | hid
      · exact hnew id hid
      · exact Nat.le_trans h.size (hnew' id hid)
    · rw [List.filterMap_append, hold, Content.bareAll_append, Content.bareAll_append, hcontent,
        hcontent']

/-! ### Appending and filling -/

namespace Appended

theorem children_new (h : Appended p value d d') (hd : WellFormed d) (hp : p < d.nodes.size) :
    d'.children d.nodes.size = [] := by
  rw [h.children, Function.update_of_ne (Nat.ne_of_gt hp)]
  exact hd.children_eq_nil (Nat.le_refl _)

/-- What has been added to a node that was just appended has been added with it. -/
theorem filled (h : Appended p value d d') (hd : WellFormed d) (hp : p < d.nodes.size)
    (h' : Gained d.nodes.size cs d' d'') {c : Content}
    (hc : ∀ children, Content.bareAll true children = Content.bareAll true cs →
      Content.bareAll true [d''.contentOf children value] = Content.bareAll true [c]) :
    Gained p [c] d d'' := by
  have hlt : d.nodes.size < d'.nodes.size := by
    rw [h.size]
    exact Nat.lt_succ_self _
  have hold : ∀ x < d.nodes.size, d''.children x = d'.children x := fun x hx =>
    h'.children x (Nat.lt_trans hx hlt) (Nat.ne_of_lt hx)
  obtain ⟨ids, hids, hnew, hcontent⟩ := h'.added
  rw [h.children_new hd hp, List.nil_append] at hids
  have hvalue : d''.value? d.nodes.size = some value := by
    rw [h'.value _ hlt, h.value, if_pos rfl]
  refine ⟨h'.wellFormed, Nat.le_trans (Nat.le_of_lt hlt) h'.size, h.pool.trans h'.pool, ?_, ?_, ?_,
    [d.nodes.size], ?_, by simp, ?_⟩
  · intro x hx
    rw [h'.value x (Nat.lt_trans hx hlt), h.value, if_neg (Nat.ne_of_lt hx)]
  · intro x hx hne
    rw [hold x hx, h.children, Function.update_of_ne hne]
  · intro x hx c hc
    by_cases hxd : x = d.nodes.size
    · rw [hxd, hids] at hc
      exact Nat.le_trans (Nat.le_of_lt hlt) (hnew c hc)
    · have hge : d'.nodes.size ≤ x := by
        rw [h.size]
        exact Nat.lt_of_le_of_ne hx (Ne.symm hxd)
      exact Nat.le_trans (Nat.le_of_lt hlt) (h'.fresh x hge c hc)
  · rw [hold p hp, h.children, Function.update_self]
  · have hcontent? := h'.wellFormed.content?_eq (Nat.lt_of_lt_of_le hlt h'.size)
    rw [hvalue, hids] at hcontent?
    rw [List.filterMap_cons, hcontent?]
    exact hc _ hcontent

/-- A node that has been appended is what has been added, if nothing is put below it. -/
theorem gained (h : Appended p value d d') (hd : WellFormed d) (hp : p < d.nodes.size) {c : Content}
    (hc : d'.contentOf [] value = c) (hsingle : value.kind ≠ .element ∧ value.kind ≠ .document) :
    Gained p [c] d d' := by
  refine h.filled hd hp (Gained.refl h.wellFormed _) fun children _ => ?_
  rw [← hc]
  cases value <;> first | rfl | simp [NodeValue.kind] at hsingle

end Appended

end Document

end PersistenceMapping
