/-
Documents are forests.

`Forest` says of the five links by themselves what `Linked` says with lists: the list of
children is not given but met by following the links, and it is the same one from both ends.
`WalksEnd` says of each loop that goes over a document that it comes to its end.  The loops are
those without a bound, so what is said is that they end, and not that a bound ends them; that
the bounded ones give the same is said along with it.
-/
import PersistenceMapping.Proofs.Tree.Reach

namespace PersistenceMapping

namespace Document

/-- The links of a document are those of a forest. -/
structure Forest (d : Document) : Prop where
  /-- Every link leads to a node. -/
  range : ∀ id x, d.parent? id = some x ∨ d.firstChild? id = some x ∨ d.lastChild? id = some x ∨
    d.previous? id = some x ∨ d.next? id = some x → x < d.nodes.size
  /-- From the first child on there are just the nodes whose parent this is, each of them once.
  The last of them is the last child, and back from there they are met in reverse. -/
  children : ∀ p, ∃ l, Chain d.next? (d.firstChild? p) l ∧ l.Nodup ∧
    d.lastChild? p = l.getLast? ∧ Chain d.previous? (d.lastChild? p) l.reverse ∧
    ∀ c, c ∈ l ↔ d.parent? c = some p
  /-- A node without a parent has no siblings. -/
  alone : ∀ c, d.parent? c = none → d.previous? c = none ∧ d.next? c = none
  /-- Climbing from a node meets no node twice and ends. -/
  acyclic : ∀ id, ∃ l, Chain d.parent? (some id) l ∧ l.Nodup

/-- Whatever goes over a document comes to an end. -/
structure WalksEnd (d : Document) : Prop where
  children : ∀ id, Chain d.next? (d.firstChild? id) (d.children id)
  /-- This is the climb behind paths and behind the test for ancestors. -/
  ancestors : ∀ id < d.nodes.size, Chain d.parent? (some id) (d.ancestorsOrSelf id)
  /-- Children are put on a stack from the last to the first. -/
  backwards : ∀ id, Chain d.previous? (d.lastChild? id) (d.children id).reverse
  descendants : ∀ id, Traversal d (d.pushChildren id []) (d.descendants id)
  clones : ∀ id < d.nodes.size,
    Copied copyNode (fun d id => Chain d.next? (d.firstChild? id)) d id (d.cloneTree id)
  imports : ∀ target : Document, Reachable target → ∀ id < d.nodes.size,
    Copied d.importValue (fun _ id => Chain d.next? (d.firstChild? id)) target id
      (target.importTree d id)

variable {d : Document}

theorem Linked.forest {kids : NodeId → List NodeId} (h : Linked d kids) : Forest d where
  range id x hx := by
    rcases hx with hx | hx | hx | hx | hx
    · exact h.parent_lt ((h.parent x id).mp hx)
    · rw [h.first] at hx
      exact h.child_lt (List.mem_of_head? hx)
    · exact h.lastChild_lt hx
    · exact h.sibling_lt (Or.inl hx)
    · exact h.sibling_lt (Or.inr hx)
  children p := by
    refine ⟨kids p, ?_, h.nodup p, h.last p, ?_, fun c => (h.parent p c).symm⟩
    · rw [h.first]
      exact h.chain_next p
    · rw [h.last]
      exact h.chain_previous p
  alone := h.alone
  acyclic id := by
    obtain ⟨l, hl⟩ := h.ends id
    exact ⟨l, hl, hl.nodup⟩

theorem WellFormed.walksEnd (h : WellFormed d) : WalksEnd d where
  children id := by
    rw [h.linked.first]
    exact h.linked.chain_next id
  ancestors _ hid := h.linked.chain_parent hid
  backwards id := by
    rw [h.linked.last]
    exact h.linked.chain_previous id
  descendants id := by
    rw [h.linked.pushChildren_eq, List.append_nil]
    exact (h.linked.preorder_descendants id).1.traversal h.linked
  clones id hid :=
    (copying_children h).copied_copyTree ⟨h, .refl d⟩ hid (Nat.le_add_left _ _)
  imports _ htarget id hid :=
    (copying_importValue h).copied_copyTree htarget.wellFormed hid (Nat.le_add_left _ _)

/-- Every document that can be made is a forest, and whatever goes over it comes to an end. -/
theorem forest_of_reachable (h : Reachable d) : Forest d ∧ WalksEnd d :=
  ⟨h.wellFormed.linked.forest, h.wellFormed.walksEnd⟩

/-- The requests put two texts below an element, move the first behind the second, and then
clone the element. -/
theorem forest_of_moved_text :
    let d := [.createElement "a", .createText "b", .createText "c", .append 1 2, .append 1 3,
      .append 1 2, .append 0 1, Request.cloneSubtree 1].foldl (fun d r => r.perform d) (.empty)
    d.children 1 = [3, 2] ∧ d.children 4 = [5, 6] ∧ Forest d ∧ WalksEnd d := by
  refine ⟨by decide, by decide, forest_of_reachable ?_⟩
  have hrun : ∀ (rs : List Request) (d : Document), Reachable d →
      Reachable (rs.foldl (fun d r => r.perform d) d) := by
    intro rs
    induction rs with
    | nil => intro d hd; exact hd
    | cons r rs ih => intro d hd; exact ih _ (.request hd r)
  exact hrun _ _ (.empty _)

end Document

end PersistenceMapping
