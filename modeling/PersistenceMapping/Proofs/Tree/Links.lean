/-
What each change of a document does to its links.

A change writes nodes one after the other, and some of them may be the same node.  Since
each write concerns one link, it does not matter which: the links after the change are five
functions, each the old one with at most two of its values replaced.  These equations are all
that is used of linking and unlinking from here on.
-/
import Mathlib.Logic.Function.Basic
import Mathlib.Tactic.SplitIfs
import PersistenceMapping.Tree.Edit

namespace PersistenceMapping

namespace Document

open Function (update)

variable {d : Document} {id parent child : NodeId}

/-! ### Changing one node -/

theorem node?_modify (d : Document) (id x : NodeId) (f : Node → Node) :
    (d.modify id f).node? x = if id = x then (d.node? x).map f else d.node? x := by
  simp only [node?, modify, Array.getElem?_modify]

@[simp] theorem size_modify (d : Document) (id : NodeId) (f : Node → Node) :
    (d.modify id f).nodes.size = d.nodes.size := by
  simp [modify]

theorem node?_eq_some (h : id < d.nodes.size) : ∃ n, d.node? id = some n :=
  ⟨_, Array.getElem?_eq_getElem h⟩

theorem lt_size_of_node? {n : Node} (h : d.node? id = some n) : id < d.nodes.size :=
  (Array.getElem?_eq_some_iff.mp h).1

theorem lt_size_of_link {α : Type} {g : Node → Option α} {a : α}
    (h : (d.node? id).bind g = some a) : id < d.nodes.size := by
  obtain ⟨n, hn, -⟩ := Option.bind_eq_some_iff.mp h
  exact lt_size_of_node? hn

/-! ### Adding a node -/

@[simp] theorem size_push (d : Document) (value : NodeValue) :
    (d.push value).2.nodes.size = d.nodes.size + 1 := by
  simp [push]

theorem node?_push (d : Document) (value : NodeValue) (x : NodeId) :
    (d.push value).2.node? x = if x = d.nodes.size then some { value } else d.node? x := by
  simp only [node?, push, Array.getElem?_push]

/-- A new node has no links, so all links are what they were. -/
theorem link_push {α : Type} {g : Node → Option α} (value : NodeValue)
    (hg : g { value } = none) (x : NodeId) :
    ((d.push value).2.node? x).bind g = (d.node? x).bind g := by
  rw [node?_push]
  split
  · rename_i hx
    have hnone : d.node? x = none := by
      rw [hx]
      exact Array.getElem?_eq_none (Nat.le_refl _)
    rw [hnone]
    exact hg
  · rfl

/-! ### Linking -/

@[simp] theorem size_link (d : Document) (parent child : NodeId) :
    (d.link parent child).nodes.size = d.nodes.size := by
  unfold link
  cases d.lastChild? parent <;> simp

/-- All that linking does. -/
theorem node?_link (d : Document) (parent child x : NodeId) :
    (d.link parent child).node? x =
      (d.node? x).map fun n =>
        { n with
          parent := if child = x then some parent else n.parent
          firstChild :=
            if parent = x ∧ d.lastChild? parent = none then some child else n.firstChild
          lastChild := if parent = x then some child else n.lastChild
          previous := if child = x then (d.lastChild? parent).or n.previous else n.previous
          next := if d.lastChild? parent = some x then some child else n.next } := by
  unfold link
  rcases d.lastChild? parent with _ | last <;> simp only [node?_modify] <;>
    rcases d.node? x with _ | n <;> simp <;> split_ifs <;> simp

/-! ### Unlinking -/

@[simp] theorem size_unlink (d : Document) (id : NodeId) :
    (d.unlink id).nodes.size = d.nodes.size := by
  unfold unlink
  cases d.parent? id <;> cases d.previous? id <;> cases d.next? id <;> simp

/-- All that unlinking does to the nodes. -/
theorem node?_unlink (d : Document) (id x : NodeId) :
    (d.unlink id).node? x =
      (d.node? x).map fun n =>
        { n with
          parent := if id = x then none else n.parent
          firstChild :=
            if d.previous? id = none ∧ d.parent? id = some x then d.next? id else n.firstChild
          lastChild :=
            if d.next? id = none ∧ d.parent? id = some x then d.previous? id else n.lastChild
          previous :=
            if id = x then none else if d.next? id = some x then d.previous? id else n.previous
          next :=
            if id = x then none else if d.previous? id = some x then d.next? id else n.next } := by
  have hroot : ∀ (d' : Document) (root : Option NodeId),
      ({ d' with root := root } : Document).node? x = d'.node? x := fun _ _ => rfl
  unfold unlink
  simp only [hroot]
  rcases d.parent? id with _ | p <;> rcases d.previous? id with _ | b <;>
    rcases d.next? id with _ | a <;> simp only [node?_modify] <;>
    rcases d.node? x with _ | n <;> simp <;> split_ifs <;> simp

end Document

end PersistenceMapping
