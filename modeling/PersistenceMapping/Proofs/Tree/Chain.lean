/-
Following a link to its end.

`follow` takes a number of steps, so by itself it says nothing about where the link
leads: a link that goes in a circle gives as many nodes as there are steps.  `Chain`
is the loop without the number.  It has a derivation only where the link comes to an
end, and then exactly one list is met on the way.

Two facts are needed of chains.

  * A chain meets no node twice.  A node met twice would be followed by itself, and
    the list after it would be as long as the list from it on.
  * So a chain that stays among the nodes of a document is no longer than these are
    many, and `follow` with that many steps gives all of it (`Chain.follow_eq`).
-/
import PersistenceMapping.Tree.Document

namespace PersistenceMapping

namespace Document

/-- Following `link` from `start` meets just the nodes of the list, and then ends. -/
inductive Chain (link : NodeId → Option NodeId) : (start : Option NodeId) → List NodeId → Prop
  | nil : Chain link none []
  | cons {id : NodeId} {l : List NodeId} (h : Chain link (link id) l) :
      Chain link (some id) (id :: l)

namespace Chain

variable {link link' : NodeId → Option NodeId} {start : Option NodeId} {l l' : List NodeId}

theorem unique (h : Chain link start l) (h' : Chain link start l') : l = l' := by
  induction h generalizing l' with
  | nil =>
      cases h'
      rfl
  | cons _ ih =>
      cases h' with
      | cons h' => rw [ih h']

theorem head?_eq (h : Chain link start l) : l.head? = start := by
  cases h <;> rfl

/-- From each node of a chain on, the rest of it is a chain. -/
theorem drop {before : List NodeId} {id : NodeId} {after : List NodeId}
    (h : Chain link start (before ++ id :: after)) : Chain link (some id) (id :: after) := by
  induction before generalizing start with
  | nil =>
      cases h with
      | cons h => exact cons h
  | cons _ before ih =>
      cases h with
      | cons h => exact ih h

/-- What follows a node of a chain is where the link leads from it. -/
theorem head?_after {before : List NodeId} {id : NodeId} {after : List NodeId}
    (h : Chain link start (before ++ id :: after)) : link id = after.head? := by
  cases h.drop with
  | cons h => exact h.head?_eq.symm

theorem not_mem_of_cons {id : NodeId} (h : Chain link start (id :: l)) : id ∉ l := by
  intro hid
  obtain ⟨before, after, rfl⟩ := List.append_of_mem hid
  -- The chain from the second place of the node is the chain from its first.
  have hfirst : Chain link (some id) (id :: (before ++ id :: after)) := by
    rw [← List.nil_append (id :: _)] at h
    exact h.drop
  have hsecond : Chain link (some id) (id :: after) := by
    rw [← List.cons_append] at h
    exact h.drop
  have heq := congrArg List.length (hfirst.unique hsecond)
  simp only [List.length_cons, List.length_append] at heq
  omega

/-- A chain meets no node twice. -/
theorem nodup (h : Chain link start l) : l.Nodup := by
  induction h with
  | nil => exact List.nodup_nil
  | cons h ih => exact List.nodup_cons.mpr ⟨(cons h).not_mem_of_cons, ih⟩

/-- Only the links of the nodes that are met matter. -/
theorem congr (h : Chain link start l) (heq : ∀ id ∈ l, link' id = link id) :
    Chain link' start l := by
  induction h with
  | nil => exact nil
  | cons h ih =>
      refine cons ?_
      rw [heq _ (by simp)]
      exact ih fun id hid => heq id (by simp [hid])

/-- Where a link leads elsewhere from one node, following it still ends if it ends from there. -/
theorem exists_of_redirected {c : NodeId} (h : Chain link start l)
    (hother : ∀ x, x ≠ c → link' x = link x) (hc : ∃ l', Chain link' (link' c) l') :
    ∃ l', Chain link' start l' := by
  induction h with
  | nil => exact ⟨[], nil⟩
  | @cons x l _ ih =>
      by_cases hx : x = c
      · obtain ⟨l', hl'⟩ := hc
        exact ⟨x :: l', cons (hx ▸ hl')⟩
      · obtain ⟨l', hl'⟩ := ih
        rw [← hother x hx] at hl'
        exact ⟨x :: l', cons hl'⟩

/-- A chain stays where its link stays. -/
theorem mem_range {n : Nat} (h : Chain link start l) (hstart : ∀ id, start = some id → id < n)
    (hlink : ∀ id next, link id = some next → next < n) : ∀ id ∈ l, id < n := by
  induction h with
  | nil => simp
  | cons h ih =>
      intro id hid
      rcases List.mem_cons.mp hid with rfl | hid
      · exact hstart _ rfl
      · exact ih (hlink _) id hid

/-- With as many steps as it has nodes, all of a chain is met. -/
theorem follow_eq {steps : Nat} (h : Chain link start l) (hsteps : l.length ≤ steps) :
    follow link steps start = l := by
  induction h generalizing steps with
  | nil => cases steps <;> rfl
  | cons h ih =>
      cases steps with
      | zero => simp at hsteps
      | succ steps => rw [follow, ih (by simpa using hsteps)]

end Chain

/-- A list of numbers below `n` without repetition has at most `n` of them. -/
theorem length_le_of_nodup {l : List NodeId} {n : Nat} (h : l.Nodup) (hl : ∀ id ∈ l, id < n) :
    l.length ≤ n := by
  have := List.Nodup.length_le_of_subset h fun id hid => List.mem_range.mpr (hl id hid)
  simpa using this

end Document

end PersistenceMapping
