/-
A refused operation leaves the tree alone.

What is refused has done nothing, but for a child that was made before it could be appended.  That
one is new and detached, so all that was there is as it was: the nodes with their links, what is
read of them, and what is below them.

Numbers that no node has are refused by the checks and go no further.
-/
import PersistenceMapping.Proofs.Tree.Indexed

namespace PersistenceMapping

namespace Document

variable {d d' : Document}

/-- The nodes of a document are what they were. -/
structure Unharmed (d d' : Document) : Prop where
  nodes : ∀ x < d.nodes.size, d'.node? x = d.node? x
  links : ∀ x < d.nodes.size, d'.parent? x = d.parent? x ∧ d'.firstChild? x = d.firstChild? x ∧
    d'.lastChild? x = d.lastChild? x ∧ d'.previous? x = d.previous? x ∧ d'.next? x = d.next? x
  reads : ∀ x < d.nodes.size, d'.kind? x = d.kind? x ∧ d'.name? x = d.name? x ∧
    d'.namespace? x = d.namespace? x ∧ d'.attributes x = d.attributes x ∧
    d'.text? x = d.text? x ∧ d'.data? x = d.data? x
  children : ∀ x < d.nodes.size, d'.children x = d.children x
  contents : ∀ x < d.nodes.size, d'.content? x = d.content? x
  root : d'.root = d.root

theorem Grown.unharmed (h : Grown d d') (hd : WellFormed d) : Unharmed d d' where
  nodes := h.node?
  links x hx := by
    simp only [Document.parent?, firstChild?, lastChild?, previous?, next?, h.node? x hx, and_self]
  reads x hx := hd.reads_of_extends (h.value? hx) h.pool
  children x hx := h.children_eq hd hx
  contents x hx := h.content?_eq hd hx
  root := h.root

/-- An element that stands by itself has been added. -/
structure AddedElement (d : Document) (name : String) (d' : Document) : Prop where
  size : d'.nodes.size = d.nodes.size + 1
  element : d'.isElement d.nodes.size = true
  name : d'.name? d.nodes.size = some name
  detached : d'.parent? d.nodes.size = none ∧ d'.previous? d.nodes.size = none ∧
    d'.next? d.nodes.size = none
  childless : d'.children d.nodes.size = []
  /-- No node has it for a child. -/
  apart : ∀ p, d.nodes.size ∉ d'.children p

theorem WellFormed.addedElement_pushElement (h : WellFormed d) (name : String) :
    AddedElement d name (d.pushElement name none []).2 := by
  obtain ⟨nameId, _, _, hmade, hname, -⟩ := made_pushElement h name none []
  have hnode := hmade.node? d.nodes.size
  rw [if_pos rfl] at hnode
  have hlinked := hmade.linked h.linked
  have hdetached : (d.pushElement name none []).2.parent? d.nodes.size = none := by
    rw [parent?, hnode]
    rfl
  refine ⟨hmade.size, ?_, ?_, ⟨hdetached, ?_, ?_⟩, ?_, fun p => ?_⟩
  · rw [isElement, kind?, value?, hnode]
    rfl
  · rw [name?, value?, hnode]
    exact hname
  · rw [previous?, hnode]
    rfl
  · rw [next?, hnode]
    rfl
  · rw [hlinked.children_eq]
    exact h.children_eq_nil (Nat.le_refl _)
  · exact (h.of_steps hmade.steps).linked.not_mem_of_detached hdetached p

end Document

namespace Operation

open Document

/-- **A refused operation leaves the tree alone**: all nodes that there were are as they were, and
a child that was made for nothing is detached.  Numbers that no node has lead to a refusal, and
never further. -/
theorem refused_leaves_alone {d : Document} (hd : Reachable d) (op : Operation)
    (hsource : ∀ s, op.source? = some s → Reachable s) :
    op.indexed.apply d = some (op.edit.apply d) ∧
      (op.Strays d → ∃ e, (op.edit.apply d).1 = .error e) ∧
      ∀ e d', op.edit.apply d = (.error e, d') →
        e.IsRefusal ∧ Unharmed d d' ∧
          (d' = d ∨ ∃ parent name, op = .addChild parent name ∧ AddedElement d name d') := by
  have hwf := hd.wellFormed
  have heffect := effect hwf op
  refine ⟨follows hwf op fun s hs => (hsource s hs).wellFormed,
    fun hstrays => heffect.refused_of_strays hwf hstrays, fun e d' happly => ?_⟩
  rw [happly] at heffect
  cases heffect with
  | refused he => exact ⟨he, (Grown.refl d).unharmed hwf, Or.inl rfl⟩
  | @stranded parent name _ he =>
      exact ⟨he, (grown_pushElement hwf name).unharmed hwf,
        Or.inr ⟨parent, name, rfl, hwf.addedElement_pushElement name⟩⟩

/-- A text takes no child, and there is no node 9 to be imported. -/
theorem refused_leaves_alone_text :
    let d := [.createElement "a", .createText "b", .append 0 1, Request.append 1 2].foldl
      (fun d r => r.perform d) (.empty)
    (∃ e d', (addChild 2 "c").edit.apply d = (.error e, d') ∧ Unharmed d d' ∧
        AddedElement d "c" d') ∧
      ∃ e, ((importNode d 9).edit.apply d).1 = .error e := by
  intro d
  have hd : Reachable d := (Reachable.empty _).requests _
  have hstrays : d.nodes.size ≤ 9 := by decide
  have hrefused : ((addChild 2 "c").edit.apply d).1 =
      .error (.invalidOperation (.refusedChild .element .text)) := by decide
  have hsize : ((addChild 2 "c").edit.apply d).2.nodes.size ≠ d.nodes.size := by decide
  clear_value d
  obtain ⟨-, hmissing, -⟩ := refused_leaves_alone hd (importNode d 9) fun s hs => by
    cases hs
    exact hd
  obtain ⟨-, -, hleft⟩ := refused_leaves_alone hd (addChild 2 "c") fun s hs => by cases hs
  obtain ⟨-, hunharmed, hsame | ⟨_, _, hop, hadded⟩⟩ := hleft _ _ (Prod.ext hrefused rfl)
  · exact absurd (congrArg (·.nodes.size) hsame) hsize
  · cases hop
    exact ⟨⟨_, _, Prod.ext hrefused rfl, hunharmed, hadded⟩, hmissing hstrays⟩

end Operation

end PersistenceMapping
