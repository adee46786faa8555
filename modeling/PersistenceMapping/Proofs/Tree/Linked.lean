/-
The links of a document, as lists of children.

`Linked d kids` says that the five links of every node of `d` are those of a node that has
the children `kids` gives for it.  It splits a list of children at a node to say what stands
before and after it, so the first, the last, a middle and an only child are one case.  That
the lists agree with the parents makes them disjoint; that climbing from parent to parent ends
makes the whole a forest.

Each change of the links is a change of the lists: a new node has no children and is nobody's
child, linking adds a node at the end of one list, unlinking takes it out of the one it is in.
-/
import Mathlib.Data.List.Basic
import Mathlib.Data.List.Nodup
import PersistenceMapping.Proofs.Tree.Chain
import PersistenceMapping.Proofs.Tree.Links

namespace PersistenceMapping

namespace Document

open Function (update)

/-! ### Ends of lists without repetition -/

theorem getLast?_eq_some_iff_of_nodup {before after : List NodeId} {y : NodeId}
    (h : (before ++ y :: after).Nodup) :
    (before ++ y :: after).getLast? = some y ↔ after = [] := by
  constructor
  · intro hl
    rcases List.eq_nil_or_concat' after with rfl | ⟨after, a, rfl⟩
    · rfl
    · exfalso
      have ha : a = y := by
        rw [← List.cons_append, ← List.append_assoc, List.getLast?_concat] at hl
        simpa using hl
      subst ha
      exact (List.nodup_cons.mp (List.nodup_append.mp h).2.1).1 (by simp)
  · rintro rfl
    simp

theorem head?_eq_some_iff_of_nodup {before after : List NodeId} {y : NodeId}
    (h : (before ++ y :: after).Nodup) :
    (before ++ y :: after).head? = some y ↔ before = [] := by
  constructor
  · intro hh
    cases before with
    | nil => rfl
    | cons b before =>
        exfalso
        have hb : b = y := by simpa using hh
        subst hb
        exact (List.nodup_cons.mp h).1 (by simp)
  · rintro rfl
    simp

/-- A split of two lists put together is a split of one of them. -/
theorem append_eq_split {before after b a : List NodeId} {y : NodeId}
    (h : before ++ after = b ++ y :: a) :
    (∃ m, before = b ++ y :: m ∧ a = m ++ after) ∨ ∃ m, after = m ++ y :: a ∧ b = before ++ m := by
  rcases List.append_eq_append_iff.mp h with ⟨m, rfl, hafter⟩ | ⟨m, rfl, hafter⟩
  · exact Or.inr ⟨m, hafter, rfl⟩
  · cases m with
    | nil =>
        refine Or.inr ⟨[], ?_, ?_⟩
        · simpa using hafter.symm
        · simp
    | cons z m =>
        simp only [List.cons_append, List.cons.injEq] at hafter
        obtain ⟨rfl, rfl⟩ := hafter
        exact Or.inl ⟨m, rfl, rfl⟩

/-- The links of a document are those of the nodes with these children. -/
structure Linked (d : Document) (kids : NodeId → List NodeId) : Prop where
  nodup : ∀ p, (kids p).Nodup
  first : ∀ p, d.firstChild? p = (kids p).head?
  last : ∀ p, d.lastChild? p = (kids p).getLast?
  /-- A node stands among the children of its parent and nowhere else. -/
  parent : ∀ p c, d.parent? c = some p ↔ c ∈ kids p
  previous : ∀ p before c after, kids p = before ++ c :: after → d.previous? c = before.getLast?
  next : ∀ p before c after, kids p = before ++ c :: after → d.next? c = after.head?
  /-- A node without a parent has no siblings. -/
  alone : ∀ c, d.parent? c = none → d.previous? c = none ∧ d.next? c = none
  /-- Climbing from parent to parent ends. -/
  ends : ∀ id, ∃ l, Chain d.parent? (some id) l

variable {d d' : Document} {kids : NodeId → List NodeId} {id p c : NodeId}

/-! ### The links after a change, one by one -/

section Change

theorem parent?_link (hc : c < d.nodes.size) (x : NodeId) :
    (d.link p c).parent? x = if c = x then some p else d.parent? x := by
  obtain ⟨n, hn⟩ := node?_eq_some hc
  rcases hx : d.node? x with _ | m <;> simp only [parent?, node?_link, hx] <;> grind

theorem firstChild?_link (hp : p < d.nodes.size) (x : NodeId) :
    (d.link p c).firstChild? x
      = if p = x ∧ d.lastChild? p = none then some c else d.firstChild? x := by
  obtain ⟨n, hn⟩ := node?_eq_some hp
  rcases hx : d.node? x with _ | m <;> simp only [firstChild?, node?_link, hx] <;> grind

theorem lastChild?_link (hp : p < d.nodes.size) (x : NodeId) :
    (d.link p c).lastChild? x = if p = x then some c else d.lastChild? x := by
  obtain ⟨n, hn⟩ := node?_eq_some hp
  rcases hx : d.node? x with _ | m <;> simp only [lastChild?, node?_link, hx] <;> grind

theorem previous?_link (hc : c < d.nodes.size) (x : NodeId) :
    (d.link p c).previous? x
      = if c = x then (d.lastChild? p).or (d.previous? c) else d.previous? x := by
  obtain ⟨n, hn⟩ := node?_eq_some hc
  rcases hx : d.node? x with _ | m <;> simp only [previous?, node?_link, hx] <;> grind

theorem next?_link (hlast : ∀ last, d.lastChild? p = some last → last < d.nodes.size)
    (x : NodeId) :
    (d.link p c).next? x = if d.lastChild? p = some x then some c else d.next? x := by
  have hlast' : d.lastChild? p = some x → ∃ n, d.node? x = some n := fun h =>
    node?_eq_some (hlast x h)
  rcases hx : d.node? x with _ | m <;> simp only [next?, node?_link, hx] <;> grind

theorem parent?_unlink (x : NodeId) :
    (d.unlink id).parent? x = if id = x then none else d.parent? x := by
  rcases hx : d.node? x with _ | m <;> simp only [parent?, node?_unlink, hx] <;> grind

theorem firstChild?_unlink (x : NodeId)
    (hx : d.parent? id = some x → x < d.nodes.size) :
    (d.unlink id).firstChild? x
      = if d.previous? id = none ∧ d.parent? id = some x then d.next? id
        else d.firstChild? x := by
  have hx' : d.parent? id = some x → ∃ n, d.node? x = some n := fun h => node?_eq_some (hx h)
  rcases hm : d.node? x with _ | m <;> simp only [firstChild?, node?_unlink, hm] <;> grind

theorem lastChild?_unlink (x : NodeId)
    (hx : d.parent? id = some x → x < d.nodes.size) :
    (d.unlink id).lastChild? x
      = if d.next? id = none ∧ d.parent? id = some x then d.previous? id
        else d.lastChild? x := by
  have hx' : d.parent? id = some x → ∃ n, d.node? x = some n := fun h => node?_eq_some (hx h)
  rcases hm : d.node? x with _ | m <;> simp only [lastChild?, node?_unlink, hm] <;> grind

theorem previous?_unlink (x : NodeId) (hx : d.next? id = some x → x < d.nodes.size) :
    (d.unlink id).previous? x
      = if id = x then none
        else if d.next? id = some x then d.previous? id else d.previous? x := by
  have hx' : d.next? id = some x → ∃ n, d.node? x = some n := fun h => node?_eq_some (hx h)
  rcases hm : d.node? x with _ | m <;> simp only [previous?, node?_unlink, hm] <;> grind

theorem next?_unlink (x : NodeId) (hx : d.previous? id = some x → x < d.nodes.size) :
    (d.unlink id).next? x
      = if id = x then none
        else if d.previous? id = some x then d.next? id else d.next? x := by
  have hx' : d.previous? id = some x → ∃ n, d.node? x = some n := fun h =>
    node?_eq_some (hx h)
  rcases hm : d.node? x with _ | m <;> simp only [next?, node?_unlink, hm] <;> grind

end Change

namespace Linked

/-! ### What the lists say -/

theorem parent_lt (h : Linked d kids) (hc : c ∈ kids p) : p < d.nodes.size := by
  obtain ⟨first, hfirst⟩ : ∃ first, (kids p).head? = some first :=
    Option.isSome_iff_exists.mp (by simpa using List.ne_nil_of_mem hc)
  rw [← h.first] at hfirst
  exact lt_size_of_link hfirst

theorem child_lt (h : Linked d kids) (hc : c ∈ kids p) : c < d.nodes.size :=
  lt_size_of_link ((h.parent p c).mpr hc)

/-- Lists of children have no child in common. -/
theorem eq_of_mem (h : Linked d kids) {q : NodeId} (hp : c ∈ kids p) (hq : c ∈ kids q) :
    p = q := by
  have := ((h.parent p c).mpr hp).symm.trans ((h.parent q c).mpr hq)
  simpa using this

theorem not_mem_of_detached (h : Linked d kids) (hc : d.parent? c = none) (p : NodeId) :
    c ∉ kids p := by
  intro hmem
  rw [(h.parent p c).mpr hmem] at hc
  cases hc

/-- A node with a parent stands somewhere among its children. -/
theorem split (h : Linked d kids) (hc : d.parent? c = some p) :
    ∃ before after, kids p = before ++ c :: after ∧ d.previous? c = before.getLast? ∧
      d.next? c = after.head? := by
  obtain ⟨before, after, heq⟩ := List.append_of_mem ((h.parent p c).mp hc)
  exact ⟨before, after, heq, h.previous p _ _ _ heq, h.next p _ _ _ heq⟩

/-- The siblings of a node are children of its parent. -/
theorem sibling_mem (h : Linked d kids) {x : NodeId}
    (hx : d.previous? c = some x ∨ d.next? c = some x) :
    ∃ p, d.parent? c = some p ∧ x ∈ kids p := by
  rcases hp : d.parent? c with _ | p
  · obtain ⟨hb, ha⟩ := h.alone c hp
    simp [hb, ha] at hx
  · obtain ⟨before, after, heq, hb, ha⟩ := h.split hp
    refine ⟨p, rfl, ?_⟩
    rw [heq]
    rcases hx with hx | hx
    · have := List.mem_of_getLast? (hb ▸ hx)
      simp [this]
    · have := List.mem_of_head? (ha ▸ hx)
      simp [this]

theorem sibling_lt (h : Linked d kids) {x : NodeId}
    (hx : d.previous? c = some x ∨ d.next? c = some x) : x < d.nodes.size := by
  obtain ⟨p, -, hmem⟩ := h.sibling_mem hx
  exact h.child_lt hmem

theorem lastChild_lt (h : Linked d kids) {last : NodeId} (hl : d.lastChild? p = some last) :
    last < d.nodes.size := by
  rw [h.last] at hl
  exact h.child_lt (List.mem_of_getLast? hl)

/-- The lists depend on nothing but the links. -/
theorem of_links (h : Linked d kids) (hparent : ∀ x, d'.parent? x = d.parent? x)
    (hfirst : ∀ x, d'.firstChild? x = d.firstChild? x)
    (hlast : ∀ x, d'.lastChild? x = d.lastChild? x)
    (hprevious : ∀ x, d'.previous? x = d.previous? x)
    (hnext : ∀ x, d'.next? x = d.next? x) : Linked d' kids where
  nodup := h.nodup
  first p := by rw [hfirst, h.first]
  last p := by rw [hlast, h.last]
  parent p c := by rw [hparent, h.parent]
  previous p before c after heq := by rw [hprevious, h.previous p before c after heq]
  next p before c after heq := by rw [hnext, h.next p before c after heq]
  alone c hc := by
    rw [hprevious, hnext]
    exact h.alone c (by rw [← hparent, hc])
  ends id := by
    rw [funext hparent]
    exact h.ends id

theorem of_nodes (h : Linked d kids) (hnodes : d'.nodes = d.nodes) : Linked d' kids := by
  have hnode : ∀ x, d'.node? x = d.node? x := fun x => by rw [node?, node?, hnodes]
  refine h.of_links ?_ ?_ ?_ ?_ ?_
  · exact fun x => congrArg (Option.bind · _) (hnode x)
  · exact fun x => congrArg (Option.bind · _) (hnode x)
  · exact fun x => congrArg (Option.bind · _) (hnode x)
  · exact fun x => congrArg (Option.bind · _) (hnode x)
  · exact fun x => congrArg (Option.bind · _) (hnode x)

/-! ### Adding a node -/

theorem push (h : Linked d kids) (value : NodeValue) : Linked (d.push value).2 kids :=
  h.of_links (link_push value rfl) (link_push value rfl) (link_push value rfl)
    (link_push value rfl) (link_push value rfl)

/-! ### Other children of one parent -/

/-- When one parent gets other children, what has to be shown is where these stand. -/
theorem of_update (h : Linked d kids) {l : List NodeId} (hnodup : l.Nodup)
    (hfirst : ∀ x, d'.firstChild? x = if x = p then l.head? else d.firstChild? x)
    (hlast : ∀ x, d'.lastChild? x = if x = p then l.getLast? else d.lastChild? x)
    (hparent : ∀ x y, d'.parent? y = some x ↔ if x = p then y ∈ l else d.parent? y = some x)
    (hinside : ∀ before y after, l = before ++ y :: after →
      d'.previous? y = before.getLast? ∧ d'.next? y = after.head?)
    (houtside : ∀ x y, x ≠ p → y ∈ kids x →
      d'.previous? y = d.previous? y ∧ d'.next? y = d.next? y)
    (halone : ∀ y, d'.parent? y = none → d'.previous? y = none ∧ d'.next? y = none)
    (hends : ∀ id, ∃ l, Chain d'.parent? (some id) l) : Linked d' (update kids p l) := by
  have hother : ∀ x, x ≠ p → update kids p l x = kids x := fun x hx =>
    Function.update_of_ne hx _ _
  refine ⟨?_, ?_, ?_, ?_, ?_, ?_, halone, hends⟩
  · intro x
    by_cases hx : x = p
    · rwa [hx, Function.update_self]
    · rw [hother x hx]
      exact h.nodup x
  · intro x
    by_cases hx : x = p
    · rw [hfirst, if_pos hx, hx, Function.update_self]
    · rw [hfirst, if_neg hx, hother x hx, h.first]
  · intro x
    by_cases hx : x = p
    · rw [hlast, if_pos hx, hx, Function.update_self]
    · rw [hlast, if_neg hx, hother x hx, h.last]
  · intro x y
    by_cases hx : x = p
    · rw [hparent, if_pos hx, hx, Function.update_self]
    · rw [hparent, if_neg hx, hother x hx, h.parent]
  · intro x before y after heq
    by_cases hx : x = p
    · rw [hx, Function.update_self] at heq
      exact (hinside before y after heq).1
    · rw [hother x hx] at heq
      rw [(houtside x y hx (by simp [heq])).1, h.previous x before y after heq]
  · intro x before y after heq
    by_cases hx : x = p
    · rw [hx, Function.update_self] at heq
      exact (hinside before y after heq).2
    · rw [hother x hx] at heq
      rw [(houtside x y hx (by simp [heq])).2, h.next x before y after heq]

/-! ### Linking -/

/-- Behind the children there were the new one has no sibling, and the last of these has it. -/
theorem siblings_link (h : Linked d kids) (hc : c < d.nodes.size) (hdetached : d.parent? c = none)
    {before after : List NodeId} {y : NodeId} (heq : kids p ++ [c] = before ++ y :: after) :
    (d.link p c).previous? y = before.getLast? ∧ (d.link p c).next? y = after.head? := by
  have hnot := h.not_mem_of_detached hdetached p
  obtain ⟨hprevious, hnext⟩ := h.alone c hdetached
  rw [previous?_link hc, next?_link fun _ hl => h.lastChild_lt hl, h.last]
  rcases append_eq_split heq with ⟨m, hkids, rfl⟩ | ⟨m, hm, rfl⟩
  · have hy : c ≠ y := by
      rintro rfl
      exact hnot (by simp [hkids])
    have hnodup := h.nodup p
    rw [hkids] at hnodup
    rw [if_neg hy, h.previous p _ _ _ hkids, h.next p _ _ _ hkids, hkids]
    simp only [getLast?_eq_some_iff_of_nodup hnodup, true_and]
    cases m <;> simp
  · obtain ⟨rfl, rfl, rfl⟩ : m = [] ∧ c = y ∧ after = [] := by
      cases m <;> simp_all
    rw [if_pos rfl, hprevious, Option.or_none, List.append_nil, if_neg, hnext]
    · exact ⟨rfl, rfl⟩
    · intro hl
      exact hnot (List.mem_of_getLast? hl)

/-- Siblings under another parent, and nodes without one, are left alone. -/
theorem siblings_link_of_not_mem (h : Linked d kids) (hc : c < d.nodes.size) {y : NodeId}
    (hy : c ≠ y) (hnot : y ∉ kids p) :
    (d.link p c).previous? y = d.previous? y ∧ (d.link p c).next? y = d.next? y := by
  rw [previous?_link hc, next?_link fun _ hl => h.lastChild_lt hl, h.last, if_neg hy, if_neg]
  · exact ⟨rfl, rfl⟩
  · intro hl
    exact hnot (List.mem_of_getLast? hl)

/-- The new child stands last among the children of its parent, and all others stand where they
stood. -/
theorem link (h : Linked d kids) (hp : p < d.nodes.size) (hc : c < d.nodes.size)
    (hdetached : d.parent? c = none) (hends : ∀ l, Chain d.parent? (some p) l → c ∉ l) :
    Linked (d.link p c) (update kids p (kids p ++ [c])) := by
  have hnot := h.not_mem_of_detached hdetached
  have hne : ∀ x, x ≠ c → (d.link p c).parent? x = d.parent? x := fun x hx => by
    rw [parent?_link hc, if_neg (Ne.symm hx)]
  refine h.of_update ?_ ?_ ?_ ?_ (fun _ _ _ => h.siblings_link hc hdetached) ?_ ?_ ?_
  · refine List.nodup_append.mpr ⟨h.nodup p, List.nodup_singleton c, ?_⟩
    intro a ha b hb hab
    rw [List.mem_singleton.mp hb] at hab
    exact hnot p (hab ▸ ha)
  · intro x
    rw [firstChild?_link hp, h.last]
    by_cases hx : x = p
    · rw [hx, h.first]
      cases kids p <;> simp
    · simp [hx, Ne.symm hx]
  · intro x
    rw [lastChild?_link hp, List.getLast?_concat]
    simp only [eq_comm]
  · intro x y
    rw [parent?_link hc]
    by_cases hy : c = y
    · rw [if_pos hy, ← hy, h.parent]
      by_cases hx : x = p
      · simp [hx]
      · simp [hx, Ne.symm hx, hnot x]
    · rw [if_neg hy, h.parent]
      by_cases hx : x = p
      · simp [hx, Ne.symm hy]
      · simp [hx]
  · intro x y hx hy
    refine h.siblings_link_of_not_mem hc ?_ fun hmem => hx (h.eq_of_mem hy hmem)
    rintro rfl
    exact hnot x hy
  · intro y hy
    have hyc : c ≠ y := by
      rintro rfl
      rw [parent?_link hc, if_pos rfl] at hy
      cases hy
    rw [hne y (Ne.symm hyc)] at hy
    obtain ⟨hprevious, hnext⟩ := h.siblings_link_of_not_mem hc hyc (h.not_mem_of_detached hy p)
    rw [hprevious, hnext]
    exact h.alone y hy
  · -- Climbing either never comes to the child, or goes on from there to the parent, above
    -- which the child is not.
    obtain ⟨above, habove⟩ := h.ends p
    have habove' : Chain (d.link p c).parent? (some p) above := by
      refine habove.congr fun x hx => hne x ?_
      rintro rfl
      exact hends above habove hx
    intro x
    obtain ⟨l, hl⟩ := h.ends x
    refine hl.exists_of_redirected hne ⟨above, ?_⟩
    rwa [parent?_link hc, if_pos rfl]

/-! ### Unlinking -/

/-- The siblings on both sides of a node become siblings of each other; nothing else changes
between nodes that stay. -/
theorem siblings_unlink (h : Linked d kids) {before after : List NodeId}
    (hkids : kids p = before ++ id :: after) {y : NodeId} (hy : id ≠ y) :
    (d.unlink id).previous? y =
        (if after.head? = some y then before.getLast? else d.previous? y) ∧
      (d.unlink id).next? y =
        (if before.getLast? = some y then after.head? else d.next? y) := by
  rw [previous?_unlink y fun hx => h.sibling_lt (Or.inr hx),
    next?_unlink y fun hx => h.sibling_lt (Or.inl hx), h.previous p before id after hkids,
    h.next p before id after hkids, if_neg hy, if_neg hy]
  exact ⟨rfl, rfl⟩

/-- Without the node that stood between them, its siblings stand beside each other. -/
theorem siblings_unlink_inside (h : Linked d kids) {before after b a : List NodeId} {y : NodeId}
    (hkids : kids p = before ++ id :: after) (heq : before ++ after = b ++ y :: a) :
    (d.unlink id).previous? y = b.getLast? ∧ (d.unlink id).next? y = a.head? := by
  have hnodup : (before ++ id :: after).Nodup := hkids ▸ h.nodup p
  obtain ⟨hbefore, hrest, hapart⟩ := List.nodup_append.mp hnodup
  have hy : id ≠ y := by
    rintro rfl
    exact (List.nodup_cons.mp (List.nodup_middle.mp hnodup)).1 (by simp [heq])
  have hdisjoint : ∀ x ∈ before, x ∉ after := fun x hb ha => hapart x hb x (by simp [ha]) rfl
  obtain ⟨hprevious, hnext⟩ := h.siblings_unlink hkids hy
  rw [hprevious, hnext]
  rcases append_eq_split heq with ⟨m, rfl, rfl⟩ | ⟨m, rfl, rfl⟩
  · have hsplit : kids p = b ++ y :: (m ++ id :: after) := by simp [hkids]
    rw [if_neg fun hh => hdisjoint y (by simp) (List.mem_of_head? hh), h.previous p _ _ _ hsplit,
      h.next p _ _ _ hsplit]
    simp only [getLast?_eq_some_iff_of_nodup hbefore, true_and]
    cases m <;> simp
  · have hsplit : kids p = before ++ id :: m ++ y :: a := by simp [hkids]
    rw [if_neg fun hl => hdisjoint y (List.mem_of_getLast? hl) (by simp), h.previous p _ _ _ hsplit,
      h.next p _ _ _ hsplit]
    simp only [head?_eq_some_iff_of_nodup (List.nodup_cons.mp hrest).2, and_true]
    rcases List.eq_nil_or_concat' m with rfl | ⟨m, z, rfl⟩
    · simp
    · rw [if_neg (by simp), ← List.cons_append, ← List.append_assoc, ← List.append_assoc,
        List.getLast?_concat, List.getLast?_concat]

/-- Siblings under another parent, and nodes without one, are left alone. -/
theorem siblings_unlink_of_not_mem (h : Linked d kids) {before after : List NodeId} {y : NodeId}
    (hkids : kids p = before ++ id :: after) (hnot : y ∉ kids p) :
    (d.unlink id).previous? y = d.previous? y ∧ (d.unlink id).next? y = d.next? y := by
  rw [hkids] at hnot
  have hy : id ≠ y := by
    rintro rfl
    exact hnot (by simp)
  obtain ⟨hprevious, hnext⟩ := h.siblings_unlink hkids hy
  rw [hprevious, hnext, if_neg fun hh => hnot (by simp [List.mem_of_head? hh]),
    if_neg fun hl => hnot (by simp [List.mem_of_getLast? hl])]
  exact ⟨rfl, rfl⟩

/-- Unlinking a node that stands between `before` and `after` leaves these. -/
theorem unlink_of_split (h : Linked d kids) {before after : List NodeId}
    (hid : d.parent? id = some p) (hkids : kids p = before ++ id :: after) :
    Linked (d.unlink id) (update kids p (before ++ after)) := by
  have hprevious := h.previous p before id after hkids
  have hnext := h.next p before id after hkids
  have hnodup : (before ++ id :: after).Nodup := hkids ▸ h.nodup p
  have hnot : id ∉ before ++ after := (List.nodup_cons.mp (List.nodup_middle.mp hnodup)).1
  have hparent : ∀ x, d.parent? id = some x → x < d.nodes.size := by
    intro x hx
    exact h.parent_lt ((h.parent x id).mp hx)
  refine h.of_update ?_ ?_ ?_ ?_ (fun _ _ _ => h.siblings_unlink_inside hkids) ?_ ?_ ?_
  · exact hnodup.sublist ((List.sublist_cons_self id after).append_left before)
  · intro x
    rw [firstChild?_unlink x (hparent x), hprevious, hnext, hid, h.first]
    by_cases hx : x = p
    · rw [hx, hkids]
      cases before <;> simp
    · simp [hx, Ne.symm hx]
  · intro x
    rw [lastChild?_unlink x (hparent x), hprevious, hnext, hid, h.last]
    by_cases hx : x = p
    · rw [hx, hkids]
      rcases List.eq_nil_or_concat' after with rfl | ⟨after, a, rfl⟩
      · simp
      · rw [if_neg (by simp), if_pos rfl, ← List.cons_append, ← List.append_assoc,
          ← List.append_assoc, List.getLast?_concat, List.getLast?_concat]
    · simp [hx, Ne.symm hx]
  · intro x y
    rw [parent?_unlink]
    by_cases hy : id = y
    · rw [if_pos hy, ← hy, hid]
      by_cases hx : x = p
      · simpa [hx] using hnot
      · simp [hx, Ne.symm hx]
    · rw [if_neg hy, h.parent]
      by_cases hx : x = p
      · simp [hx, hkids, Ne.symm hy]
      · simp [hx]
  · intro x y hx hy
    exact h.siblings_unlink_of_not_mem hkids fun hyp => hx (h.eq_of_mem hy hyp)
  · intro y hy
    rw [parent?_unlink] at hy
    by_cases hyid : id = y
    · rw [previous?_unlink y fun hx => h.sibling_lt (Or.inr hx),
        next?_unlink y fun hx => h.sibling_lt (Or.inl hx), if_pos hyid, if_pos hyid]
      exact ⟨rfl, rfl⟩
    · rw [if_neg hyid] at hy
      obtain ⟨hprevious, hnext⟩ :=
        h.siblings_unlink_of_not_mem hkids (h.not_mem_of_detached hy p)
      rw [hprevious, hnext]
      exact h.alone y hy
  · intro x
    obtain ⟨l, hl⟩ := h.ends x
    refine hl.exists_of_redirected (c := id) (fun y hy => ?_) ⟨[], ?_⟩
    · rw [parent?_unlink, if_neg (Ne.symm hy)]
    · rw [parent?_unlink, if_pos rfl]
      exact .nil

/-- Unlinking a node takes it out of the children of its parent; a detached node stays as it
is. -/
theorem unlink (h : Linked d kids) (id : NodeId) :
    Linked (d.unlink id) fun p => (kids p).erase id := by
  rcases hid : d.parent? id with _ | p
  · have hnot := h.not_mem_of_detached hid
    obtain ⟨hb, ha⟩ := h.alone id hid
    have hkids : (fun p => (kids p).erase id) = kids := by
      funext p
      exact List.erase_of_not_mem (hnot p)
    rw [hkids]
    refine h.of_links ?_ ?_ ?_ ?_ ?_
    · intro x
      rw [parent?_unlink]
      split
      · rename_i hx
        rw [← hx, hid]
      · rfl
    · intro x
      rw [firstChild?_unlink x (by simp [hid])]
      simp [hid]
    · intro x
      rw [lastChild?_unlink x (by simp [hid])]
      simp [hid]
    · intro x
      rw [previous?_unlink x (by simp [ha])]
      split
      · rename_i hx
        rw [← hx, hb]
      · simp [ha]
    · intro x
      rw [next?_unlink x (by simp [hb])]
      split
      · rename_i hx
        rw [← hx, ha]
      · simp [hb]
  · obtain ⟨before, after, hkids, -, -⟩ := h.split hid
    have heq : (fun x => (kids x).erase id) = update kids p (before ++ after) := by
      funext x
      have hnodup := h.nodup p
      rw [hkids] at hnodup
      by_cases hx : x = p
      · subst hx
        have hbefore : id ∉ before := fun hb =>
          (List.nodup_append.mp hnodup).2.2 id hb id (by simp) rfl
        rw [Function.update_self, hkids, List.erase_append_right _ hbefore,
          List.erase_cons_head]
      · rw [Function.update_of_ne hx]
        refine List.erase_of_not_mem fun hm => hx (h.eq_of_mem hm ?_)
        simp [hkids]
    rw [heq]
    exact h.unlink_of_split hid hkids

end Linked

end Document

end PersistenceMapping
