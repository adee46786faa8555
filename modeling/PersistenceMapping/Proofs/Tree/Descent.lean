/-
Walking over a document whose links agree.

Every walk takes as many steps as there are nodes at most.  Here it is shown that none of
them needs more.  For the lists of children and of ancestors that is so because a chain meets
no node twice.  For the stack of `walk` one has to know that the subtrees of the nodes on it
have no node in common: a node in two of them would have both among its ancestors, and of two
ancestors of one node one is an ancestor of the other.

`Preorder` is the recursive reading of a stack, a node before what is below it and that before
the rest.  It has no bound, and goes through because climbing ends: a child is one step further
from the top than its parent (`Linked.wellFounded_children`).
-/
import Mathlib.Order.WellFounded
import PersistenceMapping.Proofs.Tree.Linked

namespace PersistenceMapping

namespace Document

variable {d : Document} {kids : NodeId → List NodeId} {id p c x : NodeId}

namespace Linked

/-! ### Children -/

theorem chain_next (h : Linked d kids) (p : NodeId) :
    Chain d.next? (kids p).head? (kids p) := by
  have hsuffix : ∀ after before, kids p = before ++ after → Chain d.next? after.head? after := by
    intro after
    induction after with
    | nil => intro before _; exact .nil
    | cons c after ih =>
        intro before heq
        refine .cons ?_
        rw [h.next p before c after heq]
        exact ih (before ++ [c]) (by simp [heq])
  exact hsuffix (kids p) [] rfl

theorem chain_previous (h : Linked d kids) (p : NodeId) :
    Chain d.previous? (kids p).getLast? (kids p).reverse := by
  have hreversed : ∀ rest after, kids p = rest.reverse ++ after →
      Chain d.previous? rest.head? rest := by
    intro rest
    induction rest with
    | nil => intro after _; exact .nil
    | cons c rest ih =>
        intro after heq
        rw [List.reverse_cons, List.append_assoc] at heq
        refine .cons ?_
        rw [h.previous p rest.reverse c after heq, List.getLast?_reverse]
        exact ih (c :: after) (by simp [heq])
  have := hreversed (kids p).reverse [] (by simp)
  rwa [List.head?_reverse] at this

theorem length_kids_le (h : Linked d kids) (p : NodeId) : (kids p).length ≤ d.nodes.size :=
  length_le_of_nodup (h.nodup p) fun _ hc => h.child_lt hc

/-- The lists are what is met by following the links. -/
theorem children_eq (h : Linked d kids) : d.children = kids := by
  funext p
  rw [children, h.first]
  exact (h.chain_next p).follow_eq (h.length_kids_le p)

/-- A document whose links are those of some lists has its own lists of children. -/
theorem self (h : Linked d kids) : Linked d d.children :=
  h.children_eq ▸ h

theorem pushChildren_eq (h : Linked d kids) (id : NodeId) (stack : List NodeId) :
    d.pushChildren id stack = kids id ++ stack := by
  have hlen : (kids id).reverse.length ≤ d.nodes.size := by simpa using h.length_kids_le id
  rw [pushChildren, h.last, (h.chain_previous id).follow_eq hlen]
  generalize kids id = l
  induction l generalizing stack with
  | nil => rfl
  | cons c l ih => simp [ih]

/-! ### Ancestors -/

theorem chain_parent (h : Linked d kids) (hid : id < d.nodes.size) :
    Chain d.parent? (some id) (d.ancestorsOrSelf id) := by
  obtain ⟨l, hl⟩ := h.ends id
  have hlt : ∀ x ∈ l, x < d.nodes.size := by
    refine hl.mem_range (fun x hx => Option.some.inj hx ▸ hid) fun x next hx => ?_
    exact h.parent_lt ((h.parent next x).mp hx)
  rw [ancestorsOrSelf, hl.follow_eq (length_le_of_nodup hl.nodup hlt)]
  exact hl

theorem ancestors_lt (h : Linked d kids) (hid : id < d.nodes.size) :
    ∀ x ∈ d.ancestorsOrSelf id, x < d.nodes.size := by
  refine (h.chain_parent hid).mem_range (fun x hx => Option.some.inj hx ▸ hid) fun x next hx => ?_
  exact h.parent_lt ((h.parent next x).mp hx)

theorem length_ancestors_le (h : Linked d kids) (hid : id < d.nodes.size) :
    (d.ancestorsOrSelf id).length ≤ d.nodes.size :=
  length_le_of_nodup (h.chain_parent hid).nodup (h.ancestors_lt hid)

/-- Above a child stands what stands above its parent. -/
theorem ancestors_child (h : Linked d kids) (hc : c ∈ kids p) :
    d.ancestorsOrSelf c = c :: d.ancestorsOrSelf p := by
  refine (h.chain_parent (h.child_lt hc)).unique (.cons ?_)
  rw [(h.parent p c).mpr hc]
  exact h.chain_parent (h.parent_lt hc)

theorem mem_ancestors_self (h : Linked d kids) (hid : id < d.nodes.size) :
    id ∈ d.ancestorsOrSelf id :=
  List.mem_of_head? (h.chain_parent hid).head?_eq

/-- A node has an ancestor either as itself or by one of that ancestor's children. -/
theorem mem_ancestors_iff (h : Linked d kids) (hx : x < d.nodes.size) :
    id ∈ d.ancestorsOrSelf x ↔ x = id ∨ ∃ c ∈ kids id, c ∈ d.ancestorsOrSelf x := by
  constructor
  · intro hid
    obtain ⟨before, after, heq⟩ := List.append_of_mem hid
    have hchain := h.chain_parent hx
    rw [heq] at hchain
    rcases List.eq_nil_or_concat' before with rfl | ⟨before, c, rfl⟩
    · left
      exact (Option.some.inj hchain.head?_eq).symm
    · right
      rw [List.append_assoc] at hchain
      have hparent : d.parent? c = some id := hchain.head?_after
      exact ⟨c, (h.parent id c).mp hparent, by simp [heq]⟩
  · rintro (rfl | ⟨c, hc, hmem⟩)
    · exact h.mem_ancestors_self hx
    · obtain ⟨before, after, heq⟩ := List.append_of_mem hmem
      have hchain := h.chain_parent hx
      rw [heq] at hchain
      have hhead := hchain.head?_after
      rw [(h.parent id c).mpr hc] at hhead
      rw [heq]
      simp [List.mem_of_head? hhead.symm]

/-- Siblings have no descendant in common. -/
theorem disjoint_siblings (h : Linked d kids) {c' : NodeId} (hc : c ∈ kids p) (hc' : c' ∈ kids p)
    (hne : c ≠ c') (hx : x < d.nodes.size) :
    ¬(c ∈ d.ancestorsOrSelf x ∧ c' ∈ d.ancestorsOrSelf x) := by
  -- Whichever of the two comes first when climbing, the other stands above it, that is above
  -- their parent, and so above itself.
  have hwlog : ∀ a b before after, a ∈ kids p → b ∈ kids p → a ≠ b →
      d.ancestorsOrSelf x = before ++ a :: after → b ∉ after := by
    intro a b before after ha hb hab heq hmem
    have hchain := h.chain_parent hx
    rw [heq] at hchain
    have habove := hchain.drop.unique (h.chain_parent (h.child_lt ha))
    rw [h.ancestors_child ha] at habove
    obtain ⟨-, rfl⟩ := List.cons.inj habove
    have hnodup := (h.chain_parent (h.child_lt hb)).nodup
    rw [h.ancestors_child hb] at hnodup
    exact (List.nodup_cons.mp hnodup).1 hmem
  rintro ⟨hmem, hmem'⟩
  obtain ⟨before, after, heq⟩ := List.append_of_mem hmem
  rw [heq] at hmem'
  rcases List.mem_append.mp hmem' with hb | ha
  · obtain ⟨b, m, rfl⟩ := List.append_of_mem hb
    exact hwlog c' c b (m ++ c :: after) hc' hc (Ne.symm hne) (by simp [heq]) (by simp)
  · rcases List.mem_cons.mp ha with rfl | ha
    · exact hne rfl
    · exact hwlog c c' before after hc hc' hne heq ha

/-! ### Depth -/

/-- Going from parent to child ends. -/
theorem wellFounded_children (h : Linked d kids) : WellFounded fun c p => c ∈ kids p := by
  refine Subrelation.wf
    (r := InvImage (· < ·) fun id => d.nodes.size - (d.ancestorsOrSelf id).length)
    ?_ (InvImage.wf _ Nat.lt_wfRel.wf)
  intro c p hc
  have hlen := h.length_ancestors_le (h.child_lt hc)
  rw [h.ancestors_child hc, List.length_cons] at hlen
  show d.nodes.size - (d.ancestorsOrSelf c).length < d.nodes.size - (d.ancestorsOrSelf p).length
  rw [h.ancestors_child hc, List.length_cons]
  omega

end Linked

/-! ### Stacks -/

/-- The loop that replaces the top of a stack by its children, without a number of steps: from
this stack it takes just these nodes, and then the stack is empty. -/
inductive Traversal (d : Document) : (stack taken : List NodeId) → Prop
  | nil : Traversal d [] []
  | cons {id : NodeId} {stack taken : List NodeId}
      (h : Traversal d (d.pushChildren id stack) taken) : Traversal d (id :: stack) (id :: taken)

/-- The nodes at and below those of a list, each before what is below it. -/
inductive Preorder (kids : NodeId → List NodeId) : (ids nodes : List NodeId) → Prop
  | nil : Preorder kids [] []
  | cons {id : NodeId} {rest inner outer : List NodeId} (h : Preorder kids (kids id) inner)
      (h' : Preorder kids rest outer) : Preorder kids (id :: rest) (id :: (inner ++ outer))

namespace Preorder

variable {ids ids' nodes nodes' : List NodeId}

theorem append (h : Preorder kids ids nodes) (h' : Preorder kids ids' nodes') :
    Preorder kids (ids ++ ids') (nodes ++ nodes') := by
  induction h with
  | nil => exact h'
  | cons h _ _ ih =>
      rw [List.cons_append, List.cons_append, List.append_assoc]
      exact cons h ih

theorem exists_of_linked (h : Linked d kids) (ids : List NodeId) :
    ∃ nodes, Preorder kids ids nodes := by
  have hlist : ∀ ids, (∀ id ∈ ids, ∃ inner, Preorder kids (kids id) inner) →
      ∃ nodes, Preorder kids ids nodes := by
    intro ids
    induction ids with
    | nil => intro _; exact ⟨[], nil⟩
    | cons id rest ih =>
        intro hall
        obtain ⟨inner, hinner⟩ := hall id (by simp)
        obtain ⟨outer, houter⟩ := ih fun id hid => hall id (by simp [hid])
        exact ⟨_, cons hinner houter⟩
  have hall : ∀ id, ∃ inner, Preorder kids (kids id) inner := by
    intro id
    induction id using h.wellFounded_children.induction with
    | _ id ih => exact hlist (kids id) ih
  exact hlist ids fun id _ => hall id

/-- The nodes are those that have a node of the list among their ancestors. -/
theorem mem_iff (h : Linked d kids) (hpre : Preorder kids ids nodes)
    (hids : ∀ id ∈ ids, id < d.nodes.size) :
    x ∈ nodes ↔ x < d.nodes.size ∧ ∃ id ∈ ids, id ∈ d.ancestorsOrSelf x := by
  induction hpre with
  | nil => simp
  | @cons id rest inner outer _ _ ih ih' =>
      have hid := hids id (by simp)
      rw [List.mem_cons, List.mem_append, ih fun c hc => h.child_lt hc,
        ih' fun c hc => hids c (by simp [hc])]
      constructor
      · rintro (rfl | ⟨hx, hin⟩ | ⟨hx, a, ha, hmem⟩)
        · exact ⟨hid, x, by simp, h.mem_ancestors_self hid⟩
        · exact ⟨hx, id, by simp, (h.mem_ancestors_iff hx).mpr (Or.inr hin)⟩
        · exact ⟨hx, a, by simp [ha], hmem⟩
      · rintro ⟨hx, a, ha, hmem⟩
        rcases List.mem_cons.mp ha with rfl | ha
        · rcases (h.mem_ancestors_iff hx).mp hmem with rfl | hin
          · exact Or.inl rfl
          · exact Or.inr (Or.inl ⟨hx, hin⟩)
        · exact Or.inr (Or.inr ⟨hx, a, ha, hmem⟩)

/-- No node comes twice if no node is below two nodes of the list. -/
theorem nodup (h : Linked d kids) (hpre : Preorder kids ids nodes)
    (hids : ∀ id ∈ ids, id < d.nodes.size)
    (hdisjoint : ids.Pairwise fun a b => ∀ x < d.nodes.size,
      ¬(a ∈ d.ancestorsOrSelf x ∧ b ∈ d.ancestorsOrSelf x)) : nodes.Nodup := by
  induction hpre with
  | nil => exact List.nodup_nil
  | @cons id rest inner outer hin hout ih ih' =>
      obtain ⟨hapart, hrest⟩ := List.pairwise_cons.mp hdisjoint
      have hid := hids id (by simp)
      have hrest_lt : ∀ c ∈ rest, c < d.nodes.size := fun c hc => hids c (by simp [hc])
      have hinner := ih (fun c hc => h.child_lt hc) <| by
        refine List.Pairwise.imp_of_mem ?_ (h.nodup id)
        intro a b ha hb hab x hx
        exact h.disjoint_siblings ha hb hab hx
      refine List.nodup_cons.mpr ⟨?_, List.nodup_append.mpr ⟨hinner, ih' hrest_lt hrest, ?_⟩⟩
      · intro hmem
        rcases List.mem_append.mp hmem with hmem | hmem
        · obtain ⟨-, c, hc, hca⟩ := (mem_iff h hin fun c hc => h.child_lt hc).mp hmem
          -- The node would stand above itself.
          have hnodup := (h.chain_parent (h.child_lt hc)).nodup
          rw [h.ancestors_child hc] at hnodup
          exact (List.nodup_cons.mp hnodup).1 hca
        · obtain ⟨-, c, hc, hca⟩ := (mem_iff h hout hrest_lt).mp hmem
          exact hapart c hc id hid ⟨h.mem_ancestors_self hid, hca⟩
      · rintro a ha b hb rfl
        obtain ⟨hlt, c, hc, hca⟩ := (mem_iff h hin fun c hc => h.child_lt hc).mp ha
        obtain ⟨-, c', hc', hca'⟩ := (mem_iff h hout hrest_lt).mp hb
        exact hapart c' hc' a hlt ⟨(h.mem_ancestors_iff hlt).mpr (Or.inr ⟨c, hc, hca⟩), hca'⟩

/-- The stack gives the nodes in that order. -/
theorem traversal (h : Linked d kids) (hpre : Preorder kids ids nodes) :
    Traversal d ids nodes := by
  -- The top's children and the rest are one stack, so the induction is on how much is taken.
  obtain ⟨n, hn⟩ : ∃ n, nodes.length = n := ⟨_, rfl⟩
  induction n generalizing ids nodes with
  | zero =>
      cases hpre with
      | nil => exact .nil
      | cons => simp at hn
  | succ n ih =>
      cases hpre with
      | nil => simp at hn
      | cons hin hout =>
          refine .cons ?_
          rw [h.pushChildren_eq]
          exact ih (hin.append hout) (by simpa using hn)

end Preorder

theorem Traversal.walk_eq {stack taken : List NodeId} {steps : Nat}
    (h : Traversal d stack taken) (hsteps : taken.length ≤ steps) : d.walk steps stack = taken := by
  induction h generalizing steps with
  | nil => cases steps <;> rfl
  | cons h ih =>
      cases steps with
      | zero => simp at hsteps
      | succ steps => rw [walk, ih (by simpa using hsteps)]

namespace Linked

/-- The descendants of a node are met in preorder, each of them once. -/
theorem preorder_descendants (h : Linked d kids) (id : NodeId) :
    Preorder kids (kids id) (d.descendants id) ∧ (d.descendants id).Nodup := by
  obtain ⟨nodes, hpre⟩ := Preorder.exists_of_linked h (kids id)
  have hids : ∀ c ∈ kids id, c < d.nodes.size := fun c hc => h.child_lt hc
  have hnodup : nodes.Nodup := hpre.nodup h hids <| by
    refine List.Pairwise.imp_of_mem ?_ (h.nodup id)
    intro a b ha hb hab x hx
    exact h.disjoint_siblings ha hb hab hx
  have hlen := length_le_of_nodup hnodup fun x hx => ((hpre.mem_iff h hids).mp hx).1
  have heq : d.descendants id = nodes := by
    rw [descendants, h.pushChildren_eq, List.append_nil]
    exact (hpre.traversal h).walk_eq hlen
  rw [heq]
  exact ⟨hpre, hnodup⟩

end Linked

end Document

end PersistenceMapping
