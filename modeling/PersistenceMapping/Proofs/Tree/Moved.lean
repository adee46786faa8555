/-
Appending a node is a move between lists of children.

The links are not mentioned here.  Unlinking takes a node out of the one list that it is in, and
attaching adds it at the end of one list (`Linked.unlink`, `Linked.link`), so after a move the
lists are the old ones without the node, and the new parent's has it last.  Whether the node was
detached, the first, a middle, the last or an only child, and whether it has moved at all or only
to the end of its own list, is all one.

`MayAppend` says when a node is appended, in terms of parents and kinds, and `Moved` what has
happened then.
-/
import PersistenceMapping.Proofs.Tree.Contents
import PersistenceMapping.Proofs.Tree.Reach

namespace PersistenceMapping

namespace Document

variable {d d' : Document} {kids : NodeId → List NodeId} {p c q x : NodeId}

/-! ### Standing above a node -/

/-- A chain meets just what can be reached by following its link. -/
theorem Chain.mem_iff {link : NodeId → Option NodeId} {start : Option NodeId} {l : List NodeId}
    (h : Chain link start l) :
    c ∈ l ↔ ∃ x, start = some x ∧ Relation.ReflTransGen (fun x y => link x = some y) x c := by
  induction h with
  | nil => simp
  | @cons id l _ ih =>
      rw [List.mem_cons, ih]
      constructor
      · intro hc
        refine ⟨id, rfl, Relation.ReflTransGen.cases_head_iff.mpr ?_⟩
        rcases hc with rfl | hc
        · exact Or.inl rfl
        · exact Or.inr hc
      · intro hc
        obtain ⟨x, hx, hreach⟩ := hc
        cases hx
        rcases Relation.ReflTransGen.cases_head_iff.mp hreach with rfl | hnext
        · exact Or.inl rfl
        · exact Or.inr hnext

/-- A node or one of its ancestors: what climbing from parent to parent comes to. -/
def Above (d : Document) (a x : NodeId) : Prop :=
  Relation.ReflTransGen (fun x y => d.parent? x = some y) x a

theorem Linked.above_iff (h : Linked d kids) (hx : x < d.nodes.size) :
    d.Above c x ↔ c ∈ d.ancestorsOrSelf x := by
  rw [(h.chain_parent hx).mem_iff]
  constructor
  · intro habove
    exact ⟨x, rfl, habove⟩
  · intro hmem
    obtain ⟨_, hx', habove⟩ := hmem
    cases hx'
    exact habove

/-! ### When a node is appended -/

/-- When a node may become the last child of another. -/
structure MayAppend (d : Document) (p c : NodeId) : Prop where
  child : ∃ kind, d.kind? c = some kind ∧ kind ≠ .document
  /-- The child is neither the parent nor one of its ancestors. -/
  below : ¬ d.Above c p
  /-- Elements take all kinds of children; the document takes comments and instructions, and an
  element if there is no other root. -/
  parent : d.kind? p = some .element ∨ d.kind? p = some .document ∧
    (d.kind? c = some .comment ∨ d.kind? c = some .instruction ∨
      d.kind? c = some .element ∧ ∀ r, d.root = some r → r = c)

theorem checkKinds_eq_ok {pk ck : NodeKind} :
    checkKinds pk ck = .ok () ↔ ck ≠ .document ∧
      (pk = .element ∨ pk = .document ∧ (ck = .comment ∨ ck = .instruction ∨ ck = .element)) := by
  cases pk <;> cases ck <;> simp [checkKinds]

theorem checkNode_of_kind? {kind : NodeKind} (h : d.kind? x = some kind) :
    ∃ n, d.checkNode x = .ok n ∧ n.value.kind = kind := by
  obtain ⟨n, hn⟩ := node?_eq_some (lt_size_of_kind? h)
  refine ⟨n, by rw [checkNode, hn], ?_⟩
  rw [kind?, value?, hn] at h
  exact Option.some.inj h

/-- A move with which nothing is wrong is granted. -/
theorem checkMove_of {pk ck : NodeKind} (hp : d.kind? p = some pk) (hc : d.kind? c = some ck)
    (hkinds : checkKinds pk ck = .ok ())
    (hroot : pk = .document → ck = .element → ∀ r, d.root = some r → r = c)
    (habove : c ∉ d.ancestorsOrSelf p) : d.checkMove p c = .ok () := by
  obtain ⟨pn, hpn, rfl⟩ := checkNode_of_kind? hp
  obtain ⟨cn, hcn, rfl⟩ := checkNode_of_kind? hc
  unfold checkMove
  simp only [hpn, hcn, hkinds, bind, Except.bind]
  rw [if_neg, if_neg (by simpa using habove)]
  intro hother
  simp only [Bool.and_eq_true, decide_eq_true_eq] at hother
  obtain ⟨⟨hpk, hck⟩, hany⟩ := hother
  rcases hr : d.root with _ | r
  · rw [hr] at hany
    cases hany
  · rw [hr, Option.any_some, decide_eq_true_eq] at hany
    exact hany (hroot hpk hck r hr)

/-- What is asked for is what is checked. -/
theorem WellFormed.checkMove_iff (h : WellFormed d) (p c : NodeId) :
    d.checkMove p c = .ok () ↔ MayAppend d p c := by
  constructor
  · intro hcheck
    obtain ⟨pk, ck, hp, hc, hkinds, hroot, habove⟩ := checkMove_eq_ok hcheck
    rw [checkKinds_eq_ok] at hkinds
    rw [← h.linked.above_iff (lt_size_of_kind? hp)] at habove
    refine ⟨⟨ck, hc, hkinds.1⟩, habove, ?_⟩
    rw [hp, hc]
    rcases hkinds.2 with rfl | ⟨rfl, rfl | rfl | rfl⟩
    · exact Or.inl rfl
    · exact Or.inr ⟨rfl, Or.inl rfl⟩
    · exact Or.inr ⟨rfl, Or.inr (Or.inl rfl)⟩
    · refine Or.inr ⟨rfl, Or.inr (Or.inr ⟨rfl, fun r hr => ?_⟩)⟩
      rcases hroot rfl rfl with hnone | hsame
      · rw [hnone] at hr
        cases hr
      · rw [hsame] at hr
        exact (Option.some.inj hr).symm
  · intro hmay
    obtain ⟨ck, hc, hck⟩ := hmay.child
    obtain ⟨pk, hp⟩ : ∃ pk, d.kind? p = some pk := by
      rcases hmay.parent with hp | ⟨hp, -⟩ <;> exact ⟨_, hp⟩
    have habove := hmay.below
    rw [h.linked.above_iff (lt_size_of_kind? hp)] at habove
    have hparent := hmay.parent
    rw [hp, hc] at hparent
    simp only [Option.some.injEq] at hparent
    refine checkMove_of hp hc (checkKinds_eq_ok.mpr ⟨hck, ?_⟩) ?_ habove
    · rcases hparent with hpk | ⟨hpk, hkind | hkind | ⟨hkind, -⟩⟩
      · exact Or.inl hpk
      · exact Or.inr ⟨hpk, Or.inl hkind⟩
      · exact Or.inr ⟨hpk, Or.inr (Or.inl hkind)⟩
      · exact Or.inr ⟨hpk, Or.inr (Or.inr hkind)⟩
    · intro hpk hkind
      subst hpk hkind
      simpa using hparent

/-! ### What has happened then -/

/-- A node has become the last child of another, and nothing else has changed. -/
structure Moved (d : Document) (p c : NodeId) (d' : Document) : Prop where
  /-- The new parent has its children without the node, and then the node. -/
  into : d'.children p = (d.children p).filter (· != c) ++ [c]
  /-- Another parent that it had has lost it and nothing else. -/
  out : ∀ q, d.parent? c = some q → q ≠ p →
    ∃ before after, d.children q = before ++ c :: after ∧ d'.children q = before ++ after
  /-- All other nodes have the children that they had. -/
  others : ∀ q, q ≠ p → d.parent? c ≠ some q → d'.children q = d.children q
  parents : ∀ x, d'.parent? x = if x = c then some p else d.parent? x
  values : ∀ x, d'.value? x = d.value? x
  pool : d'.pool = d.pool
  reads : ∀ x, d'.kind? x = d.kind? x ∧ d'.name? x = d.name? x ∧
    d'.namespace? x = d.namespace? x ∧ d'.attributes x = d.attributes x ∧
    d'.text? x = d.text? x ∧ d'.data? x = d.data? x
  /-- What is below the node is still below it, as it was. -/
  below : ∀ x, d.Above c x → d'.children x = d.children x
  content : d'.content? c = d.content? c
  root : d'.root =
    if p = documentNode ∧ d.isElement c then some c else if d.root = some c then none else d.root

/-- What is read of a node depends on its value and on the pool. -/
theorem reads_of_value? (hvalue : d'.value? x = d.value? x) (hpool : d'.pool = d.pool) :
    d'.kind? x = d.kind? x ∧ d'.name? x = d.name? x ∧ d'.namespace? x = d.namespace? x ∧
      d'.attributes x = d.attributes x ∧ d'.text? x = d.text? x ∧ d'.data? x = d.data? x := by
  have hread : d'.readAttribute = d.readAttribute := by
    funext a
    rw [readAttribute, readAttribute, hpool]
  simp only [kind?, name?, namespace?, attributes, storedAttributes, text?, data?, hvalue, hpool,
    hread, and_self]

/-- The lists of children after a move. -/
theorem WellFormed.children_move (h : WellFormed d) (hmay : MayAppend d p c) (q : NodeId) :
    (d.move p c).children q = (d.children q).erase c ++ if q = p then [c] else [] := by
  have hcheck := (h.checkMove_iff p c).mpr hmay
  obtain ⟨pk, ck, hp, hc, -, -, habove⟩ := checkMove_eq_ok hcheck
  have hplt := lt_size_of_kind? hp
  have hclt := lt_size_of_kind? hc
  have hunlinked := h.linked.unlink c
  have hdetached : (d.unlink c).parent? c = none := by rw [parent?_unlink, if_pos rfl]
  have hends : ∀ l, Chain (d.unlink c).parent? (some p) l → c ∉ l := by
    intro l hl
    rw [hl.unique (hunlinked.chain_parent (by rwa [size_unlink])), h.ancestors_unlink hplt habove]
    exact habove
  have hlinked : Linked (d.move p c) _ :=
    (hunlinked.link (by rwa [size_unlink]) (by rwa [size_unlink]) hdetached hends).of_nodes
      (nodes_attach (d.unlink c) p c)
  rw [hlinked.children_eq]
  by_cases hq : q = p
  · rw [hq, Function.update_self, if_pos rfl]
  · rw [Function.update_of_ne hq, if_neg hq, List.append_nil]

/-- At and below the child all stays as it is. -/
theorem WellFormed.children_move_below (h : WellFormed d) (hmay : MayAppend d p c)
    (hx : d.Above c x) : (d.move p c).children x = d.children x := by
  have hxp : x ≠ p := fun hxp => hmay.below (hxp ▸ hx)
  rw [h.children_move hmay, if_neg hxp, List.append_nil, List.erase_of_not_mem]
  intro hc
  -- The child would stand above its own parent.
  rw [h.linked.above_iff (h.linked.parent_lt hc)] at hx
  have hnodup := (h.linked.chain_parent (h.linked.child_lt hc)).nodup
  rw [h.linked.ancestors_child hc] at hnodup
  exact (List.nodup_cons.mp hnodup).1 hx

theorem WellFormed.content?_move (h : WellFormed d) (hmay : MayAppend d p c) :
    (d.move p c).content? c = d.content? c := by
  have hcheck := (h.checkMove_iff p c).mpr hmay
  obtain ⟨ck, hc, -⟩ := hmay.child
  have hclt := lt_size_of_kind? hc
  have hsize : (d.move p c).nodes.size = d.nodes.size := by
    rw [move, nodes_attach, size_link, size_unlink]
  refine content?_eq_of_agree (fun x => x < d.nodes.size ∧ d.Above c x) h
    (h.of_steps (h.steps_move hcheck)) (Nat.le_of_eq hsize.symm) ?_ (fun x hx => hx.1) ?_ ?_
    ⟨hclt, .refl⟩
  · rw [move, pool_attach, pool_unlink]
    exact .refl _
  · intro x _
    rw [move, value?_attach, value?_unlink]
  · intro x hx
    refine ⟨h.children_move_below hmay hx.2, fun y hy => ⟨h.linked.child_lt hy, ?_⟩⟩
    exact .head ((h.linked.parent x y).mpr hy) hx.2

theorem WellFormed.moved (h : WellFormed d) (hmay : MayAppend d p c) :
    Moved d p c (d.move p c) := by
  obtain ⟨ck, hc, -⟩ := hmay.child
  have hclt := lt_size_of_kind? hc
  have hvalue : ∀ x, (d.move p c).value? x = d.value? x := fun x => by
    rw [move, value?_attach, value?_unlink]
  have hpool : (d.move p c).pool = d.pool := by rw [move, pool_attach, pool_unlink]
  refine ⟨?_, ?_, ?_, ?_, hvalue, hpool, fun x => reads_of_value? (hvalue x) hpool,
    fun x => h.children_move_below hmay, h.content?_move hmay, ?_⟩
  · rw [h.children_move hmay, if_pos rfl, (h.linked.nodup p).erase_eq_filter]
  · intro q hq hqp
    obtain ⟨before, after, hsplit, -, -⟩ := h.linked.split hq
    have hnodup := h.linked.nodup q
    rw [hsplit] at hnodup
    have hbefore : c ∉ before := fun hb =>
      (List.nodup_append.mp hnodup).2.2 c hb c (by simp) rfl
    refine ⟨before, after, hsplit, ?_⟩
    rw [h.children_move hmay, if_neg hqp, List.append_nil, hsplit,
      List.erase_append_right _ hbefore, List.erase_cons_head]
  · intro q hqp hq
    have hnot : c ∉ d.children q := fun hmem => hq ((h.linked.parent q c).mpr hmem)
    rw [h.children_move hmay, if_neg hqp, List.append_nil, List.erase_of_not_mem hnot]
  · intro x
    rw [move, parent?, node?_attach]
    show ((d.unlink c).link p c).parent? x = _
    rw [parent?_link (by rwa [size_unlink]), parent?_unlink]
    by_cases hx : c = x
    · rw [if_pos hx, if_pos hx.symm]
    · rw [if_neg hx, if_neg hx, if_neg (Ne.symm hx)]
  · have helement : (d.unlink c).isElement c = d.isElement c := by
      rw [isElement, isElement, kind?_eq_of_value? (value?_unlink d c c)]
    unfold move attach
    by_cases htop : p = documentNode ∧ d.isElement c
    · rw [if_pos htop, if_pos (by simpa [helement] using htop)]
    · rw [if_neg htop, if_neg (by simpa [helement] using htop), root_link]
      rfl

/-- **Appending a node moves it** if that may be done, and does nothing if it may not. -/
theorem append_moves (h : Reachable d) (p c : NodeId) :
    (((Edit.append p c).apply d).1 = .ok () ↔ MayAppend d p c) ∧
      (((Edit.append p c).apply d).1 = .ok () → Moved d p c ((Edit.append p c).apply d).2) ∧
      ∀ e, ((Edit.append p c).apply d).1 = .error e → ((Edit.append p c).apply d).2 = d := by
  have hwf := h.wellFormed
  rw [Edit.append, apply_require, ← hwf.checkMove_iff]
  rcases hcheck : d.checkMove p c with e | u
  · refine ⟨⟨fun hok => ?_, fun hok => ?_⟩, fun hok => ?_, fun _ _ => rfl⟩
    · cases hok
    · cases hok
    · cases hok
  · refine ⟨⟨fun _ => rfl, fun _ => rfl⟩, fun _ => ?_, fun e he => by cases he⟩
    exact hwf.moved ((hwf.checkMove_iff p c).mp hcheck)

theorem Reachable.requests (h : Reachable d) (requests : List Request) :
    Reachable (requests.foldl (fun d r => r.perform d) d) := by
  induction requests generalizing d with
  | nil => exact h
  | cons r rest ih => exact ih (h.request r)

/-- The root element moves below a detached element, and there is no root element then. -/
theorem append_moves_root :
    let d := [.createElement "a", .createElement "b", .append 0 1, .append 1 2,
      Request.createElement "c"].foldl (fun d r => r.perform d) (.empty)
    d.root = some 1 ∧ MayAppend d 3 1 ∧ Moved d 3 1 ((Edit.append 3 1).apply d).2 ∧
      ((Edit.append 3 1).apply d).2.root = none := by
  intro d
  have hreach : Reachable d := (Reachable.empty _).requests _
  have hok : ((Edit.append 3 1).apply d).1 = .ok () := by decide
  obtain ⟨hmay, hmoved, -⟩ := append_moves hreach 3 1
  exact ⟨by decide, hmay.mp hok, hmoved hok, by decide⟩

end Document

end PersistenceMapping
