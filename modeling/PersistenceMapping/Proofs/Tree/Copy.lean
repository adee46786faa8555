/-
Copying subtrees.

A copy is made from the top down: first the node, then one child after the other is copied and
linked below it.  All that time the document only grows (`Grown`), so when a subtree is copied
within its own document, the original stays what it was at the start.  `Copying` says what is
needed of the two ways of copying a node, and everything else is said of both at once.

`copyTree` goes down a number of levels at most.  `Copied` is the recursion without the number.
It comes to an end because each level of the copy is a level further from the top of the
original, of which there are no more than nodes.
-/
import PersistenceMapping.Proofs.Tree.Making

namespace PersistenceMapping

namespace Document

variable {d d' d'' o : Document} {id x copy : NodeId}

/-! ### Growing -/

/-- Nodes and strings have been added, and the nodes that were there are as they were. -/
structure Grown (d d' : Document) : Prop where
  steps : Steps d d'
  size_le : d.nodes.size ≤ d'.nodes.size
  node? : ∀ x < d.nodes.size, d'.node? x = d.node? x
  root : d'.root = d.root
  pool : d.pool.Extends d'.pool

namespace Grown

theorem refl (d : Document) : Grown d d :=
  ⟨.refl, Nat.le_refl _, fun _ _ => rfl, rfl, .refl d.pool⟩

theorem trans (h : Grown d d') (h' : Grown d' d'') : Grown d d'' where
  steps := h.steps.trans h'.steps
  size_le := Nat.le_trans h.size_le h'.size_le
  node? x hx := by rw [h'.node? x (Nat.lt_of_lt_of_le hx h.size_le), h.node? x hx]
  root := h'.root.trans h.root
  pool := h.pool.trans h'.pool

theorem value? (h : Grown d d') (hx : x < d.nodes.size) : d'.value? x = d.value? x := by
  rw [Document.value?, Document.value?, h.node? x hx]

theorem kind? (h : Grown d d') (hx : x < d.nodes.size) : d'.kind? x = d.kind? x :=
  kind?_eq_of_value? (h.value? hx)

theorem parent? (h : Grown d d') (hx : x < d.nodes.size) : d'.parent? x = d.parent? x := by
  rw [Document.parent?, Document.parent?, h.node? x hx]

/-- The children of a node that was there are the same. -/
theorem children_eq (h : Grown d d') (hd : WellFormed d) (hx : x < d.nodes.size) :
    d'.children x = d.children x := by
  have hchain := hd.linked.chain_next x
  have hchain' : Chain d'.next? (d.children x).head? (d.children x) := by
    refine hchain.congr fun c hc => ?_
    rw [next?, next?, h.node? c (hd.linked.child_lt hc)]
  have hfirst : d'.firstChild? x = (d.children x).head? := by
    rw [firstChild?, h.node? x hx]
    exact hd.linked.first x
  rw [children, hfirst]
  exact hchain'.follow_eq (Nat.le_trans (hd.linked.length_kids_le x) h.size_le)

end Grown

theorem Made.grown {value : NodeValue} {made : NodeId × Document} (h : Made d value made) :
    Grown d made.2 where
  steps := h.steps
  size_le := h.size ▸ Nat.le_succ _
  node? x hx := by rw [h.node?, if_neg (Nat.ne_of_lt hx)]
  root := h.root
  pool := h.pool

/-! ### Copies in the making -/

/-- The top of a copy has been made, and perhaps some of what is below it. -/
structure Begun (d : Document) (kind : NodeKind) (made : NodeId × Document) : Prop where
  grown : Grown d made.2
  fresh : d.nodes.size ≤ made.1
  kind : made.2.kind? made.1 = some kind
  detached : made.2.parent? made.1 = none

theorem Made.begun {value : NodeValue} {made : NodeId × Document} (h : Made d value made) :
    Begun d value.kind made :=
  ⟨h.grown, Nat.le_of_eq h.id.symm, h.kind?, h.parent?⟩

/-- The copy of a child is linked below the copy of its parent. -/
theorem Begun.link (hd : WellFormed d) {pk ck : NodeKind} {made : NodeId × Document}
    (h : Begun d pk (copy, d')) (h' : Begun d' ck made) (hkinds : checkKinds pk ck = .ok ()) :
    Begun d pk (copy, made.2.link copy made.1) := by
  have hd' := hd.of_steps h.grown.steps
  have hmade := hd'.of_steps h'.grown.steps
  have hcopy : copy < d'.nodes.size := lt_size_of_kind? h.kind
  have htop : copy ≠ documentNode := by
    intro hc
    have hsize := lt_size_of_kind? hd.top
    have hfresh : d.nodes.size ≤ copy := h.fresh
    rw [hc] at hfresh
    exact absurd hsize (Nat.not_lt.mpr hfresh)
  have hkind : made.2.kind? copy = some pk := (h'.grown.kind? hcopy).trans h.kind
  have hdetached : made.2.parent? copy = none := (h'.grown.parent? hcopy).trans h.detached
  have hne : made.1 ≠ copy := Nat.ne_of_gt (Nat.lt_of_lt_of_le hcopy h'.fresh)
  have habove : made.2.ancestorsOrSelf copy = [copy] := by
    refine (hmade.linked.chain_parent (lt_size_of_kind? hkind)).unique (.cons ?_)
    rw [hdetached]
    exact .nil
  have hstep : Step made.2 (made.2.link copy made.1) := by
    have hattach := Step.attach hkind h'.kind hkinds h'.detached (by simp [habove, hne])
      fun hc => absurd hc htop
    rwa [attach, if_neg (by simp [htop])] at hattach
  have hgrown := h.grown.trans h'.grown
  refine ⟨⟨hgrown.steps.tail hstep, ?_, ?_, ?_, ?_⟩, h.fresh, ?_, ?_⟩
  · rw [size_link]
    exact hgrown.size_le
  · intro x hx
    rw [node?_link, ← hgrown.node? x hx]
    have hxcopy : copy ≠ x := Nat.ne_of_gt (Nat.lt_of_lt_of_le hx h.fresh)
    have hxchild : made.1 ≠ x :=
      Nat.ne_of_gt (Nat.lt_of_lt_of_le (Nat.lt_of_lt_of_le hx h.grown.size_le) h'.fresh)
    -- The last child so far is a child of the copy, which no old node is.
    have hxlast : made.2.lastChild? copy ≠ some x := by
      intro hlast
      rw [hmade.linked.last] at hlast
      have hparent := (hmade.linked.parent copy x).mpr (List.mem_of_getLast? hlast)
      rw [hgrown.parent? hx] at hparent
      have hlt := hd.linked.parent_lt ((hd.linked.parent copy x).mp hparent)
      exact absurd hlt (Nat.not_lt.mpr h.fresh)
    simp [hxcopy, hxchild, hxlast]
  · rw [root_link]
    exact hgrown.root
  · rw [pool_link]
    exact hgrown.pool
  · rw [kind?_eq_of_value? (value?_link _ _ _ _)]
    exact hkind
  · show (made.2.link copy made.1).parent? copy = none
    rw [parent?_link (lt_size_of_kind? h'.kind), if_neg hne]
    exact hdetached

/-! ### Copying -/

section Copying

variable {copyNode : Document → NodeId → NodeId × Document}
  {childrenOf : Document → NodeId → List NodeId} {Meets : Document → NodeId → List NodeId → Prop}
  {Target : Document → Prop}

/-- How nodes of `o` are copied into documents of a kind that growing keeps.  `Meets` is the loop
that goes over the children of the original. -/
structure Copying (o : Document) (copyNode : Document → NodeId → NodeId × Document)
    (childrenOf : Document → NodeId → List NodeId)
    (Meets : Document → NodeId → List NodeId → Prop) (Target : Document → Prop) : Prop where
  original : WellFormed o
  target : ∀ d, Target d → WellFormed d
  grown : ∀ d d', Target d → Grown d d' → Target d'
  /-- The copy of a node is of the same kind. -/
  made : ∀ d id value, Target d → o.value? id = some value →
    ∃ value', Made d value' (copyNode d id) ∧ value'.kind = value.kind
  children : ∀ d id, Target d → id < o.nodes.size → childrenOf d id = o.children id
  meets : ∀ d id, Target d → id < o.nodes.size → Meets d id (o.children id)

mutual

/-- Copying a subtree without a bound on its levels ends with this copy. -/
inductive Copied (copyNode : Document → NodeId → NodeId × Document)
    (Meets : Document → NodeId → List NodeId → Prop) :
    (d : Document) → (id : NodeId) → (made : NodeId × Document) → Prop
  | intro {d d' : Document} {id : NodeId} {children : List NodeId}
      (hmeets : Meets (copyNode d id).2 id children)
      (h : CopiedBelow copyNode Meets (copyNode d id).1 (copyNode d id).2 children d') :
      Copied copyNode Meets d id ((copyNode d id).1, d')

/-- Copying these children one after the other and linking each copy ends with this document. -/
inductive CopiedBelow (copyNode : Document → NodeId → NodeId × Document)
    (Meets : Document → NodeId → List NodeId → Prop) :
    (copy : NodeId) → (d : Document) → (children : List NodeId) → (d' : Document) → Prop
  | nil {copy : NodeId} {d : Document} : CopiedBelow copyNode Meets copy d [] d
  | cons {copy child : NodeId} {rest : List NodeId} {d d' : Document} {made : NodeId × Document}
      (h : Copied copyNode Meets d child made)
      (h' : CopiedBelow copyNode Meets copy (made.2.link copy made.1) rest d') :
      CopiedBelow copyNode Meets copy d (child :: rest) d'

end

theorem copyTree_succ (depth : Nat) (d : Document) (id : NodeId) :
    copyTree copyNode childrenOf (depth + 1) d id =
      ((copyNode d id).1, copyBelow (copyTree copyNode childrenOf depth) (copyNode d id).1
        (copyNode d id).2 (childrenOf (copyNode d id).2 id)) :=
  rfl

theorem copyBelow_cons (copyChild : Document → NodeId → NodeId × Document) (copy : NodeId)
    (d : Document) (child : NodeId) (rest : List NodeId) :
    copyBelow copyChild copy d (child :: rest) =
      copyBelow copyChild copy ((copyChild d child).2.link copy (copyChild d child).1) rest :=
  rfl

namespace Copying

variable {depth : Nat} {kind : NodeKind} {c : NodeId}

/-- The top of the copy has been made. -/
theorem begun_top (h : Copying o copyNode childrenOf Meets Target) (hd : Target d)
    (hid : o.kind? id = some kind) : Begun d kind (copyNode d id) := by
  obtain ⟨value, hvalue, rfl⟩ := Option.map_eq_some_iff.mp hid
  obtain ⟨value', hmade, hkind⟩ := h.made d id value hd hvalue
  exact hkind ▸ hmade.begun

/-- One more child has been copied and linked. -/
theorem begun_link (h : Copying o copyNode childrenOf Meets Target) (hd : Target d)
    (hid : o.kind? id = some kind) (hc : o.parent? c = some id)
    (hbegun : Begun d kind (copy, d')) {made : NodeId × Document}
    (hmade : ∀ ck, o.kind? c = some ck → Begun d' ck made) :
    Begun d kind (copy, made.2.link copy made.1) := by
  obtain ⟨pk, ck, hp, hck, hkinds⟩ := h.original.kinds id c hc
  rw [hid] at hp
  cases hp
  exact hbegun.link (h.target d hd) (hmade ck hck) hkinds

theorem begun_copyBelow (h : Copying o copyNode childrenOf Meets Target) (hd : Target d)
    (hid : o.kind? id = some kind)
    (hchild : ∀ d c ck, Target d → o.kind? c = some ck →
      Begun d ck (copyTree copyNode childrenOf depth d c))
    (children : List NodeId) (hchildren : ∀ c ∈ children, o.parent? c = some id)
    (hbegun : Begun d kind (copy, d')) :
    Begun d kind (copy, copyBelow (copyTree copyNode childrenOf depth) copy d' children) := by
  induction children generalizing d' with
  | nil => exact hbegun
  | cons c rest ih =>
      rw [copyBelow_cons]
      refine ih (fun c hc => hchildren c (by simp [hc])) ?_
      refine h.begun_link hd hid (hchildren c (by simp)) hbegun fun ck hck => ?_
      exact hchild d' c ck (h.grown d d' hd hbegun.grown) hck

/-- However many levels are copied, the copy is a new subtree and nothing else. -/
theorem begun_copyTree (h : Copying o copyNode childrenOf Meets Target) (hd : Target d)
    (hid : o.kind? id = some kind) :
    Begun d kind (copyTree copyNode childrenOf depth d id) := by
  induction depth generalizing d id kind with
  | zero => exact h.begun_top hd hid
  | succ depth ih =>
      have hbegun := h.begun_top hd hid
      rw [copyTree_succ, h.children _ id (h.grown d _ hd hbegun.grown) (lt_size_of_kind? hid)]
      refine h.begun_copyBelow hd hid (fun d c ck => ih) _ (fun c hc => ?_) hbegun
      exact (h.original.linked.parent id c).mpr hc

theorem copied_copyBelow (h : Copying o copyNode childrenOf Meets Target) (hd : Target d)
    (hid : o.kind? id = some kind) (children : List NodeId)
    (hchildren : ∀ c ∈ children, o.parent? c = some id)
    (hchild : ∀ d c, Target d → o.parent? c = some id →
      Copied copyNode Meets d c (copyTree copyNode childrenOf depth d c))
    (hbegun : Begun d kind (copy, d')) :
    CopiedBelow copyNode Meets copy d' children
      (copyBelow (copyTree copyNode childrenOf depth) copy d' children) := by
  induction children generalizing d' with
  | nil => exact .nil
  | cons c rest ih =>
      have hd' := h.grown d d' hd hbegun.grown
      have hc := hchildren c (by simp)
      rw [copyBelow_cons]
      refine .cons (hchild d' c hd' hc) (ih (fun c hc => hchildren c (by simp [hc])) ?_)
      exact h.begun_link hd hid hc hbegun fun ck hck => h.begun_copyTree hd' hck

/-- Where the levels reach down as far as there are nodes, the recursion comes to its end. -/
theorem copied_copyTree (h : Copying o copyNode childrenOf Meets Target) (hd : Target d)
    (hid : id < o.nodes.size) (hdepth : o.nodes.size ≤ (o.ancestorsOrSelf id).length + depth) :
    Copied copyNode Meets d id (copyTree copyNode childrenOf depth d id) := by
  have hlinked := h.original.linked
  induction depth generalizing d id with
  | zero =>
      obtain ⟨kind, hkind⟩ := kind?_eq_some hid
      have hbegun : Begun d kind (copyNode d id) := h.begun_top hd hkind
      have hnil : o.children id = [] := by
        refine List.eq_nil_iff_forall_not_mem.mpr fun c hc => ?_
        have hlen := hlinked.length_ancestors_le (hlinked.child_lt hc)
        rw [hlinked.ancestors_child hc, List.length_cons] at hlen
        omega
      refine .intro (h.meets _ id (h.grown d (copyNode d id).2 hd hbegun.grown) hid) ?_
      rw [hnil]
      exact .nil
  | succ depth ih =>
      obtain ⟨kind, hkind⟩ := kind?_eq_some hid
      have hbegun : Begun d kind (copyNode d id) := h.begun_top hd hkind
      have htop := h.grown d (copyNode d id).2 hd hbegun.grown
      rw [copyTree_succ, h.children _ id htop hid]
      refine .intro (h.meets _ id htop hid) ?_
      refine h.copied_copyBelow hd hkind _ (fun c hc => (hlinked.parent id c).mpr hc) ?_ hbegun
      intro d c hd hc
      have hmem := (hlinked.parent id c).mp hc
      refine ih hd (hlinked.child_lt hmem) ?_
      rw [hlinked.ancestors_child hmem, List.length_cons]
      omega

end Copying

end Copying

/-! ### Copies within a document -/

/-- While a document is copied into itself, the original is what it was. -/
theorem copying_children (ho : WellFormed o) :
    Copying o copyNode children (fun d id => Chain d.next? (d.firstChild? id))
      fun d => WellFormed d ∧ Grown o d where
  original := ho
  target d hd := hd.1
  grown d d' hd h := ⟨hd.1.of_steps h.steps, hd.2.trans h⟩
  made d id value hd hvalue := by
    have hvalue' : d.value? id = some value := (hd.2.value? (lt_size_of_value? hvalue)).trans hvalue
    have hmade := (Interned.refl d).made_push (hd.1.readable id value hvalue')
    refine ⟨value, ?_, rfl⟩
    rw [copyNode, hvalue']
    exact hmade
  children d id hd hid := hd.2.children_eq ho hid
  meets d id hd hid := by
    rw [← hd.2.children_eq ho hid, hd.1.linked.first]
    exact hd.1.linked.chain_next id

/-! ### Copies from another document -/

/-- The attributes of a node have distinct names. -/
theorem WellFormed.nodup_attributes (h : WellFormed d) {name ns : StringId}
    {attributes : List StoredAttribute}
    (hvalue : d.value? id = some (.element name ns attributes)) :
    ((attributes.map d.readAttribute).map (·.name)).Nodup := by
  have hreadable := h.readable id _ hvalue
  have hread : (attributes.map d.readAttribute).map (·.name)
      = (attributes.map (·.name)).map d.pool.getD := by
    rw [List.map_map, List.map_map]
    rfl
  rw [hread]
  refine List.Nodup.map_on ?_ hreadable.names
  have hget : ∀ i ∈ attributes.map (·.name), ∃ s, d.pool.get? i = some s := by
    intro i hi
    obtain ⟨a, ha, rfl⟩ := List.mem_map.mp hi
    exact Pool.get?_isSome_iff.mpr ((lt_size_of_readable hreadable).2.2 a ha).1
  intro i hi j hj heq
  obtain ⟨s, hs⟩ := hget i hi
  obtain ⟨t, ht⟩ := hget j hj
  rw [Pool.getD_eq hs, Pool.getD_eq ht] at heq
  exact h.pool.injective i j s hs (heq ▸ ht)

/-- A value of another document is interned as one of the same kind. -/
theorem WellFormed.interned_internValue (hd : WellFormed d) (ho : WellFormed o)
    {value : NodeValue} (hvalue : o.value? id = some value) :
    Interned d (d.internValue o value).2 ∧ (d.internValue o value).1.kind = value.kind ∧
      (d.internValue o value).1.Readable (d.internValue o value).2.pool := by
  have hone : ∀ s, (d.intern s).1 < (d.intern s).2.pool.size := fun s =>
    lt_size_of_get? (get?_intern hd s)
  cases value with
  | document => exact ⟨.refl d, rfl, ⟨by simp [internValue, NodeValue.strings], List.nodup_nil⟩⟩
  | element name ns attributes =>
      have hname := Interned.intern d (o.pool.getD name)
      have h1 := hd.of_steps hname.steps
      have hns := Interned.intern (d.intern (o.pool.getD name)).2 (o.pool.getD ns)
      obtain ⟨hrest, hstored⟩ :=
        interned_internAttributes (h1.of_steps hns.steps) (attributes.map o.readAttribute)
      refine ⟨(hname.trans hns).trans hrest, rfl, ?_⟩
      have hget := (hns.pool.trans hrest.pool) _ _ (get?_intern hd (o.pool.getD name))
      have hget' := hrest.pool _ _ (get?_intern h1 (o.pool.getD ns))
      exact readable_element (lt_size_of_get? hget) (lt_size_of_get? hget')
        (Forall₂.mem_stored hstored) (nodup_of_stored hstored (ho.nodup_attributes hvalue))
  | text content =>
      exact ⟨.intern d _, rfl, ⟨by simp [internValue, NodeValue.strings, hone], List.nodup_nil⟩⟩
  | cdata content =>
      exact ⟨.intern d _, rfl, ⟨by simp [internValue, NodeValue.strings, hone], List.nodup_nil⟩⟩
  | comment content =>
      exact ⟨.intern d _, rfl, ⟨by simp [internValue, NodeValue.strings, hone], List.nodup_nil⟩⟩
  | instruction target data =>
      have htarget := Interned.intern d (o.pool.getD target)
      have hdata := Interned.intern (d.intern (o.pool.getD target)).2 (o.pool.getD data)
      have hget := hdata.pool _ _ (get?_intern hd (o.pool.getD target))
      have hget' := get?_intern (hd.of_steps htarget.steps) (o.pool.getD data)
      refine ⟨htarget.trans hdata, rfl, ⟨?_, List.nodup_nil⟩⟩
      intro i hi
      rcases List.mem_pair.mp hi with rfl | rfl
      · exact lt_size_of_get? hget
      · exact lt_size_of_get? hget'

theorem copying_importValue (ho : WellFormed o) :
    Copying o o.importValue (fun _ => o.children)
      (fun _ id => Chain o.next? (o.firstChild? id)) WellFormed where
  original := ho
  target _ hd := hd
  grown _ _ hd h := hd.of_steps h.steps
  made d id value hd hvalue := by
    obtain ⟨hinterned, hkind, hreadable⟩ := hd.interned_internValue ho hvalue
    refine ⟨_, ?_, hkind⟩
    rw [importValue, hvalue]
    exact hinterned.made_push hreadable
  children _ _ _ _ := rfl
  meets _ id _ _ := by
    rw [ho.linked.first]
    exact ho.linked.chain_next id

/-- Cloning makes a new detached subtree. -/
theorem WellFormed.begun_cloneTree (h : WellFormed d) {kind : NodeKind}
    (hid : d.kind? id = some kind) : Begun d kind (d.cloneTree id) :=
  (copying_children h).begun_copyTree ⟨h, .refl d⟩ hid

/-- Importing makes a new detached subtree. -/
theorem WellFormed.begun_importTree (h : WellFormed d) (ho : WellFormed o) {kind : NodeKind}
    (hid : o.kind? id = some kind) : Begun d kind (d.importTree o id) :=
  (copying_importValue ho).begun_copyTree h hid

end Document

end PersistenceMapping
