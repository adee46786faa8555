/-
Copies are exact.

What is shown here of both ways of copying a node (`Exact`) is that the copy says what the
original says: a clone shares its strings, and an imported node refers to equal ones.  From the
node this goes up the tree.  While a subtree is copied, the copy of the top stands detached and
has below it the copies of the first children (`CopiedDown`), and linking one more child changes
the content of nothing but the top.

So the content of the copy is that of the original, and as many nodes are made as are met when
the original is read in preorder.  Whatever was there before has its old node and its old
content.
-/
import PersistenceMapping.Proofs.Tree.Gained
import PersistenceMapping.Proofs.Tree.Moved

namespace PersistenceMapping

/-- An element under another name; what is no element stays. -/
def Content.withName (name : String) : Content → Content
  | .element _ ns attributes children => .element name ns attributes children
  | other => other

namespace Document

variable {d d' o : Document} {id p c x copy : NodeId}

/-! ### Contents that stay -/

/-- While a document grows, what was there keeps its content. -/
theorem Grown.content?_eq (h : Grown d d') (hd : WellFormed d) (hx : x < d.nodes.size) :
    d'.content? x = d.content? x :=
  content?_eq_of_agree (· < d.nodes.size) hd (hd.of_steps h.steps) h.size_le h.pool
    (fun _ hx => hx) (fun _ hx => h.value? hx)
    (fun _ hx => ⟨h.children_eq hd hx, fun _ hc => hd.linked.child_lt hc⟩) hx

/-- A change of a detached node leaves the content of all others. -/
theorem WellFormed.content?_eq_of_detached (h : WellFormed d) (h' : WellFormed d')
    (hdetached : d.parent? p = none) (hsize : d'.nodes.size = d.nodes.size)
    (hpool : d.pool.Extends d'.pool) (hvalue : ∀ x, x ≠ p → d'.value? x = d.value? x)
    (hchildren : ∀ x, x ≠ p → d'.children x = d.children x) (hx : x < d.nodes.size)
    (hne : x ≠ p) : d'.content? x = d.content? x := by
  refine content?_eq_of_agree (fun x => x < d.nodes.size ∧ x ≠ p) h h' (Nat.le_of_eq hsize.symm)
    hpool (fun x hx => hx.1) (fun x hx => hvalue x hx.2) (fun x hx => ⟨hchildren x hx.2, ?_⟩)
    ⟨hx, hne⟩
  intro c hc
  refine ⟨h.linked.child_lt hc, ?_⟩
  rintro rfl
  exact h.linked.not_mem_of_detached hdetached x hc

/-- Old nodes have old nodes above them. -/
theorem Grown.lt_of_above (h : Grown d d') (hd : WellFormed d) (hx : x < d.nodes.size)
    (habove : d'.Above c x) : c < d.nodes.size := by
  induction habove with
  | refl => exact hx
  | tail _ hparent ih =>
      rw [h.parent? ih] at hparent
      exact hd.linked.parent_lt ((hd.linked.parent _ _).mp hparent)

/-! ### Copies of single nodes -/

/-- A way of copying nodes of `o` that gives nodes which say the same. -/
structure Exact (o : Document) (copyNode : Document → NodeId → NodeId × Document)
    (Target : Document → Prop) : Prop where
  reads : ∀ d id value, Target d → o.value? id = some value →
    ∃ value', (copyNode d id).2.value? (copyNode d id).1 = some value' ∧
      ∀ children, (copyNode d id).2.contentOf children value' = o.contentOf children value

/-- A node that is copied within its own document shares its strings with the copy. -/
theorem exact_copyNode (ho : WellFormed o) :
    Exact o copyNode fun d => WellFormed d ∧ Grown o d where
  reads d id value hd hvalue := by
    have hvalue' : d.value? id = some value :=
      (hd.2.value? (lt_size_of_value? hvalue)).trans hvalue
    have hreadable := ho.readable id value hvalue
    have hmade := (Interned.refl d).made_push (hd.1.readable id value hvalue')
    rw [copyNode, hvalue', Option.getD_some]
    refine ⟨value, hmade.value?, fun children => ?_⟩
    exact contentOf_congr hreadable (hd.2.pool.trans hmade.pool) children

/-- What a string of another document becomes reads as that string. -/
theorem getD_intern (h : WellFormed d) (s : String) (hext : (d.intern s).2.pool.Extends d'.pool) :
    d'.pool.getD (d.intern s).1 = s :=
  Pool.getD_eq (hext _ _ (get?_intern h s))

/-- An interned namespace is none where the original is none. -/
theorem namespace_intern (h : WellFormed d) (h' : WellFormed d') (ho : WellFormed o) {ns : StringId}
    (hns : ns < o.pool.size) (hext : (d.intern (o.pool.getD ns)).2.pool.Extends d'.pool) :
    (if (d.intern (o.pool.getD ns)).1 = 0 then none
      else d'.pool.get? (d.intern (o.pool.getD ns)).1) =
        if ns = 0 then none else o.pool.get? ns := by
  obtain ⟨s, hs⟩ := Pool.get?_isSome_iff.mpr hns
  have hget := hext _ _ (get?_intern h (o.pool.getD ns))
  rw [Pool.getD_eq hs] at hget ⊢
  by_cases hempty : s = ""
  · subst hempty
    rw [if_pos (h'.pool.injective _ _ _ hget h'.pool.zero),
      if_pos (ho.pool.injective _ _ _ hs ho.pool.zero)]
  · have hne : (d.intern s).1 ≠ 0 := by
      intro hzero
      rw [hzero, h'.pool.zero] at hget
      exact hempty (Option.some.inj hget).symm
    have hne' : ns ≠ 0 := by
      intro hzero
      rw [hzero, ho.pool.zero] at hs
      exact hempty (Option.some.inj hs).symm
    rw [if_neg hne, if_neg hne', hget, hs]

theorem contentOf_element {name ns : StringId} {stored : List StoredAttribute} {s : String}
    {t : Option String} {attributes : List Attribute} {children : List Content}
    (hname : d.pool.getD name = s) (hns : (if ns = 0 then none else d.pool.get? ns) = t)
    (hattributes : stored.map d.readAttribute = attributes) :
    d.contentOf children (.element name ns stored) = .element s t attributes children := by
  rw [contentOf, hname, hns, hattributes]

/-- An interned value says in one document what the value says in the other. -/
theorem WellFormed.contentOf_internValue (hd : WellFormed d) (ho : WellFormed o) {value : NodeValue}
    (hvalue : o.value? id = some value) (children : List Content) :
    (d.internValue o value).2.contentOf children (d.internValue o value).1 =
      o.contentOf children value := by
  have hreadable := ho.readable id value hvalue
  cases value with
  | document => rfl
  | element name ns attributes =>
      obtain ⟨-, hns, -⟩ := lt_size_of_readable hreadable
      have hname := Interned.intern d (o.pool.getD name)
      have h1 := hd.of_steps hname.steps
      have hspace := Interned.intern (d.intern (o.pool.getD name)).2 (o.pool.getD ns)
      have h2 := h1.of_steps hspace.steps
      obtain ⟨hrest, hstored⟩ := interned_internAttributes h2 (attributes.map o.readAttribute)
      exact contentOf_element (getD_intern hd _ (hspace.pool.trans hrest.pool))
        (namespace_intern h1 (h2.of_steps hrest.steps) ho hns hrest.pool)
        (map_readAttribute hstored (.refl _))
  | text content =>
      exact congrArg Content.text (getD_intern hd _ (.refl _))
  | cdata content =>
      exact congrArg Content.cdata (getD_intern hd _ (.refl _))
  | comment content =>
      exact congrArg Content.comment (getD_intern hd _ (.refl _))
  | instruction target data =>
      have htarget := Interned.intern d (o.pool.getD target)
      have hdata := Interned.intern (d.intern (o.pool.getD target)).2 (o.pool.getD data)
      exact congrArg₂ Content.instruction (getD_intern hd _ hdata.pool)
        (getD_intern (hd.of_steps htarget.steps) _ (.refl _))

theorem exact_importValue (ho : WellFormed o) : Exact o o.importValue WellFormed where
  reads d id value hd hvalue := by
    obtain ⟨hinterned, -, hreadable⟩ := hd.interned_internValue ho hvalue
    have hmade := hinterned.made_push hreadable
    rw [importValue, hvalue, Option.getD_some]
    refine ⟨_, hmade.value?, fun children => ?_⟩
    rw [← hd.contentOf_internValue ho hvalue children]
    rfl

/-! ### Copies of subtrees -/

/-- What is met from two lists is what is met from the first and then from the second. -/
theorem Preorder.of_append {kids : NodeId → List NodeId} {first second nodes : List NodeId}
    (h : Preorder kids (first ++ second) nodes) :
    ∃ before after, nodes = before ++ after ∧ Preorder kids first before ∧
      Preorder kids second after := by
  induction first generalizing nodes with
  | nil => exact ⟨[], nodes, rfl, .nil, h⟩
  | cons id rest ih =>
      rw [List.cons_append] at h
      cases h with
      | cons hinner houter =>
          obtain ⟨before, after, rfl, hbefore, hafter⟩ := ih houter
          exact ⟨_, after, by rw [List.cons_append, List.append_assoc], .cons hinner hbefore, hafter⟩

/-- A subtree of `o` has been copied to a document, and nothing else has been done. -/
structure CopyOf (o : Document) (id : NodeId) (d : Document) (made : NodeId × Document) :
    Prop where
  grown : Grown d made.2
  fresh : made.1 = d.nodes.size
  inside : made.1 < made.2.nodes.size
  detached : made.2.parent? made.1 = none
  content : made.2.content? made.1 = o.content? id
  count : ∀ nodes, Preorder o.children [id] nodes →
    made.2.nodes.size = d.nodes.size + nodes.length

/-- The top of a copy has been made, and the first children have been copied below it. -/
structure CopiedDown (o : Document) (value : NodeValue) (done : List NodeId) (d : Document)
    (copy : NodeId) (d' : Document) : Prop where
  begun : Begun d value.kind (copy, d')
  fresh : copy = d.nodes.size
  value : ∃ value', d'.value? copy = some value' ∧
    ∀ children, d'.contentOf children value' = o.contentOf children value
  contents : (d'.children copy).filterMap d'.content? = done.filterMap o.content?
  count : ∀ nodes, Preorder o.children done nodes →
    d'.nodes.size = d.nodes.size + 1 + nodes.length

section

variable {copyNode : Document → NodeId → NodeId × Document}
  {childrenOf : Document → NodeId → List NodeId} {Meets : Document → NodeId → List NodeId → Prop}
  {Target : Document → Prop} {value : NodeValue} {done : List NodeId} {depth : Nat}

/-- So far there is nothing below the top. -/
theorem Copying.copiedDown_top (h : Copying o copyNode childrenOf Meets Target)
    (hexact : Exact o copyNode Target) (hd : Target d) (hvalue : o.value? id = some value) :
    CopiedDown o value [] d (copyNode d id).1 (copyNode d id).2 := by
  obtain ⟨value', hmade, hkind⟩ := h.made d id value hd hvalue
  have hwf := h.target d hd
  refine ⟨hkind ▸ hmade.begun, hmade.id, hexact.reads d id value hd hvalue, ?_, ?_⟩
  · rw [(hmade.linked hwf.linked).children_eq, hmade.id,
      hwf.children_eq_nil (Nat.le_refl d.nodes.size)]
    rfl
  · intro nodes hnodes
    cases hnodes
    exact hmade.size

/-- One more child has been copied and linked below the top. -/
theorem CopiedDown.link (h : CopiedDown o value done d copy d') (hd : WellFormed d)
    {made : NodeId × Document} (hc : CopyOf o c d' made)
    (hbegun : Begun d value.kind (copy, made.2.link copy made.1)) :
    CopiedDown o value (done ++ [c]) d copy (made.2.link copy made.1) := by
  have hd' := hd.of_steps h.begun.grown.steps
  have hmade := hd'.of_steps hc.grown.steps
  have hcopy : copy < d'.nodes.size := lt_size_of_kind? h.begun.kind
  have hcopy' : copy < made.2.nodes.size := Nat.lt_of_lt_of_le hcopy hc.grown.size_le
  have hne : made.1 ≠ copy := by
    rw [hc.fresh]
    exact Nat.ne_of_gt hcopy
  have hdetached : made.2.parent? copy = none :=
    (hc.grown.parent? hcopy).trans h.begun.detached
  have hlinked := hmade.linked.link hcopy' hc.inside hc.detached fun l hl => by
    cases hl with
    | cons hl =>
        rw [hdetached] at hl
        cases hl
        simpa using hne
  have hother : ∀ x, x ≠ copy → (made.2.link copy made.1).children x = made.2.children x := by
    intro x hx
    rw [hlinked.children_eq, Function.update_of_ne hx]
  have hcontent : ∀ x < made.2.nodes.size, x ≠ copy →
      (made.2.link copy made.1).content? x = made.2.content? x := fun x hx hxcopy =>
    hmade.content?_eq_of_detached (hd.of_steps hbegun.grown.steps) hdetached
      (size_link made.2 copy made.1) (by rw [pool_link]; exact .refl _)
      (fun x _ => value?_link made.2 copy made.1 x) hother hx hxcopy
  refine ⟨hbegun, h.fresh, ?_, ?_, ?_⟩
  · obtain ⟨value', hvalue, hreads⟩ := h.value
    have hreadable := hd'.readable copy value' hvalue
    refine ⟨value', ?_, fun children => ?_⟩
    · rw [value?_link, hc.grown.value? hcopy, hvalue]
    · rw [← hreads children]
      refine contentOf_congr hreadable ?_ children
      rw [pool_link]
      exact hc.grown.pool
  · rw [hlinked.children_eq, Function.update_self, List.filterMap_append, List.filterMap_append,
      hc.grown.children_eq hd' hcopy, ← h.contents]
    congr 1
    · refine List.filterMap_congr fun x hx => ?_
      have hxlt := hd'.linked.child_lt hx
      have hxcopy : x ≠ copy := by
        rintro rfl
        exact hd'.linked.not_mem_of_detached h.begun.detached _ hx
      rw [hcontent x (Nat.lt_of_lt_of_le hxlt hc.grown.size_le) hxcopy, hc.grown.content?_eq hd' hxlt]
    · rw [List.filterMap_cons, List.filterMap_cons, hcontent made.1 hc.inside hne, hc.content]
      rfl
  · intro nodes hnodes
    obtain ⟨before, after, rfl, hbefore, hafter⟩ := hnodes.of_append
    rw [size_link, hc.count after hafter, h.count before hbefore, List.length_append]
    omega

/-- The children of a node have been copied one after the other. -/
theorem Copying.copiedDown_copyBelow (h : Copying o copyNode childrenOf Meets Target)
    (hd : Target d) (hvalue : o.value? id = some value) (rest : List NodeId)
    (hrest : ∀ c ∈ rest, o.parent? c = some id)
    (hchild : ∀ d c, Target d → o.parent? c = some id →
      CopyOf o c d (copyTree copyNode childrenOf depth d c))
    (hdown : CopiedDown o value done d copy d') :
    CopiedDown o value (done ++ rest) d copy
      (copyBelow (copyTree copyNode childrenOf depth) copy d' rest) := by
  induction rest generalizing done d' with
  | nil =>
      rw [List.append_nil]
      exact hdown
  | cons c rest ih =>
      have hd' := h.grown d d' hd hdown.begun.grown
      have hc := hrest c (by simp)
      have hcopied : ∀ kind, o.kind? c = some kind →
          Begun d' kind (copyTree copyNode childrenOf depth d' c) :=
        fun _ hkind => h.begun_copyTree hd' hkind
      have hbegun := h.begun_link hd (by rw [kind?, hvalue]; rfl) hc hdown.begun hcopied
      rw [copyBelow_cons, ← List.singleton_append, ← List.append_assoc]
      refine ih (fun c hc => hrest c (by simp [hc])) ?_
      exact hdown.link (h.target d hd) (hchild d' c hd' hc) hbegun

/-- When all children have been copied, the subtree has. -/
theorem CopiedDown.copyOf (h : CopiedDown o value (o.children id) d copy d') (ho : WellFormed o)
    (hd : WellFormed d) (hvalue : o.value? id = some value) : CopyOf o id d (copy, d') where
  grown := h.begun.grown
  fresh := h.fresh
  inside := lt_size_of_kind? h.begun.kind
  detached := h.begun.detached
  content := by
    obtain ⟨value', hvalue', hreads⟩ := h.value
    have hd' := hd.of_steps h.begun.grown.steps
    show d'.content? copy = o.content? id
    rw [hd'.content?_eq (lt_size_of_value? hvalue'), ho.content?_eq (lt_size_of_value? hvalue),
      hvalue, hvalue', Option.map_some, Option.map_some, h.contents, hreads]
  count nodes hnodes := by
    cases hnodes with
    | cons hinner houter =>
        cases houter
        show d'.nodes.size = _
        rw [List.append_nil, h.count _ hinner, List.length_cons]
        omega

/-- Where the levels reach down as far as there are nodes, a subtree is copied as it is. -/
theorem Copying.copyOf_copyTree (h : Copying o copyNode childrenOf Meets Target)
    (hexact : Exact o copyNode Target) (hd : Target d) (hid : id < o.nodes.size)
    (hdepth : o.nodes.size ≤ (o.ancestorsOrSelf id).length + depth) :
    CopyOf o id d (copyTree copyNode childrenOf depth d id) := by
  have hlinked := h.original.linked
  induction depth generalizing d id with
  | zero =>
      obtain ⟨n, hn⟩ := node?_eq_some hid
      have hvalue : o.value? id = some n.value := by rw [value?, hn]; rfl
      have hnil : o.children id = [] := by
        refine List.eq_nil_iff_forall_not_mem.mpr fun c hc => ?_
        have hlen := hlinked.length_ancestors_le (hlinked.child_lt hc)
        rw [hlinked.ancestors_child hc, List.length_cons] at hlen
        omega
      have htop := h.copiedDown_top hexact hd hvalue
      rw [← hnil] at htop
      exact htop.copyOf h.original (h.target d hd) hvalue
  | succ depth ih =>
      obtain ⟨n, hn⟩ := node?_eq_some hid
      have hvalue : o.value? id = some n.value := by rw [value?, hn]; rfl
      have htop := h.copiedDown_top hexact hd hvalue
      rw [copyTree_succ, h.children _ id (h.grown d _ hd htop.begun.grown) hid]
      have hchild : ∀ d c, Target d → o.parent? c = some id →
          CopyOf o c d (copyTree copyNode childrenOf depth d c) := by
        intro d c hd hc
        have hmem := (hlinked.parent id c).mp hc
        refine ih hd (hlinked.child_lt hmem) ?_
        rw [hlinked.ancestors_child hmem, List.length_cons]
        omega
      have hdown := h.copiedDown_copyBelow hd hvalue (o.children id)
        (fun c hc => (hlinked.parent id c).mpr hc) hchild htop
      rw [List.nil_append] at hdown
      exact hdown.copyOf h.original (h.target d hd) hvalue

end

/-! ### What the edits give -/

/-- A detached copy of a subtree of `o` has been made in a document, and nothing else has been
done to it.  What the copy says is what `f` makes of what the original says. -/
structure Copies (d o : Document) (id : NodeId) (f : Content → Content) (copy : NodeId)
    (d' : Document) : Prop where
  fresh : copy = d.nodes.size
  detached : d'.parent? copy = none ∧ d'.previous? copy = none ∧ d'.next? copy = none
  content : ∃ c, o.content? id = some c ∧ d'.content? copy = some (f c)
  /-- As many nodes are added as there are at and below the original. -/
  count : d'.nodes.size = d.nodes.size + (1 + (o.descendants id).length)
  /-- All nodes at and below the copy are new. -/
  apart : ∀ x, d'.Above copy x → d.nodes.size ≤ x
  nodes : ∀ x < d.nodes.size, d'.node? x = d.node? x
  contents : ∀ x < d.nodes.size, d'.content? x = d.content? x
  root : d'.root = d.root

theorem content?_isSome (h : WellFormed d) (hid : id < d.nodes.size) :
    ∃ c, d.content? id = some c := by
  obtain ⟨n, hn⟩ := node?_eq_some hid
  rw [h.content?_eq hid, value?, hn]
  exact ⟨_, rfl⟩

theorem CopyOf.copies (h : CopyOf o id d (copy, d')) (hd : WellFormed d) (ho : WellFormed o)
    (hid : id < o.nodes.size) : Copies d o id (fun c => c) copy d' := by
  have hd' := hd.of_steps h.grown.steps
  obtain ⟨c, hc⟩ := content?_isSome ho hid
  refine ⟨h.fresh, ⟨h.detached, hd'.linked.alone copy h.detached⟩, ⟨c, hc, h.content.trans hc⟩, ?_,
    ?_, h.grown.node?, fun x hx => h.grown.content?_eq hd hx, h.grown.root⟩
  · have hcount := h.count _ (.cons (ho.linked.preorder_descendants id).1 .nil)
    rw [List.append_nil, List.length_cons] at hcount
    show d'.nodes.size = _
    rw [hcount]
    omega
  · intro x hx
    by_contra hlt
    have hcopy := h.grown.lt_of_above hd (Nat.lt_of_not_le hlt) hx
    rw [show copy = d.nodes.size from h.fresh] at hcopy
    exact Nat.lt_irrefl _ hcopy

/-! ### Another name for the top -/

theorem WellFormed.children_setValue (h : WellFormed d) (id : NodeId) (f : NodeValue → NodeValue) :
    (d.setValue id f).children = d.children :=
  (h.linked.of_links (link_setValue f (fun _ _ => rfl) id) (link_setValue f (fun _ _ => rfl) id)
    (link_setValue f (fun _ _ => rfl) id) (link_setValue f (fun _ _ => rfl) id)
    (link_setValue f (fun _ _ => rfl) id)).children_eq

theorem node?_putName (d : Document) (name : String) (hx : x ≠ p) :
    (d.putName p name).node? x = d.node? x := by
  show ((d.intern name).2.mapName p (d.intern name).1).node? x = _
  rw [mapName, setValue, node?_modify, if_neg (Ne.symm hx)]
  rfl

theorem WellFormed.children_putName (h : WellFormed d) (p : NodeId) (name : String) :
    (d.putName p name).children = d.children := by
  have hinterned : (d.intern name).2.Linked d.children := h.linked.of_nodes rfl
  exact ((h.of_intern name).children_setValue p _).trans hinterned.children_eq

/-- A detached element that is given another name says the same as before, but for the name. -/
theorem WellFormed.content?_putName (h : WellFormed d) (hp : d.kind? p = some .element)
    (hdetached : d.parent? p = none) (name : String) :
    (d.putName p name).content? p = (d.content? p).map (Content.withName name) ∧
      ∀ x < d.nodes.size, x ≠ p → (d.putName p name).content? x = d.content? x := by
  have hwf := h.of_steps (h.steps_putName p name)
  have hplt := lt_size_of_kind? hp
  have hpool : d.pool.Extends (d.putName p name).pool := Pool.extends_intern d.pool name
  have hsize : (d.putName p name).nodes.size = d.nodes.size := size_modify (d.intern name).2 p _
  have hothers : ∀ x < d.nodes.size, x ≠ p → (d.putName p name).content? x = d.content? x := by
    intro x hx hxp
    refine h.content?_eq_of_detached hwf hdetached hsize hpool (fun y hy => ?_)
      (fun y _ => congrFun (h.children_putName p name) y) hx hxp
    rw [value?, node?_putName d name hy]
    rfl
  refine ⟨?_, hothers⟩
  obtain ⟨value, hvalue, hkind⟩ := Option.map_eq_some_iff.mp hp
  cases value with
  | element n ns attributes =>
      have hvalue' : (d.putName p name).value? p =
          some (.element (d.intern name).1 ns attributes) := by
        show ((d.intern name).2.mapName p (d.intern name).1).value? p = _
        rw [mapName, value?_setValue, if_pos rfl]
        show (d.value? p).map _ = _
        rw [hvalue]
        rfl
      have hchildren : (d.children p).filterMap (d.putName p name).content? =
          (d.children p).filterMap d.content? := by
        refine List.filterMap_congr fun c hc => hothers c (h.linked.child_lt hc) ?_
        rintro rfl
        exact h.linked.not_mem_of_detached hdetached _ hc
      rw [hwf.content?_eq (by rwa [hsize]), h.content?_eq hplt, hvalue, hvalue',
        h.children_putName, hchildren, Option.map_some, Option.map_some, Option.map_some,
        ← contentOf_congr (h.readable p _ hvalue) hpool]
      have hname : (d.putName p name).pool.getD (d.intern name).1 = name :=
        getD_intern h name (.refl _)
      rw [contentOf, contentOf, hname]
      rfl
  | document | text | cdata | comment | instruction => cases hkind

/-- A copy under another name. -/
theorem CopyOf.copies_putName (h : CopyOf o id d (copy, d')) (hd : WellFormed d)
    (ho : WellFormed o) (hid : id < o.nodes.size) (hcopy : d'.kind? copy = some .element)
    (name : String) : Copies d o id (Content.withName name) copy (d'.putName copy name) := by
  have hcopies := h.copies hd ho hid
  have hd' := hd.of_steps h.grown.steps
  have hwf := hd'.of_steps (hd'.steps_putName copy name)
  obtain ⟨hrenamed, hothers⟩ := hd'.content?_putName hcopy h.detached name
  have hold : ∀ x < d.nodes.size, x ≠ copy := by
    intro x hx
    rw [hcopies.fresh]
    exact Nat.ne_of_lt hx
  have hparent : (d'.putName copy name).parent? = d'.parent? := by
    funext x
    show ((d'.intern name).2.setValue copy _).parent? x = _
    exact link_setValue _ (fun _ _ => rfl) copy x
  have hdetached : (d'.putName copy name).parent? copy = none := by
    rw [hparent]
    exact h.detached
  obtain ⟨c, hc, hcontent⟩ := hcopies.content
  refine ⟨hcopies.fresh, ⟨hdetached, hwf.linked.alone copy hdetached⟩, ⟨c, hc, ?_⟩, ?_, ?_, ?_, ?_,
    hcopies.root⟩
  · rw [hrenamed, hcontent, Option.map_some]
  · rw [← hcopies.count]
    exact size_modify (d'.intern name).2 copy _
  · intro x hx
    rw [Above, hparent] at hx
    exact hcopies.apart x hx
  · intro x hx
    rw [node?_putName d' name (hold x hx), hcopies.nodes x hx]
  · intro x hx
    rw [hothers x (Nat.lt_of_lt_of_le hx h.grown.size_le) (hold x hx), hcopies.contents x hx]

/-! ### Running the edits -/

theorem apply_bind {α β : Type} (first : Edit α) (rest : α → Edit β) (d : Document) :
    (first >>= rest).apply d =
      match first.apply d with
      | (.ok a, d') => (rest a).apply d'
      | (.error e, d') => (.error e, d') := by
  simp only [Edit.apply, ExceptT.run_bind, StateT.run_bind]
  rcases StateT.run (ExceptT.run first) d with ⟨e | a, d'⟩ <;> rfl

theorem apply_cloneSubtree (hid : id < d.nodes.size) :
    (Edit.cloneSubtree id).apply d = (.ok (d.cloneTree id).1, (d.cloneTree id).2) := by
  obtain ⟨n, hn⟩ := node?_eq_some hid
  have hcheck : d.checkNode id = .ok n := by rw [checkNode, hn]
  rw [Edit.cloneSubtree, apply_require, hcheck]
  rfl

theorem apply_importNode {kind : NodeKind} (hkind : o.kind? id = some kind)
    (hdocument : kind ≠ .document) (d : Document) :
    (Edit.importNode o id).apply d = (.ok (d.importTree o id).1, (d.importTree o id).2) := by
  unfold Edit.importNode
  rw [hkind]
  cases kind <;> first | rfl | exact absurd rfl hdocument

theorem WellFormed.copyOf_cloneTree (h : WellFormed d) (hid : id < d.nodes.size) :
    CopyOf d id d (d.cloneTree id) :=
  (copying_children h).copyOf_copyTree (exact_copyNode h) ⟨h, .refl d⟩ hid (Nat.le_add_left _ _)

theorem WellFormed.copyOf_importTree (h : WellFormed d) (ho : WellFormed o)
    (hid : id < o.nodes.size) : CopyOf o id d (d.importTree o id) :=
  (copying_importValue ho).copyOf_copyTree (exact_importValue ho) h hid (Nat.le_add_left _ _)

theorem copies_of_cloneSubtree (hd : WellFormed d)
    (h : (Edit.cloneSubtree id).apply d = (.ok copy, d')) :
    Copies d d id (fun c => c) copy d' := by
  by_cases hid : id < d.nodes.size
  · rw [apply_cloneSubtree hid] at h
    cases h
    exact (hd.copyOf_cloneTree hid).copies hd hd hid
  · have hcheck : d.checkNode id = .error (.foreignNode id) := by
      rw [checkNode, node?, Array.getElem?_eq_none (Nat.le_of_not_lt hid)]
    rw [Edit.cloneSubtree, apply_require, hcheck] at h
    cases h

theorem copies_of_importNode (hd : WellFormed d) (ho : WellFormed o)
    (h : (Edit.importNode o id).apply d = (.ok copy, d')) :
    Copies d o id (fun c => c) copy d' := by
  rcases hkind : o.kind? id with _ | kind
  · rw [Edit.importNode, hkind] at h
    cases h
  by_cases hdocument : kind = .document
  · rw [Edit.importNode, hkind, hdocument] at h
    cases h
  · rw [apply_importNode hkind hdocument] at h
    cases h
    have hid := lt_size_of_kind? hkind
    exact (hd.copyOf_importTree ho hid).copies hd ho hid

theorem checkElement_of_kind? (h : d.kind? id = some .element) : d.checkElement id = .ok () := by
  obtain ⟨n, hnode, -⟩ := checkNode_of_kind? h
  rw [checkElement, hnode]
  exact if_pos (isElement_iff.mpr h)

theorem apply_rename (hid : d.kind? id = some .element) (name : String) :
    (Edit.rename id name).apply d = (.ok (), d.putName id name) := by
  rw [Edit.rename, apply_require, checkElement_of_kind? hid]
  rfl

theorem apply_cloneWithName (hd : WellFormed d) (hid : d.kind? id = some .element)
    (name : String) :
    (Edit.cloneWithName id name).apply d =
      (.ok (d.cloneTree id).1, (d.cloneTree id).2.putName (d.cloneTree id).1 name) := by
  have hget : (get : Edit Document).apply d = (.ok d, d) := rfl
  have hrename := apply_rename (hd.begun_cloneTree hid).kind name
  rw [Edit.cloneWithName, apply_bind, hget]
  simp only [isElement_iff.mpr hid, Bool.not_true, Bool.false_eq_true, if_false]
  rw [apply_bind, apply_cloneSubtree (lt_size_of_kind? hid)]
  simp only
  rw [apply_bind, hrename]
  rfl

/-- Only an element can be copied under another name. -/
theorem apply_cloneWithName_of_ne (hid : d.kind? id ≠ some .element) (name : String) :
    (Edit.cloneWithName id name).apply d =
      (.error (.invalidOperation (.notAnElement id)), d) := by
  have hget : (get : Edit Document).apply d = (.ok d, d) := rfl
  have helement : d.isElement id = false := Bool.eq_false_iff.mpr (mt isElement_iff.mp hid)
  rw [Edit.cloneWithName, apply_bind, hget]
  simp only [helement, Bool.not_false, if_true]
  rfl

theorem copies_of_cloneWithName (hd : WellFormed d) {name : String}
    (h : (Edit.cloneWithName id name).apply d = (.ok copy, d')) :
    Copies d d id (Content.withName name) copy d' := by
  by_cases hid : d.kind? id = some .element
  · have hlt := lt_size_of_kind? hid
    rw [apply_cloneWithName hd hid] at h
    cases h
    exact (hd.copyOf_cloneTree hlt).copies_putName hd hd hlt (hd.begun_cloneTree hid).kind name
  · rw [apply_cloneWithName_of_ne hid] at h
    cases h

/-- **Copies say what the original says, stand by themselves and leave everything else alone**;
and it is the same to copy a node within its document and to another one. -/
theorem copies_exact (hd : Reachable d) (ho : Reachable o) (id : NodeId) :
    (∀ copy d', (Edit.cloneSubtree id).apply d = (.ok copy, d') →
        Copies d d id (fun c => c) copy d') ∧
      (∀ name copy d', (Edit.cloneWithName id name).apply d = (.ok copy, d') →
        Copies d d id (Content.withName name) copy d') ∧
      (∀ copy d', (Edit.importNode o id).apply d = (.ok copy, d') →
        Copies d o id (fun c => c) copy d') ∧
      (∀ self owner source copy d', owner ≠ self →
        (Edit.ensureOwner self ⟨owner, id⟩ (some (source, o))).apply d = (.ok copy, d') →
        source = owner ∧ Copies d o id (fun c => c) copy d') ∧
      ∀ kind, o.kind? id = some kind → kind ≠ .document →
        ∃ clone o' copy d', (Edit.cloneSubtree id).apply o = (.ok clone, o') ∧
          (Edit.importNode o id).apply d = (.ok copy, d') ∧ o'.content? clone = d'.content? copy := by
  have hwf := hd.wellFormed
  have hwf' := ho.wellFormed
  refine ⟨fun _ _ => copies_of_cloneSubtree hwf, fun _ _ _ => copies_of_cloneWithName hwf,
    fun _ _ => copies_of_importNode hwf hwf', ?_, ?_⟩
  · intro self owner source copy d' howner h
    unfold Edit.ensureOwner at h
    rw [if_neg howner] at h
    by_cases hsource : source = owner
    · simp only [if_pos hsource] at h
      exact ⟨hsource, copies_of_importNode hwf hwf' h⟩
    · simp only [if_neg hsource] at h
      cases h
  · intro kind hkind hdocument
    have hid := lt_size_of_kind? hkind
    refine ⟨_, _, _, _, apply_cloneSubtree hid, apply_importNode hkind hdocument d, ?_⟩
    rw [(hwf'.copyOf_cloneTree hid).content, (hwf.copyOf_importTree hwf' hid).content]

/-- An element with a text is copied under another name, and one with an attribute is imported. -/
theorem copies_exact_element :
    let d := [.createElement "a", .createText "b", .append 0 1, Request.append 1 2].foldl
      (fun d r => r.perform d) (.empty)
    let o := [.createElement "x", .setAttribute 1 "k" "v", .createElement "y",
      Request.append 1 2].foldl (fun d r => r.perform d) (.empty)
    Copies d d 1 (Content.withName "c") 3 ((Edit.cloneWithName 1 "c").apply d).2 ∧
      Copies d o 1 (fun c => c) 3 ((Edit.importNode o 1).apply d).2 ∧
      ((Edit.importNode o 1).apply d).2.attributes 3 = [⟨"k", "v"⟩] := by
  intro d o
  have hd : Reachable d := (Reachable.empty _).requests _
  have ho : Reachable o := (Reachable.empty _).requests _
  have hcloned : ((Edit.cloneWithName 1 "c").apply d).1 = .ok 3 := by decide
  have himported : ((Edit.importNode o 1).apply d).1 = .ok 3 := by decide
  have hattributes : ((Edit.importNode o 1).apply d).2.attributes 3 = [⟨"k", "v"⟩] := by decide
  clear_value d o
  obtain ⟨-, hclone, himport, -⟩ := copies_exact hd ho 1
  exact ⟨hclone "c" 3 _ (Prod.ext hcloned rfl), himport 3 _ (Prod.ext himported rfl), hattributes⟩

end Document

end PersistenceMapping
