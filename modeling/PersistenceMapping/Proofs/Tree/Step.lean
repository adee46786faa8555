/-
The few things that are ever done to a document.

However a document is built or edited, it is changed by interning a string, adding a detached
node, attaching a detached node, unlinking a node, or giving a node another value of its kind.
`Step` lists these with what is known where they are done: what is attached is detached and
does not stand above its new parent, their kinds go together, and the document itself gets no
second element.

`WellFormed` is what every step keeps.  Its links are those of a forest (`Linked`), parents and
children are of kinds that go together, the root is the element below the document itself, and
what is stored in the nodes can be read with the pool.
-/
import Mathlib.Logic.Relation
import PersistenceMapping.Proofs.Tree.Descent
import PersistenceMapping.Proofs.Tree.Interned

namespace PersistenceMapping

namespace NodeValue

/-- The numbers of the strings that a value refers to. -/
def strings : NodeValue → List StringId
  | document => []
  | element name ns attributes => name :: ns :: attributes.flatMap fun a => [a.name, a.value]
  | text content => [content]
  | cdata content => [content]
  | comment content => [content]
  | instruction target data => [target, data]

/-- The names of the attributes of a value. -/
def attributeNames : NodeValue → List StringId
  | element _ _ attributes => attributes.map (·.name)
  | _ => []

/-- A value whose strings a pool holds, and whose attributes have names of their own. -/
structure Readable (pool : Pool) (value : NodeValue) : Prop where
  strings : ∀ i ∈ value.strings, i < pool.size
  names : value.attributeNames.Nodup

theorem Readable.mono {pool pool' : Pool} {value : NodeValue} (h : value.Readable pool)
    (hext : pool.Extends pool') : value.Readable pool' where
  strings i hi := Nat.lt_of_lt_of_le (h.strings i hi) hext.size_le
  names := h.names

end NodeValue

namespace Document

/-- What holds of a document however it was made. -/
structure WellFormed (d : Document) : Prop where
  linked : Linked d d.children
  /-- Node 0 is the document itself. -/
  top : d.kind? documentNode = some .document
  /-- A parent may have such a child. -/
  kinds : ∀ p c, d.parent? c = some p →
    ∃ pk ck, d.kind? p = some pk ∧ d.kind? c = some ck ∧ checkKinds pk ck = .ok ()
  /-- The root is the one element below the document itself. -/
  root : ∀ r, d.root = some r ↔ d.parent? r = some documentNode ∧ d.kind? r = some .element
  pool : d.pool.Valid
  readable : ∀ id value, d.value? id = some value → value.Readable d.pool

/-- One of the things that are done to a document. -/
inductive Step : Document → Document → Prop
  | intern {d : Document} (s : String) : Step d (d.intern s).2
  | push {d : Document} {value : NodeValue} (h : value.Readable d.pool) : Step d (d.push value).2
  | attach {d : Document} {p c : NodeId} {pk ck : NodeKind} (hp : d.kind? p = some pk)
      (hc : d.kind? c = some ck) (hkinds : checkKinds pk ck = .ok ())
      (hdetached : d.parent? c = none) (habove : c ∉ d.ancestorsOrSelf p)
      (hroot : p = documentNode → ck = .element → d.root = none) : Step d (d.attach p c)
  | unlink {d : Document} (id : NodeId) : Step d (d.unlink id)
  | revalue {d : Document} {id : NodeId} {f : NodeValue → NodeValue}
      (h : ∀ value, d.value? id = some value →
        (f value).kind = value.kind ∧ (f value).Readable d.pool) : Step d (d.setValue id f)

/-- Any number of such things, one after the other. -/
abbrev Steps : Document → Document → Prop := Relation.ReflTransGen Step

variable {d d' : Document} {id p c x : NodeId}

/-! ### What the steps do to values -/

theorem kind?_eq_of_value? (h : d'.value? x = d.value? x) : d'.kind? x = d.kind? x := by
  rw [kind?, kind?, h]

theorem lt_size_of_value? {value : NodeValue} (h : d.value? x = some value) : x < d.nodes.size := by
  obtain ⟨n, hn, -⟩ := Option.map_eq_some_iff.mp h
  exact lt_size_of_node? hn

theorem lt_size_of_kind? {kind : NodeKind} (h : d.kind? x = some kind) : x < d.nodes.size := by
  obtain ⟨value, hvalue, -⟩ := Option.map_eq_some_iff.mp h
  exact lt_size_of_value? hvalue

theorem kind?_eq_some (h : x < d.nodes.size) : ∃ kind, d.kind? x = some kind := by
  obtain ⟨n, hn⟩ := node?_eq_some h
  exact ⟨_, by rw [kind?, value?, hn]; rfl⟩

theorem isElement_iff : d.isElement x = true ↔ d.kind? x = some .element :=
  beq_iff_eq

theorem value?_push (d : Document) (value : NodeValue) (x : NodeId) :
    (d.push value).2.value? x = if x = d.nodes.size then some value else d.value? x := by
  rw [value?, node?_push]
  split <;> rfl

theorem value?_push_of_lt (value : NodeValue) (h : x < d.nodes.size) :
    (d.push value).2.value? x = d.value? x := by
  rw [value?_push, if_neg (Nat.ne_of_lt h)]

theorem value?_link (d : Document) (p c x : NodeId) :
    (d.link p c).value? x = d.value? x := by
  rw [value?, value?, node?_link, Option.map_map]
  rfl

theorem nodes_attach (d : Document) (p c : NodeId) :
    (d.attach p c).nodes = (d.link p c).nodes := by
  unfold attach
  split <;> rfl

theorem node?_attach (d : Document) (p c x : NodeId) :
    (d.attach p c).node? x = (d.link p c).node? x := by
  rw [node?, node?, nodes_attach]

theorem pool_link (d : Document) (p c : NodeId) : (d.link p c).pool = d.pool := by
  unfold link
  cases d.lastChild? p <;> rfl

theorem pool_attach (d : Document) (p c : NodeId) : (d.attach p c).pool = d.pool := by
  unfold attach
  split <;> exact pool_link d p c

theorem root_link (d : Document) (p c : NodeId) : (d.link p c).root = d.root := by
  unfold link
  cases d.lastChild? p <;> rfl

theorem value?_attach (d : Document) (p c x : NodeId) :
    (d.attach p c).value? x = d.value? x := by
  rw [value?, node?_attach]
  exact value?_link d p c x

theorem value?_unlink (d : Document) (id x : NodeId) :
    (d.unlink id).value? x = d.value? x := by
  rw [value?, value?, node?_unlink, Option.map_map]
  rfl

theorem pool_unlink (d : Document) (id : NodeId) : (d.unlink id).pool = d.pool := by
  unfold unlink
  cases d.parent? id <;> cases d.previous? id <;> cases d.next? id <;> rfl

theorem value?_setValue (d : Document) (id : NodeId) (f : NodeValue → NodeValue) (x : NodeId) :
    (d.setValue id f).value? x = if id = x then (d.value? x).map f else d.value? x := by
  rw [value?, setValue, node?_modify]
  split
  · rw [value?, Option.map_map, Option.map_map]
    rfl
  · rfl

/-- Another value leaves the links alone. -/
theorem link_setValue {α : Type} {g : Node → Option α} (f : NodeValue → NodeValue)
    (hg : ∀ n value, g { n with value } = g n) (id x : NodeId) :
    ((d.setValue id f).node? x).bind g = (d.node? x).bind g := by
  rw [setValue, node?_modify]
  split
  · cases d.node? x with
    | none => rfl
    | some n => exact hg n _
  · rfl

namespace WellFormed

/-! ### Steps keep documents well-formed -/

theorem of_intern (h : WellFormed d) (s : String) : WellFormed (d.intern s).2 where
  linked :=
    have hlinked : Linked (d.intern s).2 d.children := h.linked.of_nodes rfl
    hlinked.self
  top := h.top
  kinds := h.kinds
  root := h.root
  pool := Pool.valid_intern h.pool s
  readable id value hvalue := (h.readable id value hvalue).mono (Pool.extends_intern d.pool s)

theorem of_push (h : WellFormed d) {value : NodeValue} (hvalue : value.Readable d.pool) :
    WellFormed (d.push value).2 := by
  have hparent : ∀ x, (d.push value).2.parent? x = d.parent? x := link_push value rfl
  have hkind : ∀ x kind, d.kind? x = some kind → (d.push value).2.kind? x = some kind := by
    intro x kind hx
    rw [kind?_eq_of_value? (value?_push_of_lt value (lt_size_of_kind? hx)), hx]
  refine ⟨(h.linked.push value).self, hkind _ _ h.top, ?_, ?_, h.pool, ?_⟩
  · intro p c hc
    rw [hparent] at hc
    obtain ⟨pk, ck, hp, hc, hkinds⟩ := h.kinds p c hc
    exact ⟨pk, ck, hkind p pk hp, hkind c ck hc, hkinds⟩
  · intro r
    show d.root = some r ↔ _
    rw [h.root r, hparent]
    constructor
    · rintro ⟨hr, hr'⟩
      exact ⟨hr, hkind r _ hr'⟩
    · rintro ⟨hr, hr'⟩
      rw [kind?_eq_of_value? (value?_push_of_lt value (lt_size_of_link hr))] at hr'
      exact ⟨hr, hr'⟩
  · intro x v hx
    rw [value?_push] at hx
    split at hx
    · cases hx
      exact hvalue
    · exact h.readable x v hx

theorem of_attach (h : WellFormed d) {pk ck : NodeKind} (hp : d.kind? p = some pk)
    (hc : d.kind? c = some ck) (hkinds : checkKinds pk ck = .ok ())
    (hdetached : d.parent? c = none) (habove : c ∉ d.ancestorsOrSelf p)
    (hroot : p = documentNode → ck = .element → d.root = none) : WellFormed (d.attach p c) := by
  have hplt := lt_size_of_kind? hp
  have hclt := lt_size_of_kind? hc
  have hlinked : Linked (d.attach p c) _ :=
    (h.linked.link hplt hclt hdetached fun l hl =>
      hl.unique (h.linked.chain_parent hplt) ▸ habove).of_nodes (nodes_attach d p c)
  have hparent : ∀ x, (d.attach p c).parent? x = if c = x then some p else d.parent? x := by
    intro x
    rw [parent?, node?_attach]
    exact parent?_link hclt x
  have hkind : ∀ x, (d.attach p c).kind? x = d.kind? x := fun x =>
    kind?_eq_of_value? (value?_attach d p c x)
  refine ⟨hlinked.self, ?_, ?_, ?_, ?_, ?_⟩
  · rw [hkind, h.top]
  · intro q y hy
    rw [hparent] at hy
    rw [hkind, hkind]
    split at hy
    · rename_i hcy
      cases hy
      exact ⟨pk, ck, hp, hcy ▸ hc, hkinds⟩
    · exact h.kinds q y hy
  · intro r
    rw [hparent, hkind]
    have helement : d.isElement c = true ↔ ck = .element := by
      rw [isElement, hc]
      simp
    unfold attach
    split
    · rename_i hcond
      simp only [Bool.and_eq_true, decide_eq_true_eq, helement] at hcond
      by_cases hr : c = r
      · subst hr
        simp [hcond.1, hc, hcond.2]
      · have hnone := hroot hcond.1 hcond.2
        rw [if_neg hr, ← h.root r, hnone]
        simp [hr]
    · rename_i hcond
      simp only [Bool.and_eq_true, decide_eq_true_eq, helement, not_and] at hcond
      rw [root_link, h.root r]
      by_cases hr : c = r
      · subst hr
        rw [if_pos rfl, hdetached, hc]
        simp only [Option.some.injEq, reduceCtorEq, false_and, false_iff, not_and]
        exact hcond
      · rw [if_neg hr]
  · rw [pool_attach]
    exact h.pool
  · intro x value hx
    rw [value?_attach] at hx
    rw [pool_attach]
    exact h.readable x value hx

theorem of_unlink (h : WellFormed d) (id : NodeId) : WellFormed (d.unlink id) := by
  have hkind : ∀ x, (d.unlink id).kind? x = d.kind? x := fun x =>
    kind?_eq_of_value? (value?_unlink d id x)
  refine ⟨(h.linked.unlink id).self, ?_, ?_, ?_, ?_, ?_⟩
  · rw [hkind, h.top]
  · intro p c hc
    rw [parent?_unlink] at hc
    rw [hkind, hkind]
    split at hc
    · cases hc
    · exact h.kinds p c hc
  · intro r
    rw [parent?_unlink, hkind]
    show (if d.root = some id then none else d.root) = some r ↔ _
    by_cases hr : id = r
    · subst hr
      rw [if_pos rfl]
      split <;> simp_all
    · rw [if_neg hr, ← h.root r]
      split
      · rename_i hid
        simp [hid, hr]
      · rfl
  · rw [pool_unlink]
    exact h.pool
  · intro x value hx
    rw [value?_unlink] at hx
    rw [pool_unlink]
    exact h.readable x value hx

theorem of_revalue (h : WellFormed d) {f : NodeValue → NodeValue}
    (hf : ∀ value, d.value? id = some value →
      (f value).kind = value.kind ∧ (f value).Readable d.pool) : WellFormed (d.setValue id f) := by
  have hkind : ∀ x, (d.setValue id f).kind? x = d.kind? x := by
    intro x
    rw [kind?, value?_setValue]
    split
    · rename_i hx
      subst hx
      rw [kind?]
      rcases hv : d.value? id with _ | value
      · rfl
      · simp [(hf value hv).1]
    · rfl
  have hparent : ∀ x, (d.setValue id f).parent? x = d.parent? x :=
    link_setValue f (fun _ _ => rfl) id
  refine ⟨?_, ?_, ?_, ?_, h.pool, ?_⟩
  · exact (h.linked.of_links hparent (link_setValue f (fun _ _ => rfl) id)
      (link_setValue f (fun _ _ => rfl) id) (link_setValue f (fun _ _ => rfl) id)
      (link_setValue f (fun _ _ => rfl) id)).self
  · rw [hkind, h.top]
  · intro p c hc
    rw [hparent] at hc
    rw [hkind, hkind]
    exact h.kinds p c hc
  · intro r
    rw [hparent, hkind]
    exact h.root r
  · intro x value hx
    rw [value?_setValue] at hx
    split at hx
    · rename_i hid
      subst hid
      obtain ⟨v, hv, rfl⟩ := Option.map_eq_some_iff.mp hx
      exact (hf v hv).2
    · exact h.readable x value hx

theorem of_step (h : WellFormed d) (hstep : Step d d') : WellFormed d' := by
  cases hstep with
  | intern s => exact h.of_intern s
  | push hvalue => exact h.of_push hvalue
  | attach hp hc hkinds hdetached habove hroot =>
      exact h.of_attach hp hc hkinds hdetached habove hroot
  | unlink id => exact h.of_unlink id
  | revalue hf => exact h.of_revalue hf

theorem of_steps (h : WellFormed d) (hsteps : Steps d d') : WellFormed d' := by
  induction hsteps with
  | refl => exact h
  | tail _ hstep ih => exact ih.of_step hstep

end WellFormed

/-- A document without a root element is well-formed. -/
theorem wellFormed_empty (hashOf : String → UInt64) : WellFormed (.empty hashOf) := by
  have hnode : ∀ x n, (empty hashOf).node? x = some n → n = { value := .document } := by
    intro x n hn
    obtain ⟨hlt, hget⟩ := Array.getElem?_eq_some_iff.mp hn
    obtain rfl : x = 0 := Nat.lt_one_iff.mp hlt
    exact hget.symm
  have hlink : ∀ {α : Type} (g : Node → Option α), g { value := .document } = none →
      ∀ x, ((empty hashOf).node? x).bind g = none := by
    intro α g hg x
    rcases hn : (empty hashOf).node? x with _ | n
    · rfl
    · rw [hnode x n hn]
      exact hg
  have hparent := hlink (·.parent) rfl
  have hlinked : Linked (empty hashOf) fun _ => [] := by
    refine ⟨fun _ => List.nodup_nil, hlink (·.firstChild) rfl, hlink (·.lastChild) rfl, ?_, ?_, ?_,
      fun c _ => ⟨hlink (·.previous) rfl c, hlink (·.next) rfl c⟩, ?_⟩
    · intro p c
      rw [parent?, hparent]
      simp
    · intro p before c after heq
      simp at heq
    · intro p before c after heq
      simp at heq
    · intro id
      refine ⟨[id], .cons ?_⟩
      rw [parent?, hparent]
      exact .nil
  refine ⟨hlinked.self, rfl, ?_, ?_, Pool.valid_empty hashOf, ?_⟩
  · intro p c hc
    rw [parent?, hparent] at hc
    cases hc
  · intro r
    rw [parent?, hparent]
    show none = some r ↔ _
    simp
  · intro x value hx
    obtain ⟨n, hn, rfl⟩ := Option.map_eq_some_iff.mp hx
    rw [hnode x n hn]
    exact ⟨by simp [NodeValue.strings], List.nodup_nil⟩

end Document

end PersistenceMapping
