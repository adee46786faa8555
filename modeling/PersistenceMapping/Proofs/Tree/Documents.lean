/-
The nodes that are documents.

Every document starts with one node that stands for the document itself, and there is one way to
get another: cloning such a node, which makes one detached copy of it (`kind?_perform`).  What is
built from tokens adds no other, and neither does importing, as documents are not imported and
no document stands below another node.  So the nodes of this kind are counted by the clonings
(`Cloned`), and where none was cloned, node 0 is the only one.

The root element is the element below node 0, however often documents were cloned.  It does not
say anything of the copies of documents, below which any number of elements may be put.

### How the count goes

Each way to change a document is one of the lemmas on kinds below.  Interning and linking leave
the kinds alone, and of a node that is made the kind is known.  For copies the induction is on
the levels that are copied, with the children of one node after the other inside.
-/
import PersistenceMapping.Proofs.Tree.Body
import PersistenceMapping.Proofs.Tree.Reach
import PersistenceMapping.Proofs.Tree.Taken
import PersistenceMapping.Tree.Element

namespace PersistenceMapping

/-- How many nodes that are documents a request clones. -/
def Request.clones (request : Request) (d : Document) : Nat :=
  match request with
  | .cloneSubtree id => if d.kind? id = some .document then 1 else 0
  | _ => 0

namespace Document

variable {d d' d'' o : Document} {id x : NodeId} {value : NodeValue} {kind : NodeKind} {n : Nat}

/-- The nodes that are documents. -/
def documentNodes (d : Document) : List NodeId :=
  (List.range d.nodes.size).filter fun id => d.kind? id = some .document

/-- The documents that can be made, with the number of times that a document was cloned. -/
inductive Cloned : Nat → Document → Prop
  | empty (hashOf : String → UInt64) : Cloned 0 (.empty hashOf)
  | built {strict : Bool} {s : TokenStream} {d : Document} (h : ofStream strict s = .ok d) :
      Cloned 0 d
  | request {n : Nat} {d : Document} (h : Cloned n d) (request : Request) :
      Cloned (n + request.clones d) (request.perform d)
  | importNode {n : Nat} {d source : Document} (h : Cloned n d) (hsource : Reachable source)
      (id : NodeId) : Cloned n ((Edit.importNode source id).apply d).2

/-- Whatever can be made is made with some number of clonings. -/
theorem reachable_iff_cloned : Reachable d ↔ ∃ n, Cloned n d := by
  constructor
  · intro h
    induction h with
    | empty hashOf => exact ⟨0, .empty hashOf⟩
    | built h => exact ⟨0, .built h⟩
    | request _ request ih =>
        obtain ⟨n, hn⟩ := ih
        exact ⟨_, hn.request request⟩
    | importNode _ hsource id ih _ =>
        obtain ⟨n, hn⟩ := ih
        exact ⟨n, hn.importNode hsource id⟩
  · rintro ⟨n, h⟩
    induction h with
    | empty hashOf => exact .empty hashOf
    | built h => exact .built h
    | request _ request ih => exact ih.request request
    | importNode _ hsource id ih => exact ih.importNode hsource id

/-! ### Kinds of nodes -/

theorem kind?_of_le (h : d.nodes.size ≤ x) : d.kind? x = none := by
  rcases hkind : d.kind? x with _ | kind
  · rfl
  · exact absurd (lt_size_of_kind? hkind) (Nat.not_lt.mpr h)

/-- The same nodes are documents. -/
def SameDocuments (d d' : Document) : Prop :=
  ∀ x, d'.kind? x = some .document ↔ d.kind? x = some .document

theorem SameDocuments.trans (h : SameDocuments d d') (h' : SameDocuments d' d'') :
    SameDocuments d d'' :=
  fun x => (h' x).trans (h x)

theorem SameDocuments.of_kind? (h : ∀ x, d'.kind? x = d.kind? x) : SameDocuments d d' := by
  intro x
  rw [h]

theorem Interned.sameDocuments (h : Interned d d') : SameDocuments d d' := by
  refine .of_kind? fun x => ?_
  rw [kind?, kind?, value?, value?, node?, node?, h.nodes]

/-- A node that is made is a document if its value says so. -/
theorem Made.document_iff {made : NodeId × Document} (h : Made d value made) (x : NodeId) :
    made.2.kind? x = some .document ↔
      d.kind? x = some .document ∨ x = d.nodes.size ∧ value.kind = .document := by
  by_cases hx : x = d.nodes.size
  · have hmade : made.2.kind? x = some value.kind := by
      rw [hx, ← h.id]
      exact h.kind?
    rw [hmade, kind?_of_le (Nat.le_of_eq hx.symm)]
    simp [hx]
  · have hold : made.2.kind? x = d.kind? x := by
      rw [Document.kind?, Document.kind?, Document.value?, Document.value?, h.node?, if_neg hx]
    rw [hold]
    simp [hx]

theorem Made.sameDocuments {made : NodeId × Document} (h : Made d value made)
    (hkind : value.kind ≠ .document) : SameDocuments d made.2 := by
  intro x
  rw [h.document_iff]
  simp [hkind]

theorem kind?_attach (d : Document) (p c x : NodeId) : (d.attach p c).kind? x = d.kind? x :=
  kind?_eq_of_value? (value?_attach d p c x)

/-- A move leaves the kinds of nodes alone. -/
theorem kind?_move (d : Document) (p c x : NodeId) : (d.move p c).kind? x = d.kind? x := by
  rw [move, kind?_attach]
  exact kind?_eq_of_value? (value?_unlink d c x)

theorem kind?_setValue {f : NodeValue → NodeValue} (hf : ∀ value, (f value).kind = value.kind)
    (x : NodeId) : (d.setValue id f).kind? x = d.kind? x := by
  rw [kind?, kind?, value?_setValue]
  by_cases hx : id = x
  · rw [if_pos hx, Option.map_map]
    cases d.value? x with
    | none => rfl
    | some value => exact congrArg some (hf value)
  · rw [if_neg hx]

/-! ### Requests that clone nothing -/

theorem sameDocuments_putAttribute (d : Document) (id : NodeId) (name value : String) :
    SameDocuments d (d.putAttribute id name value) := by
  have hname := (Interned.intern d name).sameDocuments
  have hvalue := (Interned.intern (d.intern name).2 value).sameDocuments
  refine (hname.trans hvalue).trans (.of_kind? fun x => kind?_setValue (fun v => ?_) x)
  cases v <;> rfl

theorem sameDocuments_dropAttribute (d : Document) (id : NodeId) (name : String) :
    SameDocuments d (d.dropAttribute id name) := by
  refine .of_kind? fun x => kind?_setValue (fun v => ?_) x
  cases v <;> rfl

theorem sameDocuments_putName (d : Document) (id : NodeId) (name : String) :
    SameDocuments d (d.putName id name) := by
  have hname := (Interned.intern d name).sameDocuments
  refine hname.trans (.of_kind? fun x => kind?_setValue (fun v => ?_) x)
  cases v <;> rfl

theorem SameDocuments.refl (d : Document) : SameDocuments d d :=
  fun _ => Iff.rfl

/-! ### Copies

The copy of a node is of the kind of the original.  Below a node there are no documents, so
there are none below its copy, and only the top of a copy may be one.
-/

section Copies

variable {copyNode : Document → NodeId → NodeId × Document}
  {childrenOf : Document → NodeId → List NodeId} {Meets : Document → NodeId → List NodeId → Prop}
  {Target : Document → Prop} {depth : Nat} {copy : NodeId}

/-- The copy of a node alone is a document if the original is. -/
theorem Copying.document_copyNode (h : Copying o copyNode childrenOf Meets Target) (hd : Target d)
    (hid : o.kind? id = some kind) (x : NodeId) :
    (copyNode d id).2.kind? x = some .document ↔
      d.kind? x = some .document ∨ x = d.nodes.size ∧ kind = .document := by
  obtain ⟨value, hvalue, rfl⟩ := Option.map_eq_some_iff.mp hid
  obtain ⟨value', hmade, hkind⟩ := h.made d id value hd hvalue
  rw [hmade.document_iff, hkind]

/-- Copying nodes that are no documents, each with what is below it, adds no documents. -/
theorem Copying.sameDocuments_copyBelow (h : Copying o copyNode childrenOf Meets Target)
    (hd : Target d) (hid : o.kind? id = some kind)
    (hchild : ∀ d c ck, Target d → o.kind? c = some ck → ck ≠ .document →
      SameDocuments d (copyTree copyNode childrenOf depth d c).2)
    (children : List NodeId) (hchildren : ∀ c ∈ children, o.parent? c = some id)
    (hbegun : Begun d kind (copy, d')) :
    SameDocuments d' (copyBelow (copyTree copyNode childrenOf depth) copy d' children) := by
  induction children generalizing d' with
  | nil => exact .refl d'
  | cons c rest ih =>
      have hc := hchildren c (by simp)
      have hd' := h.grown d d' hd hbegun.grown
      obtain ⟨pk, ck, -, hck, -⟩ := h.original.kinds id c hc
      have hnot : ck ≠ .document := by
        rintro rfl
        exact h.original.kind?_child ((h.original.linked.parent id c).mp hc) hck
      have hlink : Begun d kind
          (copy, (copyTree copyNode childrenOf depth d' c).2.link copy
            (copyTree copyNode childrenOf depth d' c).1) :=
        h.begun_link hd hid hc hbegun fun ck hck => h.begun_copyTree hd' hck
      rw [copyBelow_cons]
      refine SameDocuments.trans ?_ (ih (fun c hc => hchildren c (by simp [hc])) hlink)
      refine (hchild d' c ck hd' hck hnot).trans (.of_kind? fun x => ?_)
      exact kind?_eq_of_value? (value?_link _ _ _ _)

/-- Copying a subtree adds a document if that is what is copied, and it is the top of the copy. -/
theorem Copying.document_copyTree (h : Copying o copyNode childrenOf Meets Target) (hd : Target d)
    (hid : o.kind? id = some kind) (x : NodeId) :
    (copyTree copyNode childrenOf depth d id).2.kind? x = some .document ↔
      d.kind? x = some .document ∨ x = d.nodes.size ∧ kind = .document := by
  induction depth generalizing d id kind x with
  | zero => exact h.document_copyNode hd hid x
  | succ depth ih =>
      have hbegun : Begun d kind (copyNode d id) := h.begun_top hd hid
      rw [← h.document_copyNode hd hid, copyTree_succ,
        h.children _ id (h.grown d _ hd hbegun.grown) (lt_size_of_kind? hid)]
      refine h.sameDocuments_copyBelow hd hid (fun d c ck hd hck hnot x => ?_) _ (fun c hc => ?_)
        hbegun x
      · rw [ih hd hck]
        simp [hnot]
      · exact (h.original.linked.parent id c).mpr hc

end Copies

theorem sameDocuments_importNode (h : WellFormed d) {source : Document}
    (hsource : WellFormed source) (id : NodeId) :
    SameDocuments d ((Edit.importNode source id).apply d).2 := by
  unfold Edit.importNode
  split
  · exact .refl d
  · exact .refl d
  · rename_i kind hnot hkind
    intro x
    refine ((copying_importValue hsource).document_copyTree h hkind x).trans ?_
    exact or_iff_left fun hnew => hnot hnew.2

theorem document_cloneTree (h : WellFormed d) (hid : d.kind? id = some kind) (x : NodeId) :
    (d.cloneTree id).2.kind? x = some .document ↔
      d.kind? x = some .document ∨ x = d.nodes.size ∧ kind = .document :=
  (copying_children h).document_copyTree ⟨h, .refl d⟩ hid x

/-! ### The number of documents -/

@[simp] theorem mem_documentNodes : x ∈ d.documentNodes ↔ d.kind? x = some .document := by
  rw [documentNodes, List.mem_filter, List.mem_range, decide_eq_true_iff]
  exact and_iff_right_of_imp lt_size_of_kind?

theorem nodup_documentNodes (d : Document) : d.documentNodes.Nodup :=
  List.nodup_range.filter _

theorem SameDocuments.length_eq (h : SameDocuments d d') :
    d'.documentNodes.length = d.documentNodes.length := by
  refine List.Perm.length_eq ?_
  rw [List.perm_ext_iff_of_nodup (nodup_documentNodes d') (nodup_documentNodes d)]
  intro x
  rw [mem_documentNodes, mem_documentNodes]
  exact h x

/-- A document more is one more to count. -/
theorem length_documentNodes_of_new
    (h : ∀ x, d'.kind? x = some .document ↔ d.kind? x = some .document ∨ x = d.nodes.size) :
    d'.documentNodes.length = d.documentNodes.length + 1 := by
  have hnew : d.nodes.size ∉ d.documentNodes := by
    rw [mem_documentNodes, kind?_of_le (Nat.le_refl _)]
    nofun
  rw [← List.length_cons (a := d.nodes.size)]
  refine List.Perm.length_eq ?_
  rw [List.perm_ext_iff_of_nodup (nodup_documentNodes d')
    (List.nodup_cons.mpr ⟨hnew, nodup_documentNodes d⟩)]
  intro x
  rw [List.mem_cons, mem_documentNodes, mem_documentNodes, h x]
  exact or_comm

theorem length_documentNodes_clone (h : WellFormed d) (id : NodeId) :
    ((Request.cloneSubtree id).perform d).documentNodes.length =
      d.documentNodes.length + (Request.cloneSubtree id).clones d := by
  show ((Edit.cloneSubtree id).apply d).2.documentNodes.length =
    d.documentNodes.length + if d.kind? id = some .document then 1 else 0
  unfold Edit.cloneSubtree
  rw [apply_require]
  rcases hnode : d.checkNode id with e | node
  · -- There is no such node, and nothing is done.
    have hkind : d.kind? id = none := by
      rcases hfound : d.node? id with _ | node
      · rw [kind?, value?, hfound]
        rfl
      · simp [checkNode, hfound] at hnode
    rw [hkind, if_neg (by simp only [reduceCtorEq, not_false_eq_true]), Nat.add_zero]
  · have hid : d.kind? id = some node.value.kind := by
      rw [kind?, value?, checkNode_eq_ok hnode]
      rfl
    by_cases hdocument : node.value.kind = .document
    · rw [hid, hdocument, if_pos rfl]
      refine length_documentNodes_of_new fun x => (document_cloneTree h hid x).trans ?_
      rw [and_iff_left hdocument]
    · rw [hid, if_neg (by simpa using hdocument), Nat.add_zero]
      refine SameDocuments.length_eq fun x => (document_cloneTree h hid x).trans ?_
      exact or_iff_left fun hnew => hdocument hnew.2

/-- A request adds the documents that it clones. -/
theorem length_documentNodes_perform (h : WellFormed d) (request : Request) :
    (request.perform d).documentNodes.length = d.documentNodes.length + request.clones d := by
  cases request with
  | createElement name =>
      obtain ⟨_, _, _, hmade, -⟩ := made_pushElement h name none []
      exact (hmade.sameDocuments (by simp [NodeValue.kind])).length_eq
  | createText content =>
      exact ((made_pushText h content).sameDocuments (by simp [NodeValue.kind])).length_eq
  | append parent child =>
      refine SameDocuments.length_eq (of_apply_require (.refl d) fun _ _ => ?_)
      exact .of_kind? (kind?_move d parent child)
  | setAttribute id name value =>
      refine SameDocuments.length_eq (of_apply_require (.refl d) fun _ _ => ?_)
      exact sameDocuments_putAttribute d id name value
  | removeAttribute id name =>
      refine SameDocuments.length_eq (of_apply_require (.refl d) fun _ _ => ?_)
      exact sameDocuments_dropAttribute d id name
  | rename id name =>
      refine SameDocuments.length_eq (of_apply_require (.refl d) fun _ _ => ?_)
      exact sameDocuments_putName d id name
  | cloneSubtree id => exact length_documentNodes_clone h id

/-! ### What is built from tokens -/

end Document

namespace Builder

open Document

variable {b b' : Builder} {strict : Bool} {token : Token}

namespace Sound

theorem sameDocuments_enter (h : b.Sound) (tag : StartTag) :
    SameDocuments b.document (b.enter tag).document := by
  obtain ⟨_, _, _, hmade, -⟩ := made_pushElement h.wellFormed tag.name tag.ns tag.attributes
  rw [h.document_enter tag]
  refine (hmade.sameDocuments (by simp [NodeValue.kind])).trans (.of_kind? fun x => ?_)
  exact kind?_attach _ _ _ x

/-- No token makes a document. -/
theorem sameDocuments_read (h : b.Sound) (hread : b.read strict token = .ok b') :
    SameDocuments b.document b'.document := by
  cases h.reads hread with
  | enter tag => exact h.sameDocuments_enter tag
  | append hmade hkind =>
      refine (hmade.sameDocuments hkind.2).trans (.of_kind? fun x => ?_)
      exact kind?_eq_of_value? (value?_link _ _ _ x)
  | leave | pass => exact .refl _

/-- What is built has the documents that there were at the start. -/
theorem sameDocuments_run (h : b.Sound) {failure : Option TokenError} {items : List Outcome}
    {d : Document} (hrun : b.run strict failure items = .ok d) : SameDocuments b.document d := by
  obtain ⟨b', ⟨-, hsame⟩, hfinish⟩ := exists_finish_of_run
    (P := fun b' => b'.Sound ∧ SameDocuments b.document b'.document)
    (fun hb hread => ⟨hb.1.read hread, hb.2.trans (hb.1.sameDocuments_read hread)⟩)
    ⟨h, .refl _⟩ hrun
  obtain ⟨rfl, -, -⟩ := finish_eq_ok hfinish
  exact hsame

end Sound

end Builder

namespace Document

variable {d : Document} {n : Nat}

theorem sameDocuments_ofStream {strict : Bool} {s : TokenStream} (h : ofStream strict s = .ok d) :
    SameDocuments .empty d := by
  obtain ⟨failure, items, hrun⟩ := exists_run_of_ofStream h
  exact Builder.Sound.initial.sameDocuments_run hrun

/-! ### One document and one root -/

/-- There is one node for the document itself, and the root is the element below it. -/
structure OneRoot (d : Document) : Prop where
  top : d.kind? documentNode = some .document
  /-- Documents stand below no node. -/
  apart : ∀ id, d.kind? id = some .document → d.parent? id = none
  root : ∀ r, d.root = some r ↔ r ∈ d.elementChildren documentNode
  one : (d.elementChildren documentNode).length ≤ 1

theorem WellFormed.oneRoot (h : WellFormed d) : OneRoot d := by
  have hroot : ∀ r, d.root = some r ↔ r ∈ d.elementChildren documentNode := by
    intro r
    rw [h.root r, elementChildren, List.mem_filter, ← h.linked.parent documentNode r, isElement,
      beq_iff_eq]
  refine ⟨h.top, fun id hid => ?_, hroot, ?_⟩
  · rcases hparent : d.parent? id with _ | p
    · rfl
    · exact absurd hid (h.kind?_child ((h.linked.parent p id).mp hparent))
  · rcases hr : d.root with _ | r
    · have hnone : d.elementChildren documentNode = [] := by
        rw [List.eq_nil_iff_forall_not_mem]
        intro r hmem
        rw [← hroot r, hr] at hmem
        cases hmem
      rw [hnone]
      exact Nat.zero_le 1
    · rw [elementChildren, h.elements_top hr, List.length_singleton]

/-- The documents are counted by the clonings. -/
theorem Cloned.length_documentNodes (h : Cloned n d) : d.documentNodes.length = n + 1 := by
  induction h with
  | empty hashOf => rfl
  | built h => exact (sameDocuments_ofStream h).length_eq
  | @request n d h request ih =>
      have hreachable := reachable_iff_cloned.mpr ⟨n, h⟩
      rw [length_documentNodes_perform hreachable.wellFormed, ih]
      omega
  | @importNode n d source h hsource id ih =>
      have hreachable := reachable_iff_cloned.mpr ⟨n, h⟩
      rw [(sameDocuments_importNode hreachable.wellFormed hsource.wellFormed id).length_eq, ih]

/-- However a document was made, its root is the one element below node 0, and there is one node
more for each time that a document was cloned.  Where that was never done, node 0 is the only
document. -/
theorem documents_of_reachable (h : Reachable d) :
    OneRoot d ∧ ∀ n, Cloned n d → d.documentNodes.length = n + 1 ∧
      (n = 0 → ∀ id, d.kind? id = some .document →
        id = documentNode ∧ (d.elementChildren id).length ≤ 1) := by
  have honeRoot := h.wellFormed.oneRoot
  refine ⟨honeRoot, fun n hn => ⟨hn.length_documentNodes, ?_⟩⟩
  rintro rfl id hid
  obtain ⟨first, hfirst⟩ := List.length_eq_one_iff.mp hn.length_documentNodes
  have htop : documentNode ∈ d.documentNodes := mem_documentNodes.mpr honeRoot.top
  have hmem : id ∈ d.documentNodes := mem_documentNodes.mpr hid
  rw [hfirst, List.mem_singleton] at htop hmem
  obtain rfl : id = documentNode := hmem.trans htop.symm
  exact ⟨rfl, honeRoot.one⟩

/-- A root that was cloned and moved: there is one document, and one root below it. -/
theorem documents_of_cloned_root :
    let requests : List Request := [.createElement "a", .append 0 1, .cloneSubtree 1,
      .append 1 2, .rename 2 "b"]
    let d := requests.foldl (fun d request => request.perform d) (.empty)
    Reachable d ∧ Cloned 0 d ∧ d.documentNodes = [0] ∧ d.root = some 1 ∧
      d.elementChildren 0 = [1] ∧ (∀ id, d.kind? id = some .document → id = documentNode) := by
  intro requests d
  have hcloned : Cloned 0 d := by
    have hempty : Cloned 0 Document.empty := .empty Pool.polynomialHash
    exact ((((hempty.request (.createElement "a")).request (.append 0 1)).request
      (.cloneSubtree 1)).request (.append 1 2)).request (.rename 2 "b")
  have hnodes : d.documentNodes = [0] := by decide +kernel
  have hroot : d.root = some 1 := by decide +kernel
  have helements : d.elementChildren 0 = [1] := by decide +kernel
  have hreachable : Reachable d := reachable_iff_cloned.mpr ⟨0, hcloned⟩
  clear_value requests d
  refine ⟨hreachable, hcloned, hnodes, hroot, helements, fun id hid => ?_⟩
  exact (((documents_of_reachable hreachable).2 0 hcloned).2 rfl id hid).1

/-- A document that was cloned: there is another node that is a document, with two elements below
it, and neither of them is the root. -/
theorem documents_of_cloned_document :
    let requests : List Request := [.cloneSubtree 0, .createElement "a", .createElement "b",
      .append 1 2, .append 1 3]
    let d := requests.foldl (fun d request => request.perform d) (.empty)
    Reachable d ∧ d.documentNodes = [0, 1] ∧ d.elementChildren 1 = [2, 3] ∧ d.root = none := by
  intro requests d
  have hreachable : Reachable d :=
    (((((Reachable.empty Pool.polynomialHash).request (.cloneSubtree 0)).request
      (.createElement "a")).request (.createElement "b")).request (.append 1 2)).request
      (.append 1 3)
  have hnodes : d.documentNodes = [0, 1] := by decide +kernel
  have helements : d.elementChildren 1 = [2, 3] := by decide +kernel
  have hroot : d.root = none := by decide +kernel
  exact ⟨hreachable, hnodes, helements, hroot⟩

end Document

end PersistenceMapping
