/-
No edit looks up a node that does not exist.

Checks come first, and after a check nodes are changed by their numbers.  That these are numbers of
nodes has two reasons: what has been checked exists, and what a node is linked to exists
(`link?_eq`, `unlink?_eq`).  A copy is made of nodes that exist and of the nodes that it has made
itself, and it meets the lowest nodes before its levels are used up, because there are no more
levels than nodes.

So an edit over changes that take numbers for granted gives, in every well-formed document and for
whatever numbers, just what the edit gives (`IndexedEdit.Follows`).
-/
import PersistenceMapping.Proofs.Tree.Operation
import PersistenceMapping.Tree.Indexed

namespace PersistenceMapping

namespace Document

variable {d d' o : Document} {kids : NodeId → List NodeId} {id p c copy : NodeId} {kind : NodeKind}

/-! ### Places -/

theorem indexed_of_lt {α : Type} (h : id < d.nodes.size) (result : α) :
    d.indexed id result = some result :=
  if_pos h

theorem modify?_of_lt (h : id < d.nodes.size) (f : Node → Node) :
    d.modify? id f = some (d.modify id f) :=
  if_pos h

/-- What a node is linked to exists, so linking meets nothing that does not. -/
theorem Linked.link?_eq (h : Linked d kids) (hp : p < d.nodes.size) (hc : c < d.nodes.size) :
    d.link? p c = some (d.link p c) := by
  obtain ⟨n, hn⟩ := node?_eq_some hp
  have hlast : d.lastChild? p = n.lastChild := by rw [lastChild?, hn]; rfl
  have hlt : ∀ last, n.lastChild = some last → last < d.nodes.size :=
    fun last hl => h.lastChild_lt (hlast.trans hl)
  unfold link? Document.link
  rw [hn, hlast, Option.bind_some]
  cases hl : n.lastChild with
  | none => simp [hp, hc, modify?_of_lt]
  | some last => simp [hp, hc, hlt last hl, modify?_of_lt]

theorem Linked.unlink?_eq (h : Linked d kids) (hid : id < d.nodes.size) :
    d.unlink? id = some (d.unlink id) := by
  obtain ⟨n, hn⟩ := node?_eq_some hid
  have hparent : d.parent? id = n.parent := by rw [parent?, hn]; rfl
  have hprevious : d.previous? id = n.previous := by rw [previous?, hn]; rfl
  have hnext : d.next? id = n.next := by rw [next?, hn]; rfl
  have hp : ∀ p, n.parent = some p → p < d.nodes.size :=
    fun p hp => h.parent_lt ((h.parent p id).mp (hparent.trans hp))
  have hb : ∀ b, n.previous = some b → b < d.nodes.size :=
    fun b hb => h.sibling_lt (Or.inl (hprevious.trans hb))
  have ha : ∀ a, n.next = some a → a < d.nodes.size :=
    fun a ha => h.sibling_lt (Or.inr (hnext.trans ha))
  unfold unlink? Document.unlink
  rw [hn, hparent, hprevious, hnext, Option.bind_some]
  cases hp' : n.parent <;> cases hb' : n.previous <;> cases ha' : n.next <;>
    simp [hid, hp, hb, ha, hp', hb', ha', modify?_of_lt]

theorem WellFormed.move?_eq (h : WellFormed d) (hcheck : d.checkMove p c = .ok ()) :
    d.move? p c = some (d.move p c) := by
  obtain ⟨pk, ck, hp, hc, -⟩ := checkMove_eq_ok hcheck
  have hplt : p < (d.unlink c).nodes.size := by rw [size_unlink]; exact lt_size_of_kind? hp
  have hclt : c < (d.unlink c).nodes.size := by rw [size_unlink]; exact lt_size_of_kind? hc
  rw [move?, h.linked.unlink?_eq (lt_size_of_kind? hc), Option.bind_some, attach?,
    (h.linked.unlink c).link?_eq hplt hclt]
  rfl

/-! ### Copies -/

section

variable {copyNode : Document → NodeId → NodeId × Document}
  {copyNode? : Document → NodeId → Option (NodeId × Document)}
  {childrenOf : Document → NodeId → List NodeId} {Meets : Document → NodeId → List NodeId → Prop}
  {Target : Document → Prop} {depth : Nat}

/-- Where all children can be copied, each copy and the node that it is linked to exist. -/
theorem Copying.copyBelow?_eq (h : Copying o copyNode childrenOf Meets Target) (hd : Target d)
    (hid : o.kind? id = some kind) (children : List NodeId)
    (hchildren : ∀ c ∈ children, o.parent? c = some id)
    (hchild : ∀ d c, Target d → o.parent? c = some id →
      copyTree? copyNode? childrenOf (depth + 1) d c = some (copyTree copyNode childrenOf depth d c))
    (hbegun : Begun d kind (copy, d')) :
    copyBelow? (copyTree? copyNode? childrenOf (depth + 1)) copy d' children =
      some (copyBelow (copyTree copyNode childrenOf depth) copy d' children) := by
  induction children generalizing d' with
  | nil => rfl
  | cons c rest ih =>
      have hc := hchildren c List.mem_cons_self
      have hd' := h.grown d d' hd hbegun.grown
      obtain ⟨_, ck, -, hck, -⟩ := h.original.kinds id c hc
      have hmade : Begun d' ck (copyTree copyNode childrenOf depth d' c) := h.begun_copyTree hd' hck
      have hcopy := Nat.lt_of_lt_of_le (lt_size_of_kind? hbegun.kind) hmade.grown.size_le
      have hlinked := ((h.target d' hd').of_steps hmade.grown.steps).linked
      rw [copyBelow?, hchild d' c hd' hc, Option.bind_some, copyBelow_cons]
      simp only
      rw [hlinked.link?_eq hcopy (lt_size_of_kind? hmade.kind), Option.bind_some]
      refine ih (fun c hc => hchildren c (List.mem_cons_of_mem _ hc)) ?_
      exact h.begun_link hd hid hc hbegun fun ck hck => h.begun_copyTree hd' hck

/-- Where the levels reach down as far as there are nodes, a copy takes nothing for granted that
does not exist. -/
theorem Copying.copyTree?_eq (h : Copying o copyNode childrenOf Meets Target)
    (hcopy : ∀ d id, Target d → id < o.nodes.size → copyNode? d id = some (copyNode d id))
    (hd : Target d) (hid : id < o.nodes.size)
    (hdepth : o.nodes.size ≤ (o.ancestorsOrSelf id).length + depth) :
    copyTree? copyNode? childrenOf (depth + 1) d id =
      some (copyTree copyNode childrenOf depth d id) := by
  have hlinked := h.original.linked
  induction depth generalizing d id with
  | zero =>
      obtain ⟨kind, hkind⟩ := kind?_eq_some hid
      have hbegun : Begun d kind (copyNode d id) := h.begun_top hd hkind
      have hkids := h.children _ id (h.grown d (copyNode d id).2 hd hbegun.grown) hid
      have hnil : o.children id = [] := by
        refine List.eq_nil_iff_forall_not_mem.mpr fun c hc => ?_
        have hlen := hlinked.length_ancestors_le (hlinked.child_lt hc)
        rw [hlinked.ancestors_child hc, List.length_cons] at hlen
        omega
      rw [copyTree?, hcopy d id hd hid, Option.bind_some]
      simp only [hkids, hnil, copyBelow?]
      rfl
  | succ depth ih =>
      obtain ⟨kind, hkind⟩ := kind?_eq_some hid
      have hbegun : Begun d kind (copyNode d id) := h.begun_top hd hkind
      have hkids := h.children _ id (h.grown d (copyNode d id).2 hd hbegun.grown) hid
      have hchild : ∀ d c, Target d → o.parent? c = some id →
          copyTree? copyNode? childrenOf (depth + 1) d c =
            some (copyTree copyNode childrenOf depth d c) := by
        intro d c hd hc
        have hmem := (hlinked.parent id c).mp hc
        refine ih hd (hlinked.child_lt hmem) ?_
        rw [hlinked.ancestors_child hmem, List.length_cons]
        omega
      have hbelow := h.copyBelow?_eq hd hkind (o.children id)
        (fun c hc => (hlinked.parent id c).mpr hc) hchild hbegun
      rw [copyTree?, hcopy d id hd hid, Option.bind_some, copyTree_succ]
      simp only [hkids, hbelow]
      rfl

theorem WellFormed.cloneTree?_eq (h : WellFormed d) (hid : id < d.nodes.size) :
    d.cloneTree? id = some (d.cloneTree id) :=
  (copying_children h).copyTree?_eq
    (fun _ _ hd hid => indexed_of_lt (Nat.lt_of_lt_of_le hid hd.2.size_le) _) ⟨h, .refl d⟩ hid
    (Nat.le_add_left _ _)

theorem WellFormed.importTree?_eq (h : WellFormed d) (ho : WellFormed o) (hid : id < o.nodes.size) :
    d.importTree? o id = some (d.importTree o id) :=
  (copying_importValue ho).copyTree?_eq (fun _ _ _ hid => indexed_of_lt hid _) h hid
    (Nat.le_add_left _ _)

end

end Document

namespace IndexedEdit

open Document

variable {α β : Type} {d o : Document} {id p c : NodeId}

/-! ### Edits -/

/-- An edit takes nothing for granted that does not exist, and gives what another gives. -/
def Follows (indexed : IndexedEdit α) (edit : Edit α) (d : Document) : Prop :=
  indexed.apply d = some (edit.apply d)

theorem apply_bind (first : IndexedEdit α) (rest : α → IndexedEdit β) (d : Document) :
    (first >>= rest).apply d = (first.apply d).bind fun
      | (.ok a, d') => (rest a).apply d'
      | (.error e, d') => some (.error e, d') := by
  simp only [apply, ExceptT.run_bind, StateT.run_bind]
  rcases StateT.run (ExceptT.run first) d with _ | ⟨e | a, d'⟩ <;> rfl

namespace Follows

theorem pure (a : α) (d : Document) : Follows (Pure.pure a) (Pure.pure a) d :=
  rfl

theorem throw (e : TreeError) (d : Document) :
    Follows (throw e : IndexedEdit α) (MonadExcept.throw e) d :=
  rfl

/-- What follows goes on from where the first part has come. -/
theorem bind {first : IndexedEdit α} {first' : Edit α} {rest : α → IndexedEdit β}
    {rest' : α → Edit β} (h : Follows first first' d)
    (hrest : ∀ a d', first'.apply d = (.ok a, d') → Follows (rest a) (rest' a) d') :
    Follows (first >>= rest) (first' >>= rest') d := by
  rw [Follows, IndexedEdit.apply_bind, Document.apply_bind, h, Option.bind_some]
  rcases happly : first'.apply d with ⟨e | a, d'⟩
  · rfl
  · exact hrest a d' happly

theorem map {indexed : IndexedEdit α} {edit : Edit α} (f : α → β) (h : Follows indexed edit d) :
    Follows (f <$> indexed) (f <$> edit) d := by
  rw [map_eq_pure_bind, map_eq_pure_bind]
  exact h.bind fun a d' _ => rfl

theorem get (d : Document) : Follows MonadState.get MonadState.get d :=
  rfl

theorem update {f : Document → Option Document} {f' : Document → Document}
    (h : f d = some (f' d)) : Follows (.update f) (.update f') d := by
  change ((f d).map _).bind _ = _
  rw [h]
  rfl

theorem make {f : Document → Option (NodeId × Document)} {f' : Document → NodeId × Document}
    (h : f d = some (f' d)) : Follows (.make f) (.make f') d := by
  change (f d).bind _ = _
  rw [h]
  rfl

/-- A check looks up nothing by number. -/
theorem require (check : Document → Except TreeError α) (d : Document) :
    Follows (.require check) (.require check) d := by
  refine (Follows.get d).bind fun a d' _ => ?_
  cases check a with
  | ok a => exact .pure a d'
  | error e => exact .throw e d'

/-- What is checked first is known of the document that is changed then. -/
theorem check {check : Document → Except TreeError α} {rest : α → IndexedEdit β}
    {rest' : α → Edit β} (h : ∀ a, check d = .ok a → Follows (rest a) (rest' a) d) :
    Follows (IndexedEdit.require check >>= rest) (Edit.require check >>= rest') d := by
  refine (Follows.require check d).bind fun a d' happly => ?_
  rw [← bind_pure (Edit.require check), apply_require] at happly
  rcases hcheck : check d with e | a'
  · rw [hcheck] at happly
    cases happly
  · rw [hcheck] at happly
    cases happly
    exact h a hcheck

end Follows

theorem follows_append (h : WellFormed d) (p c : NodeId) :
    Follows (.append p c) (.append p c) d :=
  .check fun _ hcheck => .update (h.move?_eq hcheck)

/-- An element that has been checked is changed in its place. -/
theorem follows_element {rest : IndexedEdit α} {rest' : Edit α}
    (h : id < d.nodes.size → Follows rest rest' d) :
    Follows (do let _ ← IndexedEdit.require fun d => d.checkElement id; rest)
      (do let _ ← Edit.require fun d => d.checkElement id; rest') d :=
  .check fun _ hcheck => h (lt_size_of_kind? (checkElement_eq_ok hcheck))

theorem follows_setAttribute (d : Document) (id : NodeId) (name value : String) :
    Follows (.setAttribute id name value) (.setAttribute id name value) d :=
  follows_element fun hid => .update (indexed_of_lt hid _)

theorem follows_removeAttribute (d : Document) (id : NodeId) (name : String) :
    Follows (.removeAttribute id name) (.removeAttribute id name) d :=
  follows_element fun hid => (Follows.get d).bind fun a d' happly => by
    cases happly
    exact (Follows.update (indexed_of_lt hid _)).bind fun _ d' _ => .pure _ d'

theorem follows_rename (d : Document) (id : NodeId) (name : String) :
    Follows (.rename id name) (.rename id name) d :=
  follows_element fun hid => .update (indexed_of_lt hid _)

theorem follows_cloneSubtree (h : WellFormed d) (id : NodeId) :
    Follows (.cloneSubtree id) (.cloneSubtree id) d :=
  .check fun _ hcheck => .make (h.cloneTree?_eq (checkNode_lt hcheck))

theorem follows_cloneWithName (h : WellFormed d) (id : NodeId) (name : String) :
    Follows (.cloneWithName id name) (.cloneWithName id name) d := by
  refine (Follows.get d).bind fun a d' happly => ?_
  cases happly
  split
  · exact .throw _ d
  · refine (follows_cloneSubtree h id).bind fun copy d' _ => ?_
    exact (follows_rename d' copy name).bind fun _ d' _ => .pure copy d'

theorem follows_importNode (h : WellFormed d) (ho : WellFormed o) (id : NodeId) :
    Follows (.importNode o id) (.importNode o id) d := by
  unfold IndexedEdit.importNode Edit.importNode
  rcases hkind : o.kind? id with _ | kind
  · exact .throw _ d
  · cases kind with
    | document => exact .throw _ d
    | element | text | cdata | comment | instruction =>
        refine .make ?_
        exact h.importTree?_eq ho (lt_size_of_kind? hkind)

theorem follows_addChild (h : WellFormed d) (p : NodeId) (name : String) :
    Follows (.addChild p name) (.addChild p name) d := by
  refine (Follows.make (f := fun d => some (d.pushElement name none [])) rfl).bind
    fun child d' happly => ?_
  cases happly
  have h' := h.of_steps (Operation.grown_pushElement h name).steps
  exact (follows_append h' p _).bind fun _ d' _ => .pure _ d'

theorem follows_ensureOwner (h : WellFormed d) (self : DocumentId) (ref : NodeRef)
    {source : Option (DocumentId × Document)} (hsource : ∀ s, source = some s → WellFormed s.2) :
    Follows (.ensureOwner self ref source) (.ensureOwner self ref source) d := by
  unfold IndexedEdit.ensureOwner Edit.ensureOwner
  split
  · exact .require _ d
  · cases source with
    | none => exact .throw _ d
    | some source =>
        simp only
        split
        · exact follows_importNode h (hsource _ rfl) ref.node
        · exact .throw _ d

end IndexedEdit

/-- The edit of a request over changes that take numbers for granted. -/
def Request.indexed : Request → IndexedEdit Answer
  | createElement name => .node <$> IndexedEdit.createElement name
  | createText content => .node <$> IndexedEdit.createText content
  | append parent child => (fun _ => .done) <$> IndexedEdit.append parent child
  | setAttribute id name value => (fun _ => .done) <$> IndexedEdit.setAttribute id name value
  | removeAttribute id name => .value <$> IndexedEdit.removeAttribute id name
  | rename id name => (fun _ => .done) <$> IndexedEdit.rename id name
  | cloneSubtree id => .node <$> IndexedEdit.cloneSubtree id

namespace Operation

open Document IndexedEdit

/-- The edit of an operation over changes that take numbers for granted. -/
def indexed : Operation → IndexedEdit Answer
  | request r => r.indexed
  | cloneWithName id name => .node <$> IndexedEdit.cloneWithName id name
  | importNode source id => .node <$> IndexedEdit.importNode source id
  | ensureOwner self ref source => .node <$> IndexedEdit.ensureOwner self ref source
  | addChild parent name => .node <$> IndexedEdit.addChild parent name

/-- **No operation looks up a node that does not exist**, whatever numbers it is given. -/
theorem follows {d : Document} (h : WellFormed d) (op : Operation)
    (hsource : ∀ s, op.source? = some s → WellFormed s) : Follows op.indexed op.edit d := by
  cases op with
  | request r =>
      cases r with
      | createElement name => exact .map _ (.make rfl)
      | createText content => exact .map _ (.make rfl)
      | append p c => exact .map _ (follows_append h p c)
      | setAttribute id name value => exact .map _ (follows_setAttribute d id name value)
      | removeAttribute id name => exact .map _ (follows_removeAttribute d id name)
      | rename id name => exact .map _ (follows_rename d id name)
      | cloneSubtree id => exact .map _ (follows_cloneSubtree h id)
  | cloneWithName id name => exact .map _ (follows_cloneWithName h id name)
  | importNode source id => exact .map _ (follows_importNode h (hsource _ rfl) id)
  | ensureOwner self ref source =>
      refine .map _ (follows_ensureOwner h self ref fun s hs => hsource s.2 ?_)
      rw [source?, hs]
      rfl
  | addChild p name => exact .map _ (follows_addChild h p name)

end Operation

end PersistenceMapping
