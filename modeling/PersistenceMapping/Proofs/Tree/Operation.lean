/-
What an operation does.

All that can be asked of a document are the requests and four edits more, two of which are put
together from others and one of which chooses another.  `Operation.Effect` says once what can come
of each: it is refused and nothing is done, or it is granted, with what has been checked by then;
and only making a child may be refused half way.  Whatever is to be shown of all operations is shown
by these cases, and no edit is run again (`effect`).
-/
import PersistenceMapping.Proofs.Tree.Copied

namespace PersistenceMapping

/-- What an operation gives when it is granted. -/
inductive Answer where
  | done
  | node (id : NodeId)
  | value (value : Option String)
  deriving DecidableEq, Repr

/-- The edit that a request asks for. -/
def Request.edit : Request → Edit Answer
  | createElement name => .node <$> Edit.createElement name
  | createText content => .node <$> Edit.createText content
  | append parent child => (fun _ => .done) <$> Edit.append parent child
  | setAttribute id name value => (fun _ => .done) <$> Edit.setAttribute id name value
  | removeAttribute id name => .value <$> Edit.removeAttribute id name
  | rename id name => (fun _ => .done) <$> Edit.rename id name
  | cloneSubtree id => .node <$> Edit.cloneSubtree id

/-- Something that is asked of a document. -/
inductive Operation where
  | request (request : Request)
  | cloneWithName (id : NodeId) (name : String)
  | importNode (source : Document) (id : NodeId)
  | ensureOwner (self : DocumentId) (ref : NodeRef) (source : Option (DocumentId × Document))
  | addChild (parent : NodeId) (name : String)

namespace Operation

/-- The edit that an operation is. -/
def edit : Operation → Edit Answer
  | request r => r.edit
  | cloneWithName id name => .node <$> Edit.cloneWithName id name
  | importNode source id => .node <$> Edit.importNode source id
  | ensureOwner self ref source => .node <$> Edit.ensureOwner self ref source
  | addChild parent name => .node <$> Edit.addChild parent name

/-- The other document that an operation reads. -/
def source? : Operation → Option Document
  | importNode source _ => some source
  | ensureOwner _ _ source => source.map (·.2)
  | _ => none

/-- Whether an operation names a node that does not exist where it is looked for. -/
def Strays (d : Document) : Operation → Prop
  | request (.append parent child) => d.nodes.size ≤ parent ∨ d.nodes.size ≤ child
  | request (.setAttribute id _ _) => d.nodes.size ≤ id
  | request (.removeAttribute id _) => d.nodes.size ≤ id
  | request (.rename id _) => d.nodes.size ≤ id
  | request (.cloneSubtree id) => d.nodes.size ≤ id
  | request _ => False
  | cloneWithName id _ => d.nodes.size ≤ id
  | importNode source id => source.nodes.size ≤ id
  | ensureOwner self ref source =>
    if ref.owner = self then d.nodes.size ≤ ref.node
    else ∀ owner document, source = some (owner, document) → owner = ref.owner →
      document.nodes.size ≤ ref.node
  | addChild parent _ => d.nodes.size ≤ parent

end Operation

/-- Errors that say that a node is not one of the document or that it cannot be used so. -/
def TreeError.IsRefusal (e : TreeError) : Prop :=
  (∃ id, e = .foreignNode id) ∨ ∃ reason, e = .invalidOperation reason

namespace Document

variable {d d' o : Document} {id p c : NodeId} {e : TreeError} {op : Operation}

/-! ### What a check says -/

theorem checkNode_refusal (h : d.checkNode id = .error e) : e.IsRefusal := by
  unfold checkNode at h
  split at h
  · cases h
  · cases h
    exact Or.inl ⟨id, rfl⟩

theorem checkNode_lt {n : Node} (h : d.checkNode id = .ok n) : id < d.nodes.size :=
  lt_size_of_node? (checkNode_eq_ok h)

theorem checkElement_refusal (h : d.checkElement id = .error e) : e.IsRefusal := by
  unfold checkElement at h
  rcases hnode : d.checkNode id with e' | n
  · rw [hnode] at h
    cases h
    exact checkNode_refusal hnode
  · rw [hnode] at h
    simp only [bind, Except.bind] at h
    split at h
    · cases h
    · cases h
      exact Or.inr ⟨_, rfl⟩

theorem checkElement_eq_ok (h : d.checkElement id = .ok ()) : d.kind? id = some .element := by
  unfold checkElement at h
  rcases hnode : d.checkNode id with e | n
  · rw [hnode] at h
    cases h
  · rw [hnode] at h
    simp only [bind, Except.bind] at h
    split at h
    case isTrue helement => exact isElement_iff.mp helement
    case isFalse => cases h

theorem checkMove_refusal (h : d.checkMove p c = .error e) : e.IsRefusal := by
  unfold checkMove at h
  rcases hp : d.checkNode p with e' | pn
  · rw [hp] at h
    cases h
    exact checkNode_refusal hp
  rcases hc : d.checkNode c with e' | cn
  · rw [hp, hc] at h
    cases h
    exact checkNode_refusal hc
  rw [hp, hc] at h
  simp only [bind, Except.bind] at h
  split at h
  · cases h
    exact Or.inr ⟨_, rfl⟩
  · split at h
    · cases h
      exact Or.inr ⟨_, rfl⟩
    · split at h
      · cases h
        exact Or.inr ⟨_, rfl⟩
      · cases h

/-! ### What stays readable -/

/-- What is read of a node depends on its value, while the pool grows. -/
theorem WellFormed.reads_of_extends (h : WellFormed d) {x : NodeId}
    (hvalue : d'.value? x = d.value? x) (hpool : d.pool.Extends d'.pool) :
    d'.kind? x = d.kind? x ∧ d'.name? x = d.name? x ∧ d'.namespace? x = d.namespace? x ∧
      d'.attributes x = d.attributes x ∧ d'.text? x = d.text? x ∧ d'.data? x = d.data? x := by
  have hget : ∀ i < d.pool.size, d'.pool.get? i = d.pool.get? i := fun i hi => by
    obtain ⟨s, hs⟩ := Pool.get?_isSome_iff.mpr hi
    rw [hs, hpool i s hs]
  refine ⟨kind?_eq_of_value? hvalue, ?_⟩
  simp only [name?, namespace?, attributes, storedAttributes, text?, data?, hvalue]
  cases hv : d.value? x with
  | none => simp
  | some value =>
      have hreadable := h.readable x value hv
      have hstring : ∀ i ∈ value.strings, d'.pool.get? i = d.pool.get? i :=
        fun i hi => hget i (hreadable.strings i hi)
      cases value with
      | element name ns stored =>
          have hread : ∀ a ∈ stored, d'.readAttribute a = d.readAttribute a := by
            intro a ha
            obtain ⟨hname, hvalue⟩ := (lt_size_of_readable hreadable).2.2 a ha
            rw [readAttribute, readAttribute, hpool.getD_eq hname, hpool.getD_eq hvalue]
          simp [hstring name (by simp [NodeValue.strings]), hstring ns (by simp [NodeValue.strings]),
            List.map_congr_left hread]
      | document => simp
      | text content | cdata content | comment content =>
          simp [hstring content (by simp [NodeValue.strings])]
      | instruction target data =>
          simp [hstring target (by simp [NodeValue.strings]),
            hstring data (by simp [NodeValue.strings])]

/-! ### What comes of an operation -/

theorem apply_map {α β : Type} (f : α → β) (edit : Edit α) (d : Document) :
    (f <$> edit).apply d = ((edit.apply d).1.map f, (edit.apply d).2) := by
  rw [map_eq_pure_bind, apply_bind]
  rcases edit.apply d with ⟨e | a, d'⟩ <;> rfl

end Document

namespace Operation

open Document

/-- What can come of an operation. -/
inductive Effect (d : Document) : Operation → Except TreeError Answer × Document → Prop
  | refused {op : Operation} {e : TreeError} (he : e.IsRefusal) : Effect d op (.error e, d)
  | createElement (name : String) : Effect d (.request (.createElement name))
      (.ok (.node (d.pushElement name none []).1), (d.pushElement name none []).2)
  | createText (content : String) : Effect d (.request (.createText content))
      (.ok (.node (d.pushText content).1), (d.pushText content).2)
  | append {p c : NodeId} (h : d.checkMove p c = .ok ()) :
      Effect d (.request (.append p c)) (.ok .done, d.move p c)
  | setAttribute {id : NodeId} (h : d.kind? id = some .element) (name value : String) :
      Effect d (.request (.setAttribute id name value)) (.ok .done, d.putAttribute id name value)
  | removeAttribute {id : NodeId} (h : d.kind? id = some .element) (name : String) :
      Effect d (.request (.removeAttribute id name))
        (.ok (.value (d.attribute? id name)), d.dropAttribute id name)
  | rename {id : NodeId} (h : d.kind? id = some .element) (name : String) :
      Effect d (.request (.rename id name)) (.ok .done, d.putName id name)
  | cloneSubtree {id : NodeId} {kind : NodeKind} (h : d.kind? id = some kind) :
      Effect d (.request (.cloneSubtree id)) (.ok (.node (d.cloneTree id).1), (d.cloneTree id).2)
  | cloneWithName {id : NodeId} (h : d.kind? id = some .element) (name : String) :
      Effect d (.cloneWithName id name) (.ok (.node (d.cloneTree id).1),
        (d.cloneTree id).2.putName (d.cloneTree id).1 name)
  | importNode {source : Document} {id : NodeId} {kind : NodeKind}
      (h : source.kind? id = some kind) :
      Effect d (.importNode source id)
        (.ok (.node (d.importTree source id).1), (d.importTree source id).2)
  /-- A node of the document itself. -/
  | own {self : DocumentId} {id : NodeId} (source : Option (DocumentId × Document))
      (h : id < d.nodes.size) : Effect d (.ensureOwner self ⟨self, id⟩ source) (.ok (.node id), d)
  /-- A node of the other document. -/
  | adopted {self owner : DocumentId} {source : Document} {id : NodeId} {kind : NodeKind}
      (howner : owner ≠ self) (h : source.kind? id = some kind) :
      Effect d (.ensureOwner self ⟨owner, id⟩ (some (owner, source)))
        (.ok (.node (d.importTree source id).1), (d.importTree source id).2)
  | addChild {p : NodeId} {name : String}
      (h : (d.pushElement name none []).2.checkMove p d.nodes.size = .ok ()) :
      Effect d (.addChild p name) (.ok (.node d.nodes.size),
        (d.pushElement name none []).2.move p d.nodes.size)
  /-- A child has been made and may not be appended. -/
  | stranded {p : NodeId} {name : String} {e : TreeError} (he : e.IsRefusal) :
      Effect d (.addChild p name) (.error e, (d.pushElement name none []).2)

variable {d d' o : Document} {op : Operation}

/-- An edit of an element is refused, or the element is there. -/
theorem effect_require {β : Type} {f : β → Answer} {id : NodeId} {rest : Edit β}
    (h : d.kind? id = some .element →
      Effect d op ((rest.apply d).1.map f, (rest.apply d).2)) :
    Effect d op ((f <$> (do
      let _ ← Edit.require fun d => d.checkElement id
      rest)).apply d) := by
  rw [apply_map, apply_require]
  rcases hcheck : d.checkElement id with e | u
  · exact .refused (checkElement_refusal hcheck)
  · exact h (checkElement_eq_ok hcheck)

theorem effect_request (d : Document) (r : Request) : Effect d (.request r) (r.edit.apply d) := by
  cases r with
  | createElement name => exact .createElement name
  | createText content => exact .createText content
  | append p c =>
      rw [Request.edit, apply_map, Edit.append, apply_require]
      rcases hcheck : d.checkMove p c with e | u
      · exact .refused (checkMove_refusal hcheck)
      · exact .append hcheck
  | setAttribute id name value => exact effect_require fun h => .setAttribute h name value
  | removeAttribute id name => exact effect_require fun h => .removeAttribute h name
  | rename id name => exact effect_require fun h => .rename h name
  | cloneSubtree id =>
      rw [Request.edit, apply_map, Edit.cloneSubtree, apply_require]
      rcases hcheck : d.checkNode id with e | n
      · exact .refused (checkNode_refusal hcheck)
      · obtain ⟨kind, hkind⟩ := kind?_eq_some (checkNode_lt hcheck)
        exact .cloneSubtree hkind

theorem importNode_cases (d source : Document) (id : NodeId) :
    (∃ e : TreeError, (Edit.importNode source id).apply d = (.error e, d) ∧ e.IsRefusal) ∨
      ∃ kind, source.kind? id = some kind ∧ (Edit.importNode source id).apply d =
        (.ok (d.importTree source id).1, (d.importTree source id).2) := by
  rcases hkind : source.kind? id with _ | kind
  · exact Or.inl ⟨.foreignNode id, by rw [Edit.importNode, hkind]; rfl, Or.inl ⟨id, rfl⟩⟩
  · by_cases hdocument : kind = .document
    · refine Or.inl ⟨.invalidOperation .importedDocument, ?_, Or.inr ⟨_, rfl⟩⟩
      rw [Edit.importNode, hkind, hdocument]
      rfl
    · exact Or.inr ⟨kind, rfl, apply_importNode hkind hdocument d⟩

theorem effect_ensureOwner (d : Document) (self : DocumentId) (ref : NodeRef)
    (source : Option (DocumentId × Document)) :
    Effect d (.ensureOwner self ref source) ((edit (.ensureOwner self ref source)).apply d) := by
  obtain ⟨owner, id⟩ := ref
  rw [edit, apply_map]
  unfold Edit.ensureOwner
  split
  case isTrue howner =>
    obtain rfl : owner = self := howner
    rw [← bind_pure (Edit.require _), apply_require]
    rcases hcheck : d.checkNode id with e | n
    · exact .refused (checkNode_refusal hcheck)
    · exact .own source (checkNode_lt hcheck)
  case isFalse howner =>
    cases source with
    | none => exact .refused (Or.inl ⟨id, rfl⟩)
    | some source =>
        obtain ⟨owner', o⟩ := source
        by_cases hsource : owner' = owner
        · subst hsource
          simp only [if_true]
          rcases importNode_cases d o id with ⟨e, happly, he⟩ | ⟨kind, hkind, happly⟩
          · rw [happly]
            exact .refused he
          · rw [happly]
            exact .adopted howner hkind
        · simp only [if_neg hsource]
          exact .refused (Or.inl ⟨id, rfl⟩)

theorem effect_cloneWithName (h : WellFormed d) (id : NodeId) (name : String) :
    Effect d (.cloneWithName id name) ((edit (.cloneWithName id name)).apply d) := by
  rw [edit, apply_map]
  by_cases hid : d.kind? id = some .element
  · rw [apply_cloneWithName h hid]
    exact .cloneWithName hid name
  · rw [apply_cloneWithName_of_ne hid]
    exact .refused (Or.inr ⟨_, rfl⟩)

theorem effect_addChild (h : WellFormed d) (p : NodeId) (name : String) :
    Effect d (.addChild p name) ((edit (.addChild p name)).apply d) := by
  obtain ⟨_, _, _, hmade, -⟩ := made_pushElement h name none []
  have hcreate : (Edit.createElement name).apply d =
      (.ok d.nodes.size, (d.pushElement name none []).2) := by
    rw [← hmade.id]
    rfl
  rw [edit, apply_map, Edit.addChild, apply_bind, hcreate]
  simp only
  rw [apply_bind, Edit.append, apply_require]
  rcases hcheck : (d.pushElement name none []).2.checkMove p d.nodes.size with e | u
  · exact .stranded (checkMove_refusal hcheck)
  · exact .addChild hcheck

/-- **What comes of an operation** is one of these cases. -/
theorem effect (h : WellFormed d) (op : Operation) : Effect d op (op.edit.apply d) := by
  cases op with
  | request r => exact effect_request d r
  | cloneWithName id name => exact effect_cloneWithName h id name
  | importNode source id =>
      rw [edit, apply_map]
      rcases importNode_cases d source id with ⟨e, happly, he⟩ | ⟨kind, hkind, happly⟩
      · rw [happly]
        exact .refused he
      · rw [happly]
        exact .importNode hkind
  | ensureOwner self ref source => exact effect_ensureOwner d self ref source
  | addChild p name => exact effect_addChild h p name

/-- The edits that only add nodes. -/
theorem grown_pushElement (h : WellFormed d) (name : String) :
    Grown d (d.pushElement name none []).2 := by
  obtain ⟨_, _, _, hmade, -⟩ := made_pushElement h name none []
  exact hmade.grown

/-- A new element under another name is still new. -/
theorem grown_cloneWithName (h : WellFormed d) {id : NodeId} (hid : d.kind? id = some .element)
    (name : String) : Grown d ((d.cloneTree id).2.putName (d.cloneTree id).1 name) := by
  have hbegun := h.begun_cloneTree hid
  have hgrown := hbegun.grown
  have hnamed := (h.of_steps hgrown.steps).steps_putName (d.cloneTree id).1 name
  refine ⟨hgrown.steps.trans hnamed, ?_, fun x hx => ?_, hgrown.root, ?_⟩
  · exact Nat.le_trans hgrown.size_le (Nat.le_of_eq (size_modify _ _ _).symm)
  · rw [node?_putName _ name (Nat.ne_of_lt (Nat.lt_of_lt_of_le hx hbegun.fresh)),
      hgrown.node? x hx]
  · exact hgrown.pool.trans (Pool.extends_intern _ name)

/-- What is done is done in steps that keep documents well-formed. -/
theorem Effect.steps (h : WellFormed d) (hsource : ∀ s, op.source? = some s → WellFormed s)
    {result : Except TreeError Answer × Document} (heffect : Effect d op result) :
    Steps d result.2 := by
  cases heffect with
  | refused he => exact .refl
  | createElement name => exact (grown_pushElement h name).steps
  | createText content => exact (made_pushText h content).steps
  | append hcheck => exact h.steps_move hcheck
  | setAttribute _ name value => exact h.steps_putAttribute _ name value
  | removeAttribute _ name => exact .single (h.step_dropAttribute _ name)
  | rename _ name => exact h.steps_putName _ name
  | cloneSubtree hkind => exact (h.begun_cloneTree hkind).grown.steps
  | cloneWithName hid name => exact (grown_cloneWithName h hid name).steps
  | importNode hkind => exact (h.begun_importTree (hsource _ rfl) hkind).grown.steps
  | own source hid => exact .refl
  | adopted howner hkind => exact (h.begun_importTree (hsource _ rfl) hkind).grown.steps
  | @addChild _ name hcheck =>
      have hgrown := grown_pushElement h name
      exact hgrown.steps.trans ((h.of_steps hgrown.steps).steps_move hcheck)
  | @stranded _ name _ he => exact (grown_pushElement h name).steps

/-- An operation that names a node which does not exist is refused. -/
theorem Effect.refused_of_strays (h : WellFormed d) (hstrays : op.Strays d)
    {result : Except TreeError Answer × Document} (heffect : Effect d op result) :
    ∃ e, result.1 = .error e := by
  have hlt : ∀ {o : Document} {x : NodeId} {kind : NodeKind}, o.kind? x = some kind →
      ¬ o.nodes.size ≤ x := fun hkind => Nat.not_le.mpr (lt_size_of_kind? hkind)
  cases heffect with
  | refused he => exact ⟨_, rfl⟩
  | stranded he => exact ⟨_, rfl⟩
  | createElement name => exact hstrays.elim
  | createText content => exact hstrays.elim
  | append hcheck =>
      obtain ⟨_, _, hp, hc, -⟩ := checkMove_eq_ok hcheck
      exact hstrays.elim (fun hle => absurd hle (hlt hp)) fun hle => absurd hle (hlt hc)
  | setAttribute hid => exact absurd hstrays (hlt hid)
  | removeAttribute hid => exact absurd hstrays (hlt hid)
  | rename hid => exact absurd hstrays (hlt hid)
  | cloneSubtree hid => exact absurd hstrays (hlt hid)
  | cloneWithName hid => exact absurd hstrays (hlt hid)
  | importNode hid => exact absurd hstrays (hlt hid)
  | own source hid =>
      rw [Strays, if_pos rfl] at hstrays
      exact absurd hstrays (Nat.not_le.mpr hid)
  | adopted howner hid =>
      rw [Strays, if_neg howner] at hstrays
      exact absurd (hstrays _ _ rfl rfl) (hlt hid)
  | @addChild p name hcheck =>
      -- The child itself has the number that did not exist, and does not stand below itself.
      obtain ⟨_, _, _, hmade, -⟩ := made_pushElement h name none []
      obtain ⟨_, _, hp, -, -, -, habove⟩ := checkMove_eq_ok hcheck
      have hplt := lt_size_of_kind? hp
      rw [hmade.size] at hplt
      obtain rfl : p = d.nodes.size := Nat.le_antisymm (Nat.le_of_lt_succ hplt) hstrays
      exact absurd ((h.of_steps hmade.steps).linked.mem_ancestors_self (lt_size_of_kind? hp)) habove

end Operation

end PersistenceMapping
