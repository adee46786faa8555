/-
The documents that there are.

A document is empty, or it is built from tokens, or it comes from another by one of seven
requests, or by importing a node of yet another document.  Each of these is made of the steps
that keep documents well-formed: a request that is refused takes none, and what is checked
before a move is what attaching a node asks for.

The other edits are put together from requests, and so lead to documents of the same kind.
-/
import PersistenceMapping.Proofs.Tree.Building
import PersistenceMapping.Proofs.Tree.Copy

namespace PersistenceMapping

/-- A request to change a document on its own. -/
inductive Request where
  | createElement (name : String)
  | createText (content : String)
  | append (parent child : NodeId)
  | setAttribute (id : NodeId) (name value : String)
  | removeAttribute (id : NodeId) (name : String)
  | rename (id : NodeId) (name : String)
  | cloneSubtree (id : NodeId)
  deriving DecidableEq, Repr

namespace Request

/-- The document after a request, granted or refused. -/
def perform (request : Request) (d : Document) : Document :=
  match request with
  | createElement name => ((Edit.createElement name).apply d).2
  | createText content => ((Edit.createText content).apply d).2
  | append parent child => ((Edit.append parent child).apply d).2
  | setAttribute id name value => ((Edit.setAttribute id name value).apply d).2
  | removeAttribute id name => ((Edit.removeAttribute id name).apply d).2
  | rename id name => ((Edit.rename id name).apply d).2
  | cloneSubtree id => ((Edit.cloneSubtree id).apply d).2

end Request

namespace Document

/-- The documents that can be made. -/
inductive Reachable : Document → Prop
  | empty (hashOf : String → UInt64) : Reachable (.empty hashOf)
  | built {strict : Bool} {s : TokenStream} {d : Document} (h : ofStream strict s = .ok d) :
      Reachable d
  | request {d : Document} (h : Reachable d) (request : Request) : Reachable (request.perform d)
  | importNode {d source : Document} (h : Reachable d) (hsource : Reachable source) (id : NodeId) :
      Reachable ((Edit.importNode source id).apply d).2

variable {d d' : Document} {id p c x : NodeId}

/-! ### Running edits -/

/-- An edit that checks first goes on where the check succeeds, and does nothing where it
fails. -/
theorem apply_require {α β : Type} (check : Document → Except TreeError α) (rest : α → Edit β)
    (d : Document) :
    (do let a ← Edit.require check; rest a : Edit β).apply d =
      match check d with
      | .ok a => (rest a).apply d
      | .error e => (.error e, d) := by
  have hget : StateT.run (ExceptT.run (get : Edit Document)) d = pure (.ok d, d) := rfl
  cases h : check d with
  | error e =>
      simp only [Edit.apply, Edit.require, ExceptT.run_bind, StateT.run_bind, hget, h, pure_bind]
      rfl
  | ok a =>
      simp only [Edit.apply, Edit.require, ExceptT.run_bind, StateT.run_bind, hget, h, pure_bind]
      rfl

/-- What holds of a document and of what comes of it when a check succeeds holds after the
edit. -/
theorem of_apply_require {α β : Type} {P : Document → Prop}
    {check : Document → Except TreeError α} {rest : α → Edit β} (hrefused : P d)
    (hgranted : ∀ a, check d = .ok a → P ((rest a).apply d).2) :
    P ((do let a ← Edit.require check; rest a : Edit β).apply d).2 := by
  rw [apply_require]
  rcases h : check d with e | a
  · exact hrefused
  · exact hgranted a h

theorem checkNode_eq_ok {n : Node} (h : d.checkNode id = .ok n) : d.node? id = some n := by
  unfold checkNode at h
  split at h
  · rename_i n' hn
    rw [hn, Except.ok.inj h]
  · cases h

/-- What is checked before a move. -/
theorem checkMove_eq_ok (h : d.checkMove p c = .ok ()) :
    ∃ pk ck, d.kind? p = some pk ∧ d.kind? c = some ck ∧ checkKinds pk ck = .ok () ∧
      (pk = .document → ck = .element → d.root = none ∨ d.root = some c) ∧
      c ∉ d.ancestorsOrSelf p := by
  unfold checkMove at h
  rcases hp : d.checkNode p with e | pn
  · rw [hp] at h
    cases h
  rcases hc : d.checkNode c with e | cn
  · rw [hp, hc] at h
    cases h
  rw [hp, hc] at h
  have hpk : d.kind? p = some pn.value.kind := by
    rw [kind?, value?, checkNode_eq_ok hp]
    rfl
  have hck : d.kind? c = some cn.value.kind := by
    rw [kind?, value?, checkNode_eq_ok hc]
    rfl
  refine ⟨_, _, hpk, hck, ?_⟩
  simp only [bind, Except.bind] at h
  split at h
  · cases h
  · rename_i hkinds
    refine ⟨hkinds, ?_⟩
    split at h
    · cases h
    · rename_i hroot
      split at h
      · cases h
      · rename_i habove
        refine ⟨fun hpk hck => ?_, by simpa using habove⟩
        rcases hr : d.root with _ | r
        · exact Or.inl rfl
        · simp only [hpk, hck, hr, decide_true, Bool.and_self, Option.any_some, Bool.true_and,
            decide_not, Bool.not_eq_true', decide_eq_false_iff_not, not_not] at hroot
          exact Or.inr (congrArg some hroot)

namespace WellFormed

/-! ### What requests do -/

/-- Unlinking a node that does not stand above another leaves what does stand above it. -/
theorem ancestors_unlink (h : WellFormed d) (hp : p < d.nodes.size)
    (habove : c ∉ d.ancestorsOrSelf p) :
    (d.unlink c).ancestorsOrSelf p = d.ancestorsOrSelf p := by
  refine ((h.of_unlink c).linked.chain_parent ?_).unique ?_
  · rwa [size_unlink]
  · refine (h.linked.chain_parent hp).congr fun x hx => ?_
    rw [parent?_unlink, if_neg]
    rintro rfl
    exact habove hx

/-- A move that has been checked is unlinking and attaching. -/
theorem steps_move (h : WellFormed d) (hcheck : d.checkMove p c = .ok ()) :
    Steps d (d.move p c) := by
  obtain ⟨pk, ck, hp, hc, hkinds, hroot, habove⟩ := checkMove_eq_ok hcheck
  have hkind : ∀ x, (d.unlink c).kind? x = d.kind? x := fun x =>
    kind?_eq_of_value? (value?_unlink d c x)
  refine (Relation.ReflTransGen.single (Step.unlink c)).tail ?_
  refine Step.attach (?_ : _ = some pk) (?_ : _ = some ck) hkinds ?_ ?_ ?_
  · rw [hkind, hp]
  · rw [hkind, hc]
  · rw [parent?_unlink, if_pos rfl]
  · rwa [h.ancestors_unlink (lt_size_of_kind? hp) habove]
  · rintro rfl hck
    have hdoc : pk = .document := Option.some.inj (hp.symm.trans h.top)
    show (if d.root = some c then none else d.root) = none
    rcases hroot hdoc hck with hr | hr <;> simp [hr]

/-- Other attributes of distinct names, each of them old or of interned strings. -/
theorem step_mapAttributes (h : WellFormed d) (id : NodeId)
    {f : List StoredAttribute → List StoredAttribute}
    (hnames : ∀ l, (l.map (·.name)).Nodup → ((f l).map (·.name)).Nodup)
    (hmem : ∀ l, ∀ a ∈ f l, a ∈ l ∨ (a.name < d.pool.size ∧ a.value < d.pool.size)) :
    Step d (d.mapAttributes id f) := by
  refine .revalue fun v hv => ?_
  have hreadable := h.readable id v hv
  cases v with
  | element name ns attributes =>
      obtain ⟨hname, hns, hattributes⟩ := lt_size_of_readable hreadable
      refine ⟨rfl, readable_element hname hns ?_ (hnames attributes hreadable.names)⟩
      intro a ha
      rcases hmem attributes a ha with ha | ha
      · exact hattributes a ha
      · exact ha
  | _ => exact ⟨rfl, hreadable⟩

theorem steps_putAttribute (h : WellFormed d) (id : NodeId) (name value : String) :
    Steps d (d.putAttribute id name value) := by
  have hname := Interned.intern d name
  have hvalue := Interned.intern (d.intern name).2 value
  have h1 := h.of_steps hname.steps
  have h2 := h1.of_steps hvalue.steps
  refine (hname.trans hvalue).steps.tail (h2.step_mapAttributes id (fun l => nodup_putStored) ?_)
  intro l a ha
  rcases mem_putStored ha with rfl | ha
  · right
    exact ⟨lt_size_of_get? (hvalue.pool _ _ (get?_intern h name)),
      lt_size_of_get? (get?_intern h1 value)⟩
  · exact Or.inl ha

theorem step_dropAttribute (h : WellFormed d) (id : NodeId) (name : String) :
    Step d (d.dropAttribute id name) := by
  refine h.step_mapAttributes id (fun l hl => ?_) (fun l a ha => Or.inl ?_)
  · exact hl.sublist ((List.eraseP_sublist).map _)
  · exact List.mem_of_mem_eraseP ha

theorem step_mapName (h : WellFormed d) (id : NodeId) {name : StringId}
    (hname : name < d.pool.size) : Step d (d.mapName id name) := by
  refine .revalue fun v hv => ?_
  have hreadable := h.readable id v hv
  cases v with
  | element _ ns attributes =>
      obtain ⟨-, hns, hattributes⟩ := lt_size_of_readable hreadable
      exact ⟨rfl, readable_element hname hns hattributes hreadable.names⟩
  | _ => exact ⟨rfl, hreadable⟩

theorem steps_putName (h : WellFormed d) (id : NodeId) (name : String) :
    Steps d (d.putName id name) := by
  have hname := Interned.intern d name
  have hget := lt_size_of_get? (get?_intern h name)
  exact hname.steps.tail ((h.of_steps hname.steps).step_mapName id hget)

/-- Whatever is requested, nothing is done but what may be done to a document. -/
theorem steps_perform (h : WellFormed d) (request : Request) : Steps d (request.perform d) := by
  cases request with
  | createElement name =>
      obtain ⟨_, _, _, hmade, -⟩ := made_pushElement h name none []
      exact hmade.steps
  | createText content => exact (made_pushText h content).steps
  | append parent child => exact of_apply_require .refl fun _ => h.steps_move
  | setAttribute id name value =>
      exact of_apply_require .refl fun _ _ => h.steps_putAttribute id name value
  | removeAttribute id name =>
      exact of_apply_require .refl fun _ _ => .single (h.step_dropAttribute id name)
  | rename id name => exact of_apply_require .refl fun _ _ => h.steps_putName id name
  | cloneSubtree id =>
      refine of_apply_require .refl fun n hn => ?_
      have hid : d.kind? id = some n.value.kind := by
        rw [kind?, value?, checkNode_eq_ok hn]
        rfl
      exact (h.begun_cloneTree hid).grown.steps

theorem steps_importNode (h : WellFormed d) {source : Document} (hsource : WellFormed source)
    (id : NodeId) : Steps d ((Edit.importNode source id).apply d).2 := by
  unfold Edit.importNode
  split
  · exact .refl
  · exact .refl
  · rename_i kind _ hkind
    exact (h.begun_importTree hsource hkind).grown.steps

end WellFormed

/-- However a document was made, it is well-formed. -/
theorem Reachable.wellFormed (h : Reachable d) : WellFormed d := by
  induction h with
  | empty hashOf => exact wellFormed_empty hashOf
  | built h => exact (wellFormed_empty _).of_steps (steps_ofStream h)
  | request _ request ih => exact ih.of_steps (ih.steps_perform request)
  | importNode _ _ id ih ih' => exact ih.of_steps (ih.steps_importNode ih' id)

end Document

end PersistenceMapping
