/-
Building makes well-formed documents.

Every token that a builder takes in makes at most one node and puts it at the end of the
innermost open element, or at document level.  What is open is elements, so whatever comes may
be put below it; at document level character data is dropped before it could become a node, and
a second element is refused.
-/
import PersistenceMapping.Proofs.Tree.Making
import PersistenceMapping.Tree.Build

namespace PersistenceMapping

namespace Document

variable {d : Document} {p c : NodeId} {value : NodeValue} {made : NodeId × Document}

theorem attach_eq_link (h : p = documentNode → d.kind? c ≠ some .element) :
    d.attach p c = d.link p c := by
  rw [attach, if_neg]
  simpa [isElement] using h

/-- A node that has just been made may be attached wherever its kind may stand. -/
theorem Made.steps_attach (h : Made d value made) (hd : WellFormed d) {pk : NodeKind}
    (hp : d.kind? p = some pk) (hkinds : checkKinds pk value.kind = .ok ())
    (hroot : p = documentNode → value.kind = .element → d.root = none) :
    Steps d (made.2.attach p made.1) := by
  have hmade := hd.of_steps h.steps
  have hlt := lt_size_of_kind? hp
  have hp' : made.2.kind? p = some pk := by
    rw [Document.kind?, Document.value?, h.node?, if_neg (Nat.ne_of_lt hlt)]
    exact hp
  refine h.steps.tail (.attach hp' h.kind? hkinds h.parent? ?_ ?_)
  · -- What stands above an old node is old.
    have hchain := hd.linked.chain_parent hlt
    have habove : made.2.ancestorsOrSelf p = d.ancestorsOrSelf p :=
      (hmade.linked.chain_parent (lt_size_of_kind? hp')).unique
        (hchain.congr fun x _ => h.link rfl x)
    rw [habove, h.id]
    exact fun hmem => Nat.lt_irrefl _ (hd.linked.ancestors_lt hlt _ hmem)
  · rw [h.root]
    exact hroot

end Document

theorem Document.root_internAttributes (d : Document) (attributes : List Attribute) :
    (d.internAttributes attributes).2.root = d.root := by
  induction attributes generalizing d with
  | nil => rfl
  | cons a rest ih => exact ih _

theorem Document.root_pushElement (d : Document) (name : String) (ns : Option String)
    (attributes : List Attribute) : (d.pushElement name ns attributes).2.root = d.root :=
  Document.root_internAttributes _ attributes

namespace Builder

open Document

variable {b b' : Builder} {strict : Bool} {token : Token}

/-- Opening an element at document level makes it the root, and opening no other does. -/
theorem root_enter (b : Builder) (tag : StartTag) :
    (b.enter tag).document.root.isSome = (b.document.root.isSome || b.opened.isEmpty) := by
  by_cases hopened : b.opened.isEmpty = true
  · simp [enter, hopened]
  · simp only [enter, if_neg hopened]
    rw [root_link, root_pushElement, Bool.eq_false_iff.mpr hopened, Bool.or_false]

/-- A start tag opens an element unless there is a root already and nothing is open. -/
theorem read_enter (tag : StartTag) (hroot : b.opened = [] → b.document.root = none) :
    b.read false (.startTag tag) = .ok (b.enter tag) := by
  have hfirst : (b.opened.isEmpty && b.document.root.isSome) = false := by
    cases hempty : b.opened.isEmpty with
    | false => rfl
    | true => simp [hroot (List.isEmpty_iff.mp hempty)]
  simp [read, hfirst]

theorem finish_eq_ok {d : Document} (h : b.finish.mapError BuildError.shape = .ok d) :
    b.document = d ∧ b.opened = [] ∧ d.root.isSome = true := by
  unfold finish at h
  split at h
  · cases h
  · rename_i hopened
    split at h
    · rename_i hroot
      cases h
      exact ⟨rfl, hopened, hroot⟩
    · cases h

/-- What comes of a run is what some builder finishes, and what no token changes still holds of that
builder. -/
theorem exists_finish_of_run {P : Builder → Prop} {failure : Option TokenError}
    {items : List Outcome} {d : Document}
    (hread : ∀ {b b' : Builder} {token : Token}, P b → b.read strict token = .ok b' → P b')
    (h : P b) (hrun : b.run strict failure items = .ok d) :
    ∃ b', P b' ∧ b'.finish.mapError BuildError.shape = .ok d := by
  induction items generalizing b with
  | nil =>
      simp only [run] at hrun
      split at hrun
      · cases hrun
      · exact ⟨b, h, hrun⟩
  | cons item items ih =>
      unfold run at hrun
      split at hrun
      · rename_i heq
        cases heq
      · cases hrun
      · exact ⟨b, h, hrun⟩
      · rename_i heq
        cases heq
        split at hrun
        · cases hrun
        · rename_i htaken
          exact ih (hread h htaken) hrun

/-- What a builder becomes as it takes in a token. -/
inductive Reads (b : Builder) : Token → Builder → Prop
  | enter (tag : StartTag) (hroot : b.opened = [] → b.document.root = none) :
      b.Reads (.startTag tag) (b.enter tag)
  | leave (name : String) {e : NodeId × String} {above : List (NodeId × String)}
      (hopened : b.opened = e :: above) : b.Reads (.endTag name) { b with opened := above }
  /-- What is no tag may become a node. -/
  | append {token : Token} {value : NodeValue} {node : NodeId × Document}
      (hmade : Made b.document value node) (hkind : value.kind ≠ .element ∧ value.kind ≠ .document)
      (hlevel : b.opened = [] → checkKinds .document value.kind = .ok ())
      (hstart : token.isStartTag = false) (hend : token.isEndTag = false) :
      b.Reads token (b.append node)
  | pass {token : Token} (hstart : token.isStartTag = false) (hend : token.isEndTag = false) :
      b.Reads token b

/-- A builder whose document has come of steps, and whose open nodes are elements.  Nothing of
this depends on the hash of the string pool. -/
structure Sound (b : Builder) (hashOf : String → UInt64 := Pool.polynomialHash) : Prop where
  steps : Steps (.empty hashOf) b.document
  opened : ∀ e ∈ b.opened, b.document.kind? e.1 = some .element

namespace Sound

variable {hashOf : String → UInt64}

theorem wellFormed (h : b.Sound hashOf) : WellFormed b.document :=
  (wellFormed_empty _).of_steps h.steps

/-- Before the first token. -/
theorem fresh (hashOf : String → UInt64) :
    ({ document := .empty hashOf, opened := [] } : Builder).Sound hashOf :=
  ⟨.refl, by simp⟩

theorem initial : Builder.initial.Sound :=
  fresh _

/-- Nodes are added at document level or below an element. -/
theorem parent_kind (h : b.Sound hashOf) :
    (b.opened = [] ∧ b.parent = documentNode ∧ b.document.kind? b.parent = some .document) ∨
      b.opened ≠ [] ∧ b.parent ≠ documentNode ∧ b.document.kind? b.parent = some .element := by
  have htop := h.wellFormed.top
  rcases hopened : b.opened with _ | ⟨e, rest⟩
  · have hparent : b.parent = documentNode := by simp [parent, hopened]
    rw [hparent]
    exact Or.inl ⟨rfl, rfl, htop⟩
  · have hparent : b.parent = e.1 := by simp [parent, hopened]
    have hkind := h.opened e (by simp [hopened])
    rw [hparent]
    refine Or.inr ⟨by simp, ?_, hkind⟩
    intro he
    rw [he, htop] at hkind
    cases hkind

theorem append (h : b.Sound hashOf) {value : NodeValue} {node : NodeId × Document}
    (hmade : Made b.document value node) (hnot : value.kind ≠ .element ∧ value.kind ≠ .document)
    (hlevel : b.opened = [] → checkKinds .document value.kind = .ok ()) :
    (b.append node).Sound hashOf := by
  have hattach : node.2.attach b.parent node.1 = node.2.link b.parent node.1 := by
    refine attach_eq_link fun _ => ?_
    rw [hmade.kind?]
    simpa using hnot.1
  obtain ⟨pk, hp, hkinds⟩ : ∃ pk, b.document.kind? b.parent = some pk ∧
      checkKinds pk value.kind = .ok () := by
    rcases h.parent_kind with ⟨hopened, -, hp⟩ | ⟨-, -, hp⟩
    · exact ⟨_, hp, hlevel hopened⟩
    · refine ⟨_, hp, ?_⟩
      have := hnot.2
      cases hk : value.kind <;> simp_all [checkKinds]
  have hsteps := hmade.steps_attach h.wellFormed hp hkinds fun _ hk => absurd hk hnot.1
  rw [hattach] at hsteps
  refine ⟨h.steps.trans hsteps, fun e he => ?_⟩
  have hkind := h.opened e he
  show (node.2.link b.parent node.1).kind? e.1 = _
  rw [kind?_eq_of_value? (value?_link _ _ _ _), Document.kind?, Document.value?, hmade.node?,
    if_neg (Nat.ne_of_lt (lt_size_of_kind? hkind))]
  exact hkind

/-- Opening an element appends it, below the document itself as the root. -/
theorem document_enter (h : b.Sound hashOf) (tag : StartTag) :
    (b.enter tag).document =
      (b.document.pushElement tag.name tag.ns tag.attributes).2.attach b.parent
        (b.document.pushElement tag.name tag.ns tag.attributes).1 := by
  obtain ⟨_, _, _, hmade, -⟩ := made_pushElement h.wellFormed tag.name tag.ns tag.attributes
  rcases h.parent_kind with ⟨hopened, hp, -⟩ | ⟨hopened, hp, -⟩
  · simp [Builder.enter, attach, hopened, hp, isElement, hmade.kind?, NodeValue.kind]
  · simp [Builder.enter, attach, hopened, hp]

theorem enter (h : b.Sound hashOf) (tag : StartTag)
    (hroot : b.opened = [] → b.document.root = none) : (b.enter tag).Sound hashOf := by
  obtain ⟨_, _, _, hmade, -⟩ := made_pushElement h.wellFormed tag.name tag.ns tag.attributes
  have hdocument := h.document_enter tag
  have hsteps : Steps b.document (b.enter tag).document := by
    rw [hdocument]
    rcases h.parent_kind with ⟨hopened, -, hp⟩ | ⟨-, htop, hp⟩
    · exact hmade.steps_attach h.wellFormed hp rfl fun _ _ => hroot hopened
    · exact hmade.steps_attach h.wellFormed hp rfl fun hc => absurd hc htop
  refine ⟨h.steps.trans hsteps, fun e he => ?_⟩
  rw [hdocument, kind?_eq_of_value? (value?_attach _ _ _ _)]
  rcases List.mem_cons.mp he with rfl | he
  · exact hmade.kind?
  · have hkind := h.opened e he
    rw [Document.kind?, Document.value?, hmade.node?,
      if_neg (Nat.ne_of_lt (lt_size_of_kind? hkind))]
    exact hkind

/-- A token that is taken in opens or closes an element, becomes a node or leaves no trace. -/
theorem reads (h : b.Sound hashOf) (hread : b.read strict token = .ok b') : b.Reads token b' := by
  have hwf := h.wellFormed
  cases token with
  | startDocument => cases hread
  | startTag tag =>
      simp only [Builder.read] at hread
      split at hread
      · cases hread
      · rename_i hroots
        split at hread
        · cases hread
        · obtain rfl := Except.ok.inj hread
          refine .enter tag fun hopened => ?_
          simpa [hopened] using hroots
  | endTag name =>
      simp only [Builder.read] at hread
      split at hread
      · cases hread
      · rename_i hopened
        split at hread
        · obtain rfl := Except.ok.inj hread
          exact .leave name hopened
        · cases hread
  | text content =>
      simp only [Builder.read] at hread
      split at hread
      · split at hread
        · cases hread
        · obtain rfl := Except.ok.inj hread
          exact .pass rfl rfl
      · rename_i hopened
        obtain rfl := Except.ok.inj hread
        refine .append (made_pushText hwf content) (by simp [NodeValue.kind]) (fun hc => ?_) rfl rfl
        simp [hc] at hopened
  | cdata content =>
      simp only [Builder.read] at hread
      split at hread
      · split at hread
        · cases hread
        · obtain rfl := Except.ok.inj hread
          exact .pass rfl rfl
      · rename_i hopened
        obtain rfl := Except.ok.inj hread
        refine .append (made_pushCdata hwf content) (by simp [NodeValue.kind]) (fun hc => ?_) rfl
          rfl
        simp [hc] at hopened
  | comment content =>
      obtain rfl := Except.ok.inj hread
      exact .append (made_pushComment hwf content) (by simp [NodeValue.kind]) (fun _ => rfl) rfl rfl
  | instruction target data =>
      obtain rfl := Except.ok.inj hread
      obtain ⟨_, _, hmade, -⟩ := made_pushInstruction hwf target data
      exact .append hmade (by simp [NodeValue.kind]) (fun _ => rfl) rfl rfl
  | doctype content =>
      obtain rfl := Except.ok.inj hread
      exact .pass rfl rfl
  | endDocument =>
      obtain rfl := Except.ok.inj hread
      exact .pass rfl rfl

theorem read (h : b.Sound hashOf) (hread : b.read strict token = .ok b') : b'.Sound hashOf := by
  cases h.reads hread with
  | enter tag hroot => exact h.enter tag hroot
  | leave name hopened => exact ⟨h.steps, fun e he => h.opened e (by simp [hopened, he])⟩
  | append hmade hkind hlevel => exact h.append hmade hkind hlevel
  | pass => exact h

theorem run (h : b.Sound hashOf) {failure : Option TokenError} {items : List Outcome} {d : Document}
    (hrun : b.run strict failure items = .ok d) : Steps (.empty hashOf) d := by
  obtain ⟨b', hb', hfinish⟩ := exists_finish_of_run (fun hb hread => Sound.read hb hread) h hrun
  obtain ⟨rfl, -, -⟩ := finish_eq_ok hfinish
  exact hb'.steps

end Sound

end Builder

namespace Document

variable {strict : Bool} {s : TokenStream} {d : Document}

/-- What is built from a stream comes of a run. -/
theorem exists_run_of_ofStream (h : ofStream strict s = .ok d) :
    ∃ failure items, Builder.initial.run strict failure items = .ok d := by
  unfold ofStream at h
  split at h
  · cases h
  · cases h
  · exact ⟨_, _, h⟩
  · cases h

/-- What is built from tokens comes of the steps that keep documents well-formed. -/
theorem steps_ofStream (h : ofStream strict s = .ok d) : Steps .empty d := by
  obtain ⟨failure, items, hrun⟩ := exists_run_of_ofStream h
  exact Builder.Sound.initial.run hrun

end Document

end PersistenceMapping
