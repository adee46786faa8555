/-
What binding comes to.

Taking in a token does one of a few things, or the token is refused (`Schema.Effect`).  So of what
has been bound behind some tokens (`Schema.progressAfter`) it is known where it comes from: every
element, open or closed, has the declaration and the attributes with which one of the start tags
among them opened it, and there is no root as long as an element is open (`Progress.Arises`).

A run goes through nothing else (`run_outcome`), so the same holds of each element in what is bound
in the end (`bind_begun`).
-/
import PersistenceMapping.Proofs.Schema.Language
import PersistenceMapping.Proofs.Schema.Relaid

namespace PersistenceMapping

/-- A property of an element and of all elements in it. -/
inductive BoundElement.Everywhere (P : BoundElement → Prop) : BoundElement → Prop
  | intro {e : BoundElement} (h : P e) (hchildren : ∀ c ∈ e.children, BoundElement.Everywhere P c) :
      BoundElement.Everywhere P e

theorem BoundElement.Everywhere.mono {P Q : BoundElement → Prop} {e : BoundElement}
    (h : e.Everywhere P) (himp : ∀ x, P x → Q x) : e.Everywhere Q := by
  induction h with
  | intro h _ ih => exact .intro (himp _ h) ih

namespace Schema

variable {schema : Schema} {validate : Bool} {p p' : Progress} {token : Token}
  {tokens tokens' : List Token} {decl : ElementDecl} {attributes : List Attribute}
  {e : BoundElement}

/-! ### What a token does -/

/-- What taking in a token does, unless the token is refused. -/
inductive Effect (schema : Schema) (validate : Bool) (p : Progress) : Token → Progress → Prop
  /-- Inside of an element that is skipped, tags are counted. -/
  | counts {token : Token} (hskipped : 0 < p.skipped) :
      Effect schema validate p token (skip p token)
  | skips {tag : StartTag} (hskipped : p.skipped = 0) (hroot : p.root = none)
      (hfound : schema.declarationIn validate p.opened tag = .ok none) :
      Effect schema validate p (.startTag tag) { p with skipped := 1 }
  | opens {tag : StartTag} {decl : ElementDecl} {attributes : List Attribute}
      (hskipped : p.skipped = 0) (hroot : p.root = none)
      (hfound : schema.declarationIn validate p.opened tag = .ok (some decl))
      (hframe : openFrame validate decl tag = .ok { decl, attributes }) :
      Effect schema validate p (.startTag tag) { p with opened := { decl, attributes } :: p.opened }
  | closesRoot {name : String} {f : Frame} (hskipped : p.skipped = 0) (hopened : p.opened = [f])
      (hname : QName.localName name = f.decl.name) :
      Effect schema validate p (.endTag name) { p with opened := [], root := some f.close }
  | closes {name : String} {f parent : Frame} {above : List Frame} (hskipped : p.skipped = 0)
      (hopened : p.opened = f :: parent :: above) (hname : QName.localName name = f.decl.name) :
      Effect schema validate p (.endTag name)
        { p with opened := { parent with children := f.close :: parent.children } :: above }
  | appends {token : Token} {content : String} {f : Frame} {above : List Frame}
      (hskipped : p.skipped = 0) (hcontent : token.characters? = some content)
      (hopened : p.opened = f :: above) (htext : f.decl.hasText = true) :
      Effect schema validate p token
        { p with opened := { f with text := f.text ++ content } :: above }
  | passes {token : Token} (hskipped : p.skipped = 0) (htoken : token.isTag = false) :
      Effect schema validate p token p

theorem readStart_effect {tag : StartTag} (hskipped : p.skipped = 0)
    (h : schema.readStart validate p tag = .ok p') :
    schema.Effect validate p (.startTag tag) p' := by
  unfold readStart at h
  by_cases hsome : p.root.isSome = true
  · rw [if_pos hsome] at h
    cases h
  · rw [if_neg hsome] at h
    have hroot : p.root = none := by simpa using hsome
    split at h
    · cases h
    · rename_i hfound
      cases h
      exact .skips hskipped hroot hfound
    · rename_i decl hfound
      cases hframe : openFrame validate decl tag with
      | error fault =>
          rw [hframe] at h
          cases h
      | ok frame =>
          have heq := openFrame_eq_ok hframe
          rw [hframe] at h
          cases h
          rw [heq] at hframe ⊢
          exact .opens hskipped hroot hfound hframe

theorem readEnd_effect {name : String} (hskipped : p.skipped = 0) (h : readEnd p name = .ok p') :
    schema.Effect validate p (.endTag name) p' := by
  unfold readEnd at h
  split at h
  · cases h
  · rename_i f rest hopened
    by_cases hname : QName.localName name = f.decl.name
    · rw [if_pos hname] at h
      cases rest with
      | nil =>
          cases h
          exact .closesRoot hskipped hopened hname
      | cons parent above =>
          cases h
          exact .closes hskipped hopened hname
    · rw [if_neg hname] at h
      cases h

theorem readText_effect {content : String} (hskipped : p.skipped = 0)
    (hcontent : token.characters? = some content) (h : readText validate p content = .ok p') :
    schema.Effect validate p token p' := by
  have htoken : token.isTag = false := by
    cases token <;> first | rfl | cases hcontent
  unfold readText at h
  split at h
  · cases h
    exact .passes hskipped htoken
  · rename_i f rest hopened
    by_cases htext : f.decl.hasText = true
    · rw [if_pos htext] at h
      cases h
      exact .appends hskipped hcontent hopened htext
    · rw [if_neg htext] at h
      split at h
      · cases h
      · cases h
        exact .passes hskipped htoken

/-- A token that is not refused has one of the effects. -/
theorem read_effect (h : schema.read validate p token = .ok p') :
    schema.Effect validate p token p' := by
  unfold read at h
  by_cases hskips : 0 < p.skipped
  · rw [if_pos hskips] at h
    cases h
    exact .counts hskips
  · rw [if_neg hskips] at h
    have hskipped := Nat.eq_zero_of_not_pos hskips
    cases token with
    | startTag tag => exact readStart_effect hskipped h
    | endTag name => exact readEnd_effect hskipped h
    | text content | cdata content => exact readText_effect hskipped rfl h
    | _ =>
        cases h
        exact .passes hskipped rfl

/-! ### Where elements come from -/

/-- Attributes with which one of the start tags among these tokens opens an element of this
declaration. -/
def Begins (schema : Schema) (validate : Bool) (tokens : List Token) (decl : ElementDecl)
    (attributes : List Attribute) : Prop :=
  ∃ tag, .startTag tag ∈ tokens ∧ schema.element? tag.localName = some decl ∧
    openFrame validate decl tag = .ok { decl, attributes }

/-- An element that has been opened by one of the start tags among these tokens. -/
def HasBegun (schema : Schema) (validate : Bool) (tokens : List Token) (e : BoundElement) : Prop :=
  ∃ decl, e.name = decl.name ∧ schema.Begins validate tokens decl e.attributes

/-- Open elements, or a root, that these tokens have made. -/
structure Progress.Arises (schema : Schema) (validate : Bool) (tokens : List Token) (p : Progress) :
    Prop where
  rootless : p.opened ≠ [] → p.root = none
  frames : ∀ f ∈ p.opened, schema.Begins validate tokens f.decl f.attributes
  children : ∀ f ∈ p.opened, ∀ c ∈ f.children, c.Everywhere (schema.HasBegun validate tokens)
  root : ∀ e, p.root = some e → e.Everywhere (schema.HasBegun validate tokens)

theorem Begins.mono (h : schema.Begins validate tokens decl attributes) (hsub : tokens ⊆ tokens') :
    schema.Begins validate tokens' decl attributes := by
  obtain ⟨tag, htag, hopens⟩ := h
  exact ⟨tag, hsub htag, hopens⟩

theorem everywhere_begun_mono (h : e.Everywhere (schema.HasBegun validate tokens))
    (hsub : tokens ⊆ tokens') : e.Everywhere (schema.HasBegun validate tokens') :=
  h.mono fun _ ⟨decl, hname, hbegins⟩ => ⟨decl, hname, hbegins.mono hsub⟩

namespace Progress.Arises

theorem mono (h : p.Arises schema validate tokens) (hsub : tokens ⊆ tokens') :
    p.Arises schema validate tokens' where
  rootless := h.rootless
  frames f hf := (h.frames f hf).mono hsub
  children f hf c hc := everywhere_begun_mono (h.children f hf c hc) hsub
  root e he := everywhere_begun_mono (h.root e he) hsub

theorem close (h : p.Arises schema validate tokens) {f : Frame} (hf : f ∈ p.opened) :
    f.close.Everywhere (schema.HasBegun validate tokens) :=
  .intro ⟨f.decl, rfl, h.frames f hf⟩ fun c hc => h.children f hf c (List.mem_reverse.mp hc)

/-- Once those inside of it are closed, an open element may change in all but its declaration and
its attributes. -/
theorem update (h : p.Arises schema validate tokens) (inside : List Frame) {f f' : Frame}
    {above : List Frame} (hopened : p.opened = inside ++ f :: above) (hdecl : f'.decl = f.decl)
    (hattributes : f'.attributes = f.attributes)
    (hchildren : ∀ c ∈ f'.children, c.Everywhere (schema.HasBegun validate tokens)) :
    Progress.Arises schema validate tokens { p with opened := f' :: above } where
  rootless _ := h.rootless (by simp [hopened])
  frames := by
    refine List.forall_mem_cons.mpr ⟨?_, fun g hg => h.frames g (by simp [hopened, hg])⟩
    rw [hdecl, hattributes]
    exact h.frames f (by simp [hopened])
  children := List.forall_mem_cons.mpr ⟨hchildren, fun g hg => h.children g (by simp [hopened, hg])⟩
  root := h.root

/-- What a token does to what these tokens have made, they and the token have made. -/
theorem effect (h : p.Arises schema validate tokens) (heffect : schema.Effect validate p token p') :
    p'.Arises schema validate (tokens ++ [token]) := by
  replace h := h.mono (List.subset_append_left tokens [token])
  cases heffect with
  | counts hskipped => cases token <;> exact ⟨h.rootless, h.frames, h.children, h.root⟩
  | skips hskipped hroot hfound => exact ⟨h.rootless, h.frames, h.children, h.root⟩
  | @opens tag decl attributes hskipped hroot hfound hframe =>
      have hbegins : schema.Begins validate (tokens ++ [.startTag tag]) decl attributes :=
        ⟨tag, by simp, element?_of_declarationIn hfound, hframe⟩
      exact ⟨fun _ => hroot, List.forall_mem_cons.mpr ⟨hbegins, h.frames⟩,
        List.forall_mem_cons.mpr ⟨nofun, h.children⟩, h.root⟩
  | @closesRoot name f hskipped hopened hname =>
      refine ⟨fun hne => absurd rfl hne, List.forall_mem_nil _, List.forall_mem_nil _, ?_⟩
      rintro _ ⟨⟩
      exact h.close (by simp [hopened])
  | @closes name f parent above hskipped hopened hname =>
      refine h.update [f] hopened rfl rfl ?_
      exact List.forall_mem_cons.mpr ⟨h.close (by simp [hopened]),
        h.children parent (by simp [hopened])⟩
  | @appends _ content f above hskipped hcontent hopened htext =>
      exact h.update [] hopened rfl rfl (h.children f (by simp [hopened]))
  | passes hskipped htoken => exact h

end Progress.Arises

/-! ### Runs -/

/-- What has been bound behind tokens, unless one of them is refused. -/
def progressAfter (schema : Schema) (validate : Bool) (tokens : List Token) :
    Except BindFault Progress :=
  tokens.foldlM (schema.read validate) {}

theorem foldlM_arises {rest : List Token} (h : p.Arises schema validate tokens)
    (hfold : rest.foldlM (schema.read validate) p = .ok p') :
    p'.Arises schema validate (tokens ++ rest) := by
  induction rest generalizing p tokens with
  | nil =>
      cases hfold
      rwa [List.append_nil]
  | cons token rest ih =>
      rw [List.foldlM_cons] at hfold
      cases hread : schema.read validate p token with
      | error fault =>
          rw [hread] at hfold
          cases hfold
      | ok next =>
          rw [hread] at hfold
          rw [← List.singleton_append, ← List.append_assoc]
          exact ih (h.effect (read_effect hread)) hfold

theorem arises_after (h : schema.progressAfter validate tokens = .ok p) :
    p.Arises schema validate tokens := by
  have hnone : Progress.Arises schema validate [] {} :=
    ⟨fun _ => rfl, List.forall_mem_nil _, List.forall_mem_nil _, nofun⟩
  exact foldlM_arises hnone h

/-- A run takes in tokens of the stream, and nothing else, until it is over, the source fails or a
token is refused. -/
theorem run_outcome (schema : Schema) (validate : Bool) (failure : Option TokenError) (p : Progress)
    (items : List Outcome) :
    ∃ (tokens : List Token) (p' : Progress), (∀ token ∈ tokens, .ok token ∈ items) ∧
      tokens.foldlM (schema.read validate) p = .ok p' ∧
      (schema.run validate failure p items = p'.finish ∨
        (∃ error, schema.run validate failure p items = .error (.source error)) ∨
        ∃ token fault, schema.read validate p' token = .error fault ∧
          schema.run validate failure p items = .error fault) := by
  induction items generalizing p with
  | nil =>
      refine ⟨[], p, nofun, rfl, ?_⟩
      cases failure with
      | none => exact Or.inl rfl
      | some error => exact Or.inr (Or.inl ⟨error, rfl⟩)
  | cons item items ih =>
      cases item with
      | error error => exact ⟨[], p, nofun, rfl, Or.inr (Or.inl ⟨error, rfl⟩)⟩
      | ok token =>
          rw [run]
          split
          · exact ⟨[], p, nofun, rfl, Or.inl rfl⟩
          · cases hread : schema.read validate p token with
            | error fault =>
                exact ⟨[], p, nofun, rfl, Or.inr (Or.inr ⟨token, fault, hread, rfl⟩)⟩
            | ok next =>
                obtain ⟨tokens, p', hmem, hfold, houtcome⟩ := ih next
                refine ⟨token :: tokens, p', ?_, ?_, houtcome⟩
                · exact List.forall_mem_cons.mpr
                    ⟨List.mem_cons_self, fun t ht => List.mem_cons_of_mem _ (hmem t ht)⟩
                · rw [List.foldlM_cons, hread]
                  exact hfold

theorem root_of_finish (h : p.finish = .ok e) : p.root = some e := by
  unfold Progress.finish at h
  split at h
  · cases h
  · split at h
    · rename_i hroot
      cases h
      exact hroot
    · cases h

/-- Each element of what is bound has been opened by a start tag of the stream. -/
theorem bind_begun {s : TokenStream} (h : schema.bind validate s = .ok e) :
    ∃ tokens, (∀ token ∈ tokens, .ok token ∈ s.items) ∧
      e.Everywhere (schema.HasBegun validate tokens) := by
  obtain ⟨tokens, p, hmem, hfold, hrun⟩ := run_outcome schema validate s.failure {} s.items
  refine ⟨tokens, hmem, (arises_after hfold).root e (root_of_finish ?_)⟩
  rw [bind] at h
  rcases hrun with hrun | ⟨error, hrun⟩ | ⟨token, fault, -, hrun⟩
  · rw [← hrun, h]
  · rw [hrun] at h
    cases h
  · rw [hrun] at h
    cases h

end Schema

end PersistenceMapping
