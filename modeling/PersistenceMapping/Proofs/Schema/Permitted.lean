/-
What stands in bound elements.

Binding opens an element inside of another only where the schema lets it stand; all else that a
document has is refused, or skipped if nothing is refused.  So whatever is bound stands where it may
(`bind_permitted`).  An open element has its children already, and each open element may stand in
the next: this is what every token keeps (`Progress.Keeps`).
-/
import Mathlib.Data.List.Chain
import PersistenceMapping.Proofs.Schema.Relaid

namespace PersistenceMapping

/-- Whether the schema lets an element stand in another, both told by their names. -/
def Schema.permits (schema : Schema) (parent child : String) : Bool :=
  (schema.element? parent).any (·.permits child)

/-- An element in which all elements stand where the schema lets them stand. -/
inductive BoundElement.Permitted (schema : Schema) : BoundElement → Prop
  | intro {e : BoundElement} (hnames : ∀ c ∈ e.children, schema.permits e.name c.name = true)
      (hchildren : ∀ c ∈ e.children, BoundElement.Permitted schema c) :
      BoundElement.Permitted schema e

theorem BoundElement.Permitted.children {schema : Schema} {e : BoundElement}
    (h : e.Permitted schema) : ∀ c ∈ e.children, c.Permitted schema := by
  cases h with
  | intro _ hchildren => exact hchildren

theorem BoundElement.Permitted.names {schema : Schema} {e : BoundElement}
    (h : e.Permitted schema) : ∀ c ∈ e.children, schema.permits e.name c.name = true := by
  cases h with
  | intro hnames _ => exact hnames

namespace Schema

variable {schema : Schema} {validate : Bool} {p p' : Progress} {e : BoundElement} {token : Token}

/-- A declared element that is open, with children that may stand in it. -/
structure Frame.Keeps (schema : Schema) (f : Frame) : Prop where
  declared : schema.element? f.decl.name = some f.decl
  names : ∀ c ∈ f.children, f.decl.permits c.name = true
  children : ∀ c ∈ f.children, c.Permitted schema

/-- Open elements of which each may stand in the next, or a root in which all may stand. -/
structure Progress.Keeps (schema : Schema) (p : Progress) : Prop where
  frames : ∀ f ∈ p.opened, f.Keeps schema
  nested : p.opened.IsChain fun f above => above.decl.permits f.decl.name = true
  root : ∀ e, p.root = some e → e.Permitted schema

theorem Frame.Keeps.close {f : Frame} (h : f.Keeps schema) : f.close.Permitted schema := by
  refine .intro (fun c hc => ?_) fun c hc => ?_
  · rw [Schema.permits, Frame.close, BoundElement.name, h.declared]
    exact h.names c (List.mem_reverse.mp hc)
  · exact h.children c (List.mem_reverse.mp hc)

theorem Frame.Keeps.child {f : Frame} (h : f.Keeps schema) (hname : f.decl.permits e.name = true)
    (he : e.Permitted schema) : Frame.Keeps schema { f with children := e :: f.children } where
  declared := h.declared
  names := List.forall_mem_cons.mpr ⟨hname, h.names⟩
  children := List.forall_mem_cons.mpr ⟨he, h.children⟩

/-! ### Tokens -/

theorem permits_of_declarationIn {parent : Frame} {above : List Frame} {tag : StartTag}
    {decl : ElementDecl}
    (h : schema.declarationIn validate (parent :: above) tag = .ok (some decl)) :
    parent.decl.permits decl.name = true := by
  rw [element?_name (element?_of_declarationIn h)]
  simp only [declarationIn] at h
  split at h
  · rename_i hfound
    cases h
    exact (Option.filter_eq_some_iff.mp hfound).2
  · split at h <;> cases h

theorem readStart_keeps (h : p.Keeps schema) {tag : StartTag}
    (hread : schema.readStart validate p tag = .ok p') : p'.Keeps schema := by
  unfold readStart at hread
  split at hread
  · cases hread
  · split at hread
    · cases hread
    · cases hread
      exact ⟨h.frames, h.nested, h.root⟩
    · rename_i decl hfound
      cases hframe : openFrame validate decl tag with
      | error fault =>
          rw [hframe] at hread
          cases hread
      | ok frame =>
          rw [hframe] at hread
          cases hread
          obtain ⟨attributes, rfl⟩ : ∃ attributes, frame = { decl, attributes } :=
            ⟨_, openFrame_eq_ok hframe⟩
          refine ⟨List.forall_mem_cons.mpr ⟨?_, h.frames⟩, ?_, h.root⟩
          · exact ⟨declared_of_declarationIn hfound, nofun, nofun⟩
          · refine List.isChain_cons.mpr ⟨fun above habove => ?_, h.nested⟩
            obtain ⟨rest, hrest⟩ := List.head?_eq_some_iff.mp habove
            rw [hrest] at hfound
            exact permits_of_declarationIn hfound

theorem readEnd_keeps (h : p.Keeps schema) {name : String} (hread : readEnd p name = .ok p') :
    p'.Keeps schema := by
  obtain ⟨opened, root, skipped⟩ := p
  obtain ⟨hframes, hnested, hroot⟩ := h
  cases opened with
  | nil => cases hread
  | cons f rest =>
      rw [List.forall_mem_cons] at hframes
      simp only [readEnd] at hread
      split at hread
      · cases rest with
        | nil =>
            cases hread
            refine ⟨List.forall_mem_nil _, .nil, ?_⟩
            rintro _ ⟨⟩
            exact hframes.1.close
        | cons parent above =>
            cases hread
            obtain ⟨hparent, habove⟩ := List.forall_mem_cons.mp hframes.2
            obtain ⟨hname, hchain⟩ := List.isChain_cons_cons.mp hnested
            refine ⟨List.forall_mem_cons.mpr ⟨hparent.child hname hframes.1.close, habove⟩, ?_,
              hroot⟩
            exact List.isChain_cons.mpr ⟨(List.isChain_cons.mp hchain).1,
              (List.isChain_cons.mp hchain).2⟩
      · cases hread

theorem readText_keeps (h : p.Keeps schema) {content : String}
    (hread : readText validate p content = .ok p') : p'.Keeps schema := by
  obtain ⟨opened, root, skipped⟩ := p
  cases opened with
  | nil =>
      cases hread
      exact h
  | cons f rest =>
      obtain ⟨hframes, hnested, hroot⟩ := h
      rw [List.forall_mem_cons] at hframes
      simp only [readText] at hread
      split at hread
      · cases hread
        refine ⟨List.forall_mem_cons.mpr ⟨?_, hframes.2⟩, ?_, hroot⟩
        · exact ⟨hframes.1.declared, hframes.1.names, hframes.1.children⟩
        · exact List.isChain_cons.mpr (List.isChain_cons.mp hnested)
      · split at hread
        · cases hread
        · cases hread
          exact ⟨List.forall_mem_cons.mpr hframes, hnested, hroot⟩

theorem skip_keeps (h : p.Keeps schema) (token : Token) : (skip p token).Keeps schema := by
  cases token <;> exact ⟨h.frames, h.nested, h.root⟩

/-- No token lets an element stand where it may not. -/
theorem read_keeps (h : p.Keeps schema) (hread : schema.read validate p token = .ok p') :
    p'.Keeps schema := by
  unfold read at hread
  split at hread
  · cases hread
    exact skip_keeps h token
  · cases token with
    | startTag tag => exact readStart_keeps h hread
    | endTag name => exact readEnd_keeps h hread
    | text content | cdata content => exact readText_keeps h hread
    | _ =>
        cases hread
        exact h

/-! ### Runs -/

theorem finish_keeps (h : p.Keeps schema) (hfinish : p.finish = .ok e) : e.Permitted schema := by
  unfold Progress.finish at hfinish
  split at hfinish
  · cases hfinish
  · split at hfinish
    · rename_i hroot
      cases hfinish
      exact h.root _ hroot
    · cases hfinish

theorem run_keeps (h : p.Keeps schema) {failure : Option TokenError} {items : List Outcome}
    (hrun : schema.run validate failure p items = .ok e) : e.Permitted schema := by
  induction items generalizing p with
  | nil =>
      cases failure with
      | some error => cases hrun
      | none => exact finish_keeps h hrun
  | cons item items ih =>
      cases item with
      | error error => cases hrun
      | ok token =>
          rw [run] at hrun
          split at hrun
          · exact finish_keeps h hrun
          · split at hrun
            · cases hrun
            · rename_i hread
              exact ih (read_keeps h hread) hrun

/-- In what is bound every element stands where the schema lets it stand, validated or not. -/
theorem bind_permitted {s : TokenStream} (h : schema.bind validate s = .ok e) :
    e.Permitted schema :=
  run_keeps ⟨by simp, .nil, by simp⟩ h

end Schema

end PersistenceMapping
