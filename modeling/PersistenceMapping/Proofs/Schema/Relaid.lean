/-
Binding in two layouts.

Blank text is either of no concern to the schema or a part of an element's text.  So while relaid
streams are bound, the same elements are open in both (`Progress.Agrees`), and their texts are what
the streams have had of character data.  Each token is refused in both or leads to what agrees
again, and in the end the same faults come out, or elements that are the same once their texts are
trimmed (`Schema.bind_relaid`).
-/
import PersistenceMapping.Proofs.Text.Trimmed
import PersistenceMapping.Proofs.Token.Relaid

namespace PersistenceMapping

namespace BoundElement

mutual

/-- An element with its text trimmed, and those of all elements in it. -/
def trimmed : BoundElement → BoundElement
  | mk name attributes children text => mk name attributes (trimmedAll children) (trim text)

/-- Elements with their texts trimmed. -/
def trimmedAll : List BoundElement → List BoundElement
  | [] => []
  | e :: rest => trimmed e :: trimmedAll rest

end

theorem trimmedAll_eq_map (es : List BoundElement) : trimmedAll es = es.map trimmed := by
  induction es with
  | nil => rfl
  | cons e es ih => rw [trimmedAll, ih, List.map_cons]

end BoundElement

namespace Schema

/-- Whether an element with an end tag of this name has text. -/
def carriesText (schema : Schema) (name : String) : Bool :=
  (schema.element? (QName.localName name)).any (·.hasText)

variable {schema : Schema} {validate : Bool} {texts : List (String × String)}

/-! ### Open elements -/

/-- An open element in both layouts, and the character data that it has had in each. -/
structure Frame.Agrees (schema : Schema) (f f' : Frame) (had : String × String) : Prop where
  decl : f'.decl = f.decl
  attributes : f'.attributes = f.attributes
  children : f'.children.map BoundElement.trimmed = f.children.map BoundElement.trimmed
  declared : schema.element? f.decl.name = some f.decl
  text : f.text = if f.decl.hasText then had.1 else ""
  text' : f'.text = if f.decl.hasText then had.2 else ""

/-- The open elements in both layouts, and the character data that they have had. -/
inductive Opened (schema : Schema) : List Frame → List Frame → List (String × String) → Prop
  | nil {texts : List (String × String)} : Opened schema [] [] texts
  | cons {f f' : Frame} {fs fs' : List Frame} {had : String × String}
      {texts : List (String × String)} (h : f.Agrees schema f' had)
      (h' : Opened schema fs fs' texts) : Opened schema (f :: fs) (f' :: fs') (had :: texts)

/-- What has been bound so far in both layouts.  Elements that are skipped have had character data
as well, which does not matter. -/
structure Progress.Agrees (schema : Schema) (p p' : Progress) (texts : List (String × String)) :
    Prop where
  opened : Opened schema p.opened p'.opened (texts.drop p.skipped)
  root : p'.root.map BoundElement.trimmed = p.root.map BoundElement.trimmed
  skipped : p'.skipped = p.skipped

theorem Frame.Agrees.symm {f f' : Frame} {had : String × String} (h : f.Agrees schema f' had) :
    f'.Agrees schema f had.swap :=
  ⟨h.decl.symm, h.attributes.symm, h.children.symm, h.decl.symm ▸ h.declared,
    h.decl.symm ▸ h.text', h.decl.symm ▸ h.text⟩

theorem Opened.symm {fs fs' : List Frame} (h : Opened schema fs fs' texts) :
    Opened schema fs' fs (texts.map Prod.swap) := by
  induction h with
  | nil => exact .nil
  | cons h _ ih => exact .cons h.symm ih

/-- An open element after more character data. -/
def Frame.withText (f : Frame) (content : String) : Frame :=
  if f.decl.hasText then { f with text := f.text ++ content } else f

/-- What has been bound after more character data, which is not refused. -/
def Progress.withText (p : Progress) (content : String) : Progress :=
  match p.opened with
  | f :: rest => if p.skipped = 0 then { p with opened := f.withText content :: rest } else p
  | [] => p

/-- The fault for which character data is refused, if it is. -/
def Progress.refusal? (validate : Bool) (p : Progress) (content : String) : Option BindFault :=
  match p.opened with
  | f :: _ =>
    if p.skipped = 0 ∧ f.decl.hasText = false ∧ validate = true ∧ isBlankText content = false then
      some (.strayText f.decl.name)
    else none
  | [] => none

theorem read_of_characters {token : Token} {content : String}
    (h : token.characters? = some content) (p : Progress) :
    schema.read validate p token =
      match p.refusal? validate content with
      | some fault => .error fault
      | none => .ok (p.withText content) := by
  have hread : schema.read validate p token =
      if 0 < p.skipped then .ok p else readText validate p content := by
    cases token <;> cases h <;> rfl
  obtain ⟨opened, root, skipped⟩ := p
  rw [hread]
  cases opened with
  | nil =>
      simp [Progress.refusal?, Progress.withText, readText]
  | cons f rest =>
      rcases Nat.eq_zero_or_pos skipped with rfl | hskipped
      · cases htext : f.decl.hasText with
        | true => simp [Progress.refusal?, Progress.withText, Frame.withText, readText, htext]
        | false =>
            by_cases hrefused : validate = true ∧ isBlankText content = false
            · simp [Progress.refusal?, readText, htext, hrefused]
            · simp [Progress.refusal?, Progress.withText, Frame.withText, readText, htext, hrefused]
      · simp [Progress.refusal?, Progress.withText, hskipped, Nat.ne_of_gt hskipped]

/-- A token is refused in both layouts for the same fault, or what has been bound then agrees. -/
inductive Alike (schema : Schema) (texts : List (String × String)) :
    Except BindFault Progress → Except BindFault Progress → Prop
  | error {fault : BindFault} : Alike schema texts (.error fault) (.error fault)
  | ok {p p' : Progress} (h : p.Agrees schema p' texts) : Alike schema texts (.ok p) (.ok p')

theorem element?_name {name : String} {decl : ElementDecl} (h : schema.element? name = some decl) :
    decl.name = name := by
  simpa using List.find?_some h

/-- The declaration of an element is that of its local name. -/
theorem element?_of_declarationIn {opened : List Frame} {tag : StartTag} {decl : ElementDecl}
    (h : schema.declarationIn validate opened tag = .ok (some decl)) :
    schema.element? tag.localName = some decl := by
  cases opened with
  | nil =>
      simp only [declarationIn] at h
      split at h
      · cases h
        exact (Option.filter_eq_some_iff.mp ‹_›).1
      · cases h
  | cons parent above =>
      simp only [declarationIn] at h
      split at h
      · cases h
        exact (Option.filter_eq_some_iff.mp ‹_›).1
      · split at h <;> cases h

theorem declared_of_declarationIn {opened : List Frame} {tag : StartTag} {decl : ElementDecl}
    (h : schema.declarationIn validate opened tag = .ok (some decl)) :
    schema.element? decl.name = some decl := by
  have hfound := element?_of_declarationIn h
  rw [element?_name hfound, hfound]

/-- A new frame has no children and no text yet. -/
theorem openFrame_eq_ok {decl : ElementDecl} {tag : StartTag} {frame : Frame}
    (h : openFrame validate decl tag = .ok frame) : frame = { decl, attributes := frame.attributes }
    := by
  rw [openFrame] at h
  split at h
  · cases h
  · cases hbound : decl.bindAttributes validate tag.attributes with
    | error fault =>
        rw [hbound] at h
        cases h
    | ok attributes =>
        rw [hbound] at h
        cases h
        rfl

theorem Frame.Agrees.close {f f' : Frame} {had : String × String} (h : f.Agrees schema f' had)
    (hsame : f.decl.hasText = true → trim had.1 = trim had.2) :
    f'.close.trimmed = f.close.trimmed := by
  have htext : trim f'.text = trim f.text := by
    rw [h.text, h.text']
    split
    · rename_i hhas
      exact (hsame hhas).symm
    · rfl
  have hchildren : f'.children.reverse.map BoundElement.trimmed =
      f.children.reverse.map BoundElement.trimmed := by
    rw [List.map_reverse, List.map_reverse, h.children]
  simp only [Frame.close, BoundElement.trimmed, BoundElement.trimmedAll_eq_map, h.decl,
    h.attributes, htext, hchildren]

namespace Progress.Agrees

variable {p p' : Progress} {text text' content name : String}

theorem symm (h : p.Agrees schema p' texts) : p'.Agrees schema p (texts.map Prod.swap) := by
  refine ⟨?_, h.root.symm, h.skipped.symm⟩
  rw [h.skipped, ← List.map_drop]
  exact h.opened.symm

theorem withText (h : p.Agrees schema p' ((text, text') :: texts)) (content : String) :
    (p.withText content).Agrees schema p' ((text ++ content, text') :: texts) := by
  obtain ⟨opened, root, skipped⟩ := p
  obtain ⟨hopened, hroot, hskipped⟩ := h
  cases skipped with
  | succ n =>
      have hsame : withText ⟨opened, root, n + 1⟩ content = ⟨opened, root, n + 1⟩ := by
        cases opened <;> rfl
      rw [hsame]
      exact ⟨hopened, hroot, hskipped⟩
  | zero =>
      generalize hopened' : p'.opened = opened' at hopened
      cases hopened with
      | nil =>
          refine ⟨?_, hroot, hskipped⟩
          rw [hopened']
          exact .nil
      | @cons f f' fs fs' _ _ hframe hrest =>
          refine ⟨?_, hroot, hskipped⟩
          rw [hopened']
          refine .cons ?_ hrest
          cases hhas : f.decl.hasText with
          | true =>
              rw [Frame.withText, if_pos hhas]
              refine ⟨hframe.decl, hframe.attributes, hframe.children, hframe.declared, ?_, ?_⟩
              · simp [hhas, hframe.text]
              · simp [hhas, hframe.text']
          | false =>
              rw [Frame.withText, if_neg (by simp [hhas])]
              refine ⟨hframe.decl, hframe.attributes, hframe.children, hframe.declared, ?_, ?_⟩
              · simp [hhas, hframe.text]
              · simp [hhas, hframe.text']

theorem withText' (h : p.Agrees schema p' ((text, text') :: texts)) (content : String) :
    p.Agrees schema (p'.withText content) ((text, text' ++ content) :: texts) := by
  have hswap : List.map Prod.swap (List.map Prod.swap texts) = texts := by simp
  have := (h.symm.withText content).symm
  rwa [List.map_cons, hswap] at this

theorem refusal?_eq (h : p.Agrees schema p' texts) (content : String) :
    p'.refusal? validate content = p.refusal? validate content := by
  obtain ⟨hopened, -, hskipped⟩ := h
  rw [refusal?, refusal?, hskipped]
  generalize p.opened = opened, p'.opened = opened', texts.drop p.skipped = inside at hopened
  cases hopened with
  | nil => rfl
  | cons hframe _ => simp only [hframe.decl]

theorem declarationIn_eq (h : p.Agrees schema p' texts) (tag : StartTag) :
    schema.declarationIn validate p'.opened tag = schema.declarationIn validate p.opened tag := by
  obtain ⟨hopened, -, -⟩ := h
  generalize p.opened = opened, p'.opened = opened', texts.drop p.skipped = inside at hopened
  cases hopened with
  | nil => rfl
  | cons hframe _ => simp only [declarationIn, hframe.decl]

/-- A start tag opens the same element in both layouts, which has had no character data yet. -/
theorem readStart (h : p.Agrees schema p' texts) (hskipped : p.skipped = 0) (tag : StartTag) :
    Alike schema (("", "") :: texts) (schema.readStart validate p tag)
      (schema.readStart validate p' tag) := by
  have hroot : p'.root.isSome = p.root.isSome := by
    simpa using congrArg Option.isSome h.root
  rw [Schema.readStart, Schema.readStart, hroot, h.declarationIn_eq]
  split
  · exact .error
  · split
    · exact .error
    · refine .ok ⟨?_, h.root, rfl⟩
      have hopened := h.opened
      rwa [hskipped] at hopened
    · rename_i decl hdeclaration
      cases hframe : openFrame validate decl tag with
      | error fault => exact .error
      | ok frame =>
          have hopened := h.opened
          rw [hskipped] at hopened
          have hagrees : frame.Agrees schema frame ("", "") := by
            rw [openFrame_eq_ok hframe]
            exact ⟨rfl, rfl, rfl, declared_of_declarationIn hdeclaration, by simp, by simp⟩
          refine .ok ⟨?_, h.root, h.skipped⟩
          show Opened schema _ _ (List.drop p.skipped _)
          rw [hskipped]
          exact .cons hagrees hopened

/-- An end tag closes the same element in both layouts, and but for blanks around them the texts of
the two are the same. -/
theorem readEnd (h : p.Agrees schema p' ((text, text') :: texts)) (hskipped : p.skipped = 0)
    (hsame : schema.carriesText name = true → trim text = trim text') :
    Alike schema texts (Schema.readEnd p name) (Schema.readEnd p' name) := by
  obtain ⟨opened, root, skipped⟩ := p
  obtain ⟨opened', root', skipped'⟩ := p'
  obtain ⟨hopened, hroot, rfl⟩ := h
  obtain rfl : skipped' = 0 := hskipped
  cases hopened with
  | nil => exact .error
  | @cons f f' _ _ _ _ hframe hrest =>
      simp only [Schema.readEnd, hframe.decl]
      split
      · rename_i hname
        have hclose : f'.close.trimmed = f.close.trimmed := by
          refine hframe.close fun hhas => hsame ?_
          rw [carriesText, hname, hframe.declared]
          exact hhas
        cases hrest with
        | nil => exact .ok ⟨.nil, by simp [hclose], rfl⟩
        | cons hparent habove =>
            refine .ok ⟨.cons ⟨hparent.decl, hparent.attributes, ?_, hparent.declared, hparent.text,
              hparent.text'⟩ habove, hroot, rfl⟩
            simp [hclose, hparent.children]
      · exact .error

/-- A token that is taken in in both layouts is refused in both or leads to what agrees again. -/
theorem characters {token : Token} (h : p.Agrees schema p' ((text, text') :: texts))
    (htoken : token.characters? = some content) :
    Alike schema ((text ++ content, text' ++ content) :: texts) (schema.read validate p token)
      (schema.read validate p' token) := by
  rw [read_of_characters htoken, read_of_characters htoken, h.refusal?_eq]
  split
  · exact .error
  · exact .ok ((h.withText content).withText' content)

/-- Inside an element that is skipped a start tag opens another such element. -/
theorem start (h : p.Agrees schema p' texts) (tag : StartTag) :
    Alike schema (("", "") :: texts) (schema.read validate p (.startTag tag))
      (schema.read validate p' (.startTag tag)) := by
  rw [Schema.read, Schema.read, h.skipped]
  split
  · exact .ok ⟨h.opened, h.root, by rw [skip, skip, h.skipped]⟩
  · exact h.readStart (by omega) tag

/-- Inside an element that is skipped an end tag closes the innermost such element. -/
theorem stop (h : p.Agrees schema p' ((text, text') :: texts))
    (hsame : schema.carriesText name = true → trim text = trim text') :
    Alike schema texts (schema.read validate p (.endTag name))
      (schema.read validate p' (.endTag name)) := by
  rw [Schema.read, Schema.read, h.skipped]
  split
  · rename_i hskipped
    obtain ⟨n, hn⟩ : ∃ n, p.skipped = n + 1 := ⟨p.skipped - 1, by omega⟩
    have hopened := h.opened
    rw [hn, List.drop_succ_cons] at hopened
    refine .ok ⟨?_, h.root, by rw [skip, skip, h.skipped]⟩
    show Opened schema _ _ (List.drop (p.skipped - 1) texts)
    rwa [hn]
  · exact h.readEnd (by omega) hsame

theorem aside {token : Token} (h : p.Agrees schema p' texts) (htoken : token.isAside = true) :
    Alike schema texts (schema.read validate p token) (schema.read validate p' token) := by
  have hread : ∀ p : Progress, schema.read validate p token = .ok p := by
    intro p
    cases token <;> first | exact ite_self _ | cases htoken
  rw [hread, hread]
  exact .ok h

theorem finish (h : p.Agrees schema p' texts) :
    p'.finish.map BoundElement.trimmed = p.finish.map BoundElement.trimmed := by
  obtain ⟨opened, root, skipped⟩ := p
  obtain ⟨opened', root', skipped'⟩ := p'
  obtain ⟨hopened, hroot, rfl⟩ := h
  simp only [Progress.finish]
  generalize List.drop _ texts = inside at hopened
  cases hopened with
  | cons hframe _ => simp only [hframe.decl]
  | nil =>
      cases root <;> cases root' <;> simp_all [Except.map]

end Progress.Agrees

/-! ### Streams -/

variable {p p' : Progress} {items items' : List Outcome} {failure : Option TokenError}

/-- A token that is taken in in both layouts, before what gives the same in both. -/
theorem run_cons_alike {token : Token} {texts' : List (String × String)}
    (hp : p.Agrees schema p' texts)
    (hread : Alike schema texts' (schema.read validate p token) (schema.read validate p' token))
    (hrest : ∀ {q q' : Progress}, q.Agrees schema q' texts' →
      (schema.run validate failure q' items').map BoundElement.trimmed =
        (schema.run validate failure q items).map BoundElement.trimmed) :
    (schema.run validate failure p' (.ok token :: items')).map BoundElement.trimmed =
      (schema.run validate failure p (.ok token :: items)).map BoundElement.trimmed := by
  rw [run, run, hp.skipped]
  split
  · exact hp.finish
  · generalize schema.read validate p token = result,
      schema.read validate p' token = result' at hread
    cases hread with
    | error => rfl
    | ok h => exact hrest h

/-- Blank text is not refused. -/
theorem read_blank {content : String} (hblank : isBlankText content = true) (p : Progress) :
    schema.read validate p (.text content) = .ok (p.withText content) := by
  have hrefusal : p.refusal? validate content = none := by
    rw [Progress.refusal?]
    split <;> simp [hblank]
  rw [read_of_characters rfl, hrefusal]

theorem run_cons_blank {content : String} (hblank : isBlankText content = true) :
    schema.run validate failure p (.ok (.text content) :: items) =
      schema.run validate failure (p.withText content) items := by
  rw [run, if_neg (by simp), read_blank hblank]

/-- Where what has been bound agrees, relaid outcomes lead to the same. -/
theorem run_relaid (h : Relaid schema.carriesText texts items items')
    (hp : p.Agrees schema p' texts) :
    (schema.run validate failure p' items').map BoundElement.trimmed =
      (schema.run validate failure p items).map BoundElement.trimmed := by
  induction h generalizing p p' with
  | nil =>
      cases failure with
      | some e => rfl
      | none => exact hp.finish
  | blank hblank _ ih =>
      rw [run_cons_blank hblank]
      exact ih (hp.withText _)
  | blank' hblank _ ih =>
      rw [run_cons_blank hblank]
      exact ih (hp.withText' _)
  | characters htoken _ ih => exact run_cons_alike hp (hp.characters htoken) ih
  | start _ ih => exact run_cons_alike hp (hp.start _) ih
  | stop hsame _ ih => exact run_cons_alike hp (hp.stop hsame) ih
  | aside htoken _ ih => exact run_cons_alike hp (hp.aside htoken) ih

/-- Relaid streams are bound to elements that are the same but for blanks around their texts, or
both are refused for the same fault. -/
theorem bind_relaid (h : Relaid schema.carriesText texts items items') :
    (schema.bind validate { items := items', failure }).map BoundElement.trimmed =
      (schema.bind validate { items, failure }).map BoundElement.trimmed :=
  run_relaid h ⟨.nil, rfl, rfl⟩

end Schema

end PersistenceMapping
