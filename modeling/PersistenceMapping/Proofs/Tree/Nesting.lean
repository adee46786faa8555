/-
The token lists that a builder takes in.

They are those of one element with loose tokens around it, where tags are matched by their full
names (`Nests`, `OneElement`).  The builder knows nothing of that: it takes token after token and
keeps the open elements.  What may still come where some elements are open is its own relation
(`Closes`), put together from `Nests` and taken apart token by token as the builder does it.

Only the way from the builder to the grammar is gone here.  The way back comes with what the
builder makes of the tokens (`Proofs/Tree/Emitted`).
-/
import PersistenceMapping.Proofs.Tree.Building

namespace PersistenceMapping

/-- Whether a token may stand anywhere, in elements and around them. -/
def Token.isLoose : Token → Bool
  | text _ => true
  | cdata _ => true
  | comment _ => true
  | instruction .. => true
  | doctype _ => true
  | _ => false

/-- Tokens in which every start tag has its end tag, of the same full name. -/
inductive Nests : List Token → Prop
  | nil : Nests []
  | loose {token : Token} {rest : List Token} (hloose : token.isLoose = true)
      (hrest : Nests rest) : Nests (token :: rest)
  | element {tag : StartTag} {inner rest : List Token} (hinner : Nests inner)
      (hrest : Nests rest) : Nests (.startTag tag :: (inner ++ .endTag tag.name :: rest))

/-- One element and loose tokens before and after it. -/
structure OneElement (before : List Token) (tag : StartTag) (inner after tokens : List Token) :
    Prop where
  eq : tokens = before ++ .startTag tag :: (inner ++ .endTag tag.name :: after)
  before : ∀ token ∈ before, token.isLoose = true
  inner : Nests inner
  after : ∀ token ∈ after, token.isLoose = true

/-- What may come where elements of some names are open, innermost first. -/
inductive Closes : List String → List Token → Prop
  | nil {after : List Token} (hafter : ∀ token ∈ after, token.isLoose = true) : Closes [] after
  | cons {name : String} {above : List String} {inner after : List Token} (hinner : Nests inner)
      (habove : Closes above after) : Closes (name :: above) (inner ++ .endTag name :: after)

namespace Closes

variable {opened : List String} {name : String} {token : Token} {tag : StartTag}
  {tokens : List Token}

theorem loose (hloose : token.isLoose = true) (h : Closes opened tokens) :
    Closes opened (token :: tokens) := by
  cases h with
  | nil hafter => exact .nil (List.forall_mem_cons.mpr ⟨hloose, hafter⟩)
  | cons hinner habove => exact .cons (.loose hloose hinner) habove

/-- What closes an element and then those above it may stand behind its start tag. -/
theorem element (h : Closes (tag.name :: name :: opened) tokens) :
    Closes (name :: opened) (.startTag tag :: tokens) := by
  cases h with
  | @cons _ _ inner _ hinner habove =>
      cases habove with
      | @cons _ _ rest after hrest habove =>
          have hnests : Nests (.startTag tag :: (inner ++ .endTag tag.name :: rest)) :=
            .element hinner hrest
          have hclosed : Closes (name :: opened) (_ ++ .endTag name :: after) := .cons hnests habove
          rwa [List.cons_append, List.append_assoc, List.cons_append] at hclosed

end Closes

namespace Builder

variable {b b' : Builder} {token : Token} {tokens : List Token}

/-! ### Taking in tokens -/

/-- Takes in tokens one after the other. -/
def takes (b : Builder) (tokens : List Token) : Except ShapeFault Builder :=
  tokens.foldlM (read false) b

@[simp] theorem takes_nil (b : Builder) : b.takes [] = .ok b :=
  rfl

theorem takes_cons (b : Builder) (token : Token) (rest : List Token) :
    b.takes (token :: rest) = (b.read false token).bind (·.takes rest) :=
  List.foldlM_cons

theorem takes_append (b : Builder) (first second : List Token) :
    b.takes (first ++ second) = (b.takes first).bind (·.takes second) :=
  List.foldlM_append

/-- A run takes in the tokens up to the document end, and then it must be complete. -/
theorem run_eq_takes (b : Builder) (tokens : List Token) :
    b.run false none (tokens.map .ok) =
      ((b.takes (tokens.takeWhile (· ≠ .endDocument))).bind finish).mapError .shape := by
  induction tokens generalizing b with
  | nil => rfl
  | cons token rest ih =>
      rw [List.map_cons]
      by_cases hend : token = .endDocument
      · subst hend
        rfl
      · rw [List.takeWhile_cons_of_pos (by simpa using hend), takes_cons, run]
        · cases b.read false token with
          | error fault => rfl
          | ok b' => exact ih b'
        · exact hend

/-! ### One token -/

/-- A loose token opens and closes nothing, and never makes a root. -/
theorem read_loose (b : Builder) (hloose : token.isLoose = true) :
    ∃ b', b.read false token = .ok b' ∧ b'.opened = b.opened ∧
      b'.document.root = b.document.root := by
  have happend : ∀ node : NodeId × Document, node.2.root = b.document.root →
      (b.append node).opened = b.opened ∧ (b.append node).document.root = b.document.root :=
    fun node hroot => ⟨rfl, (Document.root_link _ _ _).trans hroot⟩
  cases token with
  | text content =>
      by_cases hopened : b.opened.isEmpty = true
      · exact ⟨b, by simp [read, hopened], rfl, rfl⟩
      · refine ⟨b.append (b.document.pushText content), ?_, happend _ rfl⟩
        simp only [read, if_neg hopened]
  | cdata content =>
      by_cases hopened : b.opened.isEmpty = true
      · exact ⟨b, by simp [read, hopened], rfl, rfl⟩
      · refine ⟨b.append (b.document.pushCdata content), ?_, happend _ rfl⟩
        simp only [read, if_neg hopened]
  | comment content => exact ⟨_, rfl, happend _ rfl⟩
  | instruction target data => exact ⟨_, rfl, happend _ rfl⟩
  | doctype content => exact ⟨b, rfl, rfl, rfl⟩
  | startDocument | startTag | endTag | endDocument => cases hloose

/-- A start tag is taken in unless there is a root already and nothing is open. -/
theorem read_start (b : Builder) (tag : StartTag) :
    b.read false (.startTag tag) =
      if b.opened.isEmpty && b.document.root.isSome then .error .severalRoots
      else .ok (b.enter tag) :=
  rfl

theorem opened_enter (b : Builder) (tag : StartTag) :
    (b.enter tag).opened.map (·.2) = tag.name :: b.opened.map (·.2) :=
  rfl

/-! ### What has been taken in -/

/-- Once there is a root, what is taken in until nothing is open closes what was open. -/
theorem closes_of_takes (hroot : b.document.root.isSome = true)
    (hend : .endDocument ∉ tokens) (htakes : b.takes tokens = .ok b') (hclosed : b'.opened = []) :
    Closes (b.opened.map (·.2)) tokens := by
  induction tokens generalizing b with
  | nil =>
      cases htakes
      rw [hclosed]
      exact .nil (by simp)
  | cons token rest ih =>
      rw [List.mem_cons, not_or] at hend
      rw [takes_cons] at htakes
      cases hloose : token.isLoose with
      | true =>
          obtain ⟨b₁, hread, hopened, hroot₁⟩ := b.read_loose hloose
          rw [hread] at htakes
          rw [← hopened]
          exact .loose hloose (ih (hroot₁ ▸ hroot) hend.2 htakes)
      | false =>
          cases token with
          | startTag tag =>
              rw [read_start, hroot, Bool.and_true] at htakes
              cases hopened : b.opened with
              | nil => simp [hopened, Except.bind] at htakes
              | cons e above =>
                  rw [hopened, List.isEmpty_cons, if_neg Bool.false_ne_true] at htakes
                  have hroot' : (b.enter tag).document.root.isSome = true := by
                    rw [root_enter, hroot, Bool.true_or]
                  have hcloses := ih hroot' hend.2 htakes
                  rw [opened_enter, hopened] at hcloses
                  exact hcloses.element
          | endTag name =>
              rw [read] at htakes
              cases hopened : b.opened with
              | nil => simp [hopened, Except.bind] at htakes
              | cons e above =>
                  simp only [hopened] at htakes
                  split at htakes
                  · rename_i hname
                    have hcloses := ih (b := { b with opened := above }) hroot hend.2 htakes
                    rw [List.map_cons, hname]
                    exact .cons .nil hcloses
                  · cases htakes
          | endDocument => exact absurd rfl hend.1
          | startDocument => cases htakes
          | text | cdata | comment | instruction | doctype => cases hloose

/-- What is taken in from the start until there is a root and nothing is open is one element with
loose tokens around it. -/
theorem oneElement_of_takes (hopened : b.opened = []) (hroot : b.document.root = none)
    (hend : .endDocument ∉ tokens) (htakes : b.takes tokens = .ok b') (hclosed : b'.opened = [])
    (hroot' : b'.document.root.isSome = true) :
    ∃ before tag inner after, OneElement before tag inner after tokens := by
  induction tokens generalizing b with
  | nil =>
      cases htakes
      simp [hroot] at hroot'
  | cons token rest ih =>
      rw [List.mem_cons, not_or] at hend
      rw [takes_cons] at htakes
      cases hloose : token.isLoose with
      | true =>
          obtain ⟨b₁, hread, hopened₁, hroot₁⟩ := b.read_loose hloose
          rw [hread] at htakes
          obtain ⟨before, tag, inner, after, rfl, hbefore, hinner, hafter⟩ :=
            ih (hopened₁.trans hopened) (hroot₁.trans hroot) hend.2 htakes
          exact ⟨token :: before, tag, inner, after, rfl,
            List.forall_mem_cons.mpr ⟨hloose, hbefore⟩, hinner, hafter⟩
      | false =>
          cases token with
          | startTag tag =>
              rw [read_start, hroot, Option.isSome_none, Bool.and_false,
                if_neg Bool.false_ne_true] at htakes
              have hroot₁ : (b.enter tag).document.root.isSome = true := by
                rw [root_enter, hopened, List.isEmpty_nil, Bool.or_true]
              have hcloses := closes_of_takes hroot₁ hend.2 htakes hclosed
              rw [opened_enter, hopened, List.map_nil] at hcloses
              cases hcloses with
              | cons hinner habove =>
                  cases habove with
                  | nil hafter => exact ⟨[], tag, _, _, rfl, by simp, hinner, hafter⟩
          | endTag name => simp [read, hopened, Except.bind] at htakes
          | endDocument => exact absurd rfl hend.1
          | startDocument => cases htakes
          | text | cdata | comment | instruction | doctype => cases hloose

end Builder

end PersistenceMapping
