/-
What binding passes over.

Without validation an element that is not declared where it stands is skipped with all that is in
it.  Inside of it tags are counted and nothing else is looked at, so the end of what is skipped is
found wherever tags are brackets, whatever their names (`Token.Balanced`), and behind it binding
goes on as if nothing had been there.

Where an element is skipped can be told from the items before it: the elements that are open behind
them are each bound by a declaration or skipped (`Schema.openAfter`).  Binding keeps no more of that
than the bound ones and the number of the others (`Progress.Follows`), and all that the run adds is
that it may have come to an end (`run_append`).
-/
import PersistenceMapping.Proofs.Schema.Leniency
import PersistenceMapping.Proofs.Schema.Relaid

namespace PersistenceMapping

/-- Tokens in which every start tag has its end tag, whatever names they have. -/
inductive Token.Balanced : List Token → Prop
  | nil : Token.Balanced []
  | other {token : Token} {rest : List Token} (htoken : token.isTag = false)
      (hrest : Token.Balanced rest) : Token.Balanced (token :: rest)
  | element {tag : StartTag} {name : String} {inner rest : List Token}
      (hinner : Token.Balanced inner) (hrest : Token.Balanced rest) :
      Token.Balanced (.startTag tag :: (inner ++ .endTag name :: rest))

namespace ElementDecl

variable {decl : ElementDecl} {attributes : List Attribute}

/-! ### Attributes -/

/-- An attribute that is not declared is bound to nothing. -/
theorem bindAttributes_insert {extra : List Attribute}
    (h : ∀ a ∈ extra, decl.attribute? a.name = none) (front back : List Attribute) :
    decl.bindAttributes false (front ++ extra ++ back) =
      decl.bindAttributes false (front ++ back) := by
  have hnone : extra.filter decl.takes = [] := by
    refine List.filter_eq_nil_iff.mpr fun a ha => ?_
    simp [takes, h a ha]
  rw [bindAttributes, bindAttributes, bindGiven_lenient, bindGiven_lenient, List.filter_append,
    List.filter_append, List.filter_append, hnone, List.append_nil]

end ElementDecl

namespace Schema

variable {schema : Schema} {p p' : Progress} {opened above : List (Option ElementDecl)}
  {decl : ElementDecl} {failure : Option TokenError}

/-! ### Open elements -/

/-- The declaration by which an element is bound where these elements are open, unless it is
skipped. -/
def boundBy? (schema : Schema) (opened : List (Option ElementDecl)) (tag : StartTag) :
    Option ElementDecl :=
  match opened with
  | [] => (schema.element? tag.localName).filter fun _ => tag.localName = schema.root
  | none :: _ => none
  | some parent :: _ =>
    (schema.element? tag.localName).filter fun _ => parent.permits tag.localName

/-- The elements that are open behind an item, innermost first: the declaration by which each is
bound, and nothing for those that are skipped. -/
def openBehind (schema : Schema) (opened : List (Option ElementDecl)) :
    Outcome → List (Option ElementDecl)
  | .ok (.startTag tag) => schema.boundBy? opened tag :: opened
  | .ok (.endTag _) => opened.tail
  | _ => opened

/-- The elements that are open behind the first items of a stream. -/
def openAfter (schema : Schema) (items : List Outcome) : List (Option ElementDecl) :=
  items.foldl schema.openBehind []

/-- What has been bound where these elements are open. -/
structure Progress.Follows (p : Progress) (opened : List (Option ElementDecl)) : Prop where
  opened : opened = List.replicate p.skipped none ++ p.opened.map fun f => some f.decl
  root : p.root.isSome = true → p.opened = []
  skipped : p.opened = [] → p.skipped = 0

theorem follows_initial : ({} : Progress).Follows [] :=
  ⟨rfl, nofun, fun _ => rfl⟩

namespace Progress.Follows

/-- Nothing is skipped where the innermost element is bound. -/
theorem bound (h : p.Follows (some decl :: above)) :
    p.skipped = 0 ∧ p.root = none ∧ ∃ frame rest, p.opened = frame :: rest ∧ frame.decl = decl := by
  have hopened := h.opened
  cases hskipped : p.skipped with
  | succ n =>
      rw [hskipped, List.replicate_succ, List.cons_append] at hopened
      cases (List.cons.inj hopened).1
  | zero =>
      rw [hskipped, List.replicate_zero, List.nil_append] at hopened
      obtain ⟨frame, rest, hframes, hdecl, -⟩ := List.map_eq_cons_iff.mp hopened.symm
      refine ⟨rfl, ?_, frame, rest, hframes, Option.some.inj hdecl⟩
      cases hroot : p.root with
      | none => rfl
      | some e =>
          have hnone := h.root (by rw [hroot]; rfl)
          rw [hframes] at hnone
          cases hnone

/-- A start tag is declared where it stands just if its element is bound. -/
theorem declarationIn (h : p.Follows opened) (hskipped : p.skipped = 0) {tag : StartTag}
    {found : Option ElementDecl} (hfound : schema.declarationIn false p.opened tag = .ok found) :
    schema.boundBy? opened tag = found := by
  have hopened := h.opened
  rw [hskipped, List.replicate_zero, List.nil_append] at hopened
  rw [hopened]
  cases hframes : p.opened with
  | nil =>
      rw [hframes] at hfound
      simp only [Schema.declarationIn] at hfound
      split at hfound <;> cases hfound
      rename_i hsome
      exact hsome
  | cons frame rest =>
      rw [hframes] at hfound
      simp only [Schema.declarationIn, Bool.false_eq_true, if_false] at hfound
      split at hfound <;> cases hfound
      · rename_i hsome
        exact hsome
      · rename_i hnone
        exact hnone

/-- At document level a start tag opens the root or is refused. -/
theorem found_of_nil {tag : StartTag} {found : Option ElementDecl} (hopened : p.opened = [])
    (hfound : schema.declarationIn false p.opened tag = .ok found) : found.isSome = true := by
  rw [hopened] at hfound
  simp only [Schema.declarationIn] at hfound
  split at hfound <;> cases hfound
  rfl

theorem readStart (h : p.Follows opened) (hskipped : p.skipped = 0) {tag : StartTag}
    (hread : schema.readStart false p tag = .ok p') :
    p'.Follows (schema.boundBy? opened tag :: opened) := by
  have hopened := h.opened
  rw [hskipped, List.replicate_zero, List.nil_append] at hopened
  rw [Schema.readStart] at hread
  split at hread
  · cases hread
  · rename_i hroot
    rcases hfound : schema.declarationIn false p.opened tag with fault | found
    · rw [hfound] at hread
      cases hread
    · rw [hfound] at hread
      rw [h.declarationIn hskipped hfound]
      cases found with
      | none =>
          cases hread
          refine ⟨?_, fun hsome => absurd hsome hroot, fun hnil => ?_⟩
          · rw [hopened]
            rfl
          · cases found_of_nil hnil hfound
      | some decl =>
          rcases hframe : openFrame false decl tag with fault | frame
          · simp only [hframe] at hread
            cases hread
          · simp only [hframe] at hread
            cases hread
            refine ⟨?_, fun hsome => absurd hsome hroot,
              fun hnil => absurd hnil (List.cons_ne_nil _ _)⟩
            rw [openFrame_eq_ok hframe, hopened, hskipped]
            rfl

theorem readEnd (h : p.Follows opened) (hskipped : p.skipped = 0) {name : String}
    (hread : Schema.readEnd p name = .ok p') : p'.Follows opened.tail := by
  have hopened := h.opened
  rw [hskipped, List.replicate_zero, List.nil_append] at hopened
  rw [Schema.readEnd] at hread
  split at hread
  · cases hread
  · rename_i frame rest hframes
    rw [hopened, hframes, List.map_cons, List.tail_cons]
    split at hread
    · have hroot : p.root = none := by
        have hbound := h
        rw [hopened, hframes, List.map_cons] at hbound
        exact hbound.bound.2.1
      split at hread
      · cases hread
        exact ⟨by simp [hskipped], fun _ => rfl, fun _ => hskipped⟩
      · cases hread
        exact ⟨by simp [hskipped], fun hsome => by simp [hroot] at hsome,
          fun hnil => absurd hnil (List.cons_ne_nil _ _)⟩
    · cases hread

theorem readText (h : p.Follows opened) {content : String}
    (hread : Schema.readText false p content = .ok p') : p'.Follows opened := by
  rw [Schema.readText] at hread
  split at hread
  · cases hread
    exact h
  · rename_i frame rest hframes
    split at hread
    · cases hread
      have hopened := h.opened
      have hroot := h.root
      rw [hframes] at hopened hroot
      exact ⟨hopened, fun hsome => absurd (hroot hsome) (List.cons_ne_nil _ _),
        fun hnil => absurd hnil (List.cons_ne_nil _ _)⟩
    · simp only [Bool.false_and, Bool.false_eq_true, if_false] at hread
      cases hread
      exact h

/-- Inside of an element that is skipped, tags are counted. -/
theorem skip (h : p.Follows opened) (hskipped : 0 < p.skipped) (token : Token) :
    (Schema.skip p token).Follows (schema.openBehind opened (.ok token)) := by
  obtain ⟨n, hn⟩ : ∃ n, p.skipped = n + 1 := ⟨p.skipped - 1, by omega⟩
  have hopened := h.opened
  rw [hn, List.replicate_succ, List.cons_append] at hopened
  have hinside : p.opened ≠ [] := fun hnil => by
    have := h.skipped hnil
    omega
  cases token with
  | startTag tag =>
      refine ⟨?_, h.root, fun hnil => absurd hnil hinside⟩
      rw [hopened]
      simp [openBehind, boundBy?, Schema.skip, hn, List.replicate_succ]
  | endTag name =>
      refine ⟨?_, h.root, fun hnil => absurd hnil hinside⟩
      rw [hopened]
      simp [openBehind, Schema.skip, hn]
  | _ => exact h

/-- A token that is taken in leads to what follows what is open behind it. -/
theorem read (h : p.Follows opened) {token : Token}
    (hread : schema.read false p token = .ok p') :
    p'.Follows (schema.openBehind opened (.ok token)) := by
  unfold Schema.read at hread
  by_cases hskips : 0 < p.skipped
  · rw [if_pos hskips] at hread
    rw [← Except.ok.inj hread]
    exact h.skip hskips token
  · rw [if_neg hskips] at hread
    have hskipped := Nat.eq_zero_of_not_pos hskips
    cases token with
    | startTag tag => exact h.readStart hskipped hread
    | endTag name => exact h.readEnd hskipped hread
    | text content | cdata content => exact h.readText hread
    | _ =>
        cases hread
        exact h

end Progress.Follows

/-! ### Runs -/

/-- What comes first either decides the run, whatever comes behind it, or leads to what follows
what is open then. -/
theorem run_append (h : p.Follows opened) (before : List Outcome) :
    (∃ result, ∀ rest, schema.run false failure p (before ++ rest) = result) ∨
      ∃ p' : Progress, p'.Follows (before.foldl schema.openBehind opened) ∧
        ∀ rest, schema.run false failure p (before ++ rest) = schema.run false failure p' rest := by
  induction before generalizing p opened with
  | nil => exact Or.inr ⟨p, h, fun _ => rfl⟩
  | cons item before ih =>
      cases item with
      | error e => exact Or.inl ⟨.error (.source e), fun _ => rfl⟩
      | ok token =>
          by_cases hend : (decide (token = .endDocument) && decide (p.skipped = 0)) = true
          · exact Or.inl ⟨p.finish, fun rest => by rw [List.cons_append, run, if_pos hend]⟩
          · cases hread : schema.read false p token with
            | error fault =>
                refine Or.inl ⟨.error fault, fun rest => ?_⟩
                rw [List.cons_append, run, if_neg hend, hread]
            | ok p' =>
                have hrun : ∀ rest, schema.run false failure p (.ok token :: before ++ rest) =
                    schema.run false failure p' (before ++ rest) := by
                  intro rest
                  rw [List.cons_append, run, if_neg hend, hread]
                rcases ih (h.read hread) with ⟨result, hresult⟩ | ⟨q, hq, hrest⟩
                · exact Or.inl ⟨result, fun rest => (hrun rest).trans (hresult rest)⟩
                · exact Or.inr ⟨q, hq, fun rest => (hrun rest).trans (hrest rest)⟩

/-- Inside of an element that is skipped no token ends the run. -/
theorem run_skip (hskipped : 0 < p.skipped) (token : Token) (rest : List Outcome) :
    schema.run false failure p (.ok token :: rest) =
      schema.run false failure (skip p token) rest := by
  have hopen : ¬(decide (token = .endDocument) && decide (p.skipped = 0)) = true := by
    simp [Nat.ne_of_gt hskipped]
  have hread : schema.read false p token = .ok (skip p token) := by
    unfold read
    exact if_pos hskipped
  rw [run, if_neg hopen, hread]

/-- Inside of an element that is skipped, balanced tokens are as good as none. -/
theorem run_skip_balanced {tokens : List Token} (h : Token.Balanced tokens)
    (hskipped : 0 < p.skipped) (rest : List Outcome) :
    schema.run false failure p (tokens.map .ok ++ rest) = schema.run false failure p rest := by
  induction h generalizing p rest with
  | nil => rfl
  | @other token tokens htoken _ ih =>
      have hskip : skip p token = p := by
        cases token <;> first | rfl | cases htoken
      rw [List.map_cons, List.cons_append, run_skip hskipped, hskip]
      exact ih hskipped rest
  | @element tag name inner tokens _ _ ihinner ih =>
      have hdeeper : 0 < (skip p (.startTag tag)).skipped := Nat.succ_pos _
      rw [List.map_cons, List.map_append, List.map_cons, List.cons_append, List.append_assoc,
        List.cons_append, run_skip hskipped, ihinner hdeeper, run_skip hdeeper]
      exact ih hskipped rest

/-- An element that is not declared where it stands leaves nothing behind. -/
theorem run_undeclared (h : p.Follows (some decl :: above)) {tag : StartTag}
    (htag : decl.permits tag.localName = false) {inner : List Token} (hinner : Token.Balanced inner)
    (name : String) (rest : List Outcome) :
    schema.run false failure p ((.startTag tag :: (inner ++ [.endTag name])).map .ok ++ rest) =
      schema.run false failure p rest := by
  obtain ⟨hskipped, hroot, frame, frames, hopened, rfl⟩ := h.bound
  have hfound : schema.declarationIn false p.opened tag = .ok none := by
    have hnone : ((schema.element? tag.localName).filter fun _ => frame.decl.permits tag.localName)
        = none := Option.filter_eq_none_iff.mpr fun _ _ => by simp [htag]
    rw [hopened]
    simp only [declarationIn, hnone, Bool.false_eq_true, if_false]
  have hread : schema.read false p (.startTag tag) = .ok { p with skipped := 1 } := by
    have hopen : ¬0 < p.skipped := by omega
    unfold read
    rw [if_neg hopen]
    simp [readStart, hroot, hfound]
  have hback : skip { p with skipped := 1 } (.endTag name) = p := by
    obtain ⟨opened, root, skipped⟩ := p
    obtain rfl : skipped = 0 := hskipped
    rfl
  calc schema.run false failure p ((.startTag tag :: (inner ++ [.endTag name])).map .ok ++ rest)
      = schema.run false failure { p with skipped := 1 }
          (inner.map .ok ++ .ok (.endTag name) :: rest) := by
        rw [List.map_cons, List.cons_append, run, if_neg (by simp), hread]
        simp
    _ = schema.run false failure { p with skipped := 1 } (.ok (.endTag name) :: rest) :=
        run_skip_balanced hinner Nat.one_pos _
    _ = schema.run false failure p rest := by
        rw [run_skip Nat.one_pos, hback]

/-- A start tag is taken in the same way with and without attributes that its element, if it is
bound, does not declare. -/
theorem read_insert (h : p.Follows opened) {tag : StartTag} {front extra back : List Attribute}
    (hextra : ∀ decl, schema.boundBy? opened tag = some decl →
      ∀ a ∈ extra, decl.attribute? a.name = none) :
    schema.read false p (.startTag { tag with attributes := front ++ extra ++ back }) =
      schema.read false p (.startTag { tag with attributes := front ++ back }) := by
  unfold read
  by_cases hskips : 0 < p.skipped
  · rw [if_pos hskips, if_pos hskips]
    rfl
  · rw [if_neg hskips, if_neg hskips]
    have hskipped := Nat.eq_zero_of_not_pos hskips
    have hlocal : ∀ attributes,
        schema.declarationIn false p.opened { tag with attributes } =
          schema.declarationIn false p.opened tag := fun _ => rfl
    simp only [readStart, hlocal]
    cases hfound : schema.declarationIn false p.opened tag with
    | error fault => rfl
    | ok found =>
        cases found with
        | none => rfl
        | some decl =>
            have hbound := hextra decl (h.declarationIn hskipped hfound)
            have hframe : openFrame false decl { tag with attributes := front ++ extra ++ back } =
                openFrame false decl { tag with attributes := front ++ back } := by
              simp only [openFrame, decl.bindAttributes_insert hbound]
            simp only [hframe]

/-- Without validation, what is not declared may be put into a stream or left out of it: an element
that the bound element around it does not permit, with whatever is in it, and attributes that the
element of their tag does not declare, if it is bound at all. -/
theorem bind_passes_over (schema : Schema) (failure : Option TokenError)
    (before rest : List Outcome) (tag : StartTag) :
    (∀ decl above inner name, schema.openAfter before = some decl :: above →
        decl.permits tag.localName = false → Token.Balanced inner →
        schema.bind false
            ⟨before ++ ((.startTag tag :: (inner ++ [.endTag name])).map .ok ++ rest), failure⟩ =
          schema.bind false ⟨before ++ rest, failure⟩) ∧
      ∀ front extra back, tag.attributes = front ++ back →
        (∀ decl, schema.boundBy? (schema.openAfter before) tag = some decl →
          ∀ a ∈ extra, decl.attribute? a.name = none) →
        schema.bind false
            ⟨before ++ .ok (.startTag { tag with attributes := front ++ extra ++ back }) :: rest,
              failure⟩ =
          schema.bind false ⟨before ++ .ok (.startTag tag) :: rest, failure⟩ := by
  have happend : (∃ result, ∀ rest, schema.run false failure {} (before ++ rest) = result) ∨
      ∃ p : Progress, p.Follows (schema.openAfter before) ∧
        ∀ rest, schema.run false failure {} (before ++ rest) = schema.run false failure p rest :=
    run_append follows_initial before
  constructor
  · intro decl above inner name hopen htag hinner
    unfold bind
    obtain ⟨result, hresult⟩ | ⟨p, hp, hrun⟩ := happend
    · rw [hresult, hresult]
    · rw [hrun, hrun]
      rw [hopen] at hp
      exact run_undeclared hp htag hinner name rest
  · intro front extra back hattributes hextra
    unfold bind
    obtain ⟨result, hresult⟩ | ⟨p, hp, hrun⟩ := happend
    · rw [hresult, hresult]
    · have htag : tag = { tag with attributes := front ++ back } := by rw [← hattributes]
      rw [hrun, hrun, run, run, if_neg (by simp), if_neg (by simp), read_insert hp hextra, ← htag]

/-- The element that is passed over is declared elsewhere, as is the one inside of it, which holds a
document end and is closed by another name. -/
theorem bind_passes_over_declared :
    let decl : ElementDecl := .plain "a" [.optional "k"] ["b"]
    let schema : Schema := ⟨"a", [decl, .mixed "b" [] []]⟩
    let before : List Outcome := [.ok (.startTag ⟨"a", none, [⟨"k", "1"⟩]⟩)]
    let inner : List Token := [.startTag ⟨"b", none, []⟩, .endDocument, .endTag "x", .text "t"]
    let rest : List Outcome := [.ok (.startTag ⟨"b", none, []⟩), .ok (.text "t"), .ok (.endTag "b"),
      .ok (.endTag "a")]
    let e : BoundElement := .mk "a" [⟨"k", "1"⟩] [.mk "b" [] [] "t"] ""
    compile schema.elements schema.root = .ok schema ∧ schema.openAfter before = [some decl] ∧
      decl.permits "a" = false ∧ Token.Balanced inner ∧
      schema.bind false ⟨before ++ ((.startTag ⟨"p:a", some "urn:x", []⟩ ::
        (inner ++ [.endTag "p:a"])).map .ok ++ rest), none⟩ = .ok e ∧
      schema.bind false ⟨.ok (.startTag ⟨"a", none, [⟨"j", "2"⟩, ⟨"k", "1"⟩]⟩) :: rest, none⟩ =
        .ok e := by
  intro decl schema before inner rest e
  have hopen : schema.openAfter before = [some decl] := by decide
  have hinner : Token.Balanced inner :=
    .element (.other rfl .nil) (.other rfl .nil)
  have hbound : schema.bind false ⟨before ++ rest, none⟩ = .ok e := by rfl
  obtain ⟨helement, -⟩ := bind_passes_over schema none before rest ⟨"p:a", some "urn:x", []⟩
  obtain ⟨-, hattributes⟩ := bind_passes_over schema none [] rest ⟨"a", none, [⟨"k", "1"⟩]⟩
  refine ⟨by decide, hopen, by decide, hinner, ?_, ?_⟩
  · exact (helement decl [] inner "p:a" hopen (by decide) hinner).trans hbound
  · refine (hattributes [] [⟨"j", "2"⟩] [⟨"k", "1"⟩] rfl fun found hfound => ?_).trans hbound
    obtain rfl : decl = found := Option.some.inj hfound
    decide

end Schema

end PersistenceMapping
