/-
What validation makes of what is written.

Tags are brackets, so tokens in which they match are those of one forest of start tags and of no
other (`TagTree.Written`, `Written.eq_iff`).  Validation skips nothing: while it goes through a
stream, the elements that are open are those of the start tags whose end is still to come, and what
is bound in them is the forest behind these (`Schema.Opens`).  In the end the element that is bound
has the shape of the tree that is written (`TagTree.Binds`), and each element in it has the
attributes of its own start tag, what is required among them.
-/
import Mathlib.Data.List.Find
import Mathlib.Data.List.Forall2
import PersistenceMapping.Proofs.Schema.Leniency
import PersistenceMapping.Proofs.Schema.Relaid
import PersistenceMapping.Proofs.Schema.Values
import PersistenceMapping.Proofs.Tree.Strict

namespace PersistenceMapping

/-- A start tag and those of the elements in its element. -/
inductive TagTree where
  | mk (tag : StartTag) (children : List TagTree)

namespace TagTree

def tag : TagTree → StartTag
  | mk tag _ => tag

def children : TagTree → List TagTree
  | mk _ children => children

/-- Tags and the trees that they make.  An end tag has the local name of its start tag. -/
inductive Written : List TagTree → List Token → Prop
  | nil : Written [] []
  | other {token : Token} {ts : List TagTree} {rest : List Token} (htoken : token.isTag = false)
      (hrest : Written ts rest) : Written ts (token :: rest)
  | element {tag : StartTag} {name : String} {children ts : List TagTree} {inner rest : List Token}
      (hname : QName.localName name = tag.localName) (hinner : Written children inner)
      (hrest : Written ts rest) :
      Written (.mk tag children :: ts) (.startTag tag :: (inner ++ .endTag name :: rest))

namespace Written

variable {ts ts' : List TagTree} {tokens tokens' rest rest' : List Token} {token : Token}

theorem append (h : Written ts tokens) (h' : Written ts' tokens') :
    Written (ts ++ ts') (tokens ++ tokens') := by
  induction h with
  | nil => exact h'
  | other htoken _ ih => exact other htoken ih
  | element hname hinner _ _ ih =>
      rw [List.cons_append, List.cons_append, List.append_assoc, List.cons_append]
      exact element hname hinner ih

theorem append_other (h : Written ts tokens) (htoken : token.isTag = false) :
    Written ts (tokens ++ [token]) := by
  have happend := h.append (other htoken nil)
  rwa [List.append_nil] at happend

/-- Where some trees may be over: at the end, or before an end tag. -/
def Stops (rest : List Token) : Prop :=
  ∀ token, rest.head? = some token → token.isEndTag = true

theorem not_stops_other (htoken : token.isTag = false) : ¬Stops (token :: rest) := by
  intro h
  have hend := h token rfl
  rw [Token.isTag, hend, Bool.or_true] at htoken
  cases htoken

theorem not_stops_start {tag : StartTag} : ¬Stops (.startTag tag :: rest) := by
  intro h
  cases h _ rfl

/-- Up to where they are over, tokens are those of one forest. -/
theorem eq_of_append (h : Written ts tokens) (h' : Written ts' tokens')
    (hsame : tokens ++ rest = tokens' ++ rest') (hrest : Stops rest) (hrest' : Stops rest') :
    ts = ts' ∧ tokens = tokens' := by
  induction h generalizing ts' tokens' rest rest' with
  | nil =>
      subst hsame
      cases h' with
      | nil => exact ⟨rfl, rfl⟩
      | other htoken _ => exact absurd hrest (not_stops_other htoken)
      | element => exact absurd hrest not_stops_start
  | other htoken _ ih =>
      cases h' with
      | nil =>
          subst hsame
          exact absurd hrest' (not_stops_other htoken)
      | other _ h' =>
          obtain ⟨rfl, htokens⟩ := List.cons.inj hsame
          obtain ⟨rfl, rfl⟩ := ih h' htokens hrest hrest'
          exact ⟨rfl, rfl⟩
      | element =>
          obtain ⟨rfl, -⟩ := List.cons.inj hsame
          cases htoken
  | element _ _ _ ihinner ih =>
      cases h' with
      | nil =>
          subst hsame
          exact absurd hrest' not_stops_start
      | other htoken _ =>
          obtain ⟨rfl, -⟩ := List.cons.inj hsame
          cases htoken
      | element _ hinner' h' =>
          rw [List.cons_append, List.cons_append, List.append_assoc, List.append_assoc] at hsame
          obtain ⟨htag, htokens⟩ := List.cons.inj hsame
          -- What is between the tags is over before the end tag, whatever comes behind that.
          have hstops : ∀ {name : String} {rest : List Token}, Stops (.endTag name :: rest) := by
            rintro name rest token ⟨⟩
            rfl
          obtain ⟨rfl, rfl⟩ := ihinner hinner' htokens hstops hstops
          obtain ⟨hname, hbehind⟩ := List.cons.inj (List.append_cancel_left htokens)
          obtain ⟨rfl, rfl⟩ := ih h' hbehind hrest hrest'
          cases htag
          cases hname
          exact ⟨rfl, rfl⟩

/-- Tokens are those of no other forest. -/
theorem eq_iff (h : Written ts tokens) : Written ts' tokens ↔ ts' = ts := by
  have hstops : Stops [] := nofun
  constructor
  · intro h'
    exact (eq_of_append h' h rfl hstops hstops).1
  · rintro rfl
    exact h

end Written

end TagTree

namespace Schema

variable {schema : Schema} {p p' : Progress} {e : BoundElement} {tag : StartTag}
  {decl : ElementDecl} {n : String}

/-! ### Attributes -/

/-- Attributes that are those of a start tag, completed by defaults. -/
structure Fills (schema : Schema) (tag : StartTag) (attributes : List Attribute) : Prop where
  given : ∀ n, Attribute.isOwn ⟨n, ""⟩ = true → Attributes.get? attributes n =
    (tag.get? n).or (schema.default? tag.localName n)
  required : ∀ n, schema.requires tag.localName n = true → ∃ value, tag.get? n = some value ∧
    Attributes.get? attributes n = some value

/-- Of a start tag that fits, all that the schema has a say in is taken in. -/
theorem get?_takes (hfits : decl.Fits Attribute.isOwn tag) (hown : Attribute.isOwn ⟨n, ""⟩ = true) :
    Attributes.get? (tag.attributes.filter decl.takes) n = tag.get? n := by
  have htakes : ∀ a ∈ tag.attributes,
      decide (decl.takes a = true ∧ (a.name == n) = true) = (a.name == n) := by
    intro a ha
    by_cases hname : a.name = n
    · subst hname
      obtain ⟨declared, hmem, hsame, -⟩ := hfits.declared a ha hown
      have hdeclared : (decl.attribute? a.name).isSome = true := by
        rw [ElementDecl.attribute?, List.find?_isSome]
        exact ⟨declared, hmem, by simpa using hsame⟩
      have htaken : decl.takes a = true := by
        rw [ElementDecl.takes, Bool.and_eq_true]
        exact ⟨hown, hdeclared⟩
      simp [htaken]
    · simp [hname]
  rw [StartTag.get?, Attributes.get?, Attributes.get?, List.find?_filter, List.find?_congr htakes]

/-- The attributes of an element that validation opens are those of its start tag, completed by
defaults. -/
theorem openFrame_fills (hs : Consistent schema.elements schema.root) {frame : Frame}
    (hdecl : schema.element? tag.localName = some decl)
    (h : openFrame true decl tag = .ok frame) :
    frame = { decl, attributes := frame.attributes } ∧ schema.Fills tag frame.attributes := by
  have hnames := hs.attributeNames decl (List.mem_of_find?_eq_some hdecl)
  have hdeclared : ∀ n, schema.declared? tag.localName n = decl.attribute? n := by
    intro n
    rw [declared?, hdecl, Option.bind_some]
  have hfits : decl.Fits Attribute.isOwn tag := by
    by_contra hnot
    obtain ⟨fault, hfault⟩ := openFrame_of_not_fits hnames hnot
    rw [hfault] at h
    cases h
  have hgiven : ∀ n, Attribute.isOwn ⟨n, ""⟩ = true → Attributes.get? frame.attributes n =
      (tag.get? n).or (schema.default? tag.localName n) := by
    intro n hown
    have hlenient := openFrame_sustained decl tag frame h
    obtain ⟨bound, hbound, hcompletes⟩ := decl.bindAttributes_lenient hnames tag.attributes
    rw [openFrame_lenient, hbound] at hlenient
    cases hlenient
    rw [hcompletes n, get?_takes hfits hown, default?, hdeclared]
  refine ⟨openFrame_eq_ok h, hgiven, fun n hrequired => ?_⟩
  rw [requires, hdeclared] at hrequired
  cases hattribute : decl.attribute? n with
  | none =>
      rw [hattribute] at hrequired
      cases hrequired
  | some declared =>
      rw [hattribute, Option.any_some, Bool.and_eq_true, Option.isNone_iff_eq_none] at hrequired
      obtain ⟨hmem, rfl⟩ := (ElementDecl.attribute?_eq_some_iff hnames).mp hattribute
      obtain ⟨a, ha, hown, hname⟩ :=
        hfits.required declared hmem hrequired.1 hrequired.2
      have hsome : (tag.get? declared.name).isSome = true := by
        rw [StartTag.get?, Attributes.get?, Option.isSome_map, List.find?_isSome]
        exact ⟨a, ha, by simpa using hname⟩
      obtain ⟨value, hvalue⟩ := Option.isSome_iff_exists.mp hsome
      refine ⟨value, hvalue, ?_⟩
      rw [hgiven declared.name (hname ▸ hown), hvalue, Option.some_or]

/-! ### Elements -/

end Schema

/-- An element that is bound to a tree of start tags: each element in it has the attributes of its
own start tag. -/
inductive TagTree.Binds (schema : Schema) : TagTree → BoundElement → Prop
  | mk {tag : StartTag} {ts : List TagTree} {attributes : List Attribute}
      {children : List BoundElement} {text : String} (hfills : schema.Fills tag attributes)
      (hchildren : List.Forall₂ (TagTree.Binds schema) ts children) :
      TagTree.Binds schema (.mk tag ts) (.mk tag.localName attributes children text)

namespace Schema

variable {schema : Schema} {p p' : Progress} {e : BoundElement} {tokens rest : List Token}
  {token : Token} {f : Frame} {frames : List Frame}

/-- Tokens behind which elements are open, innermost first.  In each of them is bound what is
written behind its start tag. -/
inductive Opens (schema : Schema) : List Token → List Frame → Prop
  | nil {before : List Token} (h : TagTree.Written [] before) : Opens schema before []
  | cons {before inner : List Token} {tag : StartTag} {ts : List TagTree} {f : Frame}
      {above : List Frame} (habove : Opens schema before above)
      (hname : f.decl.name = tag.localName) (hfills : schema.Fills tag f.attributes)
      (hchildren : List.Forall₂ (TagTree.Binds schema) ts f.children.reverse)
      (hinner : TagTree.Written ts inner) :
      Opens schema (before ++ .startTag tag :: inner) (f :: above)

/-- Tokens and what validation has made of them: elements that are still open, or the root. -/
inductive Yields (schema : Schema) : List Token → Progress → Prop
  | opened {tokens : List Token} {opened : List Frame} (h : Opens schema tokens opened) :
      Yields schema tokens { opened }
  | root {tokens : List Token} {t : TagTree} {e : BoundElement}
      (hwritten : TagTree.Written [t] tokens) (hbinds : t.Binds schema e) :
      Yields schema tokens { root := some e }

namespace Opens

theorem other (h : Opens schema tokens frames) (htoken : token.isTag = false) :
    Opens schema (tokens ++ [token]) frames := by
  cases h with
  | nil h => exact .nil (h.append_other htoken)
  | cons habove hname hfills hchildren hinner =>
      rw [List.append_assoc, List.cons_append]
      exact .cons habove hname hfills hchildren (hinner.append_other htoken)

theorem withText (h : Opens schema tokens (f :: frames)) (text : String) :
    Opens schema tokens ({ f with text } :: frames) := by
  cases h with
  | cons habove hname hfills hchildren hinner =>
      exact .cons habove hname hfills hchildren hinner

/-- What is closed is bound to the tree that is written with its end tag. -/
theorem close (h : Opens schema tokens (f :: frames)) {name : String}
    (hname : QName.localName name = f.decl.name) :
    ∃ before t inner, Opens schema before frames ∧ t.Binds schema f.close ∧
      TagTree.Written [t] inner ∧ tokens ++ [.endTag name] = before ++ inner := by
  cases h with
  | @cons before inner tag ts f above habove hopen hfills hchildren hinner =>
      refine ⟨before, .mk tag ts, .startTag tag :: (inner ++ [.endTag name]), habove, ?_,
        .element (hname.trans hopen) hinner .nil, ?_⟩
      · rw [Frame.close, hopen]
        exact .mk hfills hchildren
      · rw [List.append_assoc, List.cons_append]

/-- What is closed becomes a child of the element around it. -/
theorem child (h : Opens schema tokens (f :: frames)) {t : TagTree} (hbinds : t.Binds schema e)
    (hwritten : TagTree.Written [t] rest) :
    Opens schema (tokens ++ rest) ({ f with children := e :: f.children } :: frames) := by
  cases h with
  | cons habove hname hfills hchildren hinner =>
      rw [List.append_assoc, List.cons_append]
      refine .cons habove hname hfills ?_ (hinner.append hwritten)
      rw [List.reverse_cons]
      exact List.rel_append hchildren (.cons hbinds .nil)

end Opens

/-! ### Tokens -/

theorem readStart_yields (hs : Consistent schema.elements schema.root)
    (h : Yields schema tokens p) {tag : StartTag}
    (hread : schema.readStart true p tag = .ok p') :
    Yields schema (tokens ++ [.startTag tag]) p' := by
  cases h with
  | root => cases hread
  | @opened opened h =>
      rw [readStart, if_neg (by simp)] at hread
      cases hfound : schema.declarationIn true opened tag with
      | error fault =>
          simp only [hfound] at hread
          cases hread
      | ok found =>
          obtain ⟨hsome, -⟩ := declarationIn_validated hfound
          obtain ⟨decl, rfl⟩ := Option.isSome_iff_exists.mp hsome
          simp only [hfound] at hread
          cases hframe : openFrame true decl tag with
          | error fault =>
              rw [hframe] at hread
              cases hread
          | ok frame =>
              rw [hframe] at hread
              cases hread
              have hdecl := element?_of_declarationIn hfound
              obtain ⟨heq, hfills⟩ := openFrame_fills hs hdecl hframe
              rw [heq]
              exact .opened (.cons h (element?_name hdecl) hfills .nil .nil)

theorem readEnd_yields (h : Yields schema tokens p) {name : String}
    (hread : readEnd p name = .ok p') : Yields schema (tokens ++ [.endTag name]) p' := by
  cases h with
  | root => cases hread
  | @opened opened h =>
      cases h' : opened with
      | nil =>
          rw [h'] at hread
          cases hread
      | cons f rest =>
          subst h'
          simp only [readEnd] at hread
          by_cases hname : QName.localName name = f.decl.name
          · rw [if_pos hname] at hread
            obtain ⟨before, t, inner, habove, hbinds, hwritten, hsplit⟩ := h.close hname
            rw [hsplit]
            cases rest with
            | nil =>
                cases hread
                cases habove with
                | nil hbefore => exact .root (hbefore.append hwritten) hbinds
            | cons parent above =>
                cases hread
                exact .opened (habove.child hbinds hwritten)
          · rw [if_neg hname] at hread
            cases hread

theorem readText_yields (h : Yields schema tokens p) {content : String}
    (htoken : token.isTag = false) (hread : readText true p content = .ok p') :
    Yields schema (tokens ++ [token]) p' := by
  cases h with
  | root hwritten hbinds =>
      cases hread
      exact .root (hwritten.append_other htoken) hbinds
  | @opened opened h =>
      cases opened with
      | nil =>
          cases hread
          exact .opened (h.other htoken)
      | cons f rest =>
          simp only [readText] at hread
          split at hread
          · cases hread
            exact .opened ((h.withText _).other htoken)
          · split at hread
            · cases hread
            · cases hread
              exact .opened (h.other htoken)

theorem skipped_of_yields (h : Yields schema tokens p) : p.skipped = 0 := by
  cases h <;> rfl

/-- What validation has made of tokens it has made of one more token as well, if it lets that
pass. -/
theorem read_yields (hs : Consistent schema.elements schema.root) (h : Yields schema tokens p)
    (hread : schema.read true p token = .ok p') : Yields schema (tokens ++ [token]) p' := by
  unfold read at hread
  rw [if_neg (by rw [skipped_of_yields h]; exact Nat.lt_irrefl 0)] at hread
  cases token with
  | startTag tag => exact readStart_yields hs h hread
  | endTag name => exact readEnd_yields h hread
  | text content | cdata content => exact readText_yields h rfl hread
  | _ =>
      cases hread
      cases h with
      | opened h => exact .opened (h.other rfl)
      | root hwritten hbinds => exact .root (hwritten.append_other rfl) hbinds

/-! ### Runs -/

theorem finish_yields (h : Yields schema tokens p) (hfinish : p.finish = .ok e) :
    ∃ t, TagTree.Written [t] tokens ∧ t.Binds schema e := by
  cases h with
  | root hwritten hbinds =>
      cases hfinish
      exact ⟨_, hwritten, hbinds⟩
  | @opened opened h => cases opened <;> cases hfinish

/-- What validation makes of a stream is bound to what is written up to its end. -/
theorem run_yields (hs : Consistent schema.elements schema.root) {failure : Option TokenError}
    {items : List Outcome} (h : Yields schema tokens p)
    (hrun : schema.run true failure p items = .ok e) :
    ∃ t, TagTree.Written [t] (tokens ++ TokenStream.upToEnd items) ∧ t.Binds schema e := by
  induction items generalizing tokens p with
  | nil =>
      cases failure with
      | some error => cases hrun
      | none =>
          rw [TokenStream.upToEnd, List.append_nil]
          exact finish_yields h hrun
  | cons item items ih =>
      cases item with
      | error error => cases hrun
      | ok token =>
          by_cases hend : token = .endDocument
          · subst hend
            rw [run, if_pos (by simp [skipped_of_yields h])] at hrun
            rw [TokenStream.upToEnd, List.append_nil]
            exact finish_yields h hrun
          · rw [run, if_neg (by simp [hend])] at hrun
            cases hread : schema.read true p token with
            | error fault =>
                rw [hread] at hrun
                cases hrun
            | ok p' =>
                rw [hread] at hrun
                rw [TokenStream.upToEnd_ok hend, ← List.singleton_append, ← List.append_assoc]
                exact ih (read_yields hs h hread) hrun

/-- A document that validation lets pass is written as one tree of start tags, and the element that
comes of it has the attributes of these tags. -/
theorem bind_written (hs : Consistent schema.elements schema.root) {s : TokenStream}
    (h : schema.bind true s = .ok e) :
    ∃ t, TagTree.Written [t] (TokenStream.upToEnd s.items) ∧ t.Binds schema e :=
  run_yields hs (.opened (.nil .nil)) h

end Schema

/-! ### Lists that are related -/

section Related

variable {α β γ : Type} {R : α → β → Prop} {S : β → γ → Prop} {bs : List β} {cs : List γ}

theorem forall₂_cons_filter {b : β} {p : β → Bool} {a? : Option α} {as : List α}
    (hp : p b = a?.isSome) (ha : ∀ a, a? = some a → R a b) (h : List.Forall₂ R as (bs.filter p)) :
    List.Forall₂ R (a?.toList ++ as) ((b :: bs).filter p) := by
  cases a? with
  | none =>
      rw [List.filter_cons_of_neg (by simp [hp])]
      exact h
  | some a =>
      rw [List.filter_cons_of_pos (by simp [hp])]
      exact .cons (ha a rfl) h

theorem rel_getLast?_cons_filter {b : β} {p : β → Bool} {a? last? : Option α}
    (hp : p b = a?.isSome) (ha : ∀ a, a? = some a → R a b)
    (h : Option.Rel R last? (bs.filter p).getLast?) :
    Option.Rel R (last?.or a?) ((b :: bs).filter p).getLast? := by
  cases a? with
  | none =>
      rw [List.filter_cons_of_neg (by simp [hp]), Option.or_none]
      exact h
  | some a =>
      rw [List.filter_cons_of_pos (by simp [hp]), List.getLast?_cons]
      generalize (bs.filter p).getLast? = b? at h
      cases h with
      | none => exact .some (ha a rfl)
      | some h => exact .some h

/-- What is read off some members of a list is related to what these are related to. -/
theorem forall₂_filterMap (h : List.Forall₂ S bs cs) {p : β → Bool} {f : γ → Option α}
    (hp : ∀ b c, S b c → p b = (f c).isSome) (hf : ∀ b c a, S b c → f c = some a → R a b) :
    List.Forall₂ R (cs.filterMap f) (bs.filter p) := by
  induction h with
  | nil => exact .nil
  | @cons b c bs cs h _ ih =>
      have hread : (c :: cs).filterMap f = (f c).toList ++ cs.filterMap f := by
        cases hread : f c <;> simp [hread]
      rw [hread]
      exact forall₂_cons_filter (hp b c h) (fun a ha => hf b c a h ha) ih

theorem rel_head? {as : List α} (h : List.Forall₂ R as bs) : Option.Rel R as.head? bs.head? := by
  cases h with
  | nil => exact .none
  | cons h _ => exact .some h

theorem rel_getLast? {as : List α} (h : List.Forall₂ R as bs) :
    Option.Rel R as.getLast? bs.getLast? := by
  rw [List.getLast?_eq_head?_reverse, List.getLast?_eq_head?_reverse]
  exact rel_head? (List.rel_reverse h)

end Related

namespace TagTree

/-! ### Reading tags -/

/-- The local name of the tag. -/
def name (t : TagTree) : String :=
  t.tag.localName

/-- An attribute of the tag has this value. -/
def Gives (t : TagTree) (name value : String) : Prop :=
  t.tag.get? name = some value

/-- The first child of a name. -/
def child? (t : TagTree) (name : String) : Option TagTree :=
  t.children.find? (·.name == name)

/-- The children of a name, in order. -/
def childrenNamed (t : TagTree) (name : String) : List TagTree :=
  t.children.filter (·.name == name)

namespace Binds

variable {schema : Schema} {t : TagTree} {e : BoundElement} {n : String} {α : Type}
  {R : α → TagTree → Prop}

theorem name_eq (h : t.Binds schema e) : t.name = e.name := by
  cases h
  rfl

theorem children (h : t.Binds schema e) :
    List.Forall₂ (TagTree.Binds schema) t.children e.children := by
  cases h with
  | mk _ hchildren => exact hchildren

/-- What is required is taken from the tag. -/
theorem gives (h : t.Binds schema e) {element : String} (hname : e.name = element)
    (hrequired : schema.requires element n = true) : t.Gives n (e.mandatory n) := by
  subst hname
  cases h with
  | mk hfills =>
      obtain ⟨value, hvalue, hbound⟩ := hfills.required n hrequired
      rw [Gives, BoundElement.mandatory, BoundElement.attributeD, BoundElement.attribute?]
      exact hvalue.trans (congrArg some (by rw [BoundElement.attributes, hbound, Option.getD_some]))

/-- What a mapping takes as it is, it takes from the tag. -/
theorem gives_mandatory (h : t.Binds Schema.Hierarchical.table e) {element : String}
    (hname : e.name = element) (hn : (element, n) ∈ Schema.Hierarchical.mandatoryNames) :
    t.Gives n (e.mandatory n) :=
  h.gives hname (Schema.Hierarchical.requires_of_mem_mandatoryNames (element, n) hn)

/-- What has no default is what the tag says. -/
theorem attribute?_eq (h : t.Binds schema e) (hown : Attribute.isOwn ⟨n, ""⟩ = true)
    (hdefault : schema.default? e.name n = none) : e.attribute? n = t.tag.get? n := by
  cases h with
  | mk hfills =>
      rw [BoundElement.attribute?, BoundElement.attributes, hfills.given n hown]
      exact (congrArg _ hdefault).trans Option.or_none

end Binds

/-! ### Children -/

theorem forall₂_map_filter {schema : Schema} {ts : List TagTree} {es : List BoundElement}
    {α : Type} {R : α → TagTree → Prop} (h : List.Forall₂ (TagTree.Binds schema) ts es)
    {p : String → Bool} {f : BoundElement → α}
    (hf : ∀ t e, t.Binds schema e → p e.name = true → R (f e) t) :
    List.Forall₂ R ((es.filter (p ·.name)).map f) (ts.filter (p ·.name)) := by
  rw [← List.filterMap_eq_map, List.filterMap_filter]
  refine forall₂_filterMap h (fun t e h => ?_) fun t e a h hread => ?_
  · rw [h.name_eq]
    by_cases hchosen : p e.name = true <;> simp [hchosen]
  · by_cases hchosen : p e.name = true
    · rw [if_pos hchosen] at hread
      cases hread
      exact hf t e h hchosen
    · rw [if_neg hchosen] at hread
      cases hread

namespace Binds

variable {schema : Schema} {t : TagTree} {e : BoundElement} {n : String} {α : Type}
  {R : α → TagTree → Prop} {f : BoundElement → α}

theorem childrenNamed (h : t.Binds schema e)
    (hf : ∀ t e, t.Binds schema e → e.name = n → R (f e) t) :
    List.Forall₂ R ((e.childrenNamed n).map f) (t.childrenNamed n) :=
  forall₂_map_filter h.children (p := (· == n)) fun t e h hname => hf t e h (by simpa using hname)

theorem child? (h : t.Binds schema e) (hf : ∀ t e, t.Binds schema e → e.name = n → R (f e) t) :
    Option.Rel R ((e.child? n).map f) (t.child? n) := by
  have hfirst := rel_head? (h.childrenNamed hf)
  rwa [BoundElement.childrenNamed, TagTree.childrenNamed, List.head?_map, List.head?_filter,
    List.head?_filter] at hfirst

end Binds

end TagTree

end PersistenceMapping
