/-
What is built says what was read.

The tokens of a document in the making are known although elements are open: the open elements
are each the last child of the next, so what has been read is what stands before them, one after
the other, and what is inside the innermost one (`Spine`).  A token that is taken in goes to the
end of that, whatever it is (`Emits`).  Nodes are numbered as they are read, which keeps the open
elements apart from everything that is complete (`Ordered`).

With the grammar of `Proofs/Tree/Nesting` this says when tokens make a document, and that the
tokens of that document are those that were read, except for what a tree has no place for.
-/
import Mathlib.Data.List.TakeWhile
import PersistenceMapping.Proofs.Tree.Body
import PersistenceMapping.Proofs.Tree.Nesting
import PersistenceMapping.Proofs.Tree.Tagged

namespace PersistenceMapping

open Function (update)

/-! ### What a tree keeps of a token -/

/-- A start tag as an element says it: without repeated names, and with no namespace where there
is an empty one. -/
def StartTag.collapsed (tag : StartTag) : StartTag :=
  ⟨tag.name, tag.ns.filter (!·.isEmpty), Attributes.collapsed tag.attributes⟩

/-- What a tree keeps of a token inside of an element. -/
def Token.kept : Token → List Token
  | startTag tag => [startTag tag.collapsed]
  | doctype _ => []
  | token => [token]

/-- Whether a token is a comment or a processing instruction. -/
def Token.isRemark : Token → Bool
  | comment _ => true
  | instruction .. => true
  | _ => false

namespace Document

variable {d d' : Document} {opened : List (NodeId × String)} {out : List Token} {p : NodeId}
  {value : NodeValue}

/-! ### Numbers in the order of reading -/

/-- Children have greater numbers than their parent, in their order. -/
def Ordered (d : Document) : Prop :=
  ∀ p, (p :: d.children p).Pairwise (· < ·)

theorem Ordered.lt (h : d.Ordered) {c : NodeId} (hc : c ∈ d.children p) : p < c :=
  (List.pairwise_cons.mp (h p)).1 c hc

/-- The last child has the greatest number. -/
theorem Ordered.lt_last (h : d.Ordered) {ids : List NodeId} {last x : NodeId}
    (hchildren : d.children p = ids ++ [last]) (hx : x ∈ ids) : x < last := by
  have hsorted := (List.pairwise_cons.mp (h p)).2
  rw [hchildren, List.pairwise_append] at hsorted
  exact hsorted.2.2 x hx last (by simp)

theorem Ordered.appended (h : d.Ordered) (hd : WellFormed d) (happended : Appended p value d d')
    (hp : p < d.nodes.size) : d'.Ordered := by
  intro q
  rw [happended.children]
  by_cases hq : q = p
  · subst hq
    rw [Function.update_self, ← List.cons_append, List.pairwise_append]
    refine ⟨h q, List.pairwise_singleton _ _, fun x hx y hy => ?_⟩
    rw [List.mem_singleton.mp hy]
    rcases List.mem_cons.mp hx with rfl | hx
    · exact hp
    · exact hd.linked.child_lt hx
  · rw [Function.update_of_ne hq]
    exact h q

theorem children_empty (hashOf : String → UInt64) (p : NodeId) :
    (Document.empty hashOf).children p = [] := by
  rw [List.eq_nil_iff_forall_not_mem]
  intro c hc
  have hd := wellFormed_empty hashOf
  obtain rfl : c = documentNode := Nat.lt_one_iff.mp (hd.linked.child_lt hc)
  exact hd.kind?_child hc hd.top

/-! ### Open elements -/

/-- The innermost open element, or the document itself. -/
def innermost (opened : List (NodeId × String)) : NodeId :=
  (opened.head?.map (·.1)).getD documentNode

/-- The tokens inside of a node. -/
def inside (d : Document) (id : NodeId) : List Token :=
  Content.tokensAll ((d.children id).filterMap d.content?)

/-- The open elements are each the last child of the next, and these tokens come before all that
is inside of the innermost one. -/
inductive Spine (d : Document) : List (NodeId × String) → List Token → Prop
  | nil : Spine d [] []
  | cons {opened : List (NodeId × String)} {out : List Token} {id : NodeId} {tag : StartTag}
      {ids : List NodeId} {value : NodeValue} (habove : Spine d opened out)
      (hchildren : d.children (innermost opened) = ids ++ [id]) (hvalue : d.value? id = some value)
      (htokens : ∀ children, (d.contentOf children value).tokens =
        .startTag tag :: (Content.tokensAll children ++ [.endTag tag.name])) :
      Spine d ((id, tag.name) :: opened)
        (out ++ Content.tokensAll (ids.filterMap d.content?) ++ [.startTag tag])

namespace Spine

theorem mem_children (h : Spine d opened out) {e : NodeId × String} (he : e ∈ opened) :
    ∃ q ∈ documentNode :: opened.map (·.1), e.1 ∈ d.children q := by
  induction h with
  | nil => cases he
  | @cons opened out id tag ids value _ hchildren _ _ ih =>
      rcases List.mem_cons.mp he with rfl | he
      · refine ⟨innermost opened, ?_, by simp [hchildren]⟩
        cases opened with
        | nil => simp [innermost]
        | cons first rest => simp [innermost]
      · obtain ⟨q, hq, hmem⟩ := ih he
        refine ⟨q, ?_, hmem⟩
        rcases List.mem_cons.mp hq with rfl | hq
        · simp
        · simp [hq]

/-- The innermost open element has the greatest number. -/
theorem le_innermost (h : Spine d opened out) (hordered : d.Ordered) {x : NodeId}
    (hx : x ∈ documentNode :: opened.map (·.1)) : x ≤ innermost opened := by
  induction h with
  | nil => exact Nat.le_of_eq (by simpa [innermost] using hx)
  | @cons opened out id tag ids value _ hchildren _ _ ih =>
      have hlt : innermost opened < id := hordered.lt (p := innermost opened) (by simp [hchildren])
      show x ≤ id
      simp only [List.map_cons, List.mem_cons] at hx
      rcases hx with rfl | rfl | hx
      · exact Nat.le_trans (ih (by simp)) (Nat.le_of_lt hlt)
      · exact Nat.le_refl _
      · exact Nat.le_trans (ih (by simp [hx])) (Nat.le_of_lt hlt)

/-- What is complete stays as it is when a node is put into the innermost open element: there is
nothing below it that is open. -/
theorem content?_appended (h : Spine d opened out) (hd : WellFormed d)
    (happended : Appended (innermost opened) value d d') {x : NodeId} (hx : x < d.nodes.size)
    (hcomplete : x ∉ documentNode :: opened.map (·.1)) : d'.content? x = d.content? x := by
  have hparent : innermost opened ∈ documentNode :: opened.map (·.1) := by
    cases opened <;> simp [innermost]
  refine content?_eq_of_agree
    (fun x => x < d.nodes.size ∧ x ∉ documentNode :: opened.map (·.1)) hd happended.wellFormed
    (by rw [happended.size]; exact Nat.le_succ _) happended.pool (fun x hx => hx.1)
    (fun x hx => ?_) (fun x hx => ⟨?_, fun c hc => ⟨hd.linked.child_lt hc, fun hopen => ?_⟩⟩)
    ⟨hx, hcomplete⟩
  · rw [happended.value, if_neg (Nat.ne_of_lt hx.1)]
  · rw [happended.children, Function.update_of_ne]
    rintro rfl
    exact hx.2 hparent
  · -- The parent of an open element is open.
    rcases List.mem_cons.mp hopen with rfl | hopen
    · exact hd.kind?_child hc hd.top
    · obtain ⟨e, he, rfl⟩ := List.mem_map.mp hopen
      obtain ⟨q, hq, hmem⟩ := h.mem_children he
      exact hx.2 (hd.linked.eq_of_mem hmem hc ▸ hq)

/-- The open elements and what comes before the inside of the innermost one stay the same while
nothing changes but there. -/
theorem mono (inner : List NodeId) (h : Spine d opened out) (hd : WellFormed d)
    (hordered : d.Ordered) (hinner : ∀ y ∈ inner, innermost opened < y)
    (hpool : d.pool.Extends d'.pool) (hvalue : ∀ x < d.nodes.size, d'.value? x = d.value? x)
    (hchildren : ∀ q < innermost opened, d'.children q = d.children q)
    (hcontent : ∀ x < d.nodes.size, x ∉ documentNode :: (inner ++ opened.map (·.1)) →
      d'.content? x = d.content? x) : Spine d' opened out := by
  induction h generalizing inner with
  | nil => exact .nil
  | @cons opened out id tag ids value habove hids hid htokens ih =>
      have hlt : innermost opened < id := hordered.lt (p := innermost opened) (by simp [hids])
      have hinner' : ∀ y ∈ inner ++ [id], innermost opened < y := by
        intro y hy
        rcases List.mem_append.mp hy with hy | hy
        · exact Nat.lt_trans hlt (hinner y hy)
        · exact List.mem_singleton.mp hy ▸ hlt
      have habove' := ih (inner ++ [id]) hinner' (fun q hq => hchildren q (Nat.lt_trans hq hlt))
        (fun x hx hcomplete => hcontent x hx (by simpa using hcomplete))
      -- Siblings before an open element are complete, by their numbers.
      have hsiblings : ids.filterMap d'.content? = ids.filterMap d.content? := by
        refine List.filterMap_congr fun x hx => ?_
        have hmem : x ∈ d.children (innermost opened) := by simp [hids, hx]
        have hgt := hordered.lt hmem
        have hltid := hordered.lt_last hids hx
        refine hcontent x (hd.linked.child_lt hmem) fun hopen => ?_
        rcases List.mem_cons.mp hopen with rfl | hopen
        · exact Nat.not_lt_zero _ hgt
        rcases List.mem_append.mp hopen with hopen | hopen
        · exact Nat.lt_asymm hltid (hinner x hopen)
        rcases List.mem_cons.mp hopen with rfl | hopen
        · exact Nat.lt_irrefl _ hltid
        · have hle := habove.le_innermost hordered (List.mem_cons_of_mem _ hopen)
          exact Nat.not_lt_of_le hle hgt
      have hids' : d'.children (innermost opened) = ids ++ [id] := (hchildren _ hlt).trans hids
      rw [← hsiblings]
      refine .cons habove' hids' ((hvalue id (lt_size_of_value? hid)).trans hid) fun children => ?_
      rw [contentOf_congr (hd.readable id value hid) hpool, htokens]

theorem appended (h : Spine d opened out) (hd : WellFormed d) (hordered : d.Ordered)
    (happended : Appended (innermost opened) value d d') : Spine d' opened out := by
  refine h.mono [] hd hordered (by simp) happended.pool (fun x hx => ?_)
    (fun q hq => ?_) fun x hx hcomplete => h.content?_appended hd happended hx hcomplete
  · rw [happended.value, if_neg (Nat.ne_of_lt hx)]
  · rw [happended.children, Function.update_of_ne (Nat.ne_of_lt hq)]

theorem siblings_appended (h : Spine d opened out) (hd : WellFormed d) (hordered : d.Ordered)
    (happended : Appended (innermost opened) value d d') :
    (d.children (innermost opened)).filterMap d'.content? =
      (d.children (innermost opened)).filterMap d.content? := by
  refine List.filterMap_congr fun x hx => ?_
  refine h.content?_appended hd happended (hd.linked.child_lt hx) fun hopen => ?_
  exact Nat.not_lt_of_le (h.le_innermost hordered hopen) (hordered.lt hx)

/-- A node that is put into the innermost open element comes after all that was there. -/
theorem inside_appended (h : Spine d opened out) (hd : WellFormed d) (hordered : d.Ordered)
    (happended : Appended (innermost opened) value d d') {c : Content}
    (hc : d'.content? d.nodes.size = some c) :
    d'.inside (innermost opened) = d.inside (innermost opened) ++ c.tokens := by
  rw [inside, happended.children, Function.update_self, List.filterMap_append,
    h.siblings_appended hd hordered happended, Content.tokensAll_append, ← inside]
  simp [hc, Content.tokensAll]

end Spine

/-! ### New elements -/

/-- What an element says of which a start tag has been read. -/
theorem tokens_element {pool : Pool} (hpool : pool.Valid) {tag : StartTag} {nameId nsId : StringId}
    {stored : List StoredAttribute} (hname : pool.get? nameId = some tag.name)
    (hns : pool.get? nsId = some (tag.ns.getD ""))
    (hstored : List.Forall₂ (Stored pool) stored tag.attributes) (hd : pool.Extends d.pool)
    (children : List Content) :
    (d.contentOf children (.element nameId nsId (collapse stored))).tokens =
      .startTag tag.collapsed :: (Content.tokensAll children ++ [.endTag tag.name]) := by
  have hattributes := map_readAttribute (stored_collapse hpool hstored) hd
  have hnamespace : (if nsId = 0 then none else d.pool.get? nsId) = tag.ns.filter (!·.isEmpty) := by
    rw [hd nsId _ hns, ← hns]
    exact hpool.get?_eq_filter hns
  rw [contentOf, Content.tokens, Pool.getD_eq (hd _ _ hname), hnamespace, hattributes]
  rfl

end Document

namespace Builder

open Document

variable {b b' : Builder} {token : Token} {c : Content} {tag : StartTag} {ts ts' : List Token}

/-! ### Reading on -/

/-- These are the tokens of what a builder has made so far, up to the inside of the innermost
open element. -/
structure Emits (b : Builder) (ts : List Token) : Prop where
  sound : b.Sound
  ordered : b.document.Ordered
  spine : ∃ out, Spine b.document b.opened out ∧ ts = out ++ b.document.inside b.parent

theorem emits_initial : Builder.initial.Emits [] where
  sound := .initial
  ordered p := by
    have hchildren : Builder.initial.document.children p = [] := children_empty _ p
    rw [hchildren]
    exact List.pairwise_singleton _ _
  spine := by
    refine ⟨[], .nil, ?_⟩
    show [] = [] ++ Document.inside .empty documentNode
    rw [inside, children_empty]
    rfl

namespace Emits

/-- What has been read of a document of which everything is closed. -/
theorem tokens_body (h : b.Emits ts) (hopened : b.opened = []) :
    Content.tokensAll b.document.body = ts := by
  obtain ⟨out, hspine, rfl⟩ := h.spine
  rw [hopened] at hspine
  cases hspine
  rw [List.nil_append, parent, hopened]
  rfl

/-- A loose token that is kept goes to the end. -/
theorem append (h : b.Emits ts) (htoken : token.content? = some c) (hkeeps : b.keeps c = true) :
    ∃ b', b.read false token = .ok b' ∧ b'.opened = b.opened ∧
      b'.document.root = b.document.root ∧ b'.Emits (ts ++ c.tokens) := by
  obtain ⟨value, node, hmade, hread, hsingle, hc⟩ := h.sound.read_content htoken hkeeps
  have hwf := h.sound.wellFormed
  have hsound := h.sound.read hread
  have hpool : (b.append node).document.pool = node.2.pool := pool_link _ _ _
  have happended : Appended b.parent value b.document (b.append node).document :=
    hmade.appended hwf hsound.wellFormed h.sound.parent_lt rfl hpool
  obtain ⟨out, hspine, rfl⟩ := h.spine
  have hnew : (b.append node).document.content? b.document.nodes.size = some c := by
    rw [hsound.wellFormed.content?_eq (by rw [happended.size]; exact Nat.lt_succ_self _),
      happended.value, if_pos rfl, Option.map_some, hc _ hpool]
  refine ⟨_, hread, rfl, (root_link _ _ _).trans hmade.root, hsound,
    h.ordered.appended hwf happended h.sound.parent_lt, out,
    hspine.appended hwf h.ordered happended, ?_⟩
  rw [List.append_assoc]
  exact congrArg (out ++ ·) (hspine.inside_appended hwf h.ordered happended hnew).symm

/-- A start tag goes to the end, and what it opens has nothing inside. -/
theorem enter (h : b.Emits ts) (tag : StartTag) (hroot : b.opened = [] → b.document.root = none) :
    (b.enter tag).Emits (ts ++ [.startTag tag.collapsed]) := by
  obtain ⟨nameId, nsId, stored, happended, hopened, hname, hns, hstored⟩ :=
    h.sound.element_enter tag hroot
  have hwf := h.sound.wellFormed
  have hsound := h.sound.enter tag hroot
  obtain ⟨out, hspine, rfl⟩ := h.spine
  have hids : (b.enter tag).document.children (innermost b.opened) =
      b.document.children (innermost b.opened) ++ [b.document.nodes.size] := by
    rw [happended.children]
    exact Function.update_self _ _ _
  have hvalue : (b.enter tag).document.value? b.document.nodes.size =
      some (.element nameId nsId (collapse stored)) := by rw [happended.value, if_pos rfl]
  have htokens := tokens_element (d := (b.enter tag).document) hsound.wellFormed.pool hname hns
    hstored (.refl _)
  have hspine' : Spine (b.enter tag).document
      ((b.document.nodes.size, tag.collapsed.name) :: b.opened)
      (out ++ Content.tokensAll ((b.document.children (innermost b.opened)).filterMap
        (b.enter tag).document.content?) ++ [.startTag tag.collapsed]) :=
    .cons (hspine.appended hwf h.ordered happended) hids hvalue htokens
  have hempty : (b.enter tag).document.inside b.document.nodes.size = [] := by
    rw [inside, happended.children_new hwf h.sound.parent_lt]
    rfl
  refine ⟨hsound, h.ordered.appended hwf happended h.sound.parent_lt, _, hopened ▸ hspine', ?_⟩
  have hparent : (b.enter tag).parent = b.document.nodes.size := by
    rw [parent, hopened]
    rfl
  rw [hspine.siblings_appended hwf h.ordered happended, hparent, hempty, List.append_nil]
  rfl

/-- An end tag goes to the end as it closes the innermost element. -/
theorem leave {id : NodeId} {name : String} {above : List (NodeId × String)} (h : b.Emits ts)
    (hopened : b.opened = (id, name) :: above) :
    Emits { b with opened := above } (ts ++ [.endTag name]) := by
  obtain ⟨out, hspine, rfl⟩ := h.spine
  have hparent : b.parent = id := by rw [parent, hopened]; rfl
  rw [hopened] at hspine
  generalize htop : (id, name) :: above = opened at hspine
  cases hspine with
  | nil => cases htop
  | @cons _ out _ tag ids value habove hids hid htokens =>
      cases htop
      have hsound : ({ b with opened := above } : Builder).Sound :=
        ⟨h.sound.steps, fun e he =>
          h.sound.opened e (by rw [hopened]; exact List.mem_cons_of_mem _ he)⟩
      have hcontent : b.document.content? id =
          some (b.document.contentOf ((b.document.children id).filterMap b.document.content?)
            value) := by
        rw [h.sound.wellFormed.content?_eq (lt_size_of_value? hid), hid, Option.map_some]
      have hlevel : b.document.inside (innermost above) =
          Content.tokensAll (ids.filterMap b.document.content?) ++
            .startTag tag :: (b.document.inside id ++ [.endTag tag.name]) := by
        rw [inside, hids, List.filterMap_append, Content.tokensAll_append]
        simp [hcontent, Content.tokensAll, htokens, inside]
      refine ⟨hsound, h.ordered, out, habove, ?_⟩
      show _ = out ++ b.document.inside (innermost above)
      rw [hlevel, hparent]
      simp

/-! ### Reading what is nested -/

/-- Inside of an element all loose tokens go to the end, but for those a tree has no place for. -/
theorem loose_inside (h : b.Emits ts) (hopened : b.opened ≠ []) (hloose : token.isLoose = true) :
    ∃ b', b.read false token = .ok b' ∧ b'.opened = b.opened ∧
      b'.document.root = b.document.root ∧ b'.Emits (ts ++ token.kept) := by
  have hkeeps : ∀ c : Content, b.keeps c = true := by simp [keeps, hopened]
  cases token with
  | text content => exact h.append (c := .text content) rfl (hkeeps _)
  | cdata content => exact h.append (c := .cdata content) rfl (hkeeps _)
  | comment content => exact h.append (c := .comment content) rfl (hkeeps _)
  | instruction target data => exact h.append (c := .instruction target data) rfl (hkeeps _)
  | doctype content => exact ⟨b, rfl, rfl, rfl, by rwa [Token.kept, List.append_nil]⟩
  | startDocument | startTag | endTag | endDocument => cases hloose

/-- At document level only comments and processing instructions do. -/
theorem loose_outside (h : b.Emits ts) (hopened : b.opened = []) (hloose : token.isLoose = true) :
    ∃ b', b.read false token = .ok b' ∧ b'.opened = b.opened ∧
      b'.document.root = b.document.root ∧ b'.Emits (ts ++ [token].filter Token.isRemark) := by
  have hdropped : token.isRemark = false → b.read false token = .ok b →
      ∃ b', b.read false token = .ok b' ∧ b'.opened = b.opened ∧
        b'.document.root = b.document.root ∧ b'.Emits (ts ++ [token].filter Token.isRemark) := by
    intro hremark hread
    refine ⟨b, hread, rfl, rfl, ?_⟩
    rwa [List.filter_cons_of_neg (by simp [hremark]), List.filter_nil, List.append_nil]
  cases token with
  | text content => exact hdropped rfl (by simp [read, hopened])
  | cdata content => exact hdropped rfl (by simp [read, hopened])
  | comment content =>
      exact h.append (c := .comment content) rfl (by simp [keeps, Content.isCharacters])
  | instruction target data =>
      exact h.append (c := .instruction target data) rfl (by simp [keeps, Content.isCharacters])
  | doctype content => exact hdropped rfl rfl
  | startDocument | startTag | endTag | endDocument => cases hloose

theorem takes_outside (h : b.Emits ts) (hopened : b.opened = [])
    (hloose : ∀ token ∈ ts', token.isLoose = true) :
    ∃ b', b.takes ts' = .ok b' ∧ b'.opened = b.opened ∧ b'.document.root = b.document.root ∧
      b'.Emits (ts ++ ts'.filter Token.isRemark) := by
  induction ts' generalizing b ts with
  | nil => exact ⟨b, rfl, rfl, rfl, by rwa [List.filter_nil, List.append_nil]⟩
  | cons token rest ih =>
      rw [List.forall_mem_cons] at hloose
      obtain ⟨b₁, hread, hopened₁, hroot₁, h₁⟩ := h.loose_outside hopened hloose.1
      obtain ⟨b₂, htakes, hopened₂, hroot₂, h₂⟩ := ih h₁ (hopened₁.trans hopened) hloose.2
      refine ⟨b₂, ?_, hopened₂.trans hopened₁, hroot₂.trans hroot₁, ?_⟩
      · rw [takes_cons, hread]
        exact htakes
      · rwa [List.append_assoc, ← List.filter_append, List.singleton_append] at h₂

/-- An element is taken in where what is inside of it is. -/
theorem takes_element {inner : List Token} (h : b.Emits ts) (tag : StartTag)
    (hroot : b.opened = [] → b.document.root = none)
    (hinside : ∀ {b₁ : Builder} {ts₁ : List Token}, b₁.Emits ts₁ → b₁.opened ≠ [] →
      ∃ b', b₁.takes inner = .ok b' ∧ b'.opened = b₁.opened ∧
        b'.document.root.isSome = b₁.document.root.isSome ∧
        b'.Emits (ts₁ ++ inner.flatMap Token.kept)) :
    ∃ b', b.takes (.startTag tag :: (inner ++ [.endTag tag.name])) = .ok b' ∧
      b'.opened = b.opened ∧
      b'.document.root.isSome = (b.document.root.isSome || b.opened.isEmpty) ∧
      b'.Emits (ts ++ .startTag tag.collapsed ::
        (inner.flatMap Token.kept ++ [.endTag tag.name])) := by
  obtain ⟨_, _, _, _, hopened, -⟩ := h.sound.element_enter tag hroot
  obtain ⟨b₁, htakes, hopened₁, hroot₁, h₁⟩ := hinside (h.enter tag hroot) (by simp [hopened])
  rw [hopened] at hopened₁
  have hstop : b₁.read false (.endTag tag.name) = .ok { b₁ with opened := b.opened } := by
    simp [read, hopened₁]
  refine ⟨{ b₁ with opened := b.opened }, ?_, rfl, hroot₁.trans (b.root_enter tag), ?_⟩
  · rw [takes_cons, read_enter tag hroot, Except.bind, takes_append, htakes, Except.bind,
      takes_cons, hstop]
    rfl
  · simpa using h₁.leave hopened₁

/-- What is nested is taken in inside of an element, and goes to the end. -/
theorem takes_nested (hnests : Nests ts') (h : b.Emits ts) (hopened : b.opened ≠ []) :
    ∃ b', b.takes ts' = .ok b' ∧ b'.opened = b.opened ∧
      b'.document.root.isSome = b.document.root.isSome ∧
      b'.Emits (ts ++ ts'.flatMap Token.kept) := by
  induction hnests generalizing b ts with
  | nil => exact ⟨b, rfl, rfl, rfl, by rwa [List.flatMap_nil, List.append_nil]⟩
  | @loose token rest hloose _ ih =>
      obtain ⟨b₁, hread, hopened₁, hroot₁, h₁⟩ := h.loose_inside hopened hloose
      obtain ⟨b₂, htakes, hopened₂, hroot₂, h₂⟩ := ih h₁ (hopened₁ ▸ hopened)
      refine ⟨b₂, ?_, hopened₂.trans hopened₁, hroot₂.trans (by rw [hroot₁]), ?_⟩
      · rw [takes_cons, hread]
        exact htakes
      · rwa [List.append_assoc, ← List.flatMap_cons] at h₂
  | @element tag inner rest _ _ ihinner ihrest =>
      obtain ⟨b₁, htakes₁, hopened₁, hroot₁, h₁⟩ :=
        h.takes_element tag (fun hempty => absurd hempty hopened) ihinner
      obtain ⟨b₂, htakes₂, hopened₂, hroot₂, h₂⟩ := ihrest h₁ (hopened₁ ▸ hopened)
      have hsplit : Token.startTag tag :: (inner ++ .endTag tag.name :: rest) =
          .startTag tag :: (inner ++ [.endTag tag.name]) ++ rest := by simp
      refine ⟨b₂, ?_, hopened₂.trans hopened₁, ?_, ?_⟩
      · rw [hsplit, takes_append, htakes₁]
        exact htakes₂
      · simp [hroot₂, hroot₁, hopened]
      · rw [hsplit]
        simpa [Token.kept] using h₂

end Emits

/-- Loose tokens with one element among them are all taken in from the start. -/
theorem takes_oneElement {before inner after : List Token}
    (h : OneElement before tag inner after ts) :
    ∃ b, Builder.initial.takes ts = .ok b ∧ b.opened = [] ∧ b.document.root.isSome = true ∧
      b.Emits (before.filter Token.isRemark ++ .startTag tag.collapsed ::
        (inner.flatMap Token.kept ++ .endTag tag.name :: after.filter Token.isRemark)) := by
  obtain ⟨b₁, htakes₁, hopened₁, hroot₁, h₁⟩ := emits_initial.takes_outside rfl h.before
  obtain ⟨b₂, htakes₂, hopened₂, hroot₂, h₂⟩ := h₁.takes_element tag (fun _ => hroot₁)
    fun hemits hopened => hemits.takes_nested h.inner hopened
  have hclosed₂ : b₂.opened = [] := hopened₂.trans hopened₁
  obtain ⟨b₃, htakes₃, hopened₃, hroot₃, h₃⟩ := h₂.takes_outside hclosed₂ h.after
  have hsplit : ts = before ++ (.startTag tag :: (inner ++ [.endTag tag.name]) ++ after) := by
    simp [h.eq]
  refine ⟨b₃, ?_, hopened₃.trans hclosed₂, ?_, by simpa using h₃⟩
  · rw [hsplit, takes_append, htakes₁, Except.bind, takes_append, htakes₂]
    exact htakes₃
  · rw [hroot₃, hroot₂, hopened₁]
    simp [Builder.initial]

end Builder

namespace Document

variable {d : Document} {tokens before inner after : List Token} {tag : StartTag}

/-- The tokens of a document: a document start, and then, up to a document end if there is one,
an element with loose tokens around it. -/
def IsDocument (tokens before : List Token) (tag : StartTag) (inner after : List Token) : Prop :=
  ∃ start rest, tokens = start :: rest ∧ start.isStartDocument = true ∧
    OneElement before tag inner after (rest.takeWhile (· ≠ .endDocument))

/-- A document says these tokens, and the element is its root. -/
structure Says (d : Document) (before : List Token) (tag : StartTag) (inner after : List Token) :
    Prop where
  body : Content.tokensAll d.body = before.filter Token.isRemark ++ .startTag tag.collapsed ::
    (inner.flatMap Token.kept ++ .endTag tag.name :: after.filter Token.isRemark)
  root : ∃ root, d.rootElement? = some root ∧
    (d.children documentNode).filter d.isElement = [root] ∧
    (d.content? root).map Content.tokens =
      some (.startTag tag.collapsed :: (inner.flatMap Token.kept ++ [.endTag tag.name]))

/-- What is built of a list of tokens that opens with a document start. -/
theorem ofStream_ofTokens (start : Token) (rest : List Token)
    (hstart : start.isStartDocument = true) :
    ofStream false (.ofTokens (start :: rest)) =
      ((Builder.initial.takes (rest.takeWhile (· ≠ .endDocument))).bind Builder.finish).mapError
        .shape := by
  cases start <;> cases hstart
  exact Builder.run_eq_takes _ rest

/-- Two lists that are split at the first of their members without a property are split alike. -/
theorem eq_of_split {p : Token → Bool} {l l' m m' : List Token} {x x' : Token}
    (hl : ∀ t ∈ l, p t = true) (hl' : ∀ t ∈ l', p t = true) (hx : p x = false) (hx' : p x' = false)
    (h : l ++ x :: m = l' ++ x' :: m') : l = l' ∧ x :: m = x' :: m' := by
  have htake := congrArg (List.takeWhile p) h
  rw [List.takeWhile_append_of_pos hl, List.takeWhile_append_of_pos hl',
    List.takeWhile_cons_of_neg (by simp [hx]), List.takeWhile_cons_of_neg (by simp [hx']),
    List.append_nil, List.append_nil] at htake
  subst htake
  exact ⟨rfl, List.append_cancel_left h⟩

/-- At document level nothing but the element is more than a comment or a processing
instruction. -/
theorem isRemark_tokens {c : Content} (helement : c.isElement = false)
    (hcharacters : c.isCharacters = false) : ∀ token ∈ c.tokens, token.isRemark = true := by
  cases c <;> simp_all [Content.tokens, Content.isElement, Content.isCharacters, Token.isRemark]

/-- What stands beside the root. -/
theorem WellFormed.isRemark_beside (hd : WellFormed d) {root : NodeId} (ids : List NodeId)
    (hids : ∀ id ∈ ids, id ∈ d.children documentNode ∧ id ≠ root) (hroot : d.root = some root) :
    ∀ token ∈ Content.tokensAll (ids.filterMap d.content?), token.isRemark = true := by
  intro token htoken
  rw [Content.tokensAll_eq_flatMap] at htoken
  obtain ⟨c, hc, htoken⟩ := List.mem_flatMap.mp htoken
  obtain ⟨id, hid, hcontent⟩ := List.mem_filterMap.mp hc
  obtain ⟨hmem, hne⟩ := hids id hid
  obtain ⟨-, kind, -, hkind, -⟩ :=
    hd.kinds documentNode id ((hd.linked.parent documentNode id).mpr hmem)
  obtain ⟨c', hc', helement, -⟩ := hd.exists_content? hkind
  obtain rfl : c' = c := Option.some.inj (hc'.symm.trans hcontent)
  have hnot : d.isElement id = false := by
    by_contra hid'
    have hfilter : id ∈ (d.children documentNode).filter d.isElement :=
      List.mem_filter.mpr ⟨hmem, by simpa using hid'⟩
    rw [hd.elements_top hroot, List.mem_singleton] at hfilter
    exact hne hfilter
  refine isRemark_tokens (helement.trans hnot) (hd.isCharacters_body c' ?_) token htoken
  exact List.mem_filterMap.mpr ⟨id, hmem, hcontent⟩

/-- The element among the tokens at document level is that of the root. -/
theorem WellFormed.says (hd : WellFormed d) (hroot : d.root.isSome = true)
    (hbody : Content.tokensAll d.body = before.filter Token.isRemark ++ .startTag tag.collapsed ::
      (inner.flatMap Token.kept ++ .endTag tag.name :: after.filter Token.isRemark)) :
    d.Says before tag inner after := by
  obtain ⟨root, hroot⟩ := Option.isSome_iff_exists.mp hroot
  obtain ⟨hparent, hkind⟩ := (hd.root root).mp hroot
  refine ⟨hbody, root, ?_, hd.elements_top hroot, ?_⟩
  · rw [rootElement?, hroot, Option.filter_some, if_pos (isElement_iff.mpr hkind)]
  have hmem : root ∈ d.children documentNode := (hd.linked.parent documentNode root).mp hparent
  obtain ⟨l, r, hchildren⟩ := List.append_of_mem hmem
  have hnodup := hd.linked.nodup documentNode
  rw [hchildren, List.nodup_middle, List.nodup_cons] at hnodup
  have hleft := hd.isRemark_beside l (fun id hid =>
    ⟨by simp [hchildren, hid], fun heq => hnodup.1 (by simp [← heq, hid])⟩) hroot
  have hright := hd.isRemark_beside r (fun id hid =>
    ⟨by simp [hchildren, hid], fun heq => hnodup.1 (by simp [← heq, hid])⟩) hroot
  obtain ⟨c, hcontent, hc, -⟩ := hd.exists_content? hkind
  rw [hcontent, Option.map_some]
  rw [isElement_iff.mpr hkind] at hc
  rw [body, hchildren, List.filterMap_append, List.filterMap_cons, hcontent,
    Content.tokensAll_append, Content.tokensAll] at hbody
  cases c with
  | element name ns attributes children =>
      rw [Content.tokens, List.cons_append, List.append_assoc] at hbody
      have hbefore : ∀ token ∈ before.filter Token.isRemark, token.isRemark = true := by simp
      have hafter : ∀ token ∈ (after.filter Token.isRemark).reverse, token.isRemark = true := by
        simp
      obtain ⟨-, htail⟩ := eq_of_split hleft hbefore rfl rfl hbody
      obtain ⟨htag, htail⟩ := List.cons.inj htail
      -- Seen from their end, the tokens split at the end tag.
      have hright' : ∀ token ∈ (Content.tokensAll (r.filterMap d.content?)).reverse,
          token.isRemark = true := by simpa using hright
      have hreverse : (Content.tokensAll (r.filterMap d.content?)).reverse ++
            .endTag name :: (Content.tokensAll children).reverse =
          (after.filter Token.isRemark).reverse ++
            .endTag tag.name :: (inner.flatMap Token.kept).reverse := by
        simpa using congrArg List.reverse htail
      obtain ⟨-, hinner⟩ := eq_of_split hright' hafter rfl rfl hreverse
      have hinner' : Content.tokensAll children ++ [.endTag name] =
          inner.flatMap Token.kept ++ [.endTag tag.name] := by
        simpa using congrArg List.reverse hinner
      rw [Content.tokens, htag, hinner']
  | document | text | cdata | comment | instruction => cases hc

/-- Tokens make a document just if they are those of one, and then the document says them, except
for what a tree has no place for. -/
theorem ofStream_iff_isDocument (tokens : List Token) :
    ((∃ d, ofStream false (.ofTokens tokens) = .ok d) ↔
        ∃ before tag inner after, IsDocument tokens before tag inner after) ∧
      ∀ before tag inner after d, IsDocument tokens before tag inner after →
        ofStream false (.ofTokens tokens) = .ok d → d.Says before tag inner after := by
  refine ⟨⟨?_, ?_⟩, ?_⟩
  · rintro ⟨d, hbuild⟩
    obtain ⟨start, rest, rfl, hstart⟩ : ∃ start rest, tokens = start :: rest ∧
        start.isStartDocument = true := by
      cases tokens with
      | nil => cases hbuild
      | cons start rest =>
          refine ⟨start, rest, rfl, ?_⟩
          cases start <;> first | rfl | cases hbuild
    rw [ofStream_ofTokens start rest hstart] at hbuild
    have hend : .endDocument ∉ rest.takeWhile (· ≠ .endDocument) := by
      intro hmem
      simpa using List.mem_takeWhile_imp hmem
    rcases htakes : Builder.initial.takes (rest.takeWhile (· ≠ .endDocument)) with fault | b
    · rw [htakes] at hbuild
      cases hbuild
    · rw [htakes] at hbuild
      obtain ⟨hopened, hroot⟩ : b.opened = [] ∧ b.document.root.isSome = true := by
        rw [Except.bind, Builder.finish] at hbuild
        split at hbuild
        · cases hbuild
        · rename_i hopened
          split at hbuild
          · rename_i hroot
            exact ⟨hopened, hroot⟩
          · cases hbuild
      obtain ⟨before, tag, inner, after, hone⟩ :=
        Builder.oneElement_of_takes rfl rfl hend htakes hopened hroot
      exact ⟨before, tag, inner, after, start, rest, rfl, hstart, hone⟩
  · rintro ⟨before, tag, inner, after, start, rest, rfl, hstart, hone⟩
    obtain ⟨b, htakes, hopened, hroot, -⟩ := Builder.takes_oneElement hone
    refine ⟨b.document, ?_⟩
    rw [ofStream_ofTokens start rest hstart, htakes]
    simp [Except.bind, Builder.finish, hopened, hroot, Except.mapError]
  · rintro before tag inner after d ⟨start, rest, rfl, hstart, hone⟩ hbuild
    obtain ⟨b, htakes, hopened, hroot, hemits⟩ := Builder.takes_oneElement hone
    rw [ofStream_ofTokens start rest hstart, htakes] at hbuild
    simp only [Except.bind, Builder.finish, hopened, hroot, if_true, Except.mapError,
      Except.ok.injEq] at hbuild
    subst hbuild
    exact hemits.sound.wellFormed.says hroot (hemits.tokens_body hopened)

/-- A repeated attribute keeps its place and gets its last value, an empty namespace is none, and
what follows the document end is not read. -/
theorem says_of_repeated :
    let tag : StartTag := ⟨"p:a", some "", [⟨"x", "1"⟩, ⟨"y", "2"⟩, ⟨"x", "3"⟩]⟩
    let inner : List Token := [.doctype "b", .text "", .cdata " "]
    let tokens : List Token := [.plainStart, .text "b", .comment "c", .startTag tag] ++ inner ++
      [.endTag "p:a", .cdata "d", .endDocument, .endTag "e"]
    IsDocument tokens [.text "b", .comment "c"] tag inner [.cdata "d"] ∧
      tag.collapsed = ⟨"p:a", none, [⟨"x", "3"⟩, ⟨"y", "2"⟩]⟩ ∧
      ∃ d, ofStream false (.ofTokens tokens) = .ok d ∧
        d.Says [.text "b", .comment "c"] tag inner [.cdata "d"] := by
  intro tag inner tokens
  have hdocument : IsDocument tokens [.text "b", .comment "c"] tag inner [.cdata "d"] := by
    refine ⟨.plainStart, _, rfl, rfl, rfl, by decide, ?_, by decide⟩
    exact .loose rfl (.loose rfl (.loose rfl .nil))
  obtain ⟨hbuilds, hsays⟩ := ofStream_iff_isDocument tokens
  obtain ⟨d, hd⟩ := hbuilds.mpr ⟨_, _, _, _, hdocument⟩
  exact ⟨hdocument, by decide, d, hd, hsays _ _ _ _ d hdocument hd⟩

end Document

end PersistenceMapping
