/-
A builder makes of tokens what they spell.

At document level character data is dropped, everywhere else every token counts.  So of contents
that are spelled at document level those remain that are no character data, and there may be one
element among them at most (`Builder.makes_of_spells`).
-/
import PersistenceMapping.Proofs.Tree.Gained

namespace PersistenceMapping

/-- Whether a content is character data. -/
def Content.isCharacters : Content → Bool
  | text _ => true
  | cdata _ => true
  | _ => false

/-- Whether a content is an element. -/
def Content.isElement : Content → Bool
  | element .. => true
  | _ => false

namespace Builder

open Document

variable {b b' b'' : Builder} {token : Token} {c : Content} {ts ts' : List Token}
  {cs cs' : List Content}

theorem run_of_read {failure : Option TokenError} {rest : List Outcome}
    (htoken : token ≠ .endDocument) (h : b.read false token = .ok b') :
    b.run false failure (.ok token :: rest) = b'.run false failure rest := by
  rw [run]
  · rw [h]
  · exact htoken

/-- Whether a builder keeps a content where it is. -/
def keeps (b : Builder) (c : Content) : Bool :=
  !b.opened.isEmpty || !c.isCharacters

/-- Having taken in some tokens, a builder goes on where it was, and has made these contents as
far as it keeps them there. -/
structure Makes (b : Builder) (ts : List Token) (cs : List Content) (b' : Builder) : Prop where
  sound : b'.Sound
  opened : b'.opened = b.opened
  root : b'.document.root.isSome =
    (b.document.root.isSome || (b.opened.isEmpty && cs.any Content.isElement))
  gained : Gained b.parent (cs.filter b.keeps) b.document b'.document
  run : ∀ failure rest, b.run false failure (ts.map .ok ++ rest) = b'.run false failure rest

theorem Sound.parent_lt (h : b.Sound) : b.parent < b.document.nodes.size := by
  rcases h.parent_kind with ⟨-, -, hkind⟩ | ⟨-, -, hkind⟩ <;> exact lt_size_of_kind? hkind

namespace Makes

theorem refl (h : b.Sound) : b.Makes [] [] b where
  sound := h
  opened := rfl
  root := by simp
  gained := .refl h.wellFormed _
  run _ _ := rfl

theorem trans (h : b.Makes ts cs b') (h' : b'.Makes ts' cs' b'') (hb : b.Sound) :
    b.Makes (ts ++ ts') (cs ++ cs') b'' where
  sound := h'.sound
  opened := h'.opened.trans h.opened
  root := by
    rw [h'.root, h.root, h.opened, List.any_append]
    cases b.document.root.isSome <;> cases b.opened.isEmpty <;> simp
  gained := by
    have hparent : b'.parent = b.parent := by rw [parent, h.opened, ← parent]
    have hkeeps : b'.keeps = b.keeps := by
      funext c
      rw [keeps, h.opened, ← keeps]
    have hgained := h'.gained
    rw [hparent, hkeeps] at hgained
    rw [List.filter_append]
    exact h.gained.trans hgained hb.parent_lt
  run failure rest := by rw [List.map_append, List.append_assoc, h.run, h'.run]

end Makes

namespace Sound

/-! ### Single tokens -/

theorem makes_append (h : b.Sound) {value : NodeValue} {node : NodeId × Document}
    (hmade : Made b.document value node) (hread : b.read false token = .ok (b.append node))
    (htoken : token.content? = some c) (hkeeps : b.keeps c = true)
    (hsingle : value.kind ≠ .element ∧ value.kind ≠ .document)
    (hc : ∀ d : Document, d.pool = node.2.pool → d.contentOf [] value = c) :
    b.Makes [token] [c] (b.append node) where
  sound := h.read hread
  opened := rfl
  root := by
    have hroot : (b.append node).document.root = b.document.root :=
      (root_link _ _ _).trans hmade.root
    cases token <;> cases htoken <;> simp [hroot, Content.isElement]
  gained := by
    have hpool : (b.append node).document.pool = node.2.pool := pool_link _ _ _
    have happended := hmade.appended h.wellFormed (h.read hread).wellFormed h.parent_lt rfl hpool
    rw [List.filter_cons_of_pos hkeeps]
    exact happended.gained h.wellFormed h.parent_lt (hc _ hpool) hsingle
  run failure rest := run_of_read (by rintro rfl; cases htoken) hread

/-- Character data at document level is dropped. -/
theorem read_dropped (htoken : token.content? = some c) (hkeeps : ¬ b.keeps c = true) :
    b.read false token = .ok b := by
  obtain ⟨hopened, hcharacters⟩ : b.opened.isEmpty = true ∧ c.isCharacters = true := by
    simpa [keeps] using hkeeps
  cases token <;> cases htoken <;> cases hcharacters <;> simp [Builder.read, hopened]

theorem makes_dropped (h : b.Sound) (htoken : token.content? = some c)
    (hkeeps : ¬ b.keeps c = true) : b.Makes [token] [c] b where
  sound := h
  opened := rfl
  root := by cases token <;> cases htoken <;> simp [Content.isElement]
  gained := by
    rw [List.filter_cons_of_neg hkeeps]
    exact .refl h.wellFormed _
  run failure rest := run_of_read (by rintro rfl; cases htoken) (read_dropped htoken hkeeps)

/-- A token that makes a content by itself is appended as a node that says it, where it is kept. -/
theorem read_content (h : b.Sound) (htoken : token.content? = some c) (hkeeps : b.keeps c = true) :
    ∃ value node, Made b.document value node ∧ b.read false token = .ok (b.append node) ∧
      (value.kind ≠ .element ∧ value.kind ≠ .document) ∧
      ∀ d : Document, d.pool = node.2.pool → ∀ children, d.contentOf children value = c := by
  have hwf := h.wellFormed
  have hinside : c.isCharacters = true → b.opened.isEmpty = false := by
    intro hcharacters
    simpa [keeps, hcharacters] using hkeeps
  cases token with
  | text content =>
      cases htoken
      have hopened := hinside rfl
      have hread : b.read false (.text content) =
          .ok (b.append (b.document.pushText content)) := by simp [Builder.read, hopened]
      refine ⟨_, _, made_pushText hwf content, hread, by simp [NodeValue.kind], fun d hpool _ => ?_⟩
      rw [contentOf, hpool]
      exact congrArg Content.text (Pool.getD_eq (get?_intern hwf content))
  | cdata content =>
      cases htoken
      have hopened := hinside rfl
      have hread : b.read false (.cdata content) =
          .ok (b.append (b.document.pushCdata content)) := by simp [Builder.read, hopened]
      refine ⟨_, _, made_pushCdata hwf content, hread, by simp [NodeValue.kind],
        fun d hpool _ => ?_⟩
      rw [contentOf, hpool]
      exact congrArg Content.cdata (Pool.getD_eq (get?_intern hwf content))
  | comment content =>
      cases htoken
      refine ⟨_, _, made_pushComment hwf content, rfl, by simp [NodeValue.kind],
        fun d hpool _ => ?_⟩
      rw [contentOf, hpool]
      exact congrArg Content.comment (Pool.getD_eq (get?_intern hwf content))
  | instruction target data =>
      cases htoken
      obtain ⟨targetId, dataId, hmade, htarget, hdata⟩ := made_pushInstruction hwf target data
      refine ⟨_, _, hmade, rfl, by simp [NodeValue.kind], fun d hpool _ => ?_⟩
      rw [contentOf, hpool, Pool.getD_eq htarget, Pool.getD_eq hdata]
  | _ => cases htoken

/-- A token that makes a content by itself makes it where the builder is. -/
theorem makes_single (h : b.Sound) (htoken : token.content? = some c) :
    ∃ b', b.Makes [token] [c] b' := by
  by_cases hkeeps : b.keeps c = true
  · obtain ⟨value, node, hmade, hread, hsingle, hc⟩ := h.read_content htoken hkeeps
    exact ⟨_, h.makes_append hmade hread htoken hkeeps hsingle fun d hpool => hc d hpool []⟩
  · exact ⟨b, h.makes_dropped htoken hkeeps⟩

/-! ### Elements -/

/-- Opening an element appends a node that refers to its name, its namespace and its
attributes. -/
theorem element_enter (h : b.Sound) (tag : StartTag)
    (hroot : b.opened = [] → b.document.root = none) :
    ∃ nameId nsId stored,
      Appended b.parent (.element nameId nsId (collapse stored)) b.document
        (b.enter tag).document ∧
      (b.enter tag).opened = (b.document.nodes.size, tag.name) :: b.opened ∧
      (b.enter tag).document.pool.get? nameId = some tag.name ∧
      (b.enter tag).document.pool.get? nsId = some (tag.ns.getD "") ∧
      List.Forall₂ (Stored (b.enter tag).document.pool) stored tag.attributes := by
  obtain ⟨nameId, nsId, stored, hmade, hname, hns, hstored⟩ :=
    made_pushElement h.wellFormed tag.name tag.ns tag.attributes
  have hdocument := h.document_enter tag
  have hpool : (b.enter tag).document.pool =
      (b.document.pushElement tag.name tag.ns tag.attributes).2.pool := by
    rw [hdocument, pool_attach]
  refine ⟨nameId, nsId, stored, ?_, ?_, hpool ▸ hname, hpool ▸ hns, hpool ▸ hstored⟩
  · refine hmade.appended h.wellFormed (h.enter tag hroot).wellFormed h.parent_lt ?_ hpool
    rw [hdocument, nodes_attach]
  · rw [← hmade.id]
    rfl

/-- Opening an element appends a node that says its name and its attributes. -/
theorem appended_enter (h : b.Sound) (tag : StartTag)
    (hroot : b.opened = [] → b.document.root = none)
    (hnodup : (tag.attributes.map (·.name)).Nodup) :
    ∃ value, Appended b.parent value b.document (b.enter tag).document ∧
      (b.enter tag).opened = (b.document.nodes.size, tag.name) :: b.opened ∧
      (b.enter tag).document.root.isSome = (b.document.root.isSome || b.opened.isEmpty) ∧
      ∀ d : Document, (b.enter tag).document.pool.Extends d.pool → ∀ children,
        Content.bareAll true [d.contentOf children value] =
          [.element tag.name none tag.attributes (Content.bareAll true children)] := by
  obtain ⟨nameId, nsId, stored, happended, hopened, hname, -, hstored⟩ := h.element_enter tag hroot
  refine ⟨_, happended, hopened, b.root_enter tag, fun d hpool children => ?_⟩
  have hattributes : stored.map d.readAttribute = tag.attributes := map_readAttribute hstored hpool
  rw [contentOf, collapse_eq_self (nodup_of_stored hstored hnodup), Pool.getD_eq (hpool _ _ hname),
    hattributes]
  rfl

/-- An element is made of what stands between its tags. -/
theorem makes_element (h : b.Sound) (tag : StartTag)
    (hroot : b.opened = [] → b.document.root = none)
    (hnodup : (tag.attributes.map (·.name)).Nodup)
    (hinside : (b.enter tag).Makes ts cs b') :
    ∃ b'', b.Makes (.startTag tag :: (ts ++ [.endTag tag.name]))
      [.element tag.name tag.ns tag.attributes cs] b'' := by
  obtain ⟨value, happended, hopened, hroot', hcontent⟩ := h.appended_enter tag hroot hnodup
  have hopened' : b'.opened = (b.document.nodes.size, tag.name) :: b.opened :=
    hinside.opened.trans hopened
  have hgained := hinside.gained
  have hkeeps : cs.filter (b.enter tag).keeps = cs := by
    rw [List.filter_eq_self]
    intro c _
    simp [keeps, hopened]
  have hparent : (b.enter tag).parent = b.document.nodes.size := by simp [parent, hopened]
  rw [hparent, hkeeps] at hgained
  refine ⟨{ b' with opened := b.opened }, ⟨hinside.sound.steps, fun e he => ?_⟩, rfl, ?_, ?_,
    fun failure rest => ?_⟩
  · exact hinside.sound.opened e (by simp [hopened', he])
  · show b'.document.root.isSome = _
    rw [hinside.root, hroot', hopened]
    simp [Content.isElement]
  · have hkept : b.keeps (.element tag.name tag.ns tag.attributes cs) = true := by
      simp [keeps, Content.isCharacters]
    rw [List.filter_cons_of_pos hkept]
    refine happended.filled h.wellFormed h.parent_lt hgained fun inside hbare => ?_
    rw [hcontent _ hgained.pool, hbare]
    rfl
  · have hstart := read_enter tag hroot
    have hstop : b'.read false (.endTag tag.name) = .ok { b' with opened := b.opened } := by
      simp [Builder.read, hopened']
    have hnot : Token.startTag tag ≠ .endDocument := by simp
    have hnot' : Token.endTag tag.name ≠ .endDocument := by simp
    rw [List.map_cons, List.cons_append, run_of_read hnot hstart, List.map_append,
      List.append_assoc, hinside.run]
    exact run_of_read hnot' hstop

end Sound

/-- A builder makes of tokens what they spell, if that has no second element at document level. -/
theorem makes_of_spells (h : Spells ts cs) (hb : b.Sound)
    (hroots : b.opened = [] →
      b.document.root.isSome.toNat + (cs.filter Content.isElement).length ≤ 1) :
    ∃ b', b.Makes ts cs b' := by
  induction h generalizing b with
  | nil => exact ⟨b, .refl hb⟩
  | @single token c ts cs htoken _ ih =>
      obtain ⟨b1, h1⟩ := hb.makes_single htoken
      obtain ⟨b2, h2⟩ := ih h1.sound (by
        rw [h1.opened, h1.root]
        intro hopened
        have := hroots hopened
        have hnot : c.isElement = false := by cases token <;> cases htoken <;> rfl
        simpa [hopened, hnot] using this)
      exact ⟨b2, h1.trans h2 hb⟩
  | @element tag inner ts children cs hnodup _ _ ihin ih =>
      have hone : b.opened = [] →
          b.document.root = none ∧ (cs.filter Content.isElement).length = 0 := by
        intro hopened
        have := hroots hopened
        rw [List.filter_cons_of_pos rfl, List.length_cons] at this
        cases hroot : b.document.root with
        | none => exact ⟨rfl, by omega⟩
        | some root =>
            rw [hroot, Option.isSome_some, Bool.toNat_true] at this
            omega
      obtain ⟨_, _, hopened, -⟩ := hb.appended_enter tag (fun h => (hone h).1) hnodup
      obtain ⟨b1, h1⟩ := ihin (hb.enter tag fun h => (hone h).1) (by simp [hopened])
      obtain ⟨b2, h2⟩ := hb.makes_element tag (fun h => (hone h).1) hnodup h1
      obtain ⟨b3, h3⟩ := ih h2.sound (by
        rw [h2.opened, h2.root]
        intro hopened
        simp [hone hopened, hopened, Content.isElement])
      refine ⟨b3, ?_⟩
      simpa using h2.trans h3 hb

end Builder

/-- A stream of a document start, of tokens that spell one element at document level, and of the
document end gives a document of what is spelled there, character data apart. -/
theorem Document.ofOpenedStream_of_spells {ts : List Token} {cs : List Content} (h : Spells ts cs)
    (hone : (cs.filter Content.isElement).length = 1) :
    ∃ d, ofOpenedStream false
        { items := (.plainStart :: (ts ++ [Token.endDocument])).map .ok } = .ok d ∧
      Content.bareAll true d.body = Content.bareAll true (cs.filter (!·.isCharacters)) := by
  obtain ⟨b, hb⟩ := Builder.makes_of_spells h .initial fun _ => Nat.le_of_eq <| by
    show (none : Option NodeId).isSome.toNat + _ = 1
    rw [hone]
    rfl
  refine ⟨b.document, ?_, ?_⟩
  · show Builder.initial.run false none ((ts ++ [Token.endDocument]).map .ok) = _
    have hroot : b.document.root.isSome = true := by
      have hany : cs.any Content.isElement = true := by
        obtain ⟨c, hc⟩ := List.length_eq_one_iff.mp hone
        obtain ⟨hmem, helement⟩ := List.mem_filter.mp (hc ▸ List.mem_singleton_self c)
        exact List.any_eq_true.mpr ⟨c, hmem, helement⟩
      rw [hb.root, hany]
      rfl
    rw [List.map_append, hb.run]
    show b.finish.mapError BuildError.shape = _
    have hopened : b.opened = [] := hb.opened
    simp [Builder.finish, hopened, hroot, Except.mapError]
  · obtain ⟨ids, hids, -, hcontent⟩ := hb.gained.added
    have hchildren : b.document.children documentNode = ids := hids
    have hkeeps : Builder.initial.keeps = fun c => !c.isCharacters := by
      funext c
      rfl
    rw [hkeeps] at hcontent
    rw [body, hchildren]
    exact hcontent

end PersistenceMapping
