/-
The descendants of a node, in document order.

The loop behind `descendants` goes over the children of a node backwards, from the last to the
first, and keeps them on a stack.  `Descent` shows that it takes the nodes in preorder.  Preorder is
functional (`Preorder.unique`), so what is taken below a node is what the children of the node give
one after the other, each before what is taken below it, and no other function from nodes to lists
has this property (`Linked.descendants_unique`): the recursion comes to an end because going from
parent to child does.

The character data below a node is read off the same list.  It is what the tokens of the subtree say
as text, which is said without any traversal of the document.
-/
import PersistenceMapping.Proofs.Tree.Body
import PersistenceMapping.Proofs.Tree.Moved

namespace PersistenceMapping

namespace Document

variable {d : Document} {kids : NodeId → List NodeId} {id p c x : NodeId}

/-! ### The recursive order -/

/-- A list of nodes has one preorder. -/
theorem Preorder.unique {ids nodes nodes' : List NodeId} (h : Preorder kids ids nodes)
    (h' : Preorder kids ids nodes') : nodes = nodes' := by
  induction h generalizing nodes' with
  | nil =>
      cases h'
      rfl
  | cons _ _ ih ih' =>
      cases h' with
      | cons hin hout => rw [ih hin, ih' hout]

namespace Linked

/-- What is taken for a list of nodes is taken for one node after the other. -/
theorem flatMap_of_preorder (h : Linked d kids) {ids nodes : List NodeId}
    (hpre : Preorder kids ids nodes) : nodes = ids.flatMap fun c => c :: d.descendants c := by
  induction hpre with
  | nil => rfl
  | @cons id rest inner outer hin _ _ ih =>
      have hinner : inner = d.descendants id := hin.unique (h.preorder_descendants id).1
      rw [List.flatMap_cons, ← ih, hinner, List.cons_append]

theorem descendants_eq (h : Linked d kids) (id : NodeId) :
    d.descendants id = (kids id).flatMap fun c => c :: d.descendants c :=
  h.flatMap_of_preorder (h.preorder_descendants id).1

/-- Nothing else puts each child before what it puts below that child. -/
theorem descendants_unique (h : Linked d kids) {below : NodeId → List NodeId}
    (hbelow : ∀ x, below x = (kids x).flatMap fun c => c :: below c) (id : NodeId) :
    below id = d.descendants id := by
  induction id using h.wellFounded_children.induction with
  | _ id ih =>
      rw [hbelow, h.descendants_eq id]
      exact List.flatMap_congr fun c hc => by rw [ih c hc]

/-- No node stands above its parent. -/
theorem not_above_of_child (h : Linked d kids) (hc : c ∈ kids p) : ¬ d.Above c p := by
  rw [h.above_iff (h.parent_lt hc)]
  intro habove
  have hnodup := (h.chain_parent (h.child_lt hc)).nodup
  rw [h.ancestors_child hc] at hnodup
  exact (List.nodup_cons.mp hnodup).1 habove

/-- The descendants of a node are all other nodes that it stands above. -/
theorem mem_descendants_iff (h : Linked d kids) :
    x ∈ d.descendants id ↔ x ≠ id ∧ d.Above id x := by
  have hmem := (h.preorder_descendants id).1.mem_iff (x := x) h fun c hc => h.child_lt hc
  rw [hmem]
  constructor
  · rintro ⟨hx, c, hc, habove⟩
    rw [← h.above_iff hx] at habove
    refine ⟨?_, habove.tail ((h.parent id c).mpr hc)⟩
    rintro rfl
    exact h.not_above_of_child hc habove
  · rintro ⟨hne, habove⟩
    obtain hsame | ⟨c, hc, hparent⟩ := habove.cases_tail
    · exact absurd hsame.symm hne
    · obtain hsame | ⟨y, hy, -⟩ := habove.cases_head
      · exact absurd hsame hne
      · have hx : x < d.nodes.size := lt_size_of_link hy
        exact ⟨hx, c, (h.parent id c).mp hparent, (h.above_iff hx).mp hc⟩

end Linked

/-! ### Character data -/

/-- The character data that a node itself is. -/
def characters (d : Document) (id : NodeId) : String :=
  match d.value? id with
  | some (.text content) => d.pool.getD content
  | some (.cdata content) => d.pool.getD content
  | _ => ""

theorem join_flatMap {α : Type} (f : α → List String) (l : List α) :
    String.join (l.flatMap f) = String.join (l.map fun a => String.join (f a)) := by
  induction l with
  | nil => rfl
  | cons a l ih => rw [List.flatMap_cons, String.join_append, List.map_cons, String.join_cons, ih]

namespace WellFormed

/-- Of text and CDATA sections there is something to read. -/
theorem text?_eq_characters (h : WellFormed d) (hx : d.isText x = true) :
    d.text? x = some (d.characters x) := by
  have hread : ∀ value i, d.value? x = some value → i ∈ value.strings →
      d.pool.get? i = some (d.pool.getD i) := by
    intro value i hvalue hi
    obtain ⟨s, hs⟩ := Pool.get?_isSome_iff.mpr ((h.readable x value hvalue).strings i hi)
    rw [hs, Pool.getD_eq hs]
  rw [text?, characters]
  rw [isText, kind?] at hx
  rcases hvalue : d.value? x with _ | value
  · rw [hvalue] at hx
    cases hx
  · rw [hvalue] at hx
    cases value with
    | text content => exact hread _ _ hvalue (by simp [NodeValue.strings])
    | cdata content => exact hread _ _ hvalue (by simp [NodeValue.strings])
    | document | element | comment | instruction => cases hx

theorem characters_of_not_isText (hx : d.isText x = false) : d.characters x = "" := by
  rw [characters]
  rw [isText, kind?] at hx
  rcases hvalue : d.value? x with _ | value
  · rfl
  · rw [hvalue] at hx
    cases value with
    | text content | cdata content => cases hx
    | document | element | comment | instruction => rfl

/-- The character data below a node is that of its descendants, in their order. -/
theorem deepText_eq_join (h : WellFormed d) (id : NodeId) :
    d.deepText id = String.join ((d.descendants id).map d.characters) := by
  rw [deepText]
  generalize d.descendants id = nodes
  induction nodes with
  | nil => rfl
  | cons x nodes ih =>
      rw [List.map_cons, String.join_cons, ← ih]
      by_cases hx : d.isText x = true
      · rw [List.filter_cons_of_pos hx, List.filterMap_cons_some (h.text?_eq_characters hx),
          String.join_cons]
      · rw [List.filter_cons_of_neg hx,
          characters_of_not_isText (Bool.eq_false_iff.mpr hx), String.empty_append]

/-- Each child brings its own character data and then what is below it. -/
theorem deepText_eq (h : WellFormed d) (id : NodeId) :
    d.deepText id = String.join ((d.children id).map fun c => d.characters c ++ d.deepText c) := by
  rw [h.deepText_eq_join, h.linked.descendants_eq, List.map_flatMap, join_flatMap]
  refine congrArg String.join (List.map_congr_left fun c _ => ?_)
  rw [List.map_cons, String.join_cons, h.deepText_eq_join]

/-- Only documents and elements have children. -/
theorem children_eq_nil_of_value? (h : WellFormed d) {value : NodeValue}
    (hvalue : d.value? id = some value) (hkind : value.kind ≠ .document ∧ value.kind ≠ .element) :
    d.children id = [] := by
  rw [List.eq_nil_iff_forall_not_mem]
  intro c hc
  obtain ⟨pk, ck, hpk, -, hkinds⟩ := h.kinds id c ((h.linked.parent id c).mpr hc)
  obtain rfl : value.kind = pk := by
    rw [kind?, hvalue] at hpk
    exact Option.some.inj hpk
  obtain ⟨-, helement | ⟨hdocument, -⟩⟩ := checkKinds_eq_ok.mp hkinds
  · exact hkind.2 helement
  · exact hkind.1 hdocument

/-- What a node says is made of its value and of what its children say. -/
theorem exists_of_content? (h : WellFormed d) {k : Content} (hk : d.content? id = some k) :
    ∃ value, d.value? id = some value ∧
      d.contentOf ((d.children id).filterMap d.content?) value = k := by
  rcases Nat.lt_or_ge id d.nodes.size with hid | hid
  · rw [h.content?_eq hid] at hk
    exact Option.map_eq_some_iff.mp hk
  · have hnone : d.value? id = none := by
      rw [value?, node?, Array.getElem?_eq_none hid]
      rfl
    unfold content? contentWithin at hk
    rw [hnone] at hk
    cases hk

/-- The tokens of a node say its own character data and then what those below it say. -/
theorem join_tokens (h : WellFormed d) {k : Content} (hk : d.content? id = some k)
    (hdocument : d.kind? id ≠ some .document) :
    String.join (k.tokens.filterMap Token.characters?) =
      d.characters id ++ String.join ((Content.tokensAll k.parts).filterMap Token.characters?) := by
  obtain ⟨value, hvalue, rfl⟩ := h.exists_of_content? hk
  rw [characters, hvalue]
  cases value with
  | document => exact absurd (by rw [kind?, hvalue]; rfl) hdocument
  | element name ns attributes =>
      rw [contentOf, Content.tokens, List.filterMap_cons_none rfl, List.filterMap_append,
        String.join_append]
      exact (String.append_empty).trans (String.empty_append).symm
  | text content => exact String.join_cons
  | cdata content => exact String.join_cons
  | comment content => rfl
  | instruction target data => rfl

/-- The character data below a node is what the tokens of what is below it say. -/
theorem deepText_of_content? (h : WellFormed d) {k : Content} (hk : d.content? id = some k) :
    d.deepText id = String.join ((Content.tokensAll k.parts).filterMap Token.characters?) := by
  induction id using h.linked.wellFounded_children.induction generalizing k with
  | _ id ih =>
      -- What the children say, one after the other.
      have hchildren : ∀ ids : List NodeId, (∀ c ∈ ids, c ∈ d.children id) →
          String.join (ids.map fun c => d.characters c ++ d.deepText c) =
            String.join ((Content.tokensAll (ids.filterMap d.content?)).filterMap
              Token.characters?) := by
        intro ids hids
        induction ids with
        | nil => rfl
        | cons c ids ihids =>
            have hc := hids c (by simp)
            obtain ⟨kind, hkind⟩ := kind?_eq_some (h.linked.child_lt hc)
            obtain ⟨k, hk, -⟩ := h.exists_content? hkind
            rw [List.map_cons, String.join_cons, ihids fun c hc => hids c (by simp [hc]),
              List.filterMap_cons_some hk, Content.tokensAll, List.filterMap_append,
              String.join_append, h.join_tokens hk (h.kind?_child hc), ih c hc hk]
      obtain ⟨value, hvalue, rfl⟩ := h.exists_of_content? hk
      rw [h.deepText_eq]
      cases value with
      | document | element => exact hchildren _ fun c hc => hc
      | text | cdata | comment | instruction =>
          rw [h.children_eq_nil_of_value? hvalue (by simp [NodeValue.kind])]
          rfl

end WellFormed

/-! ### Going over a document -/

/-- **The descendants of a node are met in document order, each of them once**: the loop over the
stack comes to its end with the one list in which every child stands before what is below it.  The
character data below the node is read off that list, and is what the tokens below the node say. -/
theorem descendants_preorder (h : Reachable d) (id : NodeId) :
    d.descendants id = (d.children id).flatMap (fun c => c :: d.descendants c) ∧
      (∀ below : NodeId → List NodeId,
        (∀ x, below x = (d.children x).flatMap fun c => c :: below c) →
          below id = d.descendants id) ∧
      (d.descendants id).Nodup ∧
      (∀ x, x ∈ d.descendants id ↔ x ≠ id ∧ d.Above id x) ∧
      Traversal d (d.pushChildren id []) (d.descendants id) ∧
      (∀ x stack, Chain d.previous? (d.lastChild? x) (d.children x).reverse ∧
        d.pushChildren x stack = d.children x ++ stack) ∧
      d.deepText id = String.join ((d.descendants id).map d.characters) ∧
      ∀ k, d.content? id = some k →
        d.deepText id = String.join ((Content.tokensAll k.parts).filterMap Token.characters?) := by
  have hwf := h.wellFormed
  have hlinked := hwf.linked
  obtain ⟨hpre, hnodup⟩ := hlinked.preorder_descendants id
  refine ⟨hlinked.descendants_eq id, fun below hbelow => hlinked.descendants_unique hbelow id,
    hnodup, fun x => hlinked.mem_descendants_iff, ?_, fun x stack => ⟨?_, ?_⟩,
    hwf.deepText_eq_join id, fun k => hwf.deepText_of_content?⟩
  · rw [hlinked.pushChildren_eq, List.append_nil]
    exact hpre.traversal hlinked
  · rw [hlinked.last]
    exact hlinked.chain_previous x
  · exact hlinked.pushChildren_eq x stack

/-- An element with an element and a text below it, and with a text in the inner element, all of
them made in another order. -/
theorem descendants_preorder_nested :
    let d := [.createElement "a", .createText "b", .createElement "c", .createText "d",
      .append 1 3, .append 3 4, .append 1 2, Request.append 0 1].foldl (fun d r => r.perform d)
      (.empty)
    d.descendants 0 = [1, 3, 4, 2] ∧ d.deepText 0 = "db" ∧ (d.descendants 0).Nodup ∧
      (∀ x, x ∈ d.descendants 0 ↔ x ≠ 0 ∧ d.Above 0 x) ∧
      d.descendants 0 = (d.children 0).flatMap (fun c => c :: d.descendants c) := by
  intro d
  have hd : Reachable d := (Reachable.empty _).requests _
  have hdescendants : d.descendants 0 = [1, 3, 4, 2] := by decide
  have htext : d.deepText 0 = "db" := by decide
  clear_value d
  obtain ⟨heq, -, hnodup, hmem, -⟩ := descendants_preorder hd 0
  exact ⟨hdescendants, htext, hnodup, hmem, heq⟩

end Document

end PersistenceMapping
