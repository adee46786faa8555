/-
What stands at document level.

In a well-formed document there is no document and no character data at document level, and there
is one element if the document has a root.  What stands anywhere below can be told from its kind,
since only elements have children there.
-/
import PersistenceMapping.Proofs.Tree.Built
import PersistenceMapping.Proofs.Tree.Contents
import PersistenceMapping.Proofs.Tree.Copy

namespace PersistenceMapping

namespace Document

variable {d : Document} {id p : NodeId} {c : Content}

namespace WellFormed

/-! ### Below a node -/

/-- No child is a document. -/
theorem kind?_child (h : WellFormed d) (hid : id ∈ d.children p) :
    d.kind? id ≠ some .document := by
  obtain ⟨pk, ck, -, hck, hkinds⟩ := h.kinds p id ((h.linked.parent p id).mpr hid)
  intro hdocument
  obtain rfl : ck = .document := Option.some.inj (hck.symm.trans hdocument)
  cases pk <;> cases hkinds

theorem proper_contentOf (h : WellFormed d) {value : NodeValue} (hvalue : d.value? id = some value)
    (hkind : value.kind ≠ .document) {children : List Content}
    (hchildren : ∀ c ∈ children, c.Everywhere Content.IsProper) :
    (d.contentOf children value).Everywhere Content.IsProper := by
  cases value with
  | document => exact absurd rfl hkind
  | element name ns attributes => exact .intro (h.nodup_attributes hvalue) hchildren
  | text content => exact .intro trivial nofun
  | cdata content => exact .intro trivial nofun
  | comment content => exact .intro trivial nofun
  | instruction target data => exact .intro trivial nofun

/-- What is said below the document itself is proper. -/
theorem proper_contentWithin (h : WellFormed d) {n : Nat} (hkind : d.kind? id ≠ some .document)
    (hc : d.contentWithin n id = some c) : c.Everywhere Content.IsProper := by
  induction n generalizing id c with
  | zero =>
      rw [contentWithin] at hc
      obtain ⟨value, hvalue, rfl⟩ := Option.map_eq_some_iff.mp hc
      refine h.proper_contentOf hvalue (fun hdocument => hkind ?_) (by simp)
      rw [kind?, hvalue, Option.map_some, hdocument]
  | succ n ih =>
      rw [contentWithin] at hc
      obtain ⟨value, hvalue, rfl⟩ := Option.map_eq_some_iff.mp hc
      refine h.proper_contentOf hvalue (fun hdocument => hkind ?_) fun c hc => ?_
      · rw [kind?, hvalue, Option.map_some, hdocument]
      · obtain ⟨x, hx, hc⟩ := List.mem_filterMap.mp hc
        exact ih (h.kind?_child hx) hc

/-! ### At document level -/

theorem proper_body (h : WellFormed d) : ∀ c ∈ d.body, c.Everywhere Content.IsProper := by
  intro c hc
  obtain ⟨id, hid, hc⟩ := List.mem_filterMap.mp hc
  exact h.proper_contentWithin (h.kind?_child hid) hc

/-- A node says what it is. -/
theorem exists_content? (h : WellFormed d) {kind : NodeKind} (hkind : d.kind? id = some kind) :
    ∃ c, d.content? id = some c ∧ c.isElement = d.isElement id ∧
      c.isCharacters = d.isText id := by
  obtain ⟨value, hvalue, hkind'⟩ := Option.map_eq_some_iff.mp hkind
  rw [h.content?_eq (lt_size_of_value? hvalue), hvalue, isElement, isText, hkind, ← hkind']
  refine ⟨_, rfl, ?_⟩
  cases value <;> exact ⟨rfl, rfl⟩

/-- Character data does not stand at document level. -/
theorem isCharacters_body (h : WellFormed d) : ∀ c ∈ d.body, c.isCharacters = false := by
  intro c hc
  obtain ⟨id, hid, hc⟩ := List.mem_filterMap.mp hc
  obtain ⟨pk, ck, hpk, hck, hkinds⟩ :=
    h.kinds documentNode id ((h.linked.parent documentNode id).mpr hid)
  obtain rfl : pk = .document := Option.some.inj (hpk.symm.trans h.top)
  obtain ⟨c', hc', -, hcharacters⟩ := h.exists_content? hck
  obtain rfl : c' = c := Option.some.inj (hc'.symm.trans hc)
  rw [hcharacters, isText, hck]
  cases ck <;> first | rfl | cases hkinds

theorem length_elements (h : WellFormed d) {ids : List NodeId}
    (hids : ∀ id ∈ ids, ∃ kind, d.kind? id = some kind) :
    ((ids.filterMap d.content?).filter Content.isElement).length =
      (ids.filter d.isElement).length := by
  induction ids with
  | nil => rfl
  | cons id ids ih =>
      obtain ⟨kind, hkind⟩ := hids id (by simp)
      obtain ⟨c, hc, helement, -⟩ := h.exists_content? hkind
      have hrest := ih fun id hid => hids id (by simp [hid])
      rw [List.filterMap_cons_some hc, List.filter_cons, List.filter_cons, helement]
      split
      · rw [List.length_cons, List.length_cons, hrest]
      · exact hrest

/-- The root is the one element at document level. -/
theorem elements_top (h : WellFormed d) {root : NodeId} (hroot : d.root = some root) :
    (d.children documentNode).filter d.isElement = [root] := by
  refine List.perm_singleton.mp ((List.perm_ext_iff_of_nodup ?_ (List.nodup_singleton _)).mpr
    fun id => ?_)
  · exact (h.linked.nodup documentNode).filter _
  · rw [List.mem_filter, List.mem_singleton, ← h.linked.parent documentNode id, isElement,
      beq_iff_eq, ← h.root id, hroot, Option.some.injEq, eq_comm]

/-- A document with a root has one element at document level. -/
theorem one_element_body (h : WellFormed d) (hroot : d.root.isSome) :
    (d.body.filter Content.isElement).length = 1 := by
  obtain ⟨root, hroot⟩ := Option.isSome_iff_exists.mp hroot
  have hkinds : ∀ id ∈ d.children documentNode, ∃ kind, d.kind? id = some kind := by
    intro id hid
    obtain ⟨pk, ck, -, hck, -⟩ :=
      h.kinds documentNode id ((h.linked.parent documentNode id).mpr hid)
    exact ⟨ck, hck⟩
  rw [body, h.length_elements hkinds, h.elements_top hroot, List.length_singleton]

end WellFormed

end Document

end PersistenceMapping
