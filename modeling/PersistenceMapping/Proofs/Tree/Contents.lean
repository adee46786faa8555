/-
The content of a node, whatever the number of nodes.

`Document.content?` goes down as many levels as there are nodes.  In a well-formed document that
is far enough: a node is one step further from the top than its parent, so there is nothing
left below that depth (`contentWithin_succ`), and the content of a node is made of those of its
children (`WellFormed.content?_eq`).  It therefore depends on nothing but what is below the node
(`content?_eq_of_agree`).
-/
import PersistenceMapping.Proofs.Tree.Making

namespace PersistenceMapping

namespace Document

variable {d d' : Document} {id : NodeId} {n : Nat}

/-- What a readable value says stays the same while the pool grows. -/
theorem contentOf_congr {value : NodeValue} (hvalue : value.Readable d.pool)
    (hpool : d.pool.Extends d'.pool) (children : List Content) :
    d'.contentOf children value = d.contentOf children value := by
  have hstring : ∀ i ∈ value.strings, d'.pool.getD i = d.pool.getD i :=
    fun i hi => hpool.getD_eq (hvalue.strings i hi)
  cases value with
  | document => rfl
  | element name ns attributes =>
      obtain ⟨hname, hns, hattributes⟩ := lt_size_of_readable hvalue
      have hread : ∀ a ∈ attributes, d'.readAttribute a = d.readAttribute a := by
        intro a ha
        obtain ⟨hn, hv⟩ := hattributes a ha
        rw [readAttribute, readAttribute, hpool.getD_eq hn, hpool.getD_eq hv]
      obtain ⟨s, hs⟩ := Pool.get?_isSome_iff.mpr hns
      rw [contentOf, contentOf, hpool.getD_eq hname, hs, hpool ns s hs, List.map_congr_left hread]
  | text content => rw [contentOf, contentOf, hstring content (by simp [NodeValue.strings])]
  | cdata content => rw [contentOf, contentOf, hstring content (by simp [NodeValue.strings])]
  | comment content => rw [contentOf, contentOf, hstring content (by simp [NodeValue.strings])]
  | instruction target data =>
      rw [contentOf, contentOf, hstring target (by simp [NodeValue.strings]),
        hstring data (by simp [NodeValue.strings])]

/-- Below the depth that is left there is nothing. -/
theorem contentWithin_succ (h : WellFormed d) (hid : id < d.nodes.size)
    (hn : d.nodes.size ≤ n + (d.ancestorsOrSelf id).length) :
    d.contentWithin (n + 1) id = d.contentWithin n id := by
  induction n generalizing id with
  | zero =>
      have hchildren : d.children id = [] := by
        rw [List.eq_nil_iff_forall_not_mem]
        intro c hc
        have hlen := h.linked.length_ancestors_le (h.linked.child_lt hc)
        rw [h.linked.ancestors_child hc, List.length_cons] at hlen
        omega
      rw [contentWithin, contentWithin, hchildren]
      rfl
  | succ n ih =>
      have hchildren : ∀ c ∈ d.children id, d.contentWithin (n + 1) c = d.contentWithin n c := by
        intro c hc
        refine ih (h.linked.child_lt hc) ?_
        rw [h.linked.ancestors_child hc, List.length_cons]
        omega
      rw [contentWithin, contentWithin]
      simp only [List.filterMap_congr hchildren]

/-- The content of a node is made of those of its children. -/
theorem WellFormed.content?_eq (h : WellFormed d) (hid : id < d.nodes.size) :
    d.content? id = (d.value? id).map (d.contentOf ((d.children id).filterMap d.content?)) := by
  have hfar := contentWithin_succ h hid (n := d.nodes.size) (by omega)
  rw [content?, ← hfar, contentWithin]
  rfl

/-- With more levels than there are nodes nothing more is met. -/
theorem WellFormed.contentWithin_eq (h : WellFormed d) (hid : id < d.nodes.size)
    (hn : d.nodes.size ≤ n) : d.contentWithin n id = d.content? id := by
  induction n, hn using Nat.le_induction with
  | base => rfl
  | succ n hn ih => rw [contentWithin_succ h hid (by omega), ih]

/-- The content of a node depends on what is at and below it, and on nothing else. -/
theorem content?_eq_of_agree (region : NodeId → Prop) (h : WellFormed d) (h' : WellFormed d')
    (hsize : d.nodes.size ≤ d'.nodes.size) (hpool : d.pool.Extends d'.pool)
    (hlt : ∀ x, region x → x < d.nodes.size) (hvalue : ∀ x, region x → d'.value? x = d.value? x)
    (hchildren : ∀ x, region x → d'.children x = d.children x ∧ ∀ c ∈ d.children x, region c)
    (hid : region id) : d'.content? id = d.content? id := by
  have hwithin : ∀ n id, region id → d'.contentWithin n id = d.contentWithin n id := by
    intro n
    induction n with
    | zero =>
        intro id hid
        rw [contentWithin, contentWithin, hvalue id hid]
        cases hv : d.value? id with
        | none => rfl
        | some value => exact congrArg some (contentOf_congr (h.readable id value hv) hpool [])
    | succ n ih =>
        intro id hid
        obtain ⟨hsame, hinside⟩ := hchildren id hid
        rw [contentWithin, contentWithin, hvalue id hid, hsame]
        simp only [List.filterMap_congr fun c hc => ih c (hinside c hc)]
        cases hv : d.value? id with
        | none => rfl
        | some value => exact congrArg some (contentOf_congr (h.readable id value hv) hpool _)
  have hlt' := hlt id hid
  rw [← h.contentWithin_eq hlt' hsize, ← hwithin _ id hid,
    h'.contentWithin_eq (Nat.lt_of_lt_of_le hlt' hsize) (Nat.le_refl _)]

end Document

end PersistenceMapping
