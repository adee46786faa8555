/-
Making nodes.

Interning leaves the nodes alone and keeps what numbers mean (`Interned`).  A node is made by
interning what it says and then adding it, detached, under the next number (`Made`); what it
says is read off its value again, whatever else is interned later.
-/
import PersistenceMapping.Proofs.Tree.Step

namespace PersistenceMapping

namespace Document

variable {d d' d'' : Document} {id x : NodeId}

/-! ### Interning -/

/-- Only strings have been interned. -/
structure Interned (d d' : Document) : Prop where
  steps : Steps d d'
  nodes : d'.nodes = d.nodes
  root : d'.root = d.root
  pool : d.pool.Extends d'.pool

namespace Interned

theorem refl (d : Document) : Interned d d :=
  ⟨.refl, rfl, rfl, .refl d.pool⟩

theorem trans (h : Interned d d') (h' : Interned d' d'') : Interned d d'' where
  steps := h.steps.trans h'.steps
  nodes := h'.nodes.trans h.nodes
  root := h'.root.trans h.root
  pool := h.pool.trans h'.pool

theorem intern (d : Document) (s : String) : Interned d (d.intern s).2 :=
  ⟨.single (.intern s), rfl, rfl, Pool.extends_intern d.pool s⟩

end Interned

theorem get?_intern (h : WellFormed d) (s : String) :
    (d.intern s).2.pool.get? (d.intern s).1 = some s :=
  Pool.get?_intern h.pool s

/-- A stored attribute stands for another in a pool. -/
def Stored (pool : Pool) (stored : StoredAttribute) (a : Attribute) : Prop :=
  pool.get? stored.name = some a.name ∧ pool.get? stored.value = some a.value

theorem Stored.mono {pool pool' : Pool} {stored : StoredAttribute} {a : Attribute}
    (h : Stored pool stored a) (hext : pool.Extends pool') : Stored pool' stored a :=
  ⟨hext _ _ h.1, hext _ _ h.2⟩

theorem Stored.readAttribute_eq {stored : StoredAttribute} {a : Attribute}
    (h : Stored d.pool stored a) : d.readAttribute stored = a := by
  rw [readAttribute, Pool.getD_eq h.1, Pool.getD_eq h.2]

/-- Stored attributes read as what they stand for, while the pool grows. -/
theorem map_readAttribute {pool : Pool} {stored : List StoredAttribute}
    {attributes : List Attribute} (h : List.Forall₂ (Stored pool) stored attributes)
    (hpool : pool.Extends d.pool) : stored.map d.readAttribute = attributes := by
  induction h with
  | nil => rfl
  | cons h _ ih => rw [List.map_cons, ih, (h.mono hpool).readAttribute_eq]

theorem interned_internAttributes (h : WellFormed d) (attributes : List Attribute) :
    Interned d (d.internAttributes attributes).2 ∧
      List.Forall₂ (Stored (d.internAttributes attributes).2.pool)
        (d.internAttributes attributes).1 attributes := by
  induction attributes generalizing d with
  | nil => exact ⟨.refl d, .nil⟩
  | cons a rest ih =>
      have hname := Interned.intern d a.name
      have hvalue := Interned.intern (d.intern a.name).2 a.value
      have h1 := h.of_steps hname.steps
      obtain ⟨hrest, hstored⟩ := ih (h1.of_steps hvalue.steps)
      refine ⟨(hname.trans hvalue).trans hrest, .cons ⟨?_, ?_⟩ hstored⟩
      · exact (hvalue.pool.trans hrest.pool) _ _ (get?_intern h a.name)
      · exact hrest.pool _ _ (get?_intern h1 a.value)

/-! ### Attributes of distinct names -/

theorem names_putStored (name value : StringId) (l : List StoredAttribute) :
    (putStored name value l).map (·.name)
      = if name ∈ l.map (·.name) then l.map (·.name) else l.map (·.name) ++ [name] := by
  induction l with
  | nil => simp [putStored]
  | cons a l ih =>
      rw [putStored]
      by_cases ha : a.name = name
      · simp [ha]
      · rw [if_neg ha, List.map_cons, ih]
        simp only [List.map_cons, List.mem_cons, Ne.symm ha, false_or]
        split <;> rfl

theorem nodup_putStored {name value : StringId} {l : List StoredAttribute}
    (h : (l.map (·.name)).Nodup) : ((putStored name value l).map (·.name)).Nodup := by
  rw [names_putStored]
  split
  · exact h
  · rename_i hname
    refine List.nodup_append.mpr ⟨h, List.nodup_singleton name, ?_⟩
    intro a ha b hb hab
    rw [List.mem_singleton.mp hb] at hab
    exact hname (hab ▸ ha)

theorem mem_putStored {name value : StringId} {l : List StoredAttribute} {a : StoredAttribute}
    (h : a ∈ putStored name value l) : a = ⟨name, value⟩ ∨ a ∈ l := by
  induction l with
  | nil => simpa [putStored] using h
  | cons b l ih =>
      rw [putStored] at h
      split at h
      · rcases List.mem_cons.mp h with rfl | h
        · exact Or.inl rfl
        · exact Or.inr (List.mem_cons_of_mem _ h)
      · rcases List.mem_cons.mp h with rfl | h
        · exact Or.inr List.mem_cons_self
        · rcases ih h with h | h
          · exact Or.inl h
          · exact Or.inr (List.mem_cons_of_mem _ h)

/-- What is collapsed has names of its own and nothing that was not there. -/
theorem collapse_spec (l : List StoredAttribute) :
    ((collapse l).map (·.name)).Nodup ∧ ∀ a ∈ collapse l, a ∈ l := by
  have hfold : ∀ (l kept : List StoredAttribute), (kept.map (·.name)).Nodup →
      ((l.foldl (fun kept a => putStored a.name a.value kept) kept).map (·.name)).Nodup ∧
        ∀ a ∈ l.foldl (fun kept a => putStored a.name a.value kept) kept, a ∈ kept ∨ a ∈ l := by
    intro l
    induction l with
    | nil => intro kept hkept; exact ⟨hkept, fun a ha => Or.inl ha⟩
    | cons b l ih =>
        intro kept hkept
        obtain ⟨hnodup, hmem⟩ := ih (putStored b.name b.value kept) (nodup_putStored hkept)
        refine ⟨hnodup, fun a ha => ?_⟩
        rcases hmem a ha with ha | ha
        · rcases mem_putStored ha with rfl | ha
          · exact Or.inr List.mem_cons_self
          · exact Or.inl ha
        · exact Or.inr (List.mem_cons_of_mem _ ha)
  obtain ⟨hnodup, hmem⟩ := hfold l [] List.nodup_nil
  exact ⟨hnodup, fun a ha => (hmem a ha).resolve_left (by simp)⟩

theorem putStored_of_not_mem {name v : StringId} {l : List StoredAttribute}
    (h : name ∉ l.map (·.name)) : putStored name v l = l ++ [⟨name, v⟩] := by
  induction l with
  | nil => rfl
  | cons a l ih =>
      simp only [List.map_cons, List.mem_cons, not_or] at h
      rw [putStored, if_neg (Ne.symm h.1), ih h.2, List.cons_append]

/-- Where no name is repeated there is nothing to collapse. -/
theorem collapse_eq_self {l : List StoredAttribute} (h : (l.map (·.name)).Nodup) :
    collapse l = l := by
  have hfold : ∀ l kept : List StoredAttribute, ((kept ++ l).map (·.name)).Nodup →
      l.foldl (fun kept a => putStored a.name a.value kept) kept = kept ++ l := by
    intro l
    induction l with
    | nil => simp
    | cons a l ih =>
        intro kept hkept
        have hnot : a.name ∉ kept.map (·.name) := by
          intro hmem
          rw [List.map_append, List.nodup_append] at hkept
          exact hkept.2.2 _ hmem _ (by simp) rfl
        rw [List.foldl_cons, putStored_of_not_mem hnot, ih _ (by simpa using hkept)]
        simp
  exact hfold l [] h

/-- Attributes of distinct names are stored under distinct numbers. -/
theorem nodup_of_stored {pool : Pool} {stored : List StoredAttribute} {attributes : List Attribute}
    (h : List.Forall₂ (Stored pool) stored attributes)
    (hnodup : (attributes.map (·.name)).Nodup) : (stored.map (·.name)).Nodup := by
  have hnames : (stored.map (·.name)).map pool.getD = attributes.map (·.name) := by
    clear hnodup
    induction h with
    | nil => rfl
    | cons h _ ih => rw [List.map_cons, List.map_cons, ih, Pool.getD_eq h.1, List.map_cons]
  exact List.Nodup.of_map pool.getD (hnames ▸ hnodup)

/-! ### New nodes -/

/-- A detached node of the given value has been made, and nothing else. -/
structure Made (d : Document) (value : NodeValue) (made : NodeId × Document) : Prop where
  steps : Steps d made.2
  id : made.1 = d.nodes.size
  nodes : made.2.nodes = d.nodes.push { value }
  root : made.2.root = d.root
  pool : d.pool.Extends made.2.pool

theorem Interned.made_push (h : Interned d d') {value : NodeValue}
    (hvalue : value.Readable d'.pool) : Made d value (d'.push value) where
  steps := h.steps.tail (.push hvalue)
  id := by rw [push, h.nodes]
  nodes := by rw [push, h.nodes]
  root := h.root
  pool := h.pool

theorem lt_size_of_get? {pool : Pool} {i : StringId} {s : String} (h : pool.get? i = some s) :
    i < pool.size :=
  Pool.get?_isSome_iff.mp ⟨s, h⟩

theorem Forall₂.mem_stored {pool : Pool} {stored : List StoredAttribute}
    {attributes : List Attribute} (h : List.Forall₂ (Stored pool) stored attributes) :
    ∀ a ∈ stored, a.name < pool.size ∧ a.value < pool.size := by
  induction h with
  | nil => simp
  | cons h _ ih =>
      intro a ha
      rcases List.mem_cons.mp ha with rfl | ha
      · exact ⟨lt_size_of_get? h.1, lt_size_of_get? h.2⟩
      · exact ih a ha

theorem readable_element {pool : Pool} {name ns : StringId} {attributes : List StoredAttribute}
    (hname : name < pool.size) (hns : ns < pool.size)
    (hattributes : ∀ a ∈ attributes, a.name < pool.size ∧ a.value < pool.size)
    (hnodup : (attributes.map (·.name)).Nodup) :
    (NodeValue.element name ns attributes).Readable pool where
  strings i hi := by
    simp only [NodeValue.strings, List.mem_cons, List.mem_flatMap, List.not_mem_nil,
      or_false] at hi
    rcases hi with rfl | rfl | ⟨a, ha, rfl | rfl⟩
    · exact hname
    · exact hns
    · exact (hattributes a ha).1
    · exact (hattributes a ha).2
  names := hnodup

theorem lt_size_of_readable {pool : Pool} {name ns : StringId} {attributes : List StoredAttribute}
    (h : (NodeValue.element name ns attributes).Readable pool) :
    name < pool.size ∧ ns < pool.size ∧
      ∀ a ∈ attributes, a.name < pool.size ∧ a.value < pool.size := by
  have hstrings := h.strings
  simp only [NodeValue.strings, List.mem_cons, List.mem_flatMap, List.not_mem_nil,
    or_false] at hstrings
  refine ⟨hstrings _ (Or.inl rfl), hstrings _ (Or.inr (Or.inl rfl)), fun a ha => ⟨?_, ?_⟩⟩
  · exact hstrings _ (Or.inr (Or.inr ⟨a, ha, Or.inl rfl⟩))
  · exact hstrings _ (Or.inr (Or.inr ⟨a, ha, Or.inr rfl⟩))

theorem made_pushElement (h : WellFormed d) (name : String) (ns : Option String)
    (attributes : List Attribute) :
    ∃ nameId nsId stored, Made d (.element nameId nsId (collapse stored))
        (d.pushElement name ns attributes) ∧
      (d.pushElement name ns attributes).2.pool.get? nameId = some name ∧
      (d.pushElement name ns attributes).2.pool.get? nsId = some (ns.getD "") ∧
      List.Forall₂ (Stored (d.pushElement name ns attributes).2.pool) stored attributes := by
  have hname := Interned.intern d name
  have hns := Interned.intern (d.intern name).2 (ns.getD "")
  have h1 := h.of_steps hname.steps
  have h2 := h1.of_steps hns.steps
  obtain ⟨hrest, hstored⟩ := interned_internAttributes h2 attributes
  have hget := (hns.pool.trans hrest.pool) _ _ (get?_intern h name)
  have hget' := hrest.pool _ _ (get?_intern h1 (ns.getD ""))
  obtain ⟨hnodup, hmem⟩ := collapse_spec _
  refine ⟨_, _, _, ((hname.trans hns).trans hrest).made_push ?_, hget, hget', hstored⟩
  exact readable_element (lt_size_of_get? hget) (lt_size_of_get? hget')
    (fun a ha => Forall₂.mem_stored hstored a (hmem a ha)) hnodup

/-- Values that refer to one string. -/
theorem made_pushOne (h : WellFormed d) (value : StringId → NodeValue)
    (hstrings : ∀ i, (value i).strings = [i]) (hnames : ∀ i, (value i).attributeNames = [])
    (s : String) :
    Made d (value (d.intern s).1) ((d.intern s).2.push (value (d.intern s).1)) := by
  refine (Interned.intern d s).made_push ⟨fun i hi => ?_, ?_⟩
  · rw [hstrings, List.mem_singleton] at hi
    rw [hi]
    exact lt_size_of_get? (get?_intern h s)
  · rw [hnames]
    exact List.nodup_nil

theorem made_pushText (h : WellFormed d) (s : String) :
    Made d (.text (d.intern s).1) (d.pushText s) :=
  made_pushOne h .text (fun _ => rfl) (fun _ => rfl) s

theorem made_pushCdata (h : WellFormed d) (s : String) :
    Made d (.cdata (d.intern s).1) (d.pushCdata s) :=
  made_pushOne h .cdata (fun _ => rfl) (fun _ => rfl) s

theorem made_pushComment (h : WellFormed d) (s : String) :
    Made d (.comment (d.intern s).1) (d.pushComment s) :=
  made_pushOne h .comment (fun _ => rfl) (fun _ => rfl) s

theorem made_pushInstruction (h : WellFormed d) (target data : String) :
    ∃ targetId dataId, Made d (.instruction targetId dataId) (d.pushInstruction target data) ∧
      (d.pushInstruction target data).2.pool.get? targetId = some target ∧
      (d.pushInstruction target data).2.pool.get? dataId = some data := by
  have htarget := Interned.intern d target
  have hdata := Interned.intern (d.intern target).2 data
  have hget := hdata.pool _ _ (get?_intern h target)
  have hget' := get?_intern (h.of_steps htarget.steps) data
  refine ⟨_, _, (htarget.trans hdata).made_push ⟨fun i hi => ?_, List.nodup_nil⟩, hget, hget'⟩
  simp only [NodeValue.strings, List.mem_cons, List.not_mem_nil, or_false] at hi
  rcases hi with rfl | rfl
  · exact lt_size_of_get? hget
  · exact lt_size_of_get? hget'

namespace Made

variable {value : NodeValue} {made : NodeId × Document}

theorem size (h : Made d value made) : made.2.nodes.size = d.nodes.size + 1 := by
  rw [h.nodes, Array.size_push]

theorem node? (h : Made d value made) (x : NodeId) :
    made.2.node? x = if x = d.nodes.size then some { value } else d.node? x := by
  rw [Document.node?, h.nodes]
  exact node?_push d value x

theorem value? (h : Made d value made) : made.2.value? made.1 = some value := by
  rw [Document.value?, h.node?, h.id, if_pos rfl]
  rfl

theorem kind? (h : Made d value made) : made.2.kind? made.1 = some value.kind := by
  rw [Document.kind?, h.value?]
  rfl

/-- All links are what they were, and the new node has none. -/
theorem link {α : Type} {g : Node → Option α} (h : Made d value made)
    (hg : g { value } = none) (x : NodeId) : (made.2.node? x).bind g = (d.node? x).bind g := by
  rw [Document.node?, h.nodes]
  exact link_push value hg x

theorem parent? (h : Made d value made) : made.2.parent? made.1 = none := by
  rw [Document.parent?, h.node?, h.id, if_pos rfl]
  rfl

theorem linked (h : Made d value made) {kids : NodeId → List NodeId} (hlinked : Linked d kids) :
    Linked made.2 kids :=
  hlinked.of_links (h.link rfl) (h.link rfl) (h.link rfl) (h.link rfl) (h.link rfl)

end Made

end Document

end PersistenceMapping
