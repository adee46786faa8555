/-
Attributes are an ordered map.

What has been done to the attributes of an element can be written down one after the other
(`AttributeEvent`), and the attributes are what comes of that and of nothing else: a name has the
value of the last event that concerns it, and the names stand in the order in which they came, where
a name that was removed comes anew.

The document compares numbers of strings where it writes an attribute, and strings where it reads or
removes one.  As numbers and strings belong together in every pool (`stored_putStored`), it does what
`Attributes.set` and `Attributes.remove` do to what is read (`attributes_putAttribute`,
`attributes_dropAttribute`), whatever the hash of the pool.
-/
import PersistenceMapping.Proofs.Tree.Attained
import PersistenceMapping.Proofs.Tree.Tagged

namespace PersistenceMapping

/-! ### Names and values of a list -/

namespace Attributes

variable {name other value : String} {l : List Attribute}

theorem mem_names_iff : name ∈ l.map (·.name) ↔ get? l name ≠ none := by
  simp [get?_eq_none_iff]

/-- Where names are distinct, each attribute is found by its name. -/
theorem get?_of_mem (h : (l.map (·.name)).Nodup) {a : Attribute} (ha : a ∈ l) :
    get? l a.name = some a.value := by
  induction l with
  | nil => cases ha
  | cons b l ih =>
      rw [List.map_cons, List.nodup_cons] at h
      rw [get?_cons]
      rcases List.mem_cons.mp ha with rfl | ha
      · exact if_pos rfl
      · rw [if_neg, ih h.2 ha]
        exact fun heq => h.1 (heq ▸ List.mem_map_of_mem ha)

theorem names_set (name value : String) (l : List Attribute) :
    (set name value l).map (·.name) =
      if name ∈ l.map (·.name) then l.map (·.name) else l.map (·.name) ++ [name] := by
  induction l with
  | nil => rfl
  | cons a l ih =>
      rw [set]
      by_cases ha : a.name = name
      · simp [ha]
      · rw [if_neg (by simpa using ha), List.map_cons, ih, List.map_cons]
        simp only [List.mem_cons, Ne.symm ha, false_or]
        split <;> rfl

theorem names_remove (name : String) (h : (l.map (·.name)).Nodup) :
    (remove name l).map (·.name) = (l.map (·.name)).filter (· != name) := by
  rw [← h.erase_eq_filter, List.erase_eq_eraseP', List.eraseP_map]
  rfl

theorem get?_remove (h : (l.map (·.name)).Nodup) :
    get? (remove name l) other = if other = name then none else get? l other := by
  induction l with
  | nil => exact (ite_self none).symm
  | cons a l ih =>
      rw [List.map_cons, List.nodup_cons] at h
      by_cases ha : a.name = name
      · rw [remove, List.eraseP_cons_of_pos (by simpa using ha), get?_cons]
        by_cases hother : other = name
        · rw [if_pos hother, get?_eq_none_iff]
          rintro b hb rfl
          exact h.1 (List.mem_map.mpr ⟨b, hb, hother.trans ha.symm⟩)
        · rw [if_neg hother, if_neg (ha ▸ hother)]
      · rw [remove, List.eraseP_cons_of_neg (by simpa using ha), get?_cons, get?_cons]
        change (if other = a.name then _ else get? (remove name l) other) = _
        rw [ih h.2]
        by_cases hother : other = a.name
        · rw [if_pos hother, if_pos hother, if_neg (hother ▸ ha)]
        · rw [if_neg hother, if_neg hother]

end Attributes

/-! ### Events -/

/-- Something that is done to an attribute. -/
inductive AttributeEvent where
  | set (name value : String)
  | remove (name : String)
  deriving DecidableEq, Repr

namespace AttributeEvent

/-- The name of the attribute. -/
def name : AttributeEvent → String
  | set name _ => name
  | remove name => name

/-- The value that the attribute has then. -/
def value? : AttributeEvent → Option String
  | set _ value => some value
  | remove _ => none

/-- The attributes after the event. -/
def act : AttributeEvent → List Attribute → List Attribute
  | set name value => Attributes.set name value
  | remove name => Attributes.remove name

/-- The value of the last event of a name, if that has one. -/
def latest? (log : List AttributeEvent) (name : String) : Option String :=
  (log.reverse.find? (·.name == name)).bind (·.value?)

/-- The name that the event at a place brings in: the name has no value before that event, which sets
it, and is not removed after it. -/
def insertedAt? (log : List AttributeEvent) (i : Nat) : Option String :=
  match log[i]? with
  | some (set name _) =>
    if latest? (log.take i) name = none ∧ remove name ∉ log.drop (i + 1) then some name else none
  | _ => none

/-- The names that are there after all events, in the order of their first insertion since their last
removal. -/
def inserted (log : List AttributeEvent) : List String :=
  (List.range log.length).filterMap (insertedAt? log)

/-- The attributes after all events. -/
def replay (log : List AttributeEvent) : List Attribute :=
  log.foldl (fun l event => event.act l) []

variable {log : List AttributeEvent} {event : AttributeEvent} {name value : String}

theorem latest?_concat (log : List AttributeEvent) (event : AttributeEvent) (name : String) :
    latest? (log ++ [event]) name = if event.name = name then event.value? else latest? log name := by
  rw [latest?, List.reverse_append, List.reverse_singleton, List.singleton_append, List.find?_cons]
  by_cases h : event.name = name
  · simp [h]
  · have hne : (event.name == name) = false := by simpa using h
    rw [hne, if_neg h, latest?]

/-- What one more event does to the names that came before it. -/
theorem inserted_concat (log : List AttributeEvent) (event : AttributeEvent) :
    inserted (log ++ [event]) =
      (inserted log).filter (fun name => remove name ≠ event) ++
        (insertedAt? (log ++ [event]) log.length).toList := by
  rw [inserted, List.length_append, List.length_singleton, List.range_succ, List.filterMap_append,
    inserted, List.filter_filterMap]
  congr 1
  · refine List.filterMap_congr fun i hi => ?_
    have hlt := List.mem_range.mp hi
    unfold insertedAt?
    rw [List.getElem?_append_left hlt, List.take_append_of_le_length (Nat.le_of_lt hlt),
      List.drop_append_of_le_length hlt]
    cases log[i]? with
    | none => rfl
    | some earlier =>
        cases earlier with
        | remove name => rfl
        | set name value =>
            simp only [List.mem_append, List.mem_singleton, not_or, ← and_assoc]
            by_cases hkept : latest? (log.take i) name = none ∧ remove name ∉ log.drop (i + 1)
            · rw [if_pos hkept, Option.filter_some]
              simp [hkept]
            · simp [hkept]

theorem insertedAt?_set (log : List AttributeEvent) (name value : String) :
    insertedAt? (log ++ [set name value]) log.length =
      if latest? log name = none then some name else none := by
  simp [insertedAt?]

theorem insertedAt?_remove (log : List AttributeEvent) (name : String) :
    insertedAt? (log ++ [remove name]) log.length = none := by
  simp [insertedAt?]

/-- What is left after all events: the values are the latest, and the names are those that came in
and stayed. -/
theorem replay_spec (log : List AttributeEvent) :
    (∀ name, Attributes.get? (replay log) name = latest? log name) ∧
      (replay log).map (·.name) = inserted log ∧ (inserted log).Nodup := by
  induction log using List.reverseRecOn with
  | nil => exact ⟨fun _ => rfl, rfl, List.nodup_nil⟩
  | append_singleton log event ih =>
      obtain ⟨hvalues, hnames, hnodup⟩ := ih
      have hreplay : replay (log ++ [event]) = event.act (replay log) := by
        rw [replay, List.foldl_concat]
        rfl
      rw [hreplay, inserted_concat]
      cases event with
      | set name value =>
          have hthere : name ∈ inserted log ↔ latest? log name ≠ none := by
            rw [← hnames, ← hvalues, Attributes.mem_names_iff]
          have hnow : inserted log ++ (insertedAt? (log ++ [set name value]) log.length).toList =
              if name ∈ inserted log then inserted log else inserted log ++ [name] := by
            rw [insertedAt?_set]
            by_cases hname : latest? log name = none
            · rw [if_pos hname, if_neg (by simpa [hthere] using hname)]
              rfl
            · rw [if_neg hname, if_pos (hthere.mpr hname)]
              exact List.append_nil _
          have hkept : (inserted log).filter (fun other => remove other ≠ set name value) =
              inserted log := by simp
          rw [hkept, hnow]
          refine ⟨fun other => ?_, ?_, ?_⟩
          · rw [act, Attributes.get?_set, latest?_concat, hvalues]
            exact if_congr eq_comm rfl rfl
          · rw [act, Attributes.names_set, hnames]
          · split
            case isTrue => exact hnodup
            case isFalse hname =>
              refine List.nodup_append.mpr ⟨hnodup, List.nodup_singleton name, ?_⟩
              rintro a ha b hb rfl
              exact hname (List.mem_singleton.mp hb ▸ ha)
      | remove name =>
          have hfilter : (fun other => decide (remove other ≠ remove name)) =
              fun other => other != name := by
            funext other
            simp [bne, beq_eq_decide]
          rw [insertedAt?_remove, hfilter, Option.toList_none, List.append_nil]
          rw [← hnames] at hnodup ⊢
          refine ⟨fun other => ?_, ?_, hnodup.filter _⟩
          · rw [act, Attributes.get?_remove hnodup, latest?_concat, hvalues]
            exact if_congr eq_comm rfl rfl
          · rw [act, Attributes.names_remove _ hnodup]

/-- Attributes of distinct names are what comes of setting one after the other. -/
theorem replay_sets {l : List Attribute} (h : (l.map (·.name)).Nodup) :
    replay (l.map fun a => set a.name a.value) = l := by
  induction l using List.reverseRecOn with
  | nil => rfl
  | append_singleton l a ih =>
      rw [List.map_append, List.nodup_append] at h
      have hnew : a.name ∉ l.map (·.name) := fun hmem =>
        h.2.2 _ hmem _ (List.mem_singleton.mpr rfl) rfl
      have hreplay := ih h.1
      rw [replay] at hreplay
      rw [replay, List.map_append, List.map_singleton, List.foldl_concat, hreplay]
      exact Attributes.set_eq_append hnew

end AttributeEvent

namespace Document

variable {d d' : Document} {id x : NodeId}

/-! ### What is stored -/

/-- Stored attributes stand for those that are read. -/
theorem WellFormed.forall₂_stored (h : WellFormed d) (x : NodeId) :
    List.Forall₂ (Stored d.pool) (d.storedAttributes x) (d.attributes x) := by
  have hlt : ∀ a ∈ d.storedAttributes x, a.name < d.pool.size ∧ a.value < d.pool.size := by
    unfold storedAttributes
    split
    case h_1 hvalue => exact (lt_size_of_readable (h.readable x _ hvalue)).2.2
    case h_2 => exact nofun
  refine List.forall₂_map_right_iff.mpr (List.forall₂_same.mpr fun a ha => ?_)
  obtain ⟨hname, hvalue⟩ := hlt a ha
  obtain ⟨name, hname⟩ := Pool.get?_isSome_iff.mpr hname
  obtain ⟨value, hvalue⟩ := Pool.get?_isSome_iff.mpr hvalue
  rw [readAttribute, Pool.getD_eq hname, Pool.getD_eq hvalue]
  exact ⟨hname, hvalue⟩

/-- The attributes of a node have distinct names. -/
theorem WellFormed.nodup_names (h : WellFormed d) : ((d.attributes x).map (·.name)).Nodup := by
  unfold attributes storedAttributes
  split
  case h_1 hvalue => exact h.nodup_attributes hvalue
  case h_2 => exact List.nodup_nil

/-- What is stored is read as before, while the pool grows. -/
theorem WellFormed.attributes_eq (h : WellFormed d)
    (hstored : d'.storedAttributes x = d.storedAttributes x) (hpool : d.pool.Extends d'.pool) :
    d'.attributes x = d.attributes x := by
  rw [attributes, hstored]
  exact map_readAttribute (h.forall₂_stored x) hpool

theorem storedAttributes_eq_of_value? (h : d'.value? x = d.value? x) :
    d'.storedAttributes x = d.storedAttributes x := by
  rw [storedAttributes, storedAttributes, h]

theorem storedAttributes_mapAttributes (hid : d.kind? id = some .element)
    (f : List StoredAttribute → List StoredAttribute) :
    (d.mapAttributes id f).storedAttributes id = f (d.storedAttributes id) := by
  obtain ⟨value, hvalue, hkind⟩ := Option.map_eq_some_iff.mp hid
  cases value with
  | element name ns attributes =>
      rw [storedAttributes, storedAttributes, mapAttributes, value?_setValue, if_pos rfl, hvalue]
      rfl
  | document | text | cdata | comment | instruction => cases hkind

theorem storedAttributes_mapAttributes_of_ne (hx : id ≠ x)
    (f : List StoredAttribute → List StoredAttribute) :
    (d.mapAttributes id f).storedAttributes x = d.storedAttributes x :=
  storedAttributes_eq_of_value? (by rw [mapAttributes, value?_setValue, if_neg hx])

theorem storedAttributes_mapName (d : Document) (id : NodeId) (name : StringId) (x : NodeId) :
    (d.mapName id name).storedAttributes x = d.storedAttributes x := by
  rw [storedAttributes, storedAttributes, mapName, value?_setValue]
  by_cases hx : id = x
  · rw [if_pos hx]
    cases d.value? x with
    | none => rfl
    | some value => cases value <;> rfl
  · rw [if_neg hx]

theorem putAttribute_eq (d : Document) (id : NodeId) (name value : String) :
    d.putAttribute id name value = ((d.intern name).2.intern value).2.mapAttributes id
      (putStored (d.intern name).1 ((d.intern name).2.intern value).1) :=
  rfl

/-- Whatever their numbers, attributes are put into the list by their names. -/
theorem WellFormed.attributes_putAttribute (h : WellFormed d) (hid : d.kind? id = some .element)
    (name value : String) :
    (d.putAttribute id name value).attributes id = Attributes.set name value (d.attributes id) := by
  have hname := Interned.intern d name
  have hvalue := Interned.intern (d.intern name).2 value
  have h1 := h.of_steps hname.steps
  have h2 := h1.of_steps hvalue.steps
  have hstored : Stored ((d.intern name).2.intern value).2.pool
      ⟨(d.intern name).1, ((d.intern name).2.intern value).1⟩ ⟨name, value⟩ :=
    ⟨hvalue.pool _ _ (get?_intern h name), get?_intern h1 value⟩
  have hread := (h.forall₂_stored id).imp fun _ _ h => h.mono (hname.pool.trans hvalue.pool)
  have helement : ((d.intern name).2.intern value).2.kind? id = some .element := hid
  rw [putAttribute_eq, attributes, storedAttributes_mapAttributes helement]
  exact map_readAttribute (stored_putStored h2.pool hstored hread) (.refl _)

/-- Attributes are removed from the list by their names. -/
theorem attributes_dropAttribute (hid : d.kind? id = some .element) (name : String) :
    (d.dropAttribute id name).attributes id = Attributes.remove name (d.attributes id) := by
  rw [attributes, dropAttribute, storedAttributes_mapAttributes hid, Attributes.remove, attributes,
    List.eraseP_map]
  rfl

/-- Nodes keep their kinds. -/
theorem Step.kind?_eq {kind : NodeKind} (hstep : Step d d') (hx : d.kind? x = some kind) :
    d'.kind? x = some kind := by
  cases hstep with
  | intern s => exact hx
  | push hvalue => rwa [kind?_eq_of_value? (value?_push_of_lt _ (lt_size_of_kind? hx))]
  | attach => rwa [kind?_eq_of_value? (value?_attach _ _ _ x)]
  | unlink id => rwa [kind?_eq_of_value? (value?_unlink d id x)]
  | @revalue id f hf =>
      obtain ⟨value, hvalue, rfl⟩ := Option.map_eq_some_iff.mp hx
      rw [kind?, value?_setValue, hvalue]
      by_cases hid : id = x
      · subst hid
        rw [if_pos rfl]
        exact congrArg some (hf value hvalue).1
      · rw [if_neg hid]
        rfl

theorem Steps.kind?_eq {kind : NodeKind} (hsteps : Steps d d') (hx : d.kind? x = some kind) :
    d'.kind? x = some kind := by
  induction hsteps with
  | refl => exact hx
  | tail _ hstep ih => exact hstep.kind?_eq ih

theorem WellFormed.attributes_move (h : WellFormed d) (p c x : NodeId) :
    (d.move p c).attributes x = d.attributes x := by
  refine h.attributes_eq (storedAttributes_eq_of_value? ?_) ?_
  · rw [move, value?_attach, value?_unlink]
  · rw [move, pool_attach, pool_unlink]
    exact .refl _

end Document

namespace Operation

open Document

variable {d : Document} {op : Operation} {e x : NodeId}

/-! ### What operations do to attributes -/

/-- What an operation does to the attributes of a node, if it is asked to do something to them. -/
def event? (e : NodeId) : Operation → Option AttributeEvent
  | request (.setAttribute id name value) => if id = e then some (.set name value) else none
  | request (.removeAttribute id name) => if id = e then some (.remove name) else none
  | _ => none

/-- An operation that is not asked to do something to the attributes of a node leaves them alone. -/
theorem Effect.attributes_eq (h : WellFormed d) (hsource : ∀ s, op.source? = some s → WellFormed s)
    {result : Except TreeError Answer × Document} (heffect : Effect d op result)
    (hx : x < d.nodes.size) (hevent : op.event? x = none) :
    result.2.attributes x = d.attributes x := by
  have hgrown : ∀ {d'}, Grown d d' → d'.attributes x = d.attributes x := fun hgrown =>
    h.attributes_eq (storedAttributes_eq_of_value? (hgrown.value? hx)) hgrown.pool
  cases heffect with
  | refused he => rfl
  | createElement name => exact hgrown (grown_pushElement h name)
  | createText content => exact hgrown (made_pushText h content).grown
  | append hcheck => exact h.attributes_move _ _ x
  | @setAttribute id _ name value =>
      have hne : id ≠ x := fun heq => by simp [event?, heq] at hevent
      rw [putAttribute_eq]
      exact h.attributes_eq (storedAttributes_mapAttributes_of_ne hne _)
        ((Pool.extends_intern d.pool name).trans (Pool.extends_intern _ value))
  | @removeAttribute id _ name =>
      have hne : id ≠ x := fun heq => by simp [event?, heq] at hevent
      exact h.attributes_eq (storedAttributes_mapAttributes_of_ne hne _) (.refl _)
  | @rename id _ name =>
      refine h.attributes_eq ?_ (Pool.extends_intern d.pool name)
      exact storedAttributes_mapName (d.intern name).2 id (d.intern name).1 x
  | cloneSubtree hkind => exact hgrown (h.begun_cloneTree hkind).grown
  | cloneWithName hid name => exact hgrown (grown_cloneWithName h hid name)
  | importNode hkind => exact hgrown (h.begun_importTree (hsource _ rfl) hkind).grown
  | own source hid => rfl
  | adopted howner hkind => exact hgrown (h.begun_importTree (hsource _ rfl) hkind).grown
  | @addChild p name hcheck =>
      have hmade := grown_pushElement h name
      exact ((h.of_steps hmade.steps).attributes_move p _ x).trans (hgrown hmade)
  | @stranded _ name _ he => exact hgrown (grown_pushElement h name)

/-- What is asked of the attributes of an element is done. -/
theorem apply_setAttribute (hid : d.kind? e = some .element) (name value : String) :
    (Edit.setAttribute e name value).apply d = (.ok (), d.putAttribute e name value) := by
  rw [Edit.setAttribute, apply_require, checkElement_of_kind? hid]
  rfl

theorem apply_removeAttribute (hid : d.kind? e = some .element) (name : String) :
    (Edit.removeAttribute e name).apply d = (.ok (d.attribute? e name), d.dropAttribute e name) := by
  rw [Edit.removeAttribute, apply_require, checkElement_of_kind? hid]
  rfl

/-- What an operation does to the attributes of an element is what it is asked to do to them, if
anything. -/
theorem attributes_step (h : WellFormed d) (hsource : ∀ s, op.source? = some s → WellFormed s)
    (hid : d.kind? e = some .element) :
    (op.edit.apply d).2.attributes e =
      (op.event? e).elim (d.attributes e) fun event => event.act (d.attributes e) := by
  cases hevent : op.event? e with
  | none => exact (effect h op).attributes_eq h hsource (lt_size_of_kind? hid) hevent
  | some event =>
      unfold event? at hevent
      split at hevent
      case h_1 id name value =>
        rw [Option.ite_none_right_eq_some] at hevent
        obtain ⟨rfl, hdone⟩ := hevent
        cases hdone
        rw [edit, Request.edit, apply_map, apply_setAttribute hid]
        exact h.attributes_putAttribute hid name value
      case h_2 id name =>
        rw [Option.ite_none_right_eq_some] at hevent
        obtain ⟨rfl, hdone⟩ := hevent
        cases hdone
        rw [edit, Request.edit, apply_map, apply_removeAttribute hid]
        exact attributes_dropAttribute hid name
      case h_3 => cases hevent

/-- The document after operations, granted or refused. -/
def run (d : Document) (ops : List Operation) : Document :=
  ops.foldl (fun d op => (op.edit.apply d).2) d

theorem attainable_run (h : Attainable d) (ops : List Operation)
    (hsource : ∀ op ∈ ops, ∀ s, op.source? = some s → Attainable s) : Attainable (run d ops) := by
  induction ops generalizing d with
  | nil => exact h
  | cons op rest ih =>
      exact ih (h.operation op (hsource op List.mem_cons_self)) fun op hop =>
        hsource op (List.mem_cons_of_mem _ hop)

/-- What operations do to the attributes of an element is what they are asked to do to them, one
after the other. -/
theorem attributes_run (h : Attainable d) (hid : d.kind? e = some .element) (ops : List Operation)
    (hsource : ∀ op ∈ ops, ∀ s, op.source? = some s → Attainable s) :
    (run d ops).kind? e = some .element ∧ (run d ops).attributes e =
      (ops.filterMap (event? e)).foldl (fun l event => event.act l) (d.attributes e) := by
  induction ops generalizing d with
  | nil => exact ⟨hid, rfl⟩
  | cons op rest ih =>
      have hop := hsource op List.mem_cons_self
      have hwf : ∀ s, op.source? = some s → WellFormed s := fun s hs => (hop s hs).wellFormed
      have hstep := attributes_step h.wellFormed hwf hid
      have hkind := Steps.kind?_eq ((effect h.wellFormed op).steps h.wellFormed hwf) hid
      obtain ⟨hlast, hattributes⟩ := ih (h.operation op hop) hkind fun op hop =>
        hsource op (List.mem_cons_of_mem _ hop)
      refine ⟨hlast, hattributes.trans ?_⟩
      rw [hstep, List.filterMap_cons]
      cases op.event? e <;> rfl

/-- **Attributes behave as an ordered map**, whatever the hash of the string pool: what is read and
what a removal gives is the latest value, the names stand in the order in which they were inserted
since they were last removed, and no operation changes attributes of nodes that it does not name for
it. -/
theorem attributes_recorded (h : Attainable d) (he : d.isElement e = true) (ops : List Operation)
    (hsource : ∀ op ∈ ops, ∀ s, op.source? = some s → Attainable s) :
    let last := run d ops
    let log := (d.attributes e).map (fun a => .set a.name a.value) ++ ops.filterMap (event? e)
    (∀ name, last.attribute? e name = AttributeEvent.latest? log name) ∧
      (∀ name, ((Edit.removeAttribute e name).apply last).1 = .ok (AttributeEvent.latest? log name)) ∧
      (last.attributes e).map (·.name) = AttributeEvent.inserted log ∧
      (AttributeEvent.inserted log).Nodup ∧
      (∀ a ∈ last.attributes e, AttributeEvent.latest? log a.name = some a.value) ∧
      ∀ op : Operation, (∀ s, op.source? = some s → Attainable s) →
        ∀ x < last.nodes.size, op.event? x = none →
          (op.edit.apply last).2.attributes x = last.attributes x := by
  intro last log
  have hid : d.kind? e = some .element := isElement_iff.mp he
  obtain ⟨hkind, hattributes⟩ := attributes_run h hid ops hsource
  have hreplay : last.attributes e = AttributeEvent.replay log := by
    have hstart := AttributeEvent.replay_sets (h.wellFormed.nodup_names (x := e))
    rw [AttributeEvent.replay] at hstart
    rw [AttributeEvent.replay, List.foldl_append, hstart]
    exact hattributes
  obtain ⟨hvalues, hnames, hnodup⟩ := AttributeEvent.replay_spec log
  have hlast : WellFormed last := (attainable_run h ops hsource).wellFormed
  have hread : ∀ name, last.attribute? e name = AttributeEvent.latest? log name := by
    intro name
    rw [attribute?, hreplay, hvalues]
  rw [← hreplay] at hnames hvalues
  refine ⟨hread, fun name => ?_, hnames, hnodup, fun a ha => ?_, fun op hop x hx hevent => ?_⟩
  · rw [apply_removeAttribute hkind, hread]
  · rw [← hvalues]
    exact Attributes.get?_of_mem hlast.nodup_names ha
  · exact (effect hlast op).attributes_eq hlast (fun s hs => (hop s hs).wellFormed) hx hevent

/-- All strings have one hash.  An attribute is set twice, and another is removed and set anew. -/
theorem attributes_recorded_colliding :
    let d := [.createElement "e", .setAttribute 1 "a" "1"].foldl (fun d r => Request.perform r d)
      (.empty fun _ => 0)
    let ops := [Request.setAttribute 1 "b" "2", .removeAttribute 1 "a", .setAttribute 1 "a" "b",
      .setAttribute 1 "b" "e"].map request
    (run d ops).attribute? 1 "b" = some "e" ∧
      ((Edit.removeAttribute 1 "a").apply (run d ops)).1 = .ok (some "b") ∧
      ((run d ops).attributes 1).map (·.name) = ["b", "a"] := by
  intro d ops
  have hd : Attainable d := ((Reachable.empty fun _ => 0).requests _).attainable
  have he : d.isElement 1 = true := by decide
  have hlog : (d.attributes 1).map (fun a => AttributeEvent.set a.name a.value) ++
      ops.filterMap (event? 1) = [.set "a" "1", .set "b" "2", .remove "a", .set "a" "b",
        .set "b" "e"] := by decide
  have hsource : ∀ op ∈ ops, ∀ s, op.source? = some s → Attainable s := by
    intro op hop s hs
    obtain ⟨r, -, rfl⟩ := List.mem_map.mp hop
    cases hs
  obtain ⟨hread, hremoved, hnames, -⟩ := attributes_recorded hd he ops hsource
  rw [hlog] at hnames
  simp only [hlog] at hread hremoved
  exact ⟨(hread "b").trans (by decide), (hremoved "a").trans (by decide),
    hnames.trans (by decide)⟩

end Operation

end PersistenceMapping
