/-
When declarations can stand.

Whether a declaration can stand depends on those before it, but only through what names they
have registered.  So a registry is described by two lists, the mapped classes declared so far
and the listeners declared so far (`Describes`), and a whole list of declarations stands just if
each can stand by itself and the two lists are consistent in the end (`Consistent`): no class
twice, and none that is a listener too.  That a listener comes twice does not matter, nor does
the order in which classes and listeners come.
-/
import Mathlib.Data.List.Nodup
import PersistenceMapping.Override.Registry

namespace PersistenceMapping

theorem equalsIgnoringCase_true {text : String} :
    equalsIgnoringCase text "true" = true ↔ text.toLower = "true" := by
  have hlower : "true".toLower = "true" := by decide +kernel
  rw [equalsIgnoringCase, hlower, beq_iff_eq]

/-- A missing access value, or the text of an access type. -/
def LegalAccess (value : String) : Prop :=
  value = "" ∨ value = "FIELD" ∨ value = "PROPERTY"

theorem WrittenAccess.read_isOk_iff (written : WrittenAccess) :
    (∃ access, written.read = .ok access) ↔ LegalAccess written.value := by
  rw [WrittenAccess.read, LegalAccess]
  by_cases hempty : written.value = ""
  · simp [hempty]
  rw [if_neg (by simpa using hempty)]
  by_cases hfield : written.value = "FIELD"
  · simp [AccessType.ofText?, AccessType.text, hfield]
  by_cases hproperty : written.value = "PROPERTY"
  · simp [AccessType.ofText?, AccessType.text, hproperty]
  simp [AccessType.ofText?, AccessType.text, hempty, hfield, hproperty]

theorem WrittenAccess.eq_of_read {written : WrittenAccess} {access : Option AccessType}
    (h : written.read = .ok access) : access = AccessType.ofText? written.value := by
  rw [WrittenAccess.read] at h
  by_cases hempty : written.value.isEmpty = true
  · rw [if_pos hempty] at h
    rw [String.isEmpty_iff.mp hempty]
    cases h
    decide
  · rw [if_neg hempty] at h
    cases haccess : AccessType.ofText? written.value with
    | none =>
        rw [haccess] at h
        cases h
    | some a =>
        rw [haccess] at h
        cases h
        rfl

/-- The kind of class that a registration is of; none for a listener. -/
def Registration.kind? (registration : Registration) : Option ClassKind :=
  match registration.role with
  | .mappedClass kind _ => some kind
  | .listener => none

namespace Declaration

/-- The class that is declared, with its kind. -/
def class? : Declaration → Option (String × ClassKind)
  | mappedClass name _ kind _ _ => some (name, kind)
  | _ => none

/-- The listener that is declared. -/
def listener? : Declaration → Option String
  | listener name _ => some name
  | _ => none

/-- Whether defaults for all documents are declared. -/
def isGlobal : Declaration → Bool
  | globals _ => true
  | _ => false

/-- What a declaration needs that has nothing to do with names. -/
def Sound {α : Type} (loader : ClassLoader α) : Declaration → Prop
  | access written => LegalAccess written.value
  | mappedClass _ _ _ written _ => LegalAccess written.value
  | converter className _ => ∃ value, loader className = .ok (.ok value)
  | listener .. => True
  | globals _ => True

/-- The classes that are declared. -/
def classes (declarations : List Declaration) : List (String × ClassKind) :=
  declarations.filterMap class?

/-- The listeners that are declared. -/
def listeners (declarations : List Declaration) : List String :=
  declarations.filterMap listener?

theorem classes_append (first second : List Declaration) :
    classes (first ++ second) = classes first ++ classes second :=
  List.filterMap_append

theorem listeners_append (first second : List Declaration) :
    listeners (first ++ second) = listeners first ++ listeners second :=
  List.filterMap_append

theorem classes_flatMap {β : Type} (l : List β) (f : β → List Declaration) :
    classes (l.flatMap f) = l.flatMap fun b => classes (f b) :=
  List.filterMap_flatMap

theorem listeners_flatMap {β : Type} (l : List β) (f : β → List Declaration) :
    listeners (l.flatMap f) = l.flatMap fun b => listeners (f b) :=
  List.filterMap_flatMap

theorem classes_singleton (declaration : Declaration) :
    classes [declaration] = declaration.class?.toList := by
  cases h : declaration.class? <;> simp [classes, h]

theorem listeners_singleton (declaration : Declaration) :
    listeners [declaration] = declaration.listener?.toList := by
  cases h : declaration.listener? <;> simp [listeners, h]

end Declaration

/-- No class has the name of another one or of a listener. -/
structure Consistent (classes : List (String × ClassKind)) (listeners : List String) : Prop where
  nodup : (classes.map (·.1)).Nodup
  apart : ∀ c ∈ classes, c.1 ∉ listeners

theorem Consistent.of_append {classes classes' : List (String × ClassKind)}
    {listeners listeners' : List String}
    (h : Consistent (classes ++ classes') (listeners ++ listeners')) :
    Consistent classes listeners where
  nodup := by
    have := h.nodup
    rw [List.map_append] at this
    exact (List.nodup_append.mp this).1
  apart c hc hmem :=
    h.apart c (List.mem_append_left _ hc) (List.mem_append_left _ hmem)

/-- Declarations that can stand after what is declared already. -/
def Allowed {α : Type} (loader : ClassLoader α) (classes : List (String × ClassKind))
    (listeners : List String) (declarations : List Declaration) : Prop :=
  (∀ declaration ∈ declarations, declaration.Sound loader) ∧
    Consistent (classes ++ Declaration.classes declarations)
      (listeners ++ Declaration.listeners declarations)

/-- Declarations can stand part by part. -/
theorem allowed_append {α : Type} {loader : ClassLoader α} {classes : List (String × ClassKind)}
    {listeners : List String} {first second : List Declaration} :
    Allowed loader classes listeners (first ++ second) ↔
      Allowed loader classes listeners first ∧
        Allowed loader (classes ++ Declaration.classes first)
          (listeners ++ Declaration.listeners first) second := by
  unfold Allowed
  rw [Declaration.classes_append, Declaration.listeners_append, ← List.append_assoc,
    ← List.append_assoc]
  constructor
  · rintro ⟨hsound, hc⟩
    refine ⟨⟨fun d hd => ?_, hc.of_append⟩, fun d hd => ?_, hc⟩
    · exact hsound d (List.mem_append_left _ hd)
    · exact hsound d (List.mem_append_right _ hd)
  · rintro ⟨⟨hfirst, -⟩, hsecond, hc⟩
    refine ⟨fun d hd => ?_, hc⟩
    rcases List.mem_append.mp hd with hd | hd
    · exact hfirst d hd
    · exact hsecond d hd

namespace OverrideRegistry

variable {α : Type} {r r' : OverrideRegistry α} {classes : List (String × ClassKind)}
  {listeners : List String} {document : Nat} {declaration : Declaration}
  {declarations : List Declaration}

/-- The registered names are these classes and listeners, each of its kind. -/
structure Describes (r : OverrideRegistry α) (classes : List (String × ClassKind))
    (listeners : List String) : Prop where
  classes : ∀ name kind,
    (∃ registration, r.find? name = some registration ∧ registration.kind? = some kind) ↔
      (name, kind) ∈ classes
  listeners : ∀ name,
    (∃ registration, r.find? name = some registration ∧ registration.kind? = none) ↔
      name ∈ listeners

/-- A name is registered once, so as a class of one kind or as a listener. -/
theorem Describes.registered (h : Describes r classes listeners) {name : String}
    (hname : (r.find? name).isSome = true) :
    name ∈ classes.map (·.1) ∨ name ∈ listeners := by
  obtain ⟨registration, hfind⟩ := Option.isSome_iff_exists.mp hname
  rcases hkind : registration.kind? with _ | kind
  · exact Or.inr ((h.listeners name).mp ⟨registration, hfind, hkind⟩)
  · exact Or.inl (List.mem_map.mpr ⟨_, (h.classes name kind).mp ⟨registration, hfind, hkind⟩, rfl⟩)

/-- A registration more, of a name that there was none of. -/
theorem find?_register (r : OverrideRegistry α) (registration : Registration)
    (hnone : r.find? registration.name = none) (name : String) :
    OverrideRegistry.find? { r with registrations := r.registrations ++ [registration] } name =
      if name = registration.name then some registration else r.find? name := by
  rw [find?, List.find?_append]
  show (r.find? name).or _ = _
  split
  · rename_i hname
    rw [hname, hnone]
    simp
  · rename_i hname
    simp [Ne.symm hname]

theorem describes_empty (loader : ClassLoader α) :
    Describes ({ loader } : OverrideRegistry α) [] [] := by
  constructor <;> simp [find?]

namespace Describes

/-- A class is registered under a new name. -/
theorem add_class (h : Describes r classes listeners) {name : String} (hnone : r.find? name = none)
    (node : NodeId) (kind : ClassKind) (defaults : MappingDefault) :
    Describes { r with
        registrations := r.registrations ++ [⟨name, document, node, .mappedClass kind defaults⟩] }
      (classes ++ [(name, kind)]) listeners := by
  constructor
  · intro other kind'
    rw [find?_register r _ hnone, List.mem_append, ← h.classes, List.mem_singleton]
    by_cases hother : other = name
    · subst hother
      simp [hnone, Registration.kind?, eq_comm]
    · simp [hother]
  · intro other
    rw [find?_register r _ hnone, ← h.listeners]
    by_cases hother : other = name
    · subst hother
      simp [hnone, Registration.kind?]
    · simp [hother]

/-- A listener is registered under a new name. -/
theorem add_listener (h : Describes r classes listeners) {name : String}
    (hnone : r.find? name = none) (node : NodeId) :
    Describes { r with registrations := r.registrations ++ [⟨name, document, node, .listener⟩] }
      classes (listeners ++ [name]) := by
  constructor
  · intro other kind
    rw [find?_register r _ hnone, ← h.classes]
    by_cases hother : other = name
    · subst hother
      simp [hnone, Registration.kind?]
    · simp [hother]
  · intro other
    rw [find?_register r _ hnone, List.mem_append, ← h.listeners, List.mem_singleton]
    by_cases hother : other = name
    · subst hother
      simp [hnone, Registration.kind?]
    · simp [hother]

/-- A listener that is declared again is one of the listeners already. -/
theorem again (h : Describes r classes listeners) {name : String} (hname : name ∈ listeners) :
    Describes r classes (listeners ++ [name]) := by
  refine ⟨h.classes, fun other => ?_⟩
  rw [h.listeners, List.mem_append, List.mem_singleton]
  constructor
  · exact Or.inl
  · rintro (hother | rfl)
    · exact hother
    · exact hname

end Describes

/-- A declaration has taken effect: more is declared, and all that it takes is there. -/
structure Takes (r r' : OverrideRegistry α) (classes : List (String × ClassKind))
    (listeners : List String) (isGlobal : Bool) : Prop where
  describes : Describes r' classes listeners
  loader : r'.loader = r.loader
  globals : r'.globals.isSome = (r.globals.isSome || isGlobal)

/-- A result is that of something that takes effect just if it is allowed. -/
def Decides (r : OverrideRegistry α) (result : Except MappingError (OverrideRegistry α))
    (allowed : Prop) (classes : List (String × ClassKind)) (listeners : List String)
    (isGlobal : Bool) : Prop :=
  (allowed ∧ ∃ r', result = .ok r' ∧ Takes r r' classes listeners isGlobal) ∨
    (¬allowed ∧ ∃ e, result = .error e)

theorem decides_listener (h : Describes r classes listeners) (hc : Consistent classes listeners)
    (name : String) (node : NodeId) :
    Decides r (r.declare document (.listener name node)) (Consistent classes (listeners ++ [name]))
      classes (listeners ++ [name]) false := by
  have hglobals : r.globals.isSome = (r.globals.isSome || false) := by simp
  rw [declare]
  rcases hfind : r.find? name with _ | first
  · have hnot : name ∉ classes.map (·.1) := by
      intro hmem
      obtain ⟨c, hc', rfl⟩ := List.mem_map.mp hmem
      obtain ⟨registration, hsome, -⟩ := (h.classes c.1 c.2).mpr hc'
      rw [hfind] at hsome
      cases hsome
    refine Or.inl ⟨⟨hc.nodup, fun c hmem => ?_⟩, _, rfl, h.add_listener hfind node, rfl, hglobals⟩
    rw [List.mem_append, List.mem_singleton, not_or]
    exact ⟨hc.apart c hmem, fun heq => hnot (List.mem_map.mpr ⟨c, hmem, heq⟩)⟩
  · rcases hkind : first.kind? with _ | kind
    · -- The name is that of a listener already.
      have hrole : first.role = .listener := by
        rcases hrole : first.role with ⟨_, _⟩ | _
        · simp [Registration.kind?, hrole] at hkind
        · rfl
      have hmem := (h.listeners name).mp ⟨first, hfind, hkind⟩
      refine Or.inl ⟨⟨hc.nodup, fun c hc' => ?_⟩, r, if_pos hrole, h.again hmem, rfl, hglobals⟩
      rw [List.mem_append, List.mem_singleton, not_or]
      exact ⟨hc.apart c hc', fun heq => hc.apart c hc' (heq ▸ hmem)⟩
    · have hrole : first.role ≠ .listener := by
        intro hrole
        simp [Registration.kind?, hrole] at hkind
      have hmem := (h.classes name kind).mp ⟨first, hfind, hkind⟩
      exact Or.inr ⟨fun hc' => hc'.apart _ hmem (by simp), _, if_neg hrole⟩

theorem decides_class (h : Describes r classes listeners) (hc : Consistent classes listeners)
    (name : String) (node : NodeId) (kind : ClassKind) (written : WrittenAccess)
    (defaults : MappingDefault) :
    Decides r (r.declare document (.mappedClass name node kind written defaults))
      (LegalAccess written.value ∧ Consistent (classes ++ [(name, kind)]) listeners)
      (classes ++ [(name, kind)]) listeners false := by
  rw [declare]
  by_cases hsome : (r.find? name).isSome = true
  · refine Or.inr ⟨fun hc' => ?_, _, if_pos hsome⟩
    rcases h.registered hsome with hmem | hmem
    · have hnodup := hc'.2.nodup
      rw [List.map_append, List.nodup_append] at hnodup
      exact hnodup.2.2 name hmem name (by simp) rfl
    · exact hc'.2.apart (name, kind) (by simp) hmem
  · have hnone : r.find? name = none := by simpa using hsome
    have hnot : ∀ c ∈ classes, c.1 ≠ name := by
      rintro c hmem rfl
      obtain ⟨registration, hfind, -⟩ := (h.classes c.1 c.2).mpr hmem
      rw [hnone] at hfind
      cases hfind
    have hlistener : name ∉ listeners := by
      intro hmem
      obtain ⟨registration, hfind, -⟩ := (h.listeners name).mpr hmem
      rw [hnone] at hfind
      cases hfind
    rw [if_neg hsome]
    rcases hread : written.read with e | access
    · refine Or.inr ⟨fun hc' => ?_, e, rfl⟩
      obtain ⟨access, hok⟩ := written.read_isOk_iff.mpr hc'.1
      rw [hread] at hok
      cases hok
    · refine Or.inl ⟨⟨written.read_isOk_iff.mp ⟨access, hread⟩, ?_, ?_⟩, _, rfl,
        h.add_class hnone node kind defaults, rfl, by simp⟩
      · rw [List.map_append, List.nodup_append]
        refine ⟨hc.nodup, List.nodup_singleton _, ?_⟩
        rintro a ha b hb rfl
        obtain ⟨c, hmem, rfl⟩ := List.mem_map.mp ha
        exact hnot c hmem (by simpa using hb)
      · intro c hmem
        rcases List.mem_append.mp hmem with hmem | hmem
        · exact hc.apart c hmem
        · rw [List.mem_singleton.mp hmem]
          exact hlistener

/-- A declaration takes effect just if it is sound and leaves what is declared consistent. -/
theorem decides_declare (h : Describes r classes listeners) (hc : Consistent classes listeners)
    (document : Nat) (declaration : Declaration) :
    Decides r (r.declare document declaration)
      (declaration.Sound r.loader ∧ Consistent (classes ++ Declaration.classes [declaration])
        (listeners ++ Declaration.listeners [declaration]))
      (classes ++ Declaration.classes [declaration])
      (listeners ++ Declaration.listeners [declaration]) declaration.isGlobal := by
  have hglobals : r.globals.isSome = (r.globals.isSome || false) := by simp
  rw [Declaration.classes_singleton, Declaration.listeners_singleton]
  cases declaration with
  | access written =>
      simp only [Declaration.class?, Declaration.listener?, Option.toList_none, List.append_nil]
      rw [declare]
      rcases hread : written.read with e | access
      · refine Or.inr ⟨fun hs => ?_, e, rfl⟩
        obtain ⟨access, hok⟩ := written.read_isOk_iff.mpr hs.1
        rw [hread] at hok
        cases hok
      · exact Or.inl ⟨⟨written.read_isOk_iff.mp ⟨access, hread⟩, hc⟩, r, rfl, h, rfl, hglobals⟩
  | listener name node =>
      simp only [Declaration.class?, Declaration.listener?, Option.toList_none, List.append_nil,
        Option.toList_some, Declaration.Sound, true_and]
      exact decides_listener h hc name node
  | globals defaults =>
      simp only [Declaration.class?, Declaration.listener?, Option.toList_none, List.append_nil]
      exact Or.inl ⟨⟨trivial, hc⟩, _, rfl, ⟨h.classes, h.listeners⟩, rfl,
        by simp [Declaration.isGlobal]⟩
  | mappedClass name node kind written defaults =>
      simp only [Declaration.class?, Declaration.listener?, Option.toList_none, List.append_nil,
        Option.toList_some]
      exact decides_class h hc name node kind written defaults
  | converter className autoApply =>
      simp only [Declaration.class?, Declaration.listener?, Option.toList_none, List.append_nil]
      rw [declare, ClassLoader.resolve]
      rcases hload : r.loader className with failure | made
      · refine Or.inr ⟨?_, _, rfl⟩
        rintro ⟨⟨value, hvalue⟩, -⟩
        rw [hload] at hvalue
        cases hvalue
      · rcases made with reason | value
        · refine Or.inr ⟨?_, _, rfl⟩
          rintro ⟨⟨value, hvalue⟩, -⟩
          rw [hload] at hvalue
          cases hvalue
        · exact Or.inl ⟨⟨⟨value, hload⟩, hc⟩, _, rfl, ⟨h.classes, h.listeners⟩, rfl, hglobals⟩

/-- Declarations take effect just if they are allowed after what is declared already. -/
theorem declareAll_spec (h : Describes r classes listeners) (hc : Consistent classes listeners)
    (document : Nat) (declarations : List Declaration) :
    (Allowed r.loader classes listeners declarations ∧
        (r.declareAll document declarations).1 = none ∧
        Takes r (r.declareAll document declarations).2
          (classes ++ Declaration.classes declarations)
          (listeners ++ Declaration.listeners declarations)
          (declarations.any Declaration.isGlobal)) ∨
      ¬Allowed r.loader classes listeners declarations ∧
        (r.declareAll document declarations).1 ≠ none := by
  induction declarations generalizing r classes listeners with
  | nil =>
      refine Or.inl ⟨⟨by simp, ?_⟩, rfl, ⟨?_, rfl, by simp [declareAll]⟩⟩
      · simpa [Declaration.classes, Declaration.listeners] using hc
      · simpa [Declaration.classes, Declaration.listeners, declareAll] using h
  | cons declaration rest ih =>
      rw [← List.singleton_append, allowed_append, Declaration.classes_append,
        Declaration.listeners_append, ← List.append_assoc, ← List.append_assoc]
      rw [List.singleton_append, declareAll]
      rcases decides_declare h hc document declaration with
        ⟨⟨hsound, hc'⟩, r', hdeclare, htakes⟩ | ⟨hnot, e, hdeclare⟩
      · have hfirst : Allowed r.loader classes listeners [declaration] :=
          ⟨by simpa using hsound, hc'⟩
        rw [hdeclare]
        rcases ih htakes.describes hc' with ⟨hallowed, hnone, htakes'⟩ | ⟨hnot, hsome⟩
        · rw [htakes.loader] at hallowed
          refine Or.inl ⟨⟨hfirst, hallowed⟩, hnone, htakes'.describes,
            htakes'.loader.trans htakes.loader, ?_⟩
          rw [htakes'.globals, htakes.globals, List.any_cons, Bool.or_assoc]
        · rw [htakes.loader] at hnot
          exact Or.inr ⟨fun hall => hnot hall.2, hsome⟩
      · rw [hdeclare]
        refine Or.inr ⟨fun hall => hnot ⟨hall.1.1 declaration (by simp), hall.1.2⟩, by simp⟩

end OverrideRegistry

end PersistenceMapping
