/-
The tables hold what the registry holds.

Adding a document goes through it and enters what it finds; the registry reads what the document
declares and lets it take effect.  Each part of the way through a document comes to what some of the
declarations come to (`Adding.Performs`): both fail for the same reason or neither does, the tables
hold what the registry holds in either case, and the names that have been collected are those that
the registry has for the document.  Parts are put together as the declarations are, one part behind
the other.

So the two tables are in step, although each is entered by itself, and the collected names are the
new ones (`OverrideTables.Holds.add`).
-/
import PersistenceMapping.Override.Tables
import PersistenceMapping.Proofs.Override.Declared

namespace PersistenceMapping

/-- What is registered in a role. -/
def Role.overrideKind : Role → OverrideKind
  | .mappedClass kind _ => .mappedClass kind
  | .listener => .listener

/-- A registration as the table has it. -/
def Registration.entry (registration : Registration) : OverrideEntry :=
  ⟨registration.document, registration.node, registration.role.overrideKind⟩

theorem Registration.entry_kind_iff (registration : Registration) :
    registration.entry.kind = .listener ↔ registration.role = .listener := by
  rw [entry]
  cases registration.role with
  | mappedClass kind defaults => exact iff_of_false nofun nofun
  | listener => exact iff_of_true rfl rfl

/-! ### Parts of adding a document -/

namespace Adding

variable {α β γ : Type} {s : Addition α}

theorem apply_bind (m : Adding α β) (f : β → Adding α γ) (s : Addition α) :
    (m >>= f).apply s =
      match m.apply s with
      | (.ok b, s') => (f b).apply s'
      | (.error e, s') => (.error e, s') := by
  simp only [apply, ExceptT.run_bind, StateT.run_bind]
  rcases StateT.run (ExceptT.run m) s with ⟨e | b, s'⟩ <;> rfl

@[simp] theorem apply_pure (b : β) : (pure b : Adding α β).apply s = (.ok b, s) :=
  rfl

@[simp] theorem apply_get : (get : Adding α (Addition α)).apply s = (.ok s, s) :=
  rfl

@[simp] theorem apply_modify (f : Addition α → Addition α) :
    (modify f : Adding α Unit).apply s = (.ok (), f s) :=
  rfl

@[simp] theorem apply_throw (e : MappingError) :
    (throw e : Adding α β).apply s = (.error e, s) :=
  rfl

theorem apply_liftExcept (result : Except MappingError β) :
    (liftExcept result : Adding α β).apply s = (result, s) := by
  cases result <;> rfl

end Adding

namespace OverrideTables

variable {α β γ : Type} {t : OverrideTables α} {r : OverrideRegistry α} {document : Nat}
  {d : Document} {name : String} {node id : NodeId}

/-! ### Entries -/

/-- Tables and a registry that hold the same. -/
structure Holds (t : OverrideTables α) (r : OverrideRegistry α) : Prop where
  loader : t.loader = r.loader
  documents : t.documents = r.documents
  overrides : ∀ name, t.overrides.lookup name = (r.find? name).map (·.entry)
  defaults : ∀ name, t.defaults.lookup name = (r.find? name).bind (·.defaults?)
  globals : t.globals = r.globals.map (·.defaults)
  defaultListeners : t.defaultListeners = r.defaultListeners
  pending : t.pending = r.pending

/-- A key that is entered is found, and the others are as they were. -/
theorem lookup_cons_eq (key : String) (value : β) (table : List (String × β)) (name : String) :
    ((key, value) :: table).lookup name = if name = key then some value else table.lookup name := by
  rw [List.lookup_cons]
  by_cases h : name = key
  · rw [if_pos h, h, beq_self_eq_true]
  · rw [if_neg h, beq_false_of_ne h]

namespace Holds

theorem enterListener (h : t.Holds r) (hnone : r.find? name = none) (document : Nat)
    (node : NodeId) :
    (t.enterListener name document node).Holds
      { r with registrations := r.registrations ++ [⟨name, document, node, .listener⟩] } where
  loader := h.loader
  documents := h.documents
  overrides other := by
    rw [OverrideRegistry.find?_register r _ hnone]
    refine (lookup_cons_eq _ _ _ _).trans ?_
    rw [h.overrides]
    split <;> rfl
  defaults other := by
    rw [OverrideRegistry.find?_register r _ hnone]
    refine (h.defaults other).trans ?_
    split
    · rename_i heq
      rw [heq, hnone]
      rfl
    · rfl
  globals := h.globals
  defaultListeners := h.defaultListeners
  pending := h.pending

theorem enterClass (h : t.Holds r) (hnone : r.find? name = none) (document : Nat) (node : NodeId)
    (kind : ClassKind) (defaults : MappingDefault) :
    (t.enterClass name document node kind defaults).Holds
      { r with
        registrations :=
          r.registrations ++ [⟨name, document, node, .mappedClass kind defaults⟩] } where
  loader := h.loader
  documents := h.documents
  overrides other := by
    rw [OverrideRegistry.find?_register r _ hnone]
    refine (lookup_cons_eq _ _ _ _).trans ?_
    rw [h.overrides]
    split <;> rfl
  defaults other := by
    rw [OverrideRegistry.find?_register r _ hnone]
    refine (lookup_cons_eq _ _ _ _).trans ?_
    rw [h.defaults]
    split <;> rfl
  globals := h.globals
  defaultListeners := h.defaultListeners
  pending := h.pending

end Holds

theorem namesOf_register (r : OverrideRegistry α) (name : String) (document : Nat) (node : NodeId)
    (role : Role) :
    OverrideRegistry.namesOf
        { r with registrations := r.registrations ++ [⟨name, document, node, role⟩] } document =
      r.namesOf document ++ [name] := by
  simp [OverrideRegistry.namesOf]

/-! ### Parts and declarations -/

/-- What a part of adding a document comes to, and what declarations come to. -/
inductive Matches (document : Nat) :
    Option MappingError × OverrideRegistry α → Except MappingError β × Addition α → Prop
  | ok {r : OverrideRegistry α} {s : Addition α} {b : β} (holds : s.tables.Holds r)
      (added : s.added = r.namesOf document) : Matches document (none, r) (.ok b, s)
  | error {r : OverrideRegistry α} {s : Addition α} {e : MappingError}
      (holds : s.tables.Holds r) : Matches document (some e, r) (.error e, s)

/-- What a part gives does not matter where nothing is made of it. -/
theorem Matches.discard {declared : Option MappingError × OverrideRegistry α} {m : Adding α β}
    {s : Addition α} (h : Matches document declared (m.apply s)) :
    Matches document declared ((m >>= fun _ => pure ()).apply s) := by
  rw [Adding.apply_bind]
  generalize m.apply s = result at h ⊢
  cases h with
  | ok hholds hadded => exact .ok hholds hadded
  | error hholds => exact .error hholds

/-- An access value that is read is declared, and then it is the one that it stands for. -/
theorem Matches.readAccess {written : Option WrittenAccess} {f : Option AccessType → Adding α γ}
    {rest : List Declaration} {s : Addition α} (hholds : s.tables.Holds r)
    (hf : Matches document (r.declareAll document rest)
      ((f (Document.accessType? written)).apply s)) :
    Matches document (r.declareAll document ((written.map Declaration.access).toList ++ rest))
      ((OverrideTables.readAccess written >>= f).apply s) := by
  cases written with
  | none => exact hf
  | some written =>
      have happly : (OverrideTables.readAccess (some written)).apply s = (written.read, s) :=
        Adding.apply_liftExcept _
      rw [Adding.apply_bind, happly, Option.map_some, Option.toList_some, List.singleton_append,
        OverrideRegistry.declareAll, OverrideRegistry.declare]
      rcases hread : written.read with e | access
      · exact .error hholds
      · have haccess : Document.accessType? (some written) = access :=
          (WrittenAccess.eq_of_read hread).symm
        rw [haccess] at hf
        exact hf

/-- A part of adding a document that comes to what declarations come to. -/
def Performs (document : Nat) (m : Adding α β) (declarations : List Declaration) : Prop :=
  ∀ (s : Addition α) (r : OverrideRegistry α), s.tables.Holds r → s.added = r.namesOf document →
    Matches document (r.declareAll document declarations) (m.apply s)

/-- A part that comes to the second declarations, behind one that comes to the first. -/
theorem Matches.bind {m : Adding α β} {f : β → Adding α γ} {first second : List Declaration}
    {s : Addition α} (hm : Matches document (r.declareAll document first) (m.apply s))
    (hf : ∀ b, Performs document (f b) second) :
    Matches document (r.declareAll document (first ++ second)) ((m >>= f).apply s) := by
  rw [OverrideRegistry.declareAll_append, Adding.apply_bind]
  generalize r.declareAll document first = declared at hm ⊢
  generalize m.apply s = result at hm ⊢
  cases hm with
  | ok hholds hadded => exact hf _ _ _ hholds hadded
  | error hholds => exact .error hholds

namespace Performs

theorem pure (b : β) : Performs document (Pure.pure b : Adding α β) [] :=
  fun _ _ hholds hadded => .ok hholds hadded

theorem bind {m : Adding α β} {f : β → Adding α γ} {first second : List Declaration}
    (hm : Performs document m first) (hf : ∀ b, Performs document (f b) second) :
    Performs document (m >>= f) (first ++ second) :=
  fun s r hholds hadded => (hm s r hholds hadded).bind hf

theorem forM {nodes : List β} {f : β → Adding α Unit} {declared : β → List Declaration}
    (h : ∀ b, Performs document (f b) (declared b)) :
    Performs document (nodes.forM f) (nodes.flatMap declared) := by
  induction nodes with
  | nil => exact .pure ()
  | cons b nodes ih =>
      rw [List.flatMap_cons]
      exact (h b).bind fun _ => ih

end Performs

/-! ### Listeners -/

/-- Listeners that are registered one after the other come to what they declare, and the names of
those that are new are collected on the side. -/
theorem foldlM_registerListener (d : Document) (package : Option String) (nodes : List NodeId)
    {registered : List String} {s : Addition α} (hholds : s.tables.Holds r)
    (hadded : s.added ++ registered = r.namesOf document) :
    (∃ registered' s' r',
      (nodes.foldlM (registerListener d document package) registered).apply s =
          (.ok registered', s') ∧
        r.declareAll document (nodes.map fun node =>
          .listener (qualifyClass (d.attributeText node "class") package) node) = (none, r') ∧
        s'.tables.Holds r' ∧ s'.added = s.added ∧
        s.added ++ registered' = r'.namesOf document) ∨
    ∃ e s' r',
      (nodes.foldlM (registerListener d document package) registered).apply s = (.error e, s') ∧
        r.declareAll document (nodes.map fun node =>
          .listener (qualifyClass (d.attributeText node "class") package) node) = (some e, r') ∧
        s'.tables.Holds r' := by
  induction nodes generalizing registered s r with
  | nil => exact Or.inl ⟨registered, s, r, rfl, rfl, hholds, rfl, hadded⟩
  | cons node rest ih =>
      generalize hname : qualifyClass (d.attributeText node "class") package = name
      have hlookup := hholds.overrides name
      rw [List.foldlM_cons, Adding.apply_bind, registerListener, List.map_cons,
        OverrideRegistry.declareAll, OverrideRegistry.declare, hname]
      simp only [Adding.apply_bind, Adding.apply_get]
      rcases hfind : r.find? name with _ | first
      · -- The name is new.
        rw [hfind] at hlookup
        rw [hlookup]
        simp only [Option.map_none, Adding.apply_bind, Adding.apply_modify, Adding.apply_pure]
        refine ih (hholds.enterListener hfind document node) ?_
        rw [namesOf_register, ← hadded, List.append_assoc]
      · rw [hfind] at hlookup
        rw [hlookup]
        simp only [Option.map_some, first.entry_kind_iff]
        by_cases hrole : first.role = .listener
        · rw [if_pos hrole, if_pos hrole]
          exact ih hholds hadded
        · rw [if_neg hrole, if_neg hrole]
          exact Or.inr ⟨_, s, r, rfl, rfl, hholds⟩

/-- Listeners come to what they declare, and give the names that are collected. -/
theorem registerListeners_cases (d : Document) (package : Option String) (id : NodeId)
    {s : Addition α} (hholds : s.tables.Holds r) (hadded : s.added = r.namesOf document) :
    (∃ registered s' r', (registerListeners d document package id).apply s = (.ok registered, s') ∧
      r.declareAll document (d.listeners package id) = (none, r') ∧ s'.tables.Holds r' ∧
      s'.added = s.added ++ registered ∧ s'.added = r'.namesOf document) ∨
    ∃ e s' r', (registerListeners d document package id).apply s = (.error e, s') ∧
      r.declareAll document (d.listeners package id) = (some e, r') ∧ s'.tables.Holds r' := by
  rw [registerListeners, Document.listeners_eq, Document.listenerElements]
  rcases d.optionalChild id "entity-listeners" with _ | below
  · exact Or.inl ⟨[], s, r, rfl, rfl, hholds, (List.append_nil _).symm, hadded⟩
  · rw [Option.toList_some, List.flatMap_singleton]
    simp only [Adding.apply_bind]
    rcases foldlM_registerListener d package (d.childrenTagged below "entity-listener") hholds
        ((List.append_nil s.added).trans hadded) with
      ⟨registered, s', r', happly, hdeclared, hholds', hsame, hnames⟩ |
        ⟨e, s', r', happly, hdeclared, hholds'⟩
    · rw [happly]
      refine Or.inl ⟨registered, _, r', rfl, hdeclared, hholds', ?_, ?_⟩
      · exact congrArg (· ++ registered) hsame
      · exact (congrArg (· ++ registered) hsame).trans hnames
    · rw [happly]
      exact Or.inr ⟨e, s', r', rfl, hdeclared, hholds'⟩

theorem performs_registerListeners (d : Document) (package : Option String) (id : NodeId) :
    Performs document (registerListeners d document package id : Adding α (List String))
      (d.listeners package id) := by
  intro s r hholds hadded
  rcases registerListeners_cases d package id hholds hadded with
    ⟨registered, s', r', happly, hdeclared, hholds', -, hnames⟩ |
      ⟨e, s', r', happly, hdeclared, hholds'⟩
  · rw [happly, hdeclared]
    exact .ok hholds' hnames
  · rw [happly, hdeclared]
    exact .error hholds'

/-! ### Classes and converters -/

/-- What the element of a class sets over the defaults of its document. -/
theorem overriddenBy_classDefaults (d : Document) (unit : MappingDefault) (node : NodeId) :
    unit.overriddenBy (d.classDefaults node) =
      { unit with
        metadataComplete := ((d.attribute? node "metadata-complete").filter (!·.isEmpty)).map
          (equalsIgnoringCase · "true") <|> unit.metadataComplete
        access := AccessType.ofText? (d.attributeText node "access") <|> unit.access } := by
  simp [MappingDefault.overriddenBy, Document.classDefaults]

theorem performs_registerClass (d : Document) (unit : MappingDefault) (kind : ClassKind)
    (node : NodeId) :
    Performs document (registerClass d document unit kind node : Adding α Unit)
      (d.classDeclarations unit kind node) := by
  intro s r hholds hadded
  rw [Document.classDeclarations, OverrideRegistry.declareAll, OverrideRegistry.declare,
    overriddenBy_classDefaults, registerClass]
  have hlookup := hholds.overrides (qualifyClass (d.attributeText node "class") unit.package)
  have hread : (readAccess (some (d.attributeAccess node)) : Adding α _).apply s =
      ((d.attributeAccess node).read, s) := Adding.apply_liftExcept _
  rcases hfind : r.find? (qualifyClass (d.attributeText node "class") unit.package) with _ | first
  · rw [hfind] at hlookup
    simp only [Adding.apply_bind, Adding.apply_get, hlookup, Option.map_none, Option.isSome_none,
      Bool.false_eq_true, if_false, Adding.apply_pure, Adding.apply_modify, hread]
    rcases hok : (d.attributeAccess node).read with e | access
    · exact .error hholds
    · -- The class is entered with its defaults, and then it is for its listeners to be.
      rw [WrittenAccess.eq_of_read hok]
      have hentered := hholds.enterClass hfind document node kind
        (unit.overriddenBy (d.classDefaults node))
      rw [overriddenBy_classDefaults] at hentered
      have hlisteners := (performs_registerListeners d unit.package node
        ⟨_, s.added ++ [qualifyClass (d.attributeText node "class") unit.package]⟩ _ hentered
        (by rw [namesOf_register, hadded])).discard
      rwa [Adding.apply_bind] at hlisteners
  · rw [hfind] at hlookup
    simp only [Adding.apply_bind, Adding.apply_get, hlookup, Option.map_some, Option.isSome_some,
      if_true, Adding.apply_throw]
    exact .error hholds

theorem performs_registerConverter (d : Document) (node : NodeId) :
    Performs document (registerConverter d node : Adding α Unit)
      [.converter (d.attributeText node "class")
        (equalsIgnoringCase (d.attributeText node "auto-apply") "true")] := by
  intro s r hholds hadded
  rw [OverrideRegistry.declareAll, OverrideRegistry.declare, registerConverter]
  simp only [Adding.apply_bind, Adding.apply_get, Adding.apply_liftExcept, Adding.apply_modify,
    hholds.loader]
  rcases r.loader.resolve (d.attributeText node "class")
    (equalsIgnoringCase (d.attributeText node "auto-apply") "true") with e | converter
  · exact .error hholds
  · refine .ok ?_ hadded
    exact { hholds with pending := congrArg (· ++ [converter]) hholds.pending }

/-! ### Documents -/

/-- Where none counts yet, metadata comes to what it declares, and its listeners are all that the
document has registered. -/
theorem matches_registerMetadata (d : Document) (metadata : NodeId) {s : Addition α}
    (hholds : s.tables.Holds r) (hadded : s.added = r.namesOf document)
    (hnone : r.globals = none) (hnew : r.namesOf document = []) :
    Matches document (r.declareAll document (d.metadataDeclarations metadata))
      ((registerMetadata d document metadata).apply s) := by
  have hempty : ∀ r' : OverrideRegistry α, r'.globals = none → r'.defaultListeners = [] := by
    intro r' hnone'
    rw [OverrideRegistry.defaultListeners, hnone']
    rfl
  rw [registerMetadata, Document.metadataDeclarations]
  rcases d.optionalChild metadata "persistence-unit-defaults" with _ | unit
  · refine .ok { hholds with globals := rfl, defaultListeners := ?_ } hadded
    exact (hholds.defaultListeners.trans (hempty r hnone)).trans hnew.symm
  · simp only [List.append_assoc]
    refine Matches.readAccess hholds ?_
    rw [OverrideRegistry.declareAll_append, Adding.apply_bind]
    rcases registerListeners_cases d none unit hholds hadded with
      ⟨registered, s', r', happly, hdeclared, hholds', hcollected, hnames⟩ |
        ⟨e, s', r', happly, hdeclared, hholds'⟩
    · have hnone' : r'.globals = none :=
        ((OverrideRegistry.effect_declareAll hdeclared).globals
          (d.any_isGlobal_listeners none unit)).trans hnone
      rw [happly, hdeclared]
      refine .ok { hholds' with globals := rfl, defaultListeners := ?_ } hnames
      show s'.tables.defaultListeners ++ registered = r'.namesOf document
      rw [hholds'.defaultListeners, hempty r' hnone', ← hnames, hcollected, hadded, hnew]
    · rw [happly, hdeclared]
      exact .error hholds'

/-- What is declared for the classes of all documents counts if no other document has declared
any. -/
theorem matches_registerGlobal (d : Document) (root : NodeId) {s : Addition α}
    (hholds : s.tables.Holds r) (hadded : s.added = r.namesOf document)
    (hnew : r.namesOf document = []) :
    Matches document
      (r.declareAll document (if r.globals.isSome then [] else d.globalDeclarations root))
      ((registerGlobal d document root).apply s) := by
  rw [Document.globalDeclarations, registerGlobal]
  rcases d.optionalChild root "persistence-unit-metadata" with _ | metadata
  · rw [Option.map_none, Option.getD_none, ite_self]
    exact .ok hholds hadded
  · rw [Adding.apply_bind, Adding.apply_get]
    rcases hglobals : r.globals with _ | globals
    · have hnone : s.tables.globals.isNone = true := by rw [hholds.globals, hglobals]; rfl
      simp only [hnone, if_true]
      exact matches_registerMetadata d metadata hholds hadded hglobals hnew
    · have hsome : s.tables.globals.isNone = false := by rw [hholds.globals, hglobals]; rfl
      simp only [hsome, Bool.false_eq_true, if_false]
      exact .ok hholds hadded

theorem performs_registerUnit (d : Document) (root : NodeId) :
    Performs document (registerUnit d document root : Adding α Unit) (d.unitDeclarations root) := by
  intro s r hholds hadded
  rw [Document.unitDeclarations, List.append_assoc]
  refine Matches.readAccess hholds (Performs.bind ?_ (fun _ => ?_) s r hholds hadded)
  · exact .forM fun kind => .forM fun node => performs_registerClass d _ kind node
  · rw [Document.converterDeclarations, List.map_eq_flatMap]
    exact .forM fun node => performs_registerConverter d node

/-- Tables that hold what a registry holds are answered a document as the registry is, and then hold
what it holds, whether or not the document is accepted. -/
theorem Holds.add (h : t.Holds r) (hnew : r.namesOf r.documents.size = []) (d : Document) :
    (t.add d).1 = (r.add d).1 ∧ (t.add d).2.Holds (r.add d).2 := by
  have hkept : ∀ {t' : OverrideTables α} {r' : OverrideRegistry α}, t'.Holds r' →
      OverrideTables.Holds { t' with documents := t'.documents.push d }
        { r' with documents := r'.documents.push d } := fun h' =>
    { h' with documents := congrArg (·.push d) h'.documents }
  rw [OverrideTables.add, OverrideRegistry.add, register, h.documents]
  rcases d.rootElement? with _ | root
  · exact ⟨rfl, hkept h⟩
  · have hglobal : Matches r.documents.size _
        ((registerGlobal d r.documents.size root).apply { tables := t }) :=
      matches_registerGlobal d root h hnew.symm hnew
    have hmatches := hglobal.bind fun _ => performs_registerUnit d root
    rw [← OverrideRegistry.declarationsOf] at hmatches
    dsimp only
    generalize r.declareAll r.documents.size (r.declarationsOf d root) = declared at hmatches ⊢
    generalize Adding.apply _ _ = result at hmatches ⊢
    cases hmatches with
    | ok hholds hadded => exact ⟨congrArg Except.ok hadded, hkept hholds⟩
    | error hholds => exact ⟨rfl, hkept hholds⟩

/-! ### Looking up -/

theorem Holds.kind? (h : t.Holds r) (name : String) :
    t.kind? name = (r.find? name).map (·.role.overrideKind) := by
  rw [OverrideTables.kind?, h.overrides, Option.map_map]
  rfl

theorem Holds.element? (h : t.Holds r) (name : String) : t.element? name = r.element? name := by
  rw [OverrideTables.element?, OverrideRegistry.element?, h.overrides, h.documents]
  cases r.find? name <;> rfl

theorem Holds.defaultsOf (h : t.Holds r) (name : Option String) :
    t.defaultsOf name = r.defaultsOf name := by
  rw [OverrideTables.defaultsOf, OverrideRegistry.defaultsOf, h.globals]
  cases name with
  | none => rfl
  | some name => rw [Option.bind_some, Option.bind_some, h.defaults]

/-- Classes are what has defaults. -/
theorem Holds.isSome_defaults_iff (h : t.Holds r) (name : String) :
    (t.defaults.lookup name).isSome = true ↔
      ∃ kind, t.kind? name = some kind ∧ kind ≠ .listener := by
  rw [h.defaults, h.kind?]
  rcases r.find? name with _ | registration
  · exact iff_of_false nofun nofun
  · rw [Option.bind_some, Registration.defaults?, Option.map_some]
    cases registration.role with
    | mappedClass kind defaults => exact iff_of_true rfl ⟨_, rfl, nofun⟩
    | listener => exact iff_of_false nofun fun ⟨_, hkind, hne⟩ => hne (Option.some.inj hkind).symm

/-! ### Histories -/

/-- The tables after documents were added to new ones. -/
def after (loader : ClassLoader α) (documents : List Document) : OverrideTables α :=
  documents.foldl (fun t d => (t.add d).2) { loader }

theorem after_concat (loader : ClassLoader α) (documents : List Document) (d : Document) :
    after loader (documents ++ [d]) = ((after loader documents).add d).2 := by
  rw [after, List.foldl_concat]
  rfl

end OverrideTables

end PersistenceMapping
