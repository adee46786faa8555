/-
What becomes of the converters.

Converters are declared last in a document, so a document comes to its converters only if all
that it declares before them stands.  They are then made one after the other, up to the first
that the class loader does not give; those that have been made stay pending even if the document
is not accepted.  `Yields` says this of one call.

Over a run, nobody takes a converter twice and none is lost: what has been taken, followed by
what is pending, is what the calls yielded, one call after the other (`Session.Accounts`).  Adding
a document extends the second part, and taking moves all of it to the first, so that nothing is left
to be taken again (`delivers_after`).
-/
import Mathlib.Data.List.Induction
import PersistenceMapping.Proofs.Override.Registered
import PersistenceMapping.Proofs.Override.Registration

namespace PersistenceMapping

/-- A converter that is made by a class loader as an element declares it. -/
structure MadeAs {α : Type} (loader : ClassLoader α) (d : Document) (node : NodeId)
    (converter : Converter α) : Prop where
  className : converter.className = d.attributeText node "class"
  autoApply : converter.autoApply = true ↔ (d.attributeText node "auto-apply").toLower = "true"
  value : loader converter.className = .ok (.ok converter.value)

namespace Document

/-- The elements that declare converters, in their order. -/
def converterElements (d : Document) (root : NodeId) : List NodeId :=
  d.childrenTagged root "converter"

/-- The converter that an element declares. -/
def converterDeclaration (d : Document) (node : NodeId) : Declaration :=
  .converter (d.attributeText node "class")
    (equalsIgnoringCase (d.attributeText node "auto-apply") "true")

theorem converterDeclarations_eq (d : Document) (root : NodeId) :
    d.converterDeclarations root = (d.converterElements root).map d.converterDeclaration :=
  rfl

end Document

namespace ClassLoader

variable {α : Type} {loader : ClassLoader α} {className : String} {autoApply : Bool}

theorem resolve_eq_ok {converter : Converter α}
    (h : loader.resolve className autoApply = .ok converter) :
    converter.className = className ∧ converter.autoApply = autoApply ∧
      loader className = .ok (.ok converter.value) := by
  unfold resolve at h
  rcases hload : loader className with failure | made
  · rw [hload] at h
    cases h
  rcases made with reason | value
  · rw [hload] at h
    cases h
  · rw [hload] at h
    cases h
    exact ⟨rfl, rfl, rfl⟩

end ClassLoader

namespace MappingError

/-- Whether a converter is what cannot be made. -/
def ofConverter : MappingError → Bool
  | converter .. => true
  | _ => false

theorem ofConverter_of_read {written : WrittenAccess} {e : MappingError}
    (h : written.read = .error e) : e.ofConverter = false := by
  unfold WrittenAccess.read at h
  by_cases hempty : written.value.isEmpty = true
  · rw [if_pos hempty] at h
    cases h
  rw [if_neg hempty] at h
  rcases haccess : AccessType.ofText? written.value with _ | access
  · rw [haccess] at h
    cases h
    rfl
  · rw [haccess] at h
    cases h

end MappingError

/-- Whether a converter is declared. -/
def Declaration.isConverter : Declaration → Bool
  | converter .. => true
  | _ => false

namespace OverrideRegistry

variable {α : Type} {declaration : Declaration}

/-! ### What one call yields -/

/-- What a document declares before its converters. -/
def declarationsBefore (r : OverrideRegistry α) (d : Document) (root : NodeId) :
    List Declaration :=
  (if r.globals.isSome then [] else d.globalDeclarations root)
    ++ (((d.childAccess? root).map Declaration.access).toList
      ++ (d.classElements root).flatMap fun (kind, node) =>
        d.classDeclarations (d.unitDefaults root) kind node)

theorem declarationsOf_eq (r : OverrideRegistry α) (d : Document) (root : NodeId) :
    r.declarationsOf d root =
      r.declarationsBefore d root ++ (d.converterElements root).map d.converterDeclaration := by
  rw [declarationsOf, Document.unitDeclarations_eq, declarationsBefore,
    Document.converterDeclarations_eq, List.append_assoc, List.append_assoc, List.append_assoc]

/-- The converters that a document adds to those that are pending, where the outcome is what the
document is answered with. -/
inductive Yields (r : OverrideRegistry α) (d : Document) :
    Except MappingError (List String) → List (Converter α) → Prop
  /-- All that are declared. -/
  | all {root : NodeId} {names : List String} {converters : List (Converter α)}
      (rooted : d.rootElement? = some root)
      (made : List.Forall₂ (MadeAs r.loader d) (d.converterElements root) converters) :
      Yields r d (.ok names) converters
  /-- Those before the first that cannot be made. -/
  | first {root node : NodeId} {before after : List NodeId} {e : MappingError}
      {converters : List (Converter α)} (rooted : d.rootElement? = some root)
      (declared : d.converterElements root = before ++ node :: after)
      (made : List.Forall₂ (MadeAs r.loader d) before converters)
      (failed : r.loader.resolve (d.attributeText node "class")
        (equalsIgnoringCase (d.attributeText node "auto-apply") "true") = .error e) :
      Yields r d (.error e) converters
  /-- None, as something that is declared before them does not stand. -/
  | none {root : NodeId} {e : MappingError} (rooted : d.rootElement? = some root)
      (failed : (r.declareAll r.documents.size (r.declarationsBefore d root)).1 = some e)
      (other : e.ofConverter = false) : Yields r d (.error e) []
  /-- None, as there is no root element. -/
  | rootless (hroot : d.rootElement? = Option.none) :
      Yields r d (.error (.tree (.invalidOperation .noRoot))) []

/-! ### Before the converters -/

/-- A declaration of something else stands and leaves the pending converters as they are, or it
fails for a reason of its own. -/
theorem declare_other (r : OverrideRegistry α) (document : Nat)
    (hother : declaration.isConverter = false) :
    (∃ r', r.declare document declaration = .ok r' ∧ r'.pending = r.pending) ∨
      ∃ e, r.declare document declaration = .error e ∧ e.ofConverter = false := by
  cases declaration with
  | access written =>
      rw [declare]
      rcases hread : written.read with e | access
      · exact Or.inr ⟨e, rfl, MappingError.ofConverter_of_read hread⟩
      · exact Or.inl ⟨r, rfl, rfl⟩
  | listener name node =>
      rw [declare]
      rcases r.find? name with _ | first
      · exact Or.inl ⟨_, rfl, rfl⟩
      · by_cases hrole : first.role = .listener
        · exact Or.inl ⟨r, if_pos hrole, rfl⟩
        · exact Or.inr ⟨_, if_neg hrole, rfl⟩
  | globals defaults => exact Or.inl ⟨_, rfl, rfl⟩
  | mappedClass name node kind written defaults =>
      rw [declare]
      by_cases hknown : (r.find? name).isSome = true
      · exact Or.inr ⟨_, if_pos hknown, rfl⟩
      rw [if_neg hknown]
      rcases hread : written.read with e | access
      · exact Or.inr ⟨e, rfl, MappingError.ofConverter_of_read hread⟩
      · exact Or.inl ⟨_, rfl, rfl⟩
  | converter => cases hother

/-- Declarations of something else leave the pending converters as they are, whether or not all of
them stand, and the first that does not fails for a reason of its own. -/
theorem declareAll_other {declarations : List Declaration} (r : OverrideRegistry α)
    (document : Nat) (hother : declarations.any Declaration.isConverter = false) :
    (r.declareAll document declarations).2.pending = r.pending ∧
      ∀ e, (r.declareAll document declarations).1 = some e → e.ofConverter = false := by
  induction declarations generalizing r with
  | nil => exact ⟨rfl, fun e h => by cases h⟩
  | cons declaration rest ih =>
      rw [List.any_cons, Bool.or_eq_false_iff] at hother
      rcases r.declare_other document hother.1 with ⟨r₁, hdeclare, hpending⟩ | ⟨e, hdeclare, he⟩
      · rw [declareAll, hdeclare, ← hpending]
        exact ih r₁ hother.2
      · rw [declareAll, hdeclare]
        refine ⟨rfl, fun e' h => ?_⟩
        cases h
        exact he

theorem any_isConverter_listeners (d : Document) (package : Option String) (node : NodeId) :
    (d.listeners package node).any Declaration.isConverter = false := by
  rw [Document.listeners]
  cases d.optionalChild node "entity-listeners" <;> simp [Declaration.isConverter]

theorem any_isConverter_globalDeclarations (d : Document) (root : NodeId) :
    (d.globalDeclarations root).any Declaration.isConverter = false := by
  rw [Document.globalDeclarations]
  rcases d.optionalChild root "persistence-unit-metadata" with _ | metadata
  · rfl
  rw [Option.map_some, Option.getD_some, Document.metadataDeclarations]
  cases d.optionalChild metadata "persistence-unit-defaults" with
  | none => rfl
  | some unit =>
      cases d.childAccess? unit <;> simp [any_isConverter_listeners, Declaration.isConverter]

theorem any_isConverter_declarationsBefore (r : OverrideRegistry α) (d : Document)
    (root : NodeId) : (r.declarationsBefore d root).any Declaration.isConverter = false := by
  rw [declarationsBefore, List.any_append, List.any_append, List.any_flatMap, Bool.or_eq_false_iff]
  constructor
  · split
    · rfl
    · exact any_isConverter_globalDeclarations d root
  · cases d.childAccess? root <;>
      simp [Document.classDeclarations, any_isConverter_listeners, Declaration.isConverter]

/-! ### The converters -/

/-- Converters are made up to the first that cannot be, and those that are made are pending. -/
theorem declareAll_converters (r : OverrideRegistry α) (document : Nat) (d : Document)
    (nodes : List NodeId) :
    (∃ converters, r.declareAll document (nodes.map d.converterDeclaration) =
        (none, { r with pending := r.pending ++ converters }) ∧
      List.Forall₂ (MadeAs r.loader d) nodes converters) ∨
    ∃ before node after e converters, nodes = before ++ node :: after ∧
      r.declareAll document (nodes.map d.converterDeclaration) =
        (some e, { r with pending := r.pending ++ converters }) ∧
      List.Forall₂ (MadeAs r.loader d) before converters ∧
      r.loader.resolve (d.attributeText node "class")
        (equalsIgnoringCase (d.attributeText node "auto-apply") "true") = .error e := by
  induction nodes generalizing r with
  | nil => exact Or.inl ⟨[], by rw [List.append_nil]; rfl, .nil⟩
  | cons node rest ih =>
      rw [List.map_cons, declareAll, Document.converterDeclaration, declare]
      rcases hmade : r.loader.resolve (d.attributeText node "class")
        (equalsIgnoringCase (d.attributeText node "auto-apply") "true") with e | converter
      · exact Or.inr ⟨[], node, rest, e, [], rfl, by rw [List.append_nil]; rfl, .nil, hmade⟩
      have hfirst : MadeAs r.loader d node converter := by
        obtain ⟨hname, hauto, hvalue⟩ := ClassLoader.resolve_eq_ok hmade
        exact ⟨hname, hauto ▸ equalsIgnoringCase_true, hname ▸ hvalue⟩
      rcases ih { r with pending := r.pending ++ [converter] } with
        ⟨converters, hall, hrest⟩ | ⟨before, last, after, e, converters, rfl, hall, hrest, he⟩
      · refine Or.inl ⟨converter :: converters, ?_, .cons hfirst hrest⟩
        rw [List.append_assoc] at hall
        exact hall
      · refine Or.inr ⟨node :: before, last, after, e, converter :: converters, rfl, ?_,
          .cons hfirst hrest, he⟩
        rw [List.append_assoc] at hall
        exact hall

/-- A call adds to the pending converters what it yields. -/
theorem exists_yields (r : OverrideRegistry α) (d : Document) :
    ∃ converters, Yields r d (r.add d).1 converters ∧
      (r.add d).2.pending = r.pending ++ converters := by
  rcases hroot : d.rootElement? with _ | root
  · have hadd : r.add d = (.error (.tree (.invalidOperation .noRoot)),
        { r with documents := r.documents.push d }) := by simp only [add, hroot]
    rw [hadd]
    exact ⟨[], .rootless hroot, (List.append_nil _).symm⟩
  obtain ⟨hpending, hplain⟩ :=
    r.declareAll_other r.documents.size (r.any_isConverter_declarationsBefore d root)
  have hall := r.declareAll_append r.documents.size (r.declarationsBefore d root)
    ((d.converterElements root).map d.converterDeclaration)
  rw [← declarationsOf_eq] at hall
  rcases hbefore : r.declareAll r.documents.size (r.declarationsBefore d root) with ⟨_ | e, r₁⟩
  · -- The document comes to its converters.
    have hloader : r₁.loader = r.loader := (effect_declareAll hbefore).loader
    rw [hbefore] at hall hpending
    simp only at hall hpending
    rcases r₁.declareAll_converters r.documents.size d (d.converterElements root) with
      ⟨converters, hdeclare, hmade⟩ | ⟨before, node, after, e, converters, hsplit, hdeclare, hmade, he⟩
    · rw [hloader] at hmade
      rw [hdeclare] at hall
      refine ⟨converters, ?_, ?_⟩
      · simp only [add, hroot, hall]
        exact .all hroot hmade
      · simp only [add, hroot, hall, hpending]
    · rw [hloader] at hmade he
      rw [hdeclare] at hall
      refine ⟨converters, ?_, ?_⟩
      · simp only [add, hroot, hall]
        exact .first hroot hsplit hmade he
      · simp only [add, hroot, hall, hpending]
  · rw [hbefore] at hall hpending hplain
    simp only at hall hpending
    refine ⟨[], ?_, ?_⟩
    · simp only [add, hroot, hall]
      exact .none hroot (by rw [hbefore]) (hplain e rfl)
    · simp only [add, hroot, hall, hpending, List.append_nil]

end OverrideRegistry

/-! ### A run of calls -/

/-- What may be called on a registry. -/
inductive RegistryCall where
  | add (d : Document)
  | drain

/-- The document that is added, if one is. -/
def RegistryCall.document? : RegistryCall → Option Document
  | add d => some d
  | drain => none

/-- A registry and what has happened to it. -/
structure Session (α : Type) where
  registry : OverrideRegistry α
  /-- The converters that have been taken, in the order in which they were handed over. -/
  taken : List (Converter α) := []
  /-- The documents that have been added, each with the registry that it came to. -/
  added : List (OverrideRegistry α × Document) := []

namespace Session

variable {α : Type}

/-- The session after one more call. -/
def call (s : Session α) : RegistryCall → Session α
  | .add d => { s with registry := (s.registry.add d).2, added := s.added ++ [(s.registry, d)] }
  | .drain =>
    { s with registry := s.registry.drain.2, taken := s.taken ++ s.registry.drain.1 }

/-- The session after some calls on a new registry. -/
def after (loader : ClassLoader α) (calls : List RegistryCall) : Session α :=
  calls.foldl call { registry := { loader } }

theorem after_concat (loader : ClassLoader α) (calls : List RegistryCall) (last : RegistryCall) :
    after loader (calls ++ [last]) = (after loader calls).call last := by
  rw [after, List.foldl_append]
  rfl

/-- The documents yielded these converters, one after the other, and they are those that have been
taken and then those that are pending. -/
structure Accounts (s : Session α) (yielded : List (List (Converter α))) : Prop where
  yields : List.Forall₂ (fun call converters => call.1.Yields call.2 (call.1.add call.2).1 converters)
    s.added yielded
  delivered : s.taken ++ s.registry.pending = yielded.flatten

/-- Adding a document extends what is pending. -/
theorem Accounts.add {s : Session α} {yielded : List (List (Converter α))} (h : s.Accounts yielded)
    (d : Document) : ∃ converters, (s.call (.add d)).Accounts (yielded ++ [converters]) := by
  obtain ⟨converters, hconverters, hpending⟩ := s.registry.exists_yields d
  refine ⟨converters, List.rel_append h.yields (.cons hconverters .nil), ?_⟩
  have hadded : (s.call (.add d)).taken ++ (s.call (.add d)).registry.pending =
      s.taken ++ (s.registry.pending ++ converters) := congrArg (s.taken ++ ·) hpending
  rw [hadded, ← List.append_assoc, h.delivered, List.flatten_append, List.flatten_singleton]

/-- Taking moves all that is pending to what has been taken. -/
theorem Accounts.drain {s : Session α} {yielded : List (List (Converter α))}
    (h : s.Accounts yielded) :
    (s.call .drain).Accounts yielded ∧ (s.call .drain).taken = yielded.flatten ∧
      (s.call .drain).registry.pending = [] := by
  have htaken : (s.call .drain).taken = yielded.flatten := h.delivered
  exact ⟨⟨h.yields, (List.append_nil _).trans htaken⟩, htaken, rfl⟩

/-- What becomes of the converters over some calls on a new registry. -/
structure Delivers (loader : ClassLoader α) (calls : List RegistryCall) : Prop where
  /-- The documents are added in the order of the calls. -/
  added : (after loader calls).added.map (·.2) = calls.filterMap RegistryCall.document?
  /-- What the documents yielded has been taken or is pending, and taking gets the rest of it. -/
  delivered : ∃ yielded, (after loader calls).Accounts yielded ∧
    (after loader (calls ++ [.drain])).taken = yielded.flatten
  /-- Once taken, nothing is left to be taken. -/
  drained : (after loader (calls ++ [.drain])).registry.pending = [] ∧
    (after loader (calls ++ [.drain, .drain])).taken = (after loader (calls ++ [.drain])).taken
  /-- Adding a document takes nothing. -/
  kept : ∀ d, (after loader (calls ++ [.add d])).taken = (after loader calls).taken

theorem exists_accounts (loader : ClassLoader α) (calls : List RegistryCall) :
    ∃ yielded, (after loader calls).Accounts yielded := by
  induction calls using List.reverseRecOn with
  | nil => exact ⟨[], .nil, rfl⟩
  | append_singleton calls last ih =>
      obtain ⟨yielded, haccounts⟩ := ih
      rw [after_concat]
      cases last with
      | add d =>
          obtain ⟨converters, hadded⟩ := haccounts.add d
          exact ⟨_, hadded⟩
      | drain => exact ⟨yielded, haccounts.drain.1⟩

theorem added_after (loader : ClassLoader α) (calls : List RegistryCall) :
    (after loader calls).added.map (·.2) = calls.filterMap RegistryCall.document? := by
  induction calls using List.reverseRecOn with
  | nil => rfl
  | append_singleton calls last ih =>
      rw [after_concat, List.filterMap_append, ← ih]
      cases last with
      | add d => exact List.map_append
      | drain => exact (List.append_nil _).symm

/-- **Converters are handed over once and in order**, whatever is called and whether or not the
documents are accepted. -/
theorem delivers_after (loader : ClassLoader α) (calls : List RegistryCall) :
    Delivers loader calls where
  added := added_after loader calls
  delivered := by
    obtain ⟨yielded, haccounts⟩ := exists_accounts loader calls
    rw [after_concat]
    exact ⟨yielded, haccounts, haccounts.drain.2.1⟩
  drained := by
    obtain ⟨yielded, haccounts⟩ := exists_accounts loader calls
    obtain ⟨hdrained, htaken, hpending⟩ := haccounts.drain
    have hsplit : calls ++ [.drain, .drain] = calls ++ [.drain] ++ [.drain] :=
      (List.append_assoc calls [.drain] [.drain]).symm
    rw [hsplit, after_concat loader (calls ++ [RegistryCall.drain]), after_concat]
    exact ⟨hpending, hdrained.drain.2.1.trans htaken.symm⟩
  kept d := by
    rw [after_concat]
    rfl

/-- What a document declared before the converter that failed it is handed over as well, and only
once. -/
theorem delivers_after_failing :
    let declaring (first second : String) : Document := [.createElement "entity-mappings",
      .append 0 1, .createElement "converter", .setAttribute 2 "class" first,
      .setAttribute 2 "auto-apply" "true", .append 1 2, .createElement "converter",
      .setAttribute 3 "class" second, Request.append 1 3].foldl
        (fun d request => request.perform d) (.empty)
    let loader : ClassLoader String := fun name =>
      if name = "X" then .error (.notFound name) else .ok (.ok name)
    let calls : List RegistryCall := [.add (declaring "A" "B"), .drain, .add (declaring "C" "X")]
    let failed := after loader calls
    ((after loader (calls.take 2)).registry.add (declaring "C" "X")).1 =
        .error (.converter .locate "X" "class X not found") ∧
      failed.taken = [⟨"A", true, "A"⟩, ⟨"B", false, "B"⟩] ∧
      failed.registry.pending = [⟨"C", true, "C"⟩] ∧
      (after loader (calls ++ [.drain, .drain])).taken =
        [⟨"A", true, "A"⟩, ⟨"B", false, "B"⟩, ⟨"C", true, "C"⟩] := by
  intro declaring loader calls failed
  obtain ⟨hadded, htaken, hpending⟩ :
      ((after loader (calls.take 2)).registry.add (declaring "C" "X")).1 =
          .error (.converter .locate "X" "class X not found") ∧
        failed.taken = [⟨"A", true, "A"⟩, ⟨"B", false, "B"⟩] ∧
        failed.registry.pending = [⟨"C", true, "C"⟩] := by
    decide +kernel
  clear_value declaring loader
  have hdelivers := delivers_after loader calls
  obtain ⟨yielded, haccounts, hdrain⟩ := hdelivers.delivered
  have hall := haccounts.delivered
  refine ⟨hadded, htaken, hpending, ?_⟩
  rw [hdelivers.drained.2, hdrain, ← hall]
  show failed.taken ++ failed.registry.pending = _
  rw [htaken, hpending]
  rfl

end Session

end PersistenceMapping
