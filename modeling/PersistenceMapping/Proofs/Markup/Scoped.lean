/-
The scope of a reader, and the attributes that it comes from.

A reader keeps the bindings of the open elements on a stack, each with the level on which it was
made.  What it binds are values as they are written, references and all (`Binds`).  These are the
values of the attributes where there are no references in declarations
(`RawAttribute.DeclaresLiterally`).

So a scope is nothing more than what is written for attributes in the open elements (`Scope.of`):
entering a tag puts its attributes on top, leaving it takes them away again, and a name is resolved
by the innermost of them that declares its prefix.
-/
import PersistenceMapping.Proofs.Markup.Decoded
import PersistenceMapping.Proofs.Token.Scoped

namespace PersistenceMapping

/-! ### Names that declare -/

namespace Attribute

variable {a : Attribute} {qualifier : String}

theorem split_xmlns (qualifier : String) :
    QName.split ("xmlns:" ++ qualifier) = (some "xmlns", qualifier) := by
  have hname : "xmlns:" ++ qualifier = "xmlns" ++ ":" ++ qualifier := by
    rw [← String.toList_inj]
    simp
  rw [hname]
  exact QName.split_qualified (by decide) qualifier

theorem declared?_of_plain (h : a.name = "xmlns") : a.declared? = some none := by
  rw [declared?, if_pos h]

/-- What a name behind the prefix `xmlns` declares. -/
theorem declared?_of_qualified (h : a.name = "xmlns:" ++ qualifier) :
    a.declared? =
      if qualifier = "xml" then none else if qualifier = "" then some none
      else some (some qualifier) := by
  have hne : "xmlns:" ++ qualifier ≠ "xmlns" := by
    intro heq
    simpa using congrArg String.toList heq
  rw [declared?, qualifier?, QName.qualifier?, localName, QName.localName, h, if_neg hne,
    split_xmlns, if_pos rfl]

/-- Other names but `xmlns` itself do not declare anything. -/
theorem declared?_of_other (h : a.name ≠ "xmlns")
    (h' : ∀ qualifier, a.name ≠ "xmlns:" ++ qualifier) : a.declared? = none := by
  have hnot : ¬ a.qualifier? = some "xmlns" := by
    intro hqualifier
    have hjoin := QName.join_split a.name
    rw [show (QName.split a.name).1 = some "xmlns" from hqualifier] at hjoin
    exact h' _ (hjoin.symm.trans rfl)
  rw [declared?, if_neg h, if_neg hnot]

theorem permitted_of_qualified (h : a.name = "xmlns:" ++ qualifier)
    (hxml : qualifier = "xml" → a.value = Markup.xmlNamespace)
    (hother : qualifier ≠ "xml" → qualifier ≠ "xmlns" ∧ a.value ≠ Markup.xmlNamespace ∧
      a.value ≠ Markup.xmlnsNamespace) : a.Permitted := by
  intro qualifier' h'
  obtain rfl : qualifier = qualifier' := by
    rw [h, ← String.toList_inj, String.toList_append, String.toList_append] at h'
    exact String.toList_inj.mp (List.append_cancel_left h')
  exact ⟨hxml, hother⟩

end Attribute

namespace Markup

open RawText (ofString)

/-- A raw attribute declares what its name says as text. -/
theorem declared?_cases (a : Attribute) :
    (a.name = "xmlns" ∧ declared? (ofString a.name) = some .default) ∨
      (∃ q, a.name = "xmlns:" ++ q ∧ declared? (ofString a.name) = some (.qualifier (ofString q))) ∨
      (a.name ≠ "xmlns" ∧ (∀ q, a.name ≠ "xmlns:" ++ q) ∧ declared? (ofString a.name) = none) := by
  by_cases h : a.name = "xmlns"
  · exact Or.inl ⟨h, by rw [h]; decide⟩
  by_cases h' : ∃ q, a.name = "xmlns:" ++ q
  · obtain ⟨q, hq⟩ := h'
    refine Or.inr (Or.inl ⟨q, hq, ?_⟩)
    have hafter : RawText.after? "xmlns".toList (ofString a.name) =
        some (.char ':' :: ofString q) := by
      rw [RawText.after?_eq_some_iff, hq]
      simp [ofString]
    rw [declared?, hafter]
    rfl
  · rw [not_exists] at h'
    refine Or.inr (Or.inr ⟨h, h', ?_⟩)
    rcases hd : declared? (ofString a.name) with _ | _ | qualifier
    · rfl
    · unfold declared? at hd
      split at hd
      · rename_i hafter
        rw [RawText.after?_eq_some_iff, List.append_nil] at hafter
        exact absurd (RawText.ofString_injective hafter) h
      · cases hd
      · cases hd
    · obtain ⟨q, -, hq⟩ := eq_of_declared? hd
      exact absurd hq (h' q)

/-- Raw text that is the same whatever quotes it stands in, and that no reference is in. -/
def IsPlain (value : RawText) : Prop :=
  ∀ c ∈ ['&', '<', '>', '"', '\''], .char c ∉ value

instance : DecidablePred IsPlain := fun _ =>
  List.decidableBAll _ _

/-- A declaration that is written without references, brackets and quotes. -/
def RawAttribute.DeclaresPlainly (a : RawAttribute) : Prop :=
  (declared? a.name).isSome = true → IsPlain a.value

instance (a : RawAttribute) : Decidable a.DeclaresPlainly :=
  inferInstanceAs (Decidable (_ → _))

/-- A declaration that is written without references. -/
def RawAttribute.DeclaresLiterally (a : RawAttribute) : Prop :=
  (declared? a.name).isSome = true → .char '&' ∉ a.value

instance (a : RawAttribute) : Decidable a.DeclaresLiterally :=
  inferInstanceAs (Decidable (_ → _))

theorem RawAttribute.DeclaresPlainly.literally {a : RawAttribute} (h : a.DeclaresPlainly) :
    a.DeclaresLiterally :=
  fun hdeclared => h hdeclared '&' (by simp)

theorem eq_of_declaresLiterally {raw : RawAttribute} {a : Attribute} (h : Decodes raw a)
    (hliteral : raw.DeclaresLiterally) (hdeclared : (declared? raw.name).isSome = true) :
    raw.value = ofString a.value :=
  eq_of_decodeContent h.2 (hliteral hdeclared)

/-- A raw attribute, and one of its name that has, where it declares a namespace, its value as it is
written. -/
def Binds (raw : RawAttribute) (a : Attribute) : Prop :=
  raw.name = ofString a.name ∧ ((declared? raw.name).isSome = true → raw.value = ofString a.value)

theorem Decodes.binds {raw : RawAttribute} {a : Attribute} (h : Decodes raw a)
    (hliteral : raw.DeclaresLiterally) : Binds raw a :=
  ⟨h.1, eq_of_declaresLiterally h hliteral⟩

theorem binds_of_decodes {raw : List RawAttribute} {attributes : List Attribute}
    (h : List.Forall₂ Decodes raw attributes) (hliteral : ∀ r ∈ raw, r.DeclaresLiterally) :
    List.Forall₂ Binds raw attributes := by
  induction h with
  | nil => exact .nil
  | cons hr _ ih =>
      rw [List.forall_mem_cons] at hliteral
      exact .cons (hr.binds hliteral.1) (ih hliteral.2)

/-- What an attribute binds on a level. -/
def binding? (level : Nat) (a : Attribute) : Option Binding :=
  a.declared?.map fun qualifier => ⟨level, qualifier.map ofString, ofString a.value⟩

namespace Scope

variable {scope scope' : Scope} {raw : List RawAttribute} {attributes : List Attribute}

theorem bind_ofString (scope : Scope) (qualifier uri : String) :
    scope.bind (ofString qualifier) (ofString uri) =
      { scope with
        bindings := ⟨scope.level, if qualifier = "" then none else some (ofString qualifier),
          ofString uri⟩ :: scope.bindings } := by
  have hempty : (ofString qualifier).isEmpty = decide (qualifier = "") := by
    rw [Bool.eq_iff_iff, List.isEmpty_iff, decide_eq_true_iff, RawText.ofString_eq_nil_iff]
  simp only [bind, hempty, decide_eq_true_eq]

/-- An attribute that is declared without a fault is permitted, and binds what it says. -/
theorem declare_cons_eq {r : RawAttribute} {a : Attribute} (hr : Binds r a)
    (hdeclare : scope.declare (r :: raw) = (scope', none)) :
    a.Permitted ∧
      { scope with bindings := (binding? scope.level a).toList ++ scope.bindings }.declare raw =
        (scope', none) := by
  have hvalue := hr.2
  have hsame : ∀ s s' : String, ofString s = ofString s' ↔ s = s' :=
    fun s s' => ⟨RawText.ofString_injective, congrArg ofString⟩
  unfold declare at hdeclare
  rw [hr.1] at hdeclare hvalue
  rcases declared?_cases a with ⟨hname, hd⟩ | ⟨q, hname, hd⟩ | ⟨hname, hname', hd⟩
  · -- The default namespace.
    rw [hd] at hdeclare hvalue
    constructor
    · refine Attribute.permitted_of_unqualified ?_
      rw [hname]
      decide
    · have hbind : scope.bind [] (ofString a.value) = _ := bind_ofString scope "" a.value
      rw [binding?, Attribute.declared?, if_pos hname]
      simp only [hvalue rfl, hbind] at hdeclare
      exact hdeclare
  · -- A prefix, of which `xml` and `xmlns` are not free.
    rw [hd] at hdeclare hvalue
    have hdeclared := Attribute.declared?_of_qualified hname
    simp only [hvalue rfl, hsame] at hdeclare
    by_cases hxml : q = "xml"
    · rw [if_pos hxml] at hdeclare hdeclared
      split at hdeclare
      · rename_i huri
        refine ⟨Attribute.permitted_of_qualified hname (fun _ => huri) (absurd hxml), ?_⟩
        rw [binding?, hdeclared]
        exact hdeclare
      · cases hdeclare
    · rw [if_neg hxml] at hdeclare hdeclared
      split at hdeclare
      · cases hdeclare
      · rename_i hreserved
        simp only [Bool.or_eq_true, decide_eq_true_eq, not_or] at hreserved
        obtain ⟨⟨hxmlns, huri⟩, huri'⟩ := hreserved
        refine ⟨Attribute.permitted_of_qualified hname (fun h => absurd h hxml)
          fun _ => ⟨hxmlns, huri, huri'⟩, ?_⟩
        rw [bind_ofString] at hdeclare
        rw [binding?, hdeclared, ← hdeclare]
        split <;> rfl
  · rw [hd] at hdeclare
    refine ⟨fun q hq => absurd hq (hname' q), ?_⟩
    rw [binding?, Attribute.declared?_of_other hname hname']
    exact hdeclare

/-- Declarations that are permitted bind what is written in them. -/
theorem declare_binds (h : List.Forall₂ Binds raw attributes)
    (hdeclare : scope.declare raw = (scope', none)) :
    scope' = { scope with
        bindings := (attributes.filterMap (binding? scope.level)).reverse ++ scope.bindings } ∧
      ∀ a ∈ attributes, a.Permitted := by
  induction h generalizing scope with
  | nil =>
      cases hdeclare
      exact ⟨rfl, nofun⟩
  | @cons r a raw attributes hr _ ih =>
      obtain ⟨hpermitted, hrest⟩ := declare_cons_eq hr hdeclare
      -- What this attribute binds comes to lie below what the others bind.
      obtain ⟨rfl, hpermitted'⟩ := ih hrest
      refine ⟨?_, List.forall_mem_cons.mpr ⟨hpermitted, hpermitted'⟩⟩
      cases hbinding : binding? scope.level a <;> simp [hbinding]

/-! ### The scope of open elements -/

/-- The bindings that the attributes of open elements make, innermost first. -/
def bindingsOf : List (List Attribute) → List Binding
  | [] => initial.bindings
  | attributes :: above =>
    (attributes.filterMap (binding? (above.length + 1))).reverse ++ bindingsOf above

/-- The scope inside of elements with these attributes, innermost first. -/
def of (opened : List (List Attribute)) : Scope :=
  ⟨opened.length, bindingsOf opened⟩

variable {opened : List (List Attribute)}

theorem level_le_of_mem {b : Binding} (h : b ∈ bindingsOf opened) : b.level ≤ opened.length := by
  induction opened with
  | nil =>
      have hinitial : ∀ b ∈ initial.bindings, b.level ≤ 0 := by decide
      exact hinitial b h
  | cons attributes above ih =>
      rcases List.mem_append.mp h with h | h
      · obtain ⟨a, -, ha⟩ := List.mem_filterMap.mp (List.mem_reverse.mp h)
        obtain ⟨qualifier, -, rfl⟩ := Option.map_eq_some_iff.mp ha
        exact Nat.le_refl _
      · exact Nat.le_succ_of_le (ih h)

/-- Entering a tag puts its attributes on top. -/
theorem enter_of (h : List.Forall₂ Binds raw attributes)
    (henter : (of opened).enter raw = (scope', none)) :
    scope' = of (attributes :: opened) ∧ ∀ a ∈ attributes, a.Permitted :=
  declare_binds h henter

/-- Leaving a tag takes its attributes away again. -/
theorem leave_of (attributes : List Attribute) (above : List (List Attribute)) :
    (of (attributes :: above)).leave = of above := by
  have habove : (bindingsOf above).dropWhile (fun b => decide (above.length < b.level)) =
      bindingsOf above := by
    cases hbindings : bindingsOf above with
    | nil => rfl
    | cons b bs =>
        have hlevel : b.level ≤ above.length := level_le_of_mem (by simp [hbindings])
        exact List.dropWhile_cons_of_neg (by simpa using hlevel)
  have hown : ∀ b ∈ (attributes.filterMap (binding? (above.length + 1))).reverse,
      decide (above.length < b.level) = true := by
    intro b hb
    obtain ⟨a, -, ha⟩ := List.mem_filterMap.mp (List.mem_reverse.mp hb)
    obtain ⟨qualifier, -, rfl⟩ := Option.map_eq_some_iff.mp ha
    simp
  simp only [leave, of, List.length_cons, Nat.add_sub_cancel, bindingsOf,
    List.dropWhile_append_of_pos hown, habove]

/-- The prefix of a name, as text. -/
theorem qualifier_ofString (name : String) :
    (match (ofString name).dropWhile (· ≠ .char ':') with
      | [] => none
      | _ => some ((ofString name).takeWhile (· ≠ .char ':'))) =
      (QName.qualifier? name).map ofString := by
  have hcolon : (fun x : Symbol => decide (x ≠ .char ':')) ∘ Symbol.char =
      fun c => decide (c ≠ ':') := by
    funext c
    simp
  have hdrop : (ofString name).dropWhile (· ≠ .char ':') =
      (name.toList.dropWhile (· ≠ ':')).map .char := by
    rw [ofString, List.dropWhile_map, hcolon]
  have htake : (ofString name).takeWhile (· ≠ .char ':') =
      (name.toList.takeWhile (· ≠ ':')).map .char := by
    rw [ofString, List.takeWhile_map, hcolon]
  rw [hdrop, htake, QName.qualifier?, QName.split]
  cases name.toList.dropWhile (· ≠ ':') with
  | nil => rfl
  | cons c rest => simp [ofString]

/-- The first binding of a prefix, innermost first, as the namespace that it gives. -/
theorem find_bindingsOf (opened : List (List Attribute)) (qualifier : Option String) :
    (match (bindingsOf opened).find? (·.qualifier == qualifier.map ofString) with
      | some b => if b.uri.isEmpty then none else some b.uri
      | none => none) = (namespaceFor? opened qualifier).map ofString := by
  have hsame : ∀ q q' : Option String, (q.map ofString == q'.map ofString) = (q == q') := by
    intro q q'
    have hinjective : Function.Injective (Option.map ofString) :=
      Option.map_injective fun _ _ => RawText.ofString_injective
    rw [Bool.eq_iff_iff, beq_iff_eq, beq_iff_eq, hinjective.eq_iff]
  induction opened with
  | nil =>
      have hxmlns := hsame (some "xmlns") qualifier
      have hxml := hsame (some "xml") qualifier
      rw [Option.map_some] at hxmlns hxml
      rw [bindingsOf, namespaceFor?, initial, List.find?_cons, List.find?_cons, hxmlns, hxml]
      by_cases h : qualifier = some "xmlns"
      · rw [if_pos h, h]
        rfl
      · by_cases h' : qualifier = some "xml"
        · rw [if_neg h, if_pos h', h']
          rfl
        · rw [if_neg h, if_neg h', beq_false_of_ne (Ne.symm h), beq_false_of_ne (Ne.symm h')]
          rfl
  | cons attributes above ih =>
      have hbinding : (fun a : Attribute => (binding? (above.length + 1) a).any
          (·.qualifier == qualifier.map ofString)) = fun a => a.declared? == some qualifier := by
        funext a
        cases hdeclared : a.declared? with
        | none => simp [binding?, hdeclared]
        | some q => simp [binding?, hdeclared, hsame]
      rw [bindingsOf, ← List.filterMap_reverse, List.find?_append, List.find?_filterMap, hbinding,
        namespaceFor?]
      cases hfind : attributes.reverse.find? (·.declared? == some qualifier) with
      | none => exact ih
      | some a =>
          have hdeclared : a.declared? = some qualifier := by
            simpa using List.find?_some hfind
          have hempty : (ofString a.value).isEmpty = a.value.isEmpty := by
            rw [Bool.eq_iff_iff, List.isEmpty_iff, RawText.ofString_eq_nil_iff, String.isEmpty_iff]
          simp only [Option.bind_some, binding?, hdeclared, Option.map_some, Option.some_or, hempty]
          cases a.value.isEmpty <;> rfl

/-- A name is resolved by the innermost declaration of its prefix. -/
theorem resolve_of (opened : List (List Attribute)) (name : String) :
    (of opened).resolve (ofString name) =
      (namespaceFor? opened (QName.qualifier? name)).map ofString := by
  rw [← find_bindingsOf, ← qualifier_ofString]
  rfl

end Scope

end Markup

end PersistenceMapping
