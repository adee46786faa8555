/-
What validation accepts is bound without it to the same.

Without validation some faults are passed over: an element that is not declared is skipped, and from
then on tokens are only counted.  In a document that validation accepts there is nothing to pass
over, so no element is ever skipped, and while the two go through the same tokens they have bound
the same so far (`run_sustained`).  Nothing is said of documents that are refused.
-/
import PersistenceMapping.Mapping.Root
import PersistenceMapping.Proofs.Schema.Validation

namespace PersistenceMapping

/-- Whatever comes of the first result comes of the second as well. -/
def SustainedBy {ε α : Type} (result result' : Except ε α) : Prop :=
  ∀ a, result = .ok a → result' = .ok a

namespace SustainedBy

variable {ε α β : Type} {result result' : Except ε α}

theorem refl (result : Except ε α) : SustainedBy result result :=
  fun _ h => h

theorem of_error (e : ε) (result' : Except ε α) : SustainedBy (.error e) result' :=
  nofun

theorem map (f : α → β) (h : SustainedBy result result') :
    SustainedBy (result.map f) (result'.map f) := by
  intro b hb
  cases result with
  | error e => cases hb
  | ok a =>
      rw [h a rfl]
      exact hb

theorem bind {f f' : α → Except ε β} (h : SustainedBy result result')
    (hf : ∀ a, SustainedBy (f a) (f' a)) : SustainedBy (result >>= f) (result' >>= f') := by
  intro b hb
  cases result with
  | error e => cases hb
  | ok a =>
      rw [h a rfl]
      exact hf a b hb

end SustainedBy

namespace ElementDecl

variable {decl : ElementDecl}

/-! ### Attributes -/

theorem bindGiven_sustained (decl : ElementDecl) (attributes : List Attribute) :
    SustainedBy (decl.bindGiven true attributes) (decl.bindGiven false attributes) := by
  induction attributes with
  | nil => exact .refl _
  | cons a rest ih =>
      rw [bindGiven, bindGiven]
      split
      · exact ih
      · cases decl.attribute? a.name with
        | none => exact .of_error _ _
        | some declared =>
            dsimp only
            split
            · exact .of_error _ _
            · exact ih.map _

theorem bindMissing_sustained (element : String) (given : List Attribute)
    (decls : List AttributeDecl) :
    SustainedBy (bindMissing element true given decls) (bindMissing element false given decls) := by
  induction decls with
  | nil => exact .refl _
  | cons declared rest ih =>
      rw [bindMissing, bindMissing]
      split
      · exact ih
      · cases declared.default with
        | some value => exact ih.map _
        | none =>
            dsimp only
            split
            · exact .of_error _ _
            · simpa using ih

theorem bindAttributes_sustained (decl : ElementDecl) (attributes : List Attribute) :
    SustainedBy (decl.bindAttributes true attributes) (decl.bindAttributes false attributes) :=
  (decl.bindGiven_sustained attributes).bind fun given =>
    (bindMissing_sustained decl.name given decl.attributes).bind fun _ => .refl _

/-- Whether binding takes an attribute in. -/
def takes (decl : ElementDecl) (a : Attribute) : Bool :=
  a.isOwn && (decl.attribute? a.name).isSome

/-- Without validation the attributes of a tag are those that are taken in. -/
theorem bindGiven_lenient (decl : ElementDecl) (attributes : List Attribute) :
    decl.bindGiven false attributes = .ok (attributes.filter decl.takes) := by
  induction attributes with
  | nil => rfl
  | cons a rest ih =>
      rw [bindGiven, ih, passed_over_eq]
      by_cases hown : a.isOwn = true
      · rw [hown, Bool.not_true, if_neg Bool.false_ne_true]
        cases hdeclared : decl.attribute? a.name with
        | none =>
            rw [List.filter_cons_of_neg (by simp [takes, hdeclared])]
            rfl
        | some declared =>
            rw [List.filter_cons_of_pos (by simp [takes, hown, hdeclared])]
            rfl
      · rw [if_pos (by simpa using hown), List.filter_cons_of_neg (by simp [takes, hown])]

/-- Without validation the attributes that are not given have their defaults. -/
theorem bindMissing_lenient (element : String) (given : List Attribute)
    {decls : List AttributeDecl} (h : (decls.map (·.name)).Nodup) :
    ∃ missing, bindMissing element false given decls = .ok missing ∧
      ∀ n, Attributes.get? given n = none →
        Attributes.get? missing n = (decls.find? (·.name == n)).bind (·.default) := by
  induction decls with
  | nil => exact ⟨[], rfl, fun _ _ => rfl⟩
  | cons declared rest ih =>
      rw [List.map_cons, List.nodup_cons] at h
      obtain ⟨missing, hmissing, hget⟩ := ih h.2
      rw [bindMissing, hmissing]
      by_cases hgiven : (Attributes.get? given declared.name).isSome = true
      · refine ⟨missing, if_pos hgiven, fun n hn => ?_⟩
        have hne : declared.name ≠ n := by
          rintro rfl
          simp [hn] at hgiven
        rw [List.find?_cons_of_neg (by simpa using hne), hget n hn]
      · rw [if_neg hgiven]
        cases hdefault : declared.default with
        | some value =>
            refine ⟨⟨declared.name, value⟩ :: missing, rfl, fun n hn => ?_⟩
            by_cases hname : declared.name = n
            · simp [Attributes.get?, hname, hdefault]
            · rw [List.find?_cons_of_neg (by simpa using hname), ← hget n hn]
              simp [Attributes.get?, hname]
        | none =>
            refine ⟨missing, by simp, fun n hn => ?_⟩
            rw [hget n hn]
            by_cases hname : declared.name = n
            · have hrest : rest.find? (·.name == n) = none := by
                refine List.find?_eq_none.mpr fun other hother hsame => ?_
                rw [beq_iff_eq, ← hname] at hsame
                exact h.1 (hsame ▸ List.mem_map_of_mem hother)
              rw [List.find?_cons_of_pos (by simpa using hname), hrest, Option.bind_some, hdefault]
              rfl
            · rw [List.find?_cons_of_neg (by simpa using hname)]

/-- The values of bound attributes: those that are taken in, and else the defaults. -/
def Completes (decl : ElementDecl) (attributes bound : List Attribute) : Prop :=
  ∀ n, Attributes.get? bound n = (Attributes.get? (attributes.filter decl.takes) n).or
    ((decl.attribute? n).bind (·.default))

/-- Without validation an attribute is what the tag says, and else its default. -/
theorem bindAttributes_lenient (h : (decl.attributes.map (·.name)).Nodup)
    (attributes : List Attribute) :
    ∃ bound, decl.bindAttributes false attributes = .ok bound ∧ decl.Completes attributes bound := by
  obtain ⟨missing, hmissing, hget⟩ :=
    bindMissing_lenient decl.name (attributes.filter decl.takes) h
  refine ⟨attributes.filter decl.takes ++ missing, ?_, fun n => ?_⟩
  · rw [bindAttributes, bindGiven_lenient]
    simp only [bind, Except.bind, hmissing]
  · have happend : Attributes.get? (attributes.filter decl.takes ++ missing) n =
        (Attributes.get? (attributes.filter decl.takes) n).or (Attributes.get? missing n) := by
      rw [Attributes.get?, List.find?_append, Option.map_or]
      rfl
    rw [happend]
    cases hgiven : Attributes.get? (attributes.filter decl.takes) n with
    | some value => rfl
    | none => rw [Option.none_or, Option.none_or, hget n hgiven, attribute?]

end ElementDecl

namespace Schema

variable {schema : Schema} {p p' : Progress} {e : BoundElement}

/-! ### Tokens -/

/-- Validation finds the declaration of every element, and it is the one that is found without
validation. -/
theorem declarationIn_validated {opened : List Frame} {tag : StartTag} {found : Option ElementDecl}
    (h : schema.declarationIn true opened tag = .ok found) :
    found.isSome = true ∧ schema.declarationIn false opened tag = .ok found := by
  cases opened with
  | nil =>
      refine ⟨?_, h⟩
      simp only [declarationIn] at h
      split at h
      · cases h
        rfl
      · cases h
  | cons parent above =>
      simp only [declarationIn] at h ⊢
      split at h
      · cases h
        exact ⟨rfl, rfl⟩
      · cases h

/-- Without validation a tag may be of any namespace. -/
theorem openFrame_lenient (decl : ElementDecl) (tag : StartTag) :
    openFrame false decl tag =
      (decl.bindAttributes false tag.attributes).map fun attributes => { decl, attributes } := by
  have hfilter : (tag.ns.filter fun ns =>
      false && ns != Dialect.Hierarchical.canonicalNamespace) = none := by simp
  rw [openFrame, hfilter]

theorem openFrame_sustained (decl : ElementDecl) (tag : StartTag) :
    SustainedBy (openFrame true decl tag) (openFrame false decl tag) := by
  rw [openFrame_lenient, openFrame]
  split
  · exact .of_error _ _
  · exact (decl.bindAttributes_sustained tag.attributes).map _

/-- A start tag that validation lets pass opens the same element without it. -/
theorem readStart_validated {tag : StartTag} (hskipped : p.skipped = 0)
    (h : schema.readStart true p tag = .ok p') :
    schema.readStart false p tag = .ok p' ∧ p'.skipped = 0 := by
  rw [readStart] at h ⊢
  split at h
  · cases h
  · rename_i hroot
    rw [if_neg hroot]
    rcases hfound : schema.declarationIn true p.opened tag with fault | found
    · rw [hfound] at h
      cases h
    · obtain ⟨hsome, hlenient⟩ := declarationIn_validated hfound
      obtain ⟨decl, rfl⟩ := Option.isSome_iff_exists.mp hsome
      rw [hfound] at h
      rw [hlenient]
      refine ⟨(openFrame_sustained decl tag).map _ p' h, ?_⟩
      dsimp only at h
      rcases hframe : openFrame true decl tag with fault | frame
      · rw [hframe] at h
        cases h
      · rw [hframe] at h
        cases h
        exact hskipped

/-- Closing an element and taking in text skips nothing. -/
theorem skipped_readEnd {name : String} (h : readEnd p name = .ok p') : p'.skipped = p.skipped := by
  rw [readEnd] at h
  split at h
  · cases h
  · split at h
    · split at h <;> cases h <;> rfl
    · cases h

theorem readText_validated {content : String} (h : readText true p content = .ok p') :
    readText false p content = .ok p' ∧ p'.skipped = p.skipped := by
  rw [readText] at h ⊢
  split at h
  · cases h
    exact ⟨rfl, rfl⟩
  · split at h
    · rename_i htext
      cases h
      exact ⟨if_pos htext, rfl⟩
    · rename_i htext
      split at h
      · cases h
      · cases h
        exact ⟨(if_neg htext).trans (if_neg (by simp)), rfl⟩

/-- A token that validation lets pass leads to the same without it, and skips nothing. -/
theorem read_validated {token : Token} (hskipped : p.skipped = 0)
    (h : schema.read true p token = .ok p') :
    schema.read false p token = .ok p' ∧ p'.skipped = 0 := by
  have hopen : ¬0 < p.skipped := by omega
  unfold read at h ⊢
  rw [if_neg hopen] at h ⊢
  cases token with
  | startTag tag => exact readStart_validated hskipped h
  | endTag name => exact ⟨h, (skipped_readEnd h).trans hskipped⟩
  | text content =>
      obtain ⟨hread, hsame⟩ := readText_validated h
      exact ⟨hread, hsame.trans hskipped⟩
  | cdata content =>
      obtain ⟨hread, hsame⟩ := readText_validated h
      exact ⟨hread, hsame.trans hskipped⟩
  | startDocument | comment | instruction | doctype | endDocument =>
      cases h
      exact ⟨rfl, hskipped⟩

/-! ### Streams -/

/-- While nothing is skipped, what validation makes of the outcomes to come is made of them without
it. -/
theorem run_sustained {failure : Option TokenError} {items : List Outcome}
    (hskipped : p.skipped = 0) :
    SustainedBy (schema.run true failure p items) (schema.run false failure p items) := by
  induction items generalizing p with
  | nil => exact .refl _
  | cons item items ih =>
      cases item with
      | error e => exact .refl _
      | ok token =>
          rw [run, run]
          split
          · exact .refl _
          · rcases hread : schema.read true p token with fault | p'
            · exact .of_error _ _
            · obtain ⟨hlenient, hskipped'⟩ := read_validated hskipped hread
              rw [hlenient]
              exact ih hskipped'

/-- A stream from which validation makes a mapping is bound without validation to the same element,
and so to the same mapping. -/
theorem unmarshal_of_validated (schema : Schema) (s : TokenStream) {m : Mapping}
    (h : schema.unmarshal true s = .ok m) :
    ∃ e, schema.bind true s = .ok e ∧ schema.bind false s = .ok e ∧
      schema.unmarshal false s = .ok m := by
  rcases hbind : schema.bind true s with fault | e
  · rw [unmarshal, hbind] at h
    cases h
  · have hlenient : schema.bind false s = .ok e := run_sustained rfl e hbind
    refine ⟨e, rfl, hlenient, ?_⟩
    rw [unmarshal, hbind] at h
    rw [unmarshal, hlenient]
    exact h

/-- The stream repeats an attribute, leaves one to its default and fails behind the document end. -/
theorem unmarshal_of_validated_repeated :
    let schema : Schema :=
      ⟨"a", [.plain "a" [.mandatory "package", .flagged "default-lazy" "0"] ["b"],
        .mixed "b" [.number "m"] []]⟩
    let s : TokenStream := ⟨[.ok (.startTag ⟨"p:a", none, [⟨"package", "x"⟩, ⟨"package", "y"⟩]⟩),
      .ok (.startTag ⟨"b", none, [⟨"m", "+07"⟩]⟩), .ok (.text "t"), .ok (.endTag "q:b"),
      .ok (.endTag "a"), .ok .endDocument, .error (.unreadable "lost")], none⟩
    let e : BoundElement := .mk "a" [⟨"package", "x"⟩, ⟨"package", "y"⟩, ⟨"default-lazy", "0"⟩]
      [.mk "b" [⟨"m", "+07"⟩] [] "t"] ""
    compile schema.elements schema.root = .ok schema ∧
      schema.unmarshal true s = .ok (.ofElement e) ∧ schema.bind false s = .ok e ∧
      schema.unmarshal false s = .ok (.ofElement e) := by
  intro schema s e
  have hbound : schema.bind true s = .ok e := by rfl
  have hvalid : schema.unmarshal true s = .ok (.ofElement e) := by
    rw [unmarshal, hbound]
    rfl
  obtain ⟨e', hbound', hbind, hmapping⟩ := unmarshal_of_validated schema s hvalid
  obtain rfl : e = e' := Except.ok.inj (hbound.symm.trans hbound')
  exact ⟨rfl, hvalid, hbind, hmapping⟩

end Schema

end PersistenceMapping
