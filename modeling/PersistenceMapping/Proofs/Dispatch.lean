/-
How a document is bound, and how that can fail.

The first start tag decides on one of four routes, and of it only the local name and the version
matter (`Route.of`).  On each route there are few results, and all of them say where the document
comes from (`Route.Allows`).  A version that is not supported comes before all that can go wrong
behind the tag, because the tag is the first token that the entity dialect sees.

A source may fail for reasons of its own, but that a version is not supported is not one of them.
-/
import PersistenceMapping.Binder
import PersistenceMapping.Proofs.Generated
import PersistenceMapping.Tree.Element

namespace PersistenceMapping

open Dialect.Entity (normalizeRoot normalizeTag normalizeItems normalizeDocument)

namespace TokenStream

/-! ### The first start tag -/

/-- The first start tag among outcomes, unless a failure comes before it. -/
def firstTagIn : List Outcome → Option StartTag
  | .ok (.startTag tag) :: _ => some tag
  | .ok _ :: rest => firstTagIn rest
  | _ => none

/-- The first start tag of a stream, unless the stream fails or ends before it. -/
def firstTag? (s : TokenStream) : Option StartTag :=
  firstTagIn s.items

/-- Whether this is a failure of a stream. -/
def Fails (s : TokenStream) (e : TokenError) : Prop :=
  .error e ∈ s.items ∨ s.failure = some e

/-- Every failure of a stream is one of reading, and not of what has been read. -/
def FailsOnlyInReading (s : TokenStream) : Prop :=
  ∀ version, ¬s.Fails (.unsupportedVersion version)

variable {s : TokenStream} {tag : StartTag} {items : List Outcome}

theorem seekStart_of_none (failure : Option TokenError) (h : firstTagIn items = none) :
    ∃ fault, seekStart failure items = .error fault := by
  induction items with
  | nil => cases failure <;> exact ⟨_, rfl⟩
  | cons item rest ih =>
      cases item with
      | error e => exact ⟨_, rfl⟩
      | ok token =>
          cases token with
          | startTag tag => cases h
          | _ => exact ih h

theorem seekStart_of_some (failure : Option TokenError) (h : firstTagIn items = some tag) :
    ∃ rest, seekStart failure items = .ok (tag, .ok (.startTag tag) :: rest) ∧ rest ⊆ items := by
  induction items with
  | nil => cases h
  | cons item items ih =>
      cases item with
      | error e => cases h
      | ok token =>
          cases token with
          | startTag tag =>
              cases h
              exact ⟨items, rfl, List.subset_cons_self _ _⟩
          | _ =>
              obtain ⟨rest, hseek, hrest⟩ := ih h
              exact ⟨rest, hseek, List.subset_cons_of_subset _ hrest⟩

/-- A stream without a start tag has no root. -/
theorem seekRoot_of_none (h : s.firstTag? = none) : ∃ fault, s.seekRoot = .error fault := by
  obtain ⟨fault, hseek⟩ := seekStart_of_none s.failure h
  exact ⟨fault, by rw [seekRoot, hseek]; rfl⟩

/-- The root of a stream is its first start tag, and the stream goes on behind it as before. -/
theorem seekRoot_of_some (h : s.firstTag? = some tag) :
    ∃ rest, s.seekRoot = .ok (tag, { s with items := .ok (.startTag tag) :: rest }) ∧
      rest ⊆ s.items := by
  obtain ⟨rest, hseek, hrest⟩ := seekStart_of_some s.failure h
  exact ⟨rest, by rw [seekRoot, hseek]; rfl, hrest⟩

end TokenStream

/-! ### Failures on the way to a tree -/

/-- A builder fails for no reason of a source that the source has not given. -/
theorem Builder.fails_of_run {strict : Bool} {failure : Option TokenError} {b : Builder}
    {items : List Outcome} {e : TokenError} (h : b.run strict failure items = .error (.source e)) :
    .error e ∈ items ∨ failure = some e := by
  have hfinish : ∀ b : Builder, b.finish.mapError BuildError.shape ≠ .error (.source e) := by
    intro b
    cases b.finish <;> nofun
  induction items generalizing b with
  | nil =>
      simp only [run] at h
      split at h
      · cases h
        exact Or.inr rfl
      · exact absurd h (hfinish b)
  | cons item items ih =>
      unfold run at h
      split at h
      · rename_i heq
        cases heq
      · rename_i heq
        cases heq
        cases h
        exact Or.inl List.mem_cons_self
      · exact absurd h (hfinish b)
      · rename_i heq
        cases heq
        split at h
        · cases h
        · rcases ih h with hmem | hfailure
          · exact Or.inl (List.mem_cons_of_mem _ hmem)
          · exact Or.inr hfailure

/-- What a builder makes of a whole stream has a root. -/
theorem Builder.root_of_run {strict : Bool} {failure : Option TokenError} {b : Builder}
    {items : List Outcome} {d : Document} (h : b.run strict failure items = .ok d) :
    d.root.isSome = true := by
  obtain ⟨b', -, hfinish⟩ := exists_finish_of_run (P := fun _ => True) (fun _ _ => trivial)
    trivial h
  exact (finish_eq_ok hfinish).2.2

namespace Document

variable {strict : Bool} {s : TokenStream} {tag : StartTag} {rest : List Outcome} {d : Document}

/-- A stream that begins with a start tag is opened and then taken in from that tag on. -/
theorem ofOpenedStream_of_tag (strict : Bool) (failure : Option TokenError) (tag : StartTag)
    (rest : List Outcome) :
    ofOpenedStream strict { items := .ok (.startTag tag) :: rest, failure } =
      Builder.initial.run strict failure (.ok (.startTag tag) :: rest) :=
  rfl

/-- A document with a root has an element for it. -/
theorem WellFormed.isSome_rootElement? (h : WellFormed d) (hroot : d.root.isSome = true) :
    d.rootElement?.isSome = true := by
  obtain ⟨root, hroot⟩ := Option.isSome_iff_exists.mp hroot
  obtain ⟨-, hkind⟩ := (h.root root).mp hroot
  rw [Document.rootElement?, hroot, Option.filter_some, if_pos (isElement_iff.mpr hkind)]
  rfl

end Document

/-! ### Routes -/

/-- The ways that a document can go. -/
inductive Route where
  /-- There is no root. -/
  | unrooted
  | hierarchical
  /-- The root is that of an entity document of a version that is not supported. -/
  | unsupported (version : String)
  | entity
  deriving DecidableEq, Repr

namespace Route

/-- The way of a document whose root has this local name and says that it is of this version. -/
def of (versions : List String) (localName : String) (version : Option String) : Route :=
  if localName = Dialect.Hierarchical.rootName then hierarchical
  else
    match version with
    | none => entity
    | some version => if version ∈ versions then entity else unsupported version

/-- The way of a stream. -/
def ofStream (versions : List String) (s : TokenStream) : Route :=
  match s.firstTag? with
  | none => unrooted
  | some tag => of versions tag.localName (tag.get? "version")

/-- What may come of a document on its way. -/
def Allows (origin : Origin) (result : Except MappingError Binding) : Route → Prop
  | unrooted => ∃ fault, result = .error (.transform origin fault)
  | hierarchical =>
    (∃ m, result = .ok ⟨.hierarchical m, origin⟩) ∨
      ∃ fault, result = .error (.unmarshal origin fault)
  | unsupported version => result = .error (.unsupportedVersion version origin)
  | entity =>
    (∃ d, d.rootElement?.isSome = true ∧ result = .ok ⟨.entity d, origin⟩) ∨
      ∃ fault, result = .error (.transform origin fault)

end Route

namespace BinderOptions

variable {options : BinderOptions} {origin : Origin} {s : TokenStream} {tag : StartTag}
  {rest : List Outcome}

/-- The root of an entity document is refused just for a version that is not supported. -/
theorem normalizeRoot_cases (versions : List String) (tag : StartTag) :
    (∃ version, tag.get? "version" = some version ∧ version ∉ versions ∧
        normalizeRoot versions tag = .error version) ∨
      (∀ version, tag.get? "version" = some version → version ∈ versions) ∧
        ∃ tag', normalizeRoot versions tag = .ok tag' := by
  cases hversion : tag.get? "version" with
  | none => exact Or.inr ⟨nofun, _, by rw [normalizeRoot, hversion]; rfl⟩
  | some version =>
      by_cases hmem : version ∈ versions
      · refine Or.inr ⟨?_, _, by rw [normalizeRoot, hversion, Option.filter_some,
          if_neg (by simpa using hmem)]⟩
        rintro _ ⟨⟩
        exact hmem
      · exact Or.inl ⟨version, rfl, hmem, by rw [normalizeRoot, hversion, Option.filter_some,
          if_pos (by simpa using hmem)]⟩

/-- Once its version is supported, an entity document fails for no reason but those of its source
and of its shape. -/
theorem not_fails_normalizeItems (h : s.FailsOnlyInReading) (hrest : rest ⊆ s.items)
    (version : String) :
    ¬(.error (.unsupportedVersion version) ∈ normalizeItems rest ∨
      s.failure = some (.unsupportedVersion version)) := by
  rintro (hmem | hfailure)
  · obtain ⟨item, hitem, heq⟩ := List.mem_map.mp hmem
    refine h version (Or.inl (hrest ?_))
    split at heq
    · cases heq
    · rwa [← heq]
  · exact h version (Or.inr hfailure)

/-- A version that is not supported is what comes of an entity document, whatever follows. -/
theorem bindEntity_of_unsupported {version : String} (hversion : tag.get? "version" = some version)
    (hnot : version ∉ options.versions) :
    options.bindEntity origin { s with items := .ok (.startTag tag) :: rest } =
      .error (.unsupportedVersion version origin) := by
  have hroot : normalizeRoot options.versions tag = .error version := by
    rw [normalizeRoot, hversion, Option.filter_some, if_pos (by simpa using hnot)]
  rw [bindEntity, Dialect.Entity.normalize]
  simp only [normalizeDocument, hroot]
  rfl

/-- An entity document of a supported version becomes a tree with a root, or cannot be
transformed. -/
theorem bindEntity_of_supported (h : s.FailsOnlyInReading) (hrest : rest ⊆ s.items)
    (hsupported : ∀ version, tag.get? "version" = some version → version ∈ options.versions) :
    (∃ d, d.rootElement?.isSome = true ∧
        options.bindEntity origin { s with items := .ok (.startTag tag) :: rest } = .ok d) ∨
      ∃ fault, options.bindEntity origin { s with items := .ok (.startTag tag) :: rest } =
        .error (.transform origin fault) := by
  obtain ⟨version, hversion, hnot, -⟩ | ⟨-, tag', hroot⟩ :=
    normalizeRoot_cases options.versions tag
  · exact absurd (hsupported version hversion) hnot
  rw [bindEntity, Dialect.Entity.normalize]
  simp only [normalizeDocument, hroot, Document.ofOpenedStream_of_tag]
  cases hrun : Builder.initial.run options.strict s.failure
      (.ok (.startTag (normalizeTag tag')) :: normalizeItems rest) with
  | ok d =>
      have hwf := (Document.wellFormed_empty _).of_steps (Builder.Sound.initial.run hrun)
      exact Or.inl ⟨d, hwf.isSome_rootElement? (Builder.root_of_run hrun), rfl⟩
  | error e =>
      cases e with
      | shape fault => exact Or.inr ⟨_, rfl⟩
      | source e =>
          cases e with
          | unsupportedVersion version =>
              refine absurd (Builder.fails_of_run hrun) ?_
              rw [List.mem_cons]
              rintro ((⟨⟨⟩⟩ | hmem) | hfailure)
              · exact not_fails_normalizeItems h hrest version (Or.inl hmem)
              · exact not_fails_normalizeItems h hrest version (Or.inr hfailure)
          | _ => exact Or.inr ⟨_, rfl⟩

end BinderOptions

namespace Binder

variable {s : TokenStream}

/-- A binder has a schema for hierarchical documents when it needs one. -/
theorem exists_compileSchema (b : Binder) : ∃ schema, b.compileSchema.1 = .ok schema := by
  rw [compileSchema]
  cases b.schema with
  | some schema => exact ⟨schema, rfl⟩
  | none =>
      rw [Schema.Hierarchical.compiled_eq_table]
      exact ⟨_, rfl⟩

/-- A hierarchical document becomes a mapping, or does not fit the schema. -/
theorem bind_of_hierarchical (b : Binder) (origin : Origin) {tag : StartTag} {rest : TokenStream}
    (hseek : s.seekRoot = .ok (tag, rest))
    (hroot : tag.localName = Dialect.Hierarchical.rootName) :
    Route.hierarchical.Allows origin (b.bind origin s).1 := by
  obtain ⟨schema, hschema⟩ := b.exists_compileSchema
  obtain ⟨b', hcompile⟩ : ∃ b', b.compileSchema = (.ok schema, b') := ⟨_, by rw [← hschema]⟩
  simp only [bind, hseek, if_pos hroot, hcompile, BinderOptions.bindHierarchical]
  cases schema.unmarshal b'.options.validate
      (Dialect.Hierarchical.normalize rest) with
  | ok m => exact Or.inl ⟨m, rfl⟩
  | error fault => exact Or.inr ⟨fault, rfl⟩

/-- A document is bound as its way allows, whatever else is in it. -/
theorem bind_allowed (b : Binder) (origin : Origin) (h : s.FailsOnlyInReading) :
    (Route.ofStream b.options.versions s).Allows origin (b.bind origin s).1 := by
  unfold Route.ofStream
  cases hfirst : s.firstTag? with
  | none =>
      obtain ⟨fault, hseek⟩ := TokenStream.seekRoot_of_none hfirst
      exact ⟨fault, by rw [bind, hseek]⟩
  | some tag =>
      obtain ⟨rest, hseek, hrest⟩ := TokenStream.seekRoot_of_some hfirst
      show (Route.of _ _ _).Allows _ _
      unfold Route.of
      by_cases hroot : tag.localName = Dialect.Hierarchical.rootName
      · rw [if_pos hroot]
        exact b.bind_of_hierarchical origin hseek hroot
      have hbind : (b.bind origin s).1 = (b.options.bindEntity origin
          { s with items := .ok (.startTag tag) :: rest }).map fun d => ⟨.entity d, origin⟩ := by
        simp only [bind, hseek, if_neg hroot]
      have hentity (hsupported : ∀ version, tag.get? "version" = some version →
          version ∈ b.options.versions) : Route.entity.Allows origin (b.bind origin s).1 := by
        rw [hbind]
        obtain ⟨d, hd, hok⟩ | ⟨fault, herror⟩ :=
          BinderOptions.bindEntity_of_supported h hrest hsupported
        · exact Or.inl ⟨d, hd, by rw [hok]; rfl⟩
        · exact Or.inr ⟨fault, by rw [herror]; rfl⟩
      rw [if_neg hroot]
      cases hversion : tag.get? "version" with
      | none => exact hentity (by simp [hversion])
      | some version =>
          show (if version ∈ b.options.versions then Route.entity
            else Route.unsupported version).Allows _ _
          by_cases hmem : version ∈ b.options.versions
          · rw [if_pos hmem]
            refine hentity fun v hv => ?_
            rw [hversion] at hv
            rwa [← Option.some.inj hv]
          · rw [if_neg hmem]
            show (b.bind origin s).1 = .error (.unsupportedVersion version origin)
            rw [hbind, BinderOptions.bindEntity_of_unsupported hversion hmem]
            rfl

/-- The source gives out behind the root, but the version comes first. -/
theorem bind_allowed_of_cut_short :
    let tag : StartTag := ⟨"entity-mappings", none, [⟨"xmlns", ""⟩, ⟨"version", "99.0"⟩]⟩
    let s : TokenStream :=
      { items := [.ok .plainStart, .ok (.comment "c"), .ok (.startTag tag),
          .error (.malformed (.unclosed .tag))]
        failure := some (.unreadable "gone") }
    let b : Binder := { options := {} }
    let origin : Origin := ⟨.file, "orm.xml"⟩
    s.FailsOnlyInReading ∧
      (b.bind origin s).1 = .error (.unsupportedVersion "99.0" origin) := by
  intro tag s b origin
  have hfails : s.FailsOnlyInReading := by
    rintro version (hmem | hfailure)
    · simp [s] at hmem
    · cases hfailure
  have hroute : Route.ofStream b.options.versions s = .unsupported "99.0" := by decide
  have hallowed := b.bind_allowed origin hfails
  rw [hroute] at hallowed
  exact ⟨hfails, hallowed⟩

end Binder

end PersistenceMapping
