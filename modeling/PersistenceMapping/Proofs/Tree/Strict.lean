/-
What strict mode asks for.

In strict mode a builder takes in what it takes in otherwise, as long as no start tag repeats the
name of an attribute and no character data but white space comes where no element is open.  Both
can be told from the tokens and from how many elements are open before them (`IsStrict`), so a run
in strict mode is a run of the other kind over such tokens (`run_strict_iff`).

The number of open elements is what the two have in common.  A token that is taken in opens an
element, closes one or leaves their number alone (`length_opened_read`), and that is all that the
induction over a run needs to know of a builder.  Of a whole stream the tokens up to its end are what
is asked about (`ofStream_strict_iff`).
-/
import PersistenceMapping.Proofs.Tree.Taken

namespace PersistenceMapping

/-- No attribute is repeated just if the names are distinct. -/
theorem Attributes.firstRepeated?_eq_none_iff {attributes : List Attribute} :
    firstRepeated? attributes = none ↔ (attributes.map (·.name)).Nodup := by
  induction attributes with
  | nil => exact iff_of_true rfl List.nodup_nil
  | cons a rest ih =>
      rw [firstRepeated?, List.map_cons, List.nodup_cons, ← ih]
      have hany : rest.any (·.name == a.name) = true ↔ a.name ∈ rest.map (·.name) := by
        simp
      by_cases hmem : a.name ∈ rest.map (·.name)
      · rw [if_pos (hany.mpr hmem)]
        exact iff_of_false (by nofun) fun h => h.1 hmem
      · rw [if_neg fun h => hmem (hany.mp h)]
        exact (and_iff_right hmem).symm

/-- The tokens before the first document end or failure. -/
def TokenStream.upToEnd : List Outcome → List Token
  | [] => []
  | .error _ :: _ => []
  | .ok .endDocument :: _ => []
  | .ok token :: rest => token :: upToEnd rest

theorem TokenStream.upToEnd_ok {token : Token} (h : token ≠ .endDocument)
    (rest : List Outcome) : upToEnd (.ok token :: rest) = token :: upToEnd rest := by
  rw [upToEnd]
  exact h

namespace Token

variable {depth : Nat} {token : Token} {rest : List Token}

/-- How many elements are open behind a token. -/
def depthBehind (depth : Nat) : Token → Nat
  | startTag _ => depth + 1
  | endTag _ => depth - 1
  | _ => depth

/-- The tokens that come where no element is open, if `depth` elements are open before. -/
def outside (depth : Nat) : List Token → List Token
  | [] => []
  | token :: rest =>
    if depth = 0 then token :: outside (token.depthBehind depth) rest
    else outside (token.depthBehind depth) rest

/-- Whether a token is character data that is not just white space. -/
def isStray : Token → Bool
  | text content => !content.toList.all isSpace
  | cdata _ => true
  | _ => false

/-- Tokens that strict mode takes in, if `depth` elements are open before. -/
structure IsStrict (depth : Nat) (tokens : List Token) : Prop where
  attributes : ∀ tag, .startTag tag ∈ tokens → (tag.attributes.map (·.name)).Nodup
  outside : ∀ token ∈ outside depth tokens, token.isStray = false

theorem isStrict_nil (depth : Nat) : IsStrict depth [] :=
  ⟨nofun, nofun⟩

theorem mem_outside_cons {t : Token} :
    t ∈ outside depth (token :: rest) ↔
      t ∈ outside depth [token] ∨ t ∈ outside (token.depthBehind depth) rest := by
  rw [outside, outside]
  by_cases hdepth : depth = 0
  · rw [if_pos hdepth, if_pos hdepth, List.mem_cons, List.mem_cons]
    simp [outside]
  · rw [if_neg hdepth, if_neg hdepth]
    simp [outside]

theorem isStrict_cons :
    IsStrict depth (token :: rest) ↔
      IsStrict depth [token] ∧ IsStrict (token.depthBehind depth) rest := by
  constructor
  · intro h
    refine ⟨⟨fun tag htag => ?_, fun t ht => ?_⟩, ⟨fun tag htag => ?_, fun t ht => ?_⟩⟩
    · rw [List.mem_singleton] at htag
      exact h.attributes tag (htag ▸ List.mem_cons_self)
    · exact h.outside t (mem_outside_cons.mpr (Or.inl ht))
    · exact h.attributes tag (List.mem_cons_of_mem _ htag)
    · exact h.outside t (mem_outside_cons.mpr (Or.inr ht))
  · intro h
    refine ⟨fun tag htag => ?_, fun t ht => ?_⟩
    · rcases List.mem_cons.mp htag with heq | hrest
      · exact h.1.attributes tag (List.mem_singleton.mpr heq)
      · exact h.2.attributes tag hrest
    · rcases mem_outside_cons.mp ht with hfirst | hrest
      · exact h.1.outside t hfirst
      · exact h.2.outside t hrest

/-- Of one token, strict mode asks that attributes are not repeated and, where no element is open,
that it is no stray character data. -/
theorem isStrict_singleton :
    IsStrict depth [token] ↔
      (∀ tag, token = .startTag tag → (tag.attributes.map (·.name)).Nodup) ∧
        (depth = 0 → token.isStray = false) := by
  have houtside : (∀ t ∈ outside depth [token], t.isStray = false) ↔
      (depth = 0 → token.isStray = false) := by
    rw [outside, outside]
    by_cases hdepth : depth = 0
    · rw [if_pos hdepth, List.forall_mem_singleton, forall_prop_of_true hdepth]
    · rw [if_neg hdepth]
      exact iff_of_true nofun fun h => absurd h hdepth
  constructor
  · intro h
    refine ⟨fun tag htag => h.attributes tag ?_, houtside.mp h.outside⟩
    rw [htag, List.mem_singleton]
  · intro h
    refine ⟨fun tag htag => h.1 tag ?_, houtside.mpr h.2⟩
    exact (List.mem_singleton.mp htag).symm

end Token

namespace Builder

open TokenStream (upToEnd upToEnd_ok)

variable {b b' : Builder} {token : Token} {strict : Bool} {failure : Option TokenError}
  {rest : List Outcome} {d : Document}

/-! ### One token -/

/-- What is open behind a token that has been taken in. -/
theorem length_opened_read (h : b.read strict token = .ok b') :
    b'.opened.length = token.depthBehind b.opened.length := by
  have hlenient := read_of_strict h
  cases hloose : token.isLoose with
  | true =>
      obtain ⟨b₁, hread, hopened, -⟩ := b.read_loose hloose
      rw [← Except.ok.inj (hread.symm.trans hlenient), hopened]
      cases token <;> first | rfl | cases hloose
  | false =>
      cases token with
      | startTag tag =>
          rw [read_start] at hlenient
          split at hlenient
          · cases hlenient
          · rw [← Except.ok.inj hlenient]
            rfl
      | endTag name =>
          simp only [read] at hlenient
          split at hlenient
          · cases hlenient
          · rename_i above hopened
            split at hlenient
            · rw [← Except.ok.inj hlenient, hopened]
              rfl
            · cases hlenient
      | endDocument =>
          rw [← Except.ok.inj hlenient]
          rfl
      | startDocument => cases hlenient
      | text | cdata | comment | instruction | doctype => cases hloose

/-- Strict mode takes in a token that is taken in otherwise and that it does not refuse. -/
theorem read_strict_iff :
    b.read true token = .ok b' ↔
      b.read false token = .ok b' ∧ Token.IsStrict b.opened.length [token] := by
  rw [Token.isStrict_singleton, List.length_eq_zero_iff, ← List.isEmpty_iff]
  cases token with
  | startTag tag =>
      rw [read_start]
      by_cases hroot : (b.opened.isEmpty && b.document.root.isSome) = true
      · have hstrict : b.read true (.startTag tag) = .error .severalRoots := by
          unfold read
          exact if_pos hroot
        rw [hstrict, if_pos hroot]
        simp only [reduceCtorEq, false_and]
      rw [if_neg hroot]
      have hnodup : Attributes.firstRepeated? tag.attributes = none ↔
          (tag.attributes.map (·.name)).Nodup := Attributes.firstRepeated?_eq_none_iff
      rcases hrepeated : Attributes.firstRepeated? tag.attributes with _ | name
      · have hstrict : b.read true (.startTag tag) = .ok (b.enter tag) := by
          unfold read
          dsimp only
          rw [if_neg hroot, if_pos rfl, hrepeated]
        rw [hstrict]
        refine (and_iff_left ⟨fun tag' heq => ?_, fun _ => rfl⟩).symm
        rw [← Token.startTag.inj heq]
        exact hnodup.mp hrepeated
      · have hstrict : b.read true (.startTag tag) = .error (.duplicateAttribute name) := by
          unfold read
          dsimp only
          rw [if_neg hroot, if_pos rfl, hrepeated]
        rw [hstrict]
        refine iff_of_false (by simp only [reduceCtorEq, not_false_eq_true]) fun h => ?_
        rw [hnodup.mpr (h.2.1 tag rfl)] at hrepeated
        cases hrepeated
  | text content =>
      by_cases hopened : b.opened.isEmpty = true
      · by_cases hspace : content.toList.all isSpace = true
        · simp [read, hopened, hspace, Token.isStray]
        · simp [read, hopened, hspace, Token.isStray]
      · simp [read, hopened]
  | cdata content =>
      by_cases hopened : b.opened.isEmpty = true
      · simp [read, hopened, Token.isStray]
      · simp [read, hopened]
  | _ => exact (and_iff_left ⟨fun tag htag => (by cases htag), fun _ => rfl⟩).symm

/-! ### Runs -/

theorem run_cons_eq_ok_iff (h : token ≠ .endDocument) :
    b.run strict failure (.ok token :: rest) = .ok d ↔
      ∃ b', b.read strict token = .ok b' ∧ b'.run strict failure rest = .ok d := by
  rw [run]
  · cases b.read strict token with
    | error fault => simp only [reduceCtorEq, false_and, exists_false]
    | ok b' => simp
  · exact h

/-- A run in strict mode is a run of the other kind over tokens that strict mode asks for. -/
theorem run_strict_iff (b : Builder) (items : List Outcome) :
    b.run true failure items = .ok d ↔
      b.run false failure items = .ok d ∧ Token.IsStrict b.opened.length (upToEnd items) := by
  induction items generalizing b with
  | nil => exact (and_iff_left (Token.isStrict_nil _)).symm
  | cons item rest ih =>
      cases item with
      | error e => exact iff_of_false nofun fun h => absurd h.1 nofun
      | ok token =>
          by_cases hend : token = .endDocument
          · subst hend
            exact (and_iff_left (Token.isStrict_nil _)).symm
          rw [run_cons_eq_ok_iff hend, run_cons_eq_ok_iff hend, upToEnd_ok hend,
            Token.isStrict_cons]
          constructor
          · rintro ⟨b', hread, hrun⟩
            obtain ⟨hlenient, hstrict⟩ := read_strict_iff.mp hread
            obtain ⟨hrun', hrest⟩ := (ih b').mp hrun
            rw [length_opened_read hlenient] at hrest
            exact ⟨⟨b', hlenient, hrun'⟩, hstrict, hrest⟩
          · rintro ⟨⟨b', hlenient, hrun'⟩, hstrict, hrest⟩
            rw [← length_opened_read hlenient] at hrest
            exact ⟨b', read_strict_iff.mpr ⟨hlenient, hstrict⟩, (ih b').mpr ⟨hrun', hrest⟩⟩

end Builder

namespace Document

open TokenStream (upToEnd upToEnd_ok)

/-- A document is built in strict mode just if the same document is built otherwise and its tokens
are such as strict mode asks for: no start tag repeats the name of an attribute, and at document
level there is no CDATA and no text but white space. -/
theorem ofStream_strict_iff (s : TokenStream) (d : Document) :
    ofStream true s = .ok d ↔
      ofStream false s = .ok d ∧ Token.IsStrict 0 (upToEnd s.items) := by
  obtain ⟨items, failure⟩ := s
  cases items with
  | nil => cases failure <;> exact iff_of_false nofun fun h => absurd h.1 nofun
  | cons item rest =>
      cases item with
      | error e => exact iff_of_false nofun fun h => absurd h.1 nofun
      | ok token =>
          cases token with
          | startDocument version encoding standalone =>
              rw [upToEnd_ok (by nofun), Token.isStrict_cons, Token.isStrict_singleton]
              -- The document start itself is no tag and no character data.
              have hstart : (∀ tag, Token.startDocument version encoding standalone = .startTag tag →
                  (tag.attributes.map (·.name)).Nodup) ∧ ((0 : Nat) = 0 →
                  (Token.startDocument version encoding standalone).isStray = false) :=
                ⟨nofun, fun _ => rfl⟩
              rw [and_iff_right hstart]
              exact Builder.initial.run_strict_iff rest
          | _ => exact iff_of_false nofun fun h => absurd h.1 nofun

end Document

end PersistenceMapping
