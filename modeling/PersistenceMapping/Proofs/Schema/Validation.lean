/-
Validation accepts the language of the schema.

Validated binding is a stack machine: what is read so far is the open elements, innermost
first, and whether the root is closed (`Standing`).  Each token is either refused, and then the
grammar has no place for it there, or it leads to the stack that the grammar has for the rest.
One lemma for each kind of token says so, and the run is an induction over the tokens.

A required attribute must be present as one the schema has a say in.  That a declaration may
have a name with a qualifier, which no such attribute has, is the one place where this is less
than being present at all.
-/
import PersistenceMapping.Proofs.Schema.Compiled
import PersistenceMapping.Proofs.Schema.Language

namespace PersistenceMapping

namespace ElementDecl

variable {decl : ElementDecl} {given attributes : List Attribute} {tag : StartTag}

/-! ### Attributes -/

theorem attribute?_eq_some_iff (h : (decl.attributes.map (·.name)).Nodup) {name : String}
    {declared : AttributeDecl} :
    decl.attribute? name = some declared ↔ declared ∈ decl.attributes ∧ declared.name = name :=
  find?_key_eq_some_iff h

/-- A declared attribute with a value of its kind. -/
def Accepted (decl : ElementDecl) (a : Attribute) : Prop :=
  ∃ declared ∈ decl.attributes, declared.name = a.name ∧ declared.kind.accepts a.value = true

theorem passed_over_eq (a : Attribute) :
    (a.declaresNamespace || a.qualifier?.isSome) = !a.isOwn := by
  rw [Attribute.isOwn, Bool.not_not]

/-- Validation binds the attributes that the schema has a say in. -/
theorem bindGiven_of_accepted (h : (decl.attributes.map (·.name)).Nodup)
    (hall : ∀ a ∈ attributes, a.isOwn = true → decl.Accepted a) :
    decl.bindGiven true attributes = .ok (attributes.filter Attribute.isOwn) := by
  induction attributes with
  | nil => rfl
  | cons a rest ih =>
      have hrest := ih fun b hb => hall b (by simp [hb])
      rw [bindGiven, passed_over_eq]
      by_cases hown : a.isOwn = true
      · obtain ⟨declared, hmem, hname, haccepts⟩ := hall a (by simp) hown
        rw [(attribute?_eq_some_iff h).mpr ⟨hmem, hname⟩, hrest]
        simp [haccepts, hown, Except.map]
      · rw [hrest]
        simp [hown]

/-- An attribute that is not accepted is refused, be it that one or one before it. -/
theorem bindGiven_of_not_accepted (h : (decl.attributes.map (·.name)).Nodup) {a : Attribute}
    (ha : a ∈ attributes) (hown : a.isOwn = true) (hnot : ¬decl.Accepted a) :
    ∃ fault, decl.bindGiven true attributes = .error fault := by
  induction attributes with
  | nil => simp at ha
  | cons b rest ih =>
      rw [bindGiven]
      rcases List.mem_cons.mp ha with rfl | ha
      · rw [passed_over_eq, hown, Bool.not_true, if_neg Bool.false_ne_true]
        rcases hdeclared : decl.attribute? a.name with _ | declared
        · exact ⟨_, rfl⟩
        · obtain ⟨hmem, hname⟩ := (attribute?_eq_some_iff h).mp hdeclared
          have hrefused : declared.kind.accepts a.value = false := by
            by_contra haccepts
            exact hnot ⟨declared, hmem, hname, by simpa using haccepts⟩
          simp [hrefused]
      · obtain ⟨fault, hfault⟩ := ih ha
        rw [hfault]
        split
        · exact ⟨fault, rfl⟩
        · split
          · split
            · exact ⟨_, rfl⟩
            · exact ⟨fault, rfl⟩
          · exact ⟨_, rfl⟩

theorem bindMissing_of_present (element : String) {decls : List AttributeDecl}
    (h : ∀ declared ∈ decls, declared.required = true → declared.default = none →
      (Attributes.get? given declared.name).isSome = true) :
    ∃ missing, bindMissing element true given decls = .ok missing := by
  induction decls with
  | nil => exact ⟨[], rfl⟩
  | cons declared rest ih =>
      obtain ⟨missing, hmissing⟩ := ih fun other hother => h other (by simp [hother])
      rw [bindMissing, hmissing]
      split
      · exact ⟨missing, rfl⟩
      · rename_i hget
        split
        · exact ⟨_, rfl⟩
        · rename_i hdefault
          have hrequired : declared.required = false := by
            by_contra hc
            exact hget (h declared (by simp) (by simpa using hc) hdefault)
          simp [hrequired]

theorem bindMissing_of_absent (element : String) {decls : List AttributeDecl}
    {declared : AttributeDecl} (hmem : declared ∈ decls) (hrequired : declared.required = true)
    (hdefault : declared.default = none)
    (habsent : (Attributes.get? given declared.name).isSome = false) :
    ∃ fault, bindMissing element true given decls = .error fault := by
  induction decls with
  | nil => simp at hmem
  | cons other rest ih =>
      rw [bindMissing]
      rcases List.mem_cons.mp hmem with rfl | hmem
      · simp [habsent, hdefault, hrequired]
      · obtain ⟨fault, hfault⟩ := ih hmem
        rw [hfault]
        split
        · exact ⟨fault, rfl⟩
        · split
          · exact ⟨fault, rfl⟩
          · split
            · exact ⟨_, rfl⟩
            · exact ⟨fault, rfl⟩

theorem get?_filter_isSome_iff {name : String} :
    (Attributes.get? (attributes.filter Attribute.isOwn) name).isSome = true ↔
      ∃ a ∈ attributes, a.isOwn = true ∧ a.name = name := by
  simp [Attributes.get?, List.find?_isSome]

theorem bindAttributes_of_fits (h : (decl.attributes.map (·.name)).Nodup)
    (hfits : decl.Fits Attribute.isOwn tag) :
    ∃ bound, decl.bindAttributes true tag.attributes = .ok bound := by
  have hpresent : ∀ declared ∈ decl.attributes, declared.required = true →
      declared.default = none →
      (Attributes.get? (tag.attributes.filter Attribute.isOwn) declared.name).isSome = true :=
    fun declared hmem hrequired hdefault =>
      get?_filter_isSome_iff.mpr (hfits.required declared hmem hrequired hdefault)
  obtain ⟨missing, hmissing⟩ := bindMissing_of_present decl.name hpresent
  refine ⟨tag.attributes.filter Attribute.isOwn ++ missing, ?_⟩
  simp only [bindAttributes, bindGiven_of_accepted h hfits.declared, bind, Except.bind, hmissing]

/-- Whatever does not fit but is of no other namespace is refused for its attributes. -/
theorem bindAttributes_of_not_fits (h : (decl.attributes.map (·.name)).Nodup)
    (hns : ∀ ns, tag.ns = some ns → ns = Dialect.Hierarchical.canonicalNamespace)
    (hfits : ¬decl.Fits Attribute.isOwn tag) :
    ∃ fault, decl.bindAttributes true tag.attributes = .error fault := by
  by_cases hdeclared : ∀ a ∈ tag.attributes, a.isOwn = true → decl.Accepted a
  · by_contra hnone
    refine hfits ⟨hns, hdeclared, fun declared hmem hrequired hdefault => ?_⟩
    by_contra habsent
    obtain ⟨fault, hfault⟩ := bindMissing_of_absent decl.name hmem hrequired hdefault
      (Bool.eq_false_iff.mpr fun hget => habsent (get?_filter_isSome_iff.mp hget))
    refine hnone ⟨fault, ?_⟩
    simp only [bindAttributes, bindGiven_of_accepted h hdeclared, bind, Except.bind, hfault]
  · push Not at hdeclared
    obtain ⟨a, ha, hown, hnot⟩ := hdeclared
    obtain ⟨fault, hfault⟩ := bindGiven_of_not_accepted h ha hown hnot
    refine ⟨fault, ?_⟩
    simp only [bindAttributes, hfault, bind, Except.bind]

end ElementDecl

namespace Schema

variable {decl : ElementDecl} {tag : StartTag}

/-! ### Tokens -/

/-- A frame is opened for a start tag that fits. -/
theorem openFrame_of_fits (h : (decl.attributes.map (·.name)).Nodup)
    (hfits : decl.Fits Attribute.isOwn tag) :
    ∃ frame, openFrame true decl tag = .ok frame ∧ frame.decl = decl := by
  have hns : (tag.ns.filter fun ns => true && ns != Dialect.Hierarchical.canonicalNamespace)
      = none := by
    rcases hns : tag.ns with _ | ns
    · rfl
    · simp [Option.filter, hfits.ns ns hns]
  obtain ⟨bound, hbound⟩ := ElementDecl.bindAttributes_of_fits h hfits
  rw [openFrame, hns, hbound]
  exact ⟨_, rfl, rfl⟩

theorem openFrame_of_not_fits (h : (decl.attributes.map (·.name)).Nodup)
    (hfits : ¬decl.Fits Attribute.isOwn tag) : ∃ fault, openFrame true decl tag = .error fault := by
  rw [openFrame]
  split
  · exact ⟨_, rfl⟩
  · rename_i hns
    have hns' : ∀ ns, tag.ns = some ns → ns = Dialect.Hierarchical.canonicalNamespace := by
      intro ns htag
      simpa [htag, Option.filter] using hns
    obtain ⟨fault, hfault⟩ := ElementDecl.bindAttributes_of_not_fits h hns' hfits
    rw [hfault]
    exact ⟨fault, rfl⟩

/-- The elements that are open, innermost first, nothing being skipped.  When none is open, the
root is closed. -/
structure Standing (p : Progress) (stack : List ElementDecl) : Prop where
  opened : p.opened.map (·.decl) = stack
  skipped : p.skipped = 0
  root : p.root.isSome = stack.isEmpty

/-- A token is taken in and these elements are open then, or it is refused. -/
def Reads (result : Except BindFault Progress) (allowed : Prop) (stack : List ElementDecl) : Prop :=
  (allowed ∧ ∃ p, result = .ok p ∧ Standing p stack) ∨ (¬allowed ∧ ∃ fault, result = .error fault)

variable {schema : Schema} {p p' : Progress} {above : List ElementDecl} {token : Token}

namespace Standing

theorem frame (h : Standing p (decl :: above)) :
    ∃ frame rest, p.opened = frame :: rest ∧ frame.decl = decl ∧ rest.map (·.decl) = above :=
  List.map_eq_cons_iff.mp h.opened

theorem root_none (h : Standing p (decl :: above)) : p.root = none := by
  simpa using h.root

theorem opened_nil (h : Standing p []) : p.opened = [] :=
  List.map_eq_nil_iff.mp h.opened

end Standing

theorem read_characters (h : Standing p (decl :: above)) {content : String}
    (hcontent : token.characters? = some content) :
    Reads (readText true p content) (decl.Admits token) (decl :: above) := by
  obtain ⟨frame, rest, hopened, rfl, hrest⟩ := h.frame
  have htag : token.isTag = false := by
    cases token <;> first | rfl | cases hcontent
  rw [readText, hopened]
  by_cases htext : frame.decl.hasText = true
  · refine Or.inl ⟨⟨htag, fun _ _ => Or.inl htext⟩, ?_⟩
    refine ⟨_, if_pos htext, ?_, h.skipped, h.root⟩
    simp [hrest]
  · by_cases hblank : isBlankText content = true
    · refine Or.inl ⟨⟨htag, fun s hs => Or.inr ?_⟩, p, ?_, h⟩
      · rw [hcontent] at hs
        cases hs
        exact hblank
      · simp [htext, hblank]
    · refine Or.inr ⟨fun hadmits => ?_, ?_⟩
      · exact (hadmits.2 content hcontent).elim htext hblank
      · simp [htext, hblank]

theorem read_of_standing {stack : List ElementDecl} (h : Standing p stack) (token : Token) :
    schema.read true p token =
      match token with
      | .startTag tag => schema.readStart true p tag
      | .endTag name => readEnd p name
      | .text content => readText true p content
      | .cdata content => readText true p content
      | _ => .ok p := by
  have hskipped : ¬ p.skipped > 0 := by simp [h.skipped]
  unfold read
  cases token <;> exact if_neg hskipped

/-- Inside an element, a token that is no tag. -/
theorem read_inside_other (h : Standing p (decl :: above)) (htoken : token.isTag = false) :
    Reads (schema.read true p token) (decl.Admits token) (decl :: above) := by
  rw [read_of_standing h]
  cases token with
  | startTag => cases htoken
  | endTag => cases htoken
  | text content => exact read_characters h rfl
  | cdata content => exact read_characters h rfl
  | _ => exact Or.inl ⟨⟨htoken, nofun⟩, p, rfl, h⟩

/-- Inside an element, an end tag. -/
theorem read_inside_end (h : Standing p (decl :: above)) (name : String) :
    Reads (schema.read true p (.endTag name)) (QName.localName name = decl.name) above := by
  obtain ⟨frame, rest, hopened, rfl, hrest⟩ := h.frame
  rw [read_of_standing h]
  show Reads (readEnd p name) _ _
  rw [readEnd, hopened]
  by_cases hname : QName.localName name = frame.decl.name
  · refine Or.inl ⟨hname, ?_⟩
    simp only [hname, if_true]
    rcases rest with _ | ⟨parent, rest⟩
    · refine ⟨_, rfl, hrest, h.skipped, ?_⟩
      rw [← hrest]
      rfl
    · refine ⟨_, rfl, hrest, h.skipped, ?_⟩
      rw [← hrest, h.root_none]
      rfl
  · exact Or.inr ⟨hname, _, if_neg hname⟩

theorem element?_eq_some_iff (hs : Consistent schema.elements schema.root) {name : String} :
    schema.element? name = some decl ↔ decl ∈ schema.elements ∧ decl.name = name :=
  find?_key_eq_some_iff hs.names

/-- A frame is put on the stack. -/
theorem standing_push {frame : Frame} {stack : List ElementDecl} (h : Standing p stack)
    (hroot : p.root = none) :
    Standing { p with opened := frame :: p.opened } (frame.decl :: stack) where
  opened := congrArg (frame.decl :: ·) h.opened
  skipped := h.skipped
  root := by simp [hroot]

/-- Inside an element, a start tag: a declared child is opened, anything else is refused. -/
theorem read_inside_start (hs : Consistent schema.elements schema.root)
    (h : Standing p (decl :: above)) (hdecl : decl ∈ schema.elements) (tag : StartTag) :
    (∃ child ∈ schema.elements, child.name = tag.localName ∧
        Reads (schema.read true p (.startTag tag))
          (tag.localName ∈ decl.children ∧ child.Fits Attribute.isOwn tag)
          (child :: decl :: above)) ∨
      tag.localName ∉ decl.children ∧
        ∃ fault, schema.read true p (.startTag tag) = .error fault := by
  obtain ⟨frame, rest, hopened, rfl, hrest⟩ := h.frame
  have hroot : ¬p.root.isSome = true := by simp [h.root_none]
  rw [read_of_standing h]
  show (∃ child ∈ schema.elements, child.name = tag.localName ∧
    Reads (schema.readStart true p tag) _ _) ∨ _ ∧ ∃ fault, schema.readStart true p tag = _
  rw [readStart, if_neg hroot, hopened, declarationIn]
  by_cases hpermits : tag.localName ∈ frame.decl.children
  · obtain ⟨child, hchild, hname⟩ := List.mem_map.mp (hs.children _ hdecl _ hpermits)
    have hfind := (element?_eq_some_iff hs).mpr ⟨hchild, hname⟩
    refine Or.inl ⟨child, hchild, hname, ?_⟩
    simp only [hfind, ElementDecl.permits, hpermits, Option.filter, List.contains_eq_mem,
      decide_true, if_true]
    by_cases hfits : child.Fits Attribute.isOwn tag
    · obtain ⟨opened, hframe, rfl⟩ := openFrame_of_fits (hs.attributeNames child hchild) hfits
      rw [hframe, ← hopened]
      exact Or.inl ⟨⟨trivial, hfits⟩, _, rfl, standing_push h h.root_none⟩
    · obtain ⟨fault, hfault⟩ := openFrame_of_not_fits (hs.attributeNames child hchild) hfits
      rw [hfault]
      exact Or.inr ⟨fun hc => hfits hc.2, fault, rfl⟩
  · refine Or.inr ⟨hpermits, ?_⟩
    have hfind : ((schema.element? tag.localName).filter fun _ => frame.decl.permits tag.localName)
        = none := by
      rcases schema.element? tag.localName with _ | child
      · rfl
      · simp [Option.filter, ElementDecl.permits, hpermits]
    simp [hfind]

/-! ### Before and after the root -/

/-- Where no element is open, tokens that are no tags are passed over. -/
theorem read_outside_other (hopened : p.opened = []) (hskipped : p.skipped = 0)
    (htoken : token.isTag = false) : schema.read true p token = .ok p := by
  unfold read
  rw [if_neg (by simp [hskipped])]
  cases token with
  | startTag => cases htoken
  | endTag => cases htoken
  | text content => simp [readText, hopened]
  | cdata content => simp [readText, hopened]
  | _ => rfl

theorem read_outside_end (hopened : p.opened = []) (hskipped : p.skipped = 0) (name : String) :
    schema.read true p (.endTag name) = .error (.strayEnd name) := by
  unfold read
  rw [if_neg (by simp [hskipped])]
  simp [readEnd, hopened]

theorem read_after_start (h : Standing p []) (tag : StartTag) :
    schema.read true p (.startTag tag) = .error (.afterRoot tag.name) := by
  rw [read_of_standing h]
  exact if_pos h.root

/-- The first start tag opens the root, if it is one of it. -/
theorem read_before_start (hs : Consistent schema.elements schema.root) (hopened : p.opened = [])
    (hroot : p.root = none) (hskipped : p.skipped = 0) (tag : StartTag) :
    ∃ root ∈ schema.elements, root.name = schema.root ∧
      Reads (schema.read true p (.startTag tag))
        (tag.localName = schema.root ∧ root.Fits Attribute.isOwn tag) [root] := by
  obtain ⟨root, hmem, hname⟩ := List.mem_map.mp hs.root
  refine ⟨root, hmem, hname, ?_⟩
  unfold read
  rw [if_neg (by simp [hskipped])]
  show Reads (schema.readStart true p tag) _ _
  rw [readStart, if_neg (by simp [hroot]), hopened, declarationIn]
  by_cases htag : tag.localName = schema.root
  · have hfind := (element?_eq_some_iff hs).mpr ⟨hmem, hname⟩
    simp only [htag, hfind, Option.filter, decide_true, if_true]
    by_cases hfits : root.Fits Attribute.isOwn tag
    · obtain ⟨opened, hframe, rfl⟩ := openFrame_of_fits (hs.attributeNames root hmem) hfits
      rw [hframe]
      exact Or.inl ⟨⟨trivial, hfits⟩, _, rfl, rfl, hskipped, by simp [hroot]⟩
    · obtain ⟨fault, hfault⟩ := openFrame_of_not_fits (hs.attributeNames root hmem) hfits
      rw [hfault]
      exact Or.inr ⟨fun hc => hfits hc.2, fault, rfl⟩
  · refine Or.inr ⟨fun hc => htag hc.1, ?_⟩
    have hfind : ((schema.element? tag.localName).filter fun _ => tag.localName = schema.root)
        = none := by
      rcases schema.element? tag.localName with _ | child
      · rfl
      · simp [Option.filter, htag]
    simp [hfind]

/-! ### Runs -/

theorem run_cons_ok {failure : Option TokenError} {items : List Outcome}
    (hne : token ≠ .endDocument) (h : schema.read true p token = .ok p') :
    schema.run true failure p (.ok token :: items) = schema.run true failure p' items := by
  simp [run, hne, h]

theorem run_cons_error {failure : Option TokenError} {items : List Outcome} {fault : BindFault}
    (hne : token ≠ .endDocument) (h : schema.read true p token = .error fault) :
    schema.run true failure p (.ok token :: items) = .error fault := by
  simp [run, hne, h]

theorem run_cons_end {failure : Option TokenError} {items : List Outcome} (h : p.skipped = 0) :
    schema.run true failure p (.ok .endDocument :: items) = p.finish := by
  simp [run, h]

/-- What is read of tokens that do not fail: those up to the document end. -/
def upToEnd (tokens : List Token) : List Token :=
  tokens.takeWhile (· ≠ .endDocument)

theorem upToEnd_cons {tokens : List Token} (hne : token ≠ .endDocument) :
    upToEnd (token :: tokens) = token :: upToEnd tokens := by
  simp [upToEnd, hne]

/-- A run is over where no element is open. -/
theorem finish_iff {stack : List ElementDecl} (h : Standing p stack) :
    (∃ bound, p.finish = .ok bound) ↔ Closes Attribute.isOwn schema stack [] := by
  cases stack with
  | nil =>
      obtain ⟨root, hroot⟩ := Option.isSome_iff_exists.mp h.root
      have hfinish : p.finish = .ok root := by simp [Progress.finish, h.opened_nil, hroot]
      rw [hfinish]
      exact ⟨fun _ => .nil (by simp), fun _ => ⟨root, rfl⟩⟩
  | cons decl above =>
      obtain ⟨frame, rest, hopened, -, -⟩ := h.frame
      simp only [Progress.finish, hopened, reduceCtorEq, exists_false, false_iff]
      exact Closes.not_inside_nil

/-- From a stack on, validation accepts what closes it. -/
theorem run_iff_closes (hs : Consistent schema.elements schema.root) {stack : List ElementDecl}
    (hstack : ∀ decl ∈ stack, decl ∈ schema.elements) (h : Standing p stack) (tokens : List Token) :
    (∃ bound, schema.run true none p (tokens.map .ok) = .ok bound) ↔
      Closes Attribute.isOwn schema stack (upToEnd tokens) := by
  induction tokens generalizing p stack with
  | nil => exact finish_iff h
  | cons token rest ih =>
      by_cases hne : token = .endDocument
      · subst hne
        rw [List.map_cons, run_cons_end h.skipped]
        exact finish_iff h
      rw [List.map_cons, upToEnd_cons hne]
      -- Either the token is taken in and the rest is a run from the stack after it, or it is
      -- refused and there is nothing that it could be followed by.
      have hstep : ∀ {allowed : Prop} {stack' : List ElementDecl},
          (∀ decl ∈ stack', decl ∈ schema.elements) →
          Reads (schema.read true p token) allowed stack' →
          ((∃ bound, schema.run true none p (.ok token :: rest.map .ok) = .ok bound) ↔
            allowed ∧ Closes Attribute.isOwn schema stack' (upToEnd rest)) := by
        rintro allowed stack' hstack' (⟨hallowed, p', hread, h'⟩ | ⟨hnot, fault, hread⟩)
        · rw [run_cons_ok hne hread, ih hstack' h']
          simp [hallowed]
        · simp [run_cons_error hne hread, hnot]
      have hrefused : ∀ {fault : BindFault}, schema.read true p token = .error fault →
          ¬∃ bound, schema.run true none p (.ok token :: rest.map .ok) = .ok bound := by
        intro fault hread
        simp [run_cons_error hne hread]
      cases stack with
      | nil =>
          cases htoken : token.isTag with
          | false =>
              have hread : schema.read true p token = .ok p :=
                read_outside_other h.opened_nil h.skipped htoken
              rw [run_cons_ok hne hread, ih hstack h, Closes.outside_cons]
              simp [htoken]
          | true =>
              have hnot : ¬Closes Attribute.isOwn schema [] (token :: upToEnd rest) := by
                rw [Closes.outside_cons]
                simp [htoken]
              refine iff_of_false ?_ hnot
              cases token with
              | startTag tag => exact hrefused (read_after_start h tag)
              | endTag name => exact hrefused (read_outside_end h.opened_nil h.skipped name)
              | _ => cases htoken
      | cons decl above =>
          cases htoken : token.isTag with
          | false =>
              rw [hstep hstack (read_inside_other h htoken), Closes.inside_other htoken]
          | true =>
              cases token with
              | startTag tag =>
                  rw [Closes.inside_start]
                  rcases read_inside_start hs h (hstack decl (by simp)) tag with
                    ⟨child, hchild, hname, hreads⟩ | ⟨hnot, fault, hread⟩
                  · rw [hstep (by simpa [hchild] using hstack) hreads, and_assoc]
                    refine and_congr_right fun _ => ?_
                    constructor
                    · rintro ⟨hfits, hcloses⟩
                      exact ⟨child, hchild, hname, hfits, hcloses⟩
                    · rintro ⟨other, hother, hname', hfits, hcloses⟩
                      obtain rfl := hs.eq_of_name hother hchild (hname'.trans hname.symm)
                      exact ⟨hfits, hcloses⟩
                  · exact iff_of_false (hrefused hread) fun hc => hnot hc.1
              | endTag name =>
                  rw [hstep (fun d hd => hstack d (by simp [hd])) (read_inside_end h name),
                    Closes.inside_end]
              | _ => cases htoken

/-- From the start on, validation accepts the documents of the schema. -/
theorem run_iff_accepts (hs : Consistent schema.elements schema.root) (hopened : p.opened = [])
    (hroot : p.root = none) (hskipped : p.skipped = 0) (tokens : List Token) :
    (∃ bound, schema.run true none p (tokens.map .ok) = .ok bound) ↔
      Accepts Attribute.isOwn schema (upToEnd tokens) := by
  have hfinish : ¬∃ bound, p.finish = .ok bound := by simp [Progress.finish, hopened, hroot]
  induction tokens with
  | nil => exact iff_of_false hfinish Accepts.not_nil
  | cons token rest ih =>
      by_cases hne : token = .endDocument
      · subst hne
        rw [List.map_cons, run_cons_end hskipped]
        exact iff_of_false hfinish Accepts.not_nil
      rw [List.map_cons, upToEnd_cons hne]
      cases htoken : token.isTag with
      | false =>
          rw [run_cons_ok hne (read_outside_other hopened hskipped htoken)]
          exact ih.trans (Accepts.cons_other htoken).symm
      | true =>
          cases token with
          | startTag tag =>
              rw [Accepts.cons_start]
              obtain ⟨root, hmem, hname, hreads⟩ := read_before_start hs hopened hroot hskipped tag
              have hunique : ∀ other ∈ schema.elements, other.name = schema.root → other = root :=
                fun other hother hname' => hs.eq_of_name hother hmem (hname'.trans hname.symm)
              rcases hreads with ⟨⟨htag, hfits⟩, p', hread, h'⟩ | ⟨hnot, fault, hread⟩
              · rw [run_cons_ok hne hread, run_iff_closes hs (by simpa using hmem) h']
                constructor
                · exact fun hcloses => ⟨htag, root, hmem, hname, hfits, hcloses⟩
                · rintro ⟨-, other, hother, hname', -, hcloses⟩
                  rwa [hunique other hother hname'] at hcloses
              · rw [run_cons_error hne hread]
                refine iff_of_false (by simp) ?_
                rintro ⟨htag, other, hother, hname', hfits, -⟩
                exact hnot ⟨htag, hunique other hother hname' ▸ hfits⟩
          | endTag name =>
              rw [run_cons_error hne (read_outside_end hopened hskipped name)]
              exact iff_of_false (by simp) Accepts.not_cons_end
          | _ => cases htoken

end Schema

/-- A stream that does not fail is its tokens. -/
theorem TokenStream.eq_of_readAll {s : TokenStream} {tokens : List Token}
    (h : s.readAll = .ok tokens) : s.items = tokens.map .ok ∧ s.failure = none := by
  have hgo : ∀ (items : List Outcome) (tokens : List Token), run.go s items = (tokens, none) →
      items = tokens.map .ok ∧ s.failure = none := by
    intro items
    induction items with
    | nil =>
        intro tokens hrun
        obtain ⟨rfl, hfailure⟩ := Prod.mk.inj hrun
        exact ⟨rfl, hfailure⟩
    | cons item items ih =>
        intro tokens hrun
        cases item with
        | error e => cases (Prod.mk.inj hrun).2
        | ok token =>
            obtain ⟨rfl, hfailure⟩ := Prod.mk.inj hrun
            obtain ⟨hitems, hnone⟩ := ih (run.go s items).1 (Prod.ext rfl hfailure)
            exact ⟨congrArg (_ :: ·) hitems, hnone⟩
  unfold readAll run at h
  split at h
  · rename_i hrun
    cases h
    exact hgo _ _ hrun
  · cases h

namespace Schema

variable {elements : List ElementDecl} {root : String} {schema : Schema} {s : TokenStream}
  {tokens : List Token}

/-- Validated binding of a stream that does not fail succeeds just for the documents of the
schema. -/
theorem bind_iff_accepts (hcompile : compile elements root = .ok schema)
    (hstream : s.readAll = .ok tokens) :
    (∃ bound, schema.bind true s = .ok bound) ↔
      Accepts Attribute.isOwn schema (upToEnd tokens) := by
  obtain ⟨hs, rfl⟩ := consistent_of_compile hcompile
  obtain ⟨hitems, hfailure⟩ := TokenStream.eq_of_readAll hstream
  rw [bind, hitems, hfailure]
  exact run_iff_accepts hs rfl rfl rfl tokens

/-- A document with a declared child, a number and blank text is one of its schema, because it is
bound. -/
theorem accepts_of_bound :
    let schema : Schema := ⟨"a", [.plain "a" [.mandatory "n"] ["b"], .mixed "b" [.number "m"] []]⟩
    let tokens : List Token := [.plainStart, .startTag ⟨"p:a", none, [⟨"n", ""⟩]⟩, .text " ",
      .startTag ⟨"b", none, [⟨"m", "+07"⟩]⟩, .text "x", .endTag "q:b", .endTag "a", .endDocument]
    compile schema.elements "a" = .ok schema ∧ (TokenStream.ofTokens tokens).readAll = .ok tokens ∧
      Accepts Attribute.isOwn schema (upToEnd tokens) := by
  intro schema tokens
  have hcompile : compile schema.elements "a" = .ok schema := by decide
  have hstream : (TokenStream.ofTokens tokens).readAll = .ok tokens := by decide
  exact ⟨hcompile, hstream, (bind_iff_accepts hcompile hstream).mp ⟨_, rfl⟩⟩

/-- Being present is not enough for a required attribute: one that has a qualifier, as its
declaration has, is passed over, and missing then. -/
theorem not_bound_of_qualified :
    let schema : Schema := ⟨"a", [.plain "a" [.mandatory "x:y"] []]⟩
    let tokens : List Token := [.startTag ⟨"a", none, [⟨"x:y", "1"⟩]⟩, .endTag "a"]
    compile schema.elements "a" = .ok schema ∧ (TokenStream.ofTokens tokens).readAll = .ok tokens ∧
      (∀ tag, .startTag tag ∈ tokens → (tag.attributes.map (·.name)).Nodup) ∧
      Accepts (fun _ => true) schema (upToEnd tokens) ∧
      ¬∃ bound, schema.bind true (.ofTokens tokens) = .ok bound := by
  intro schema tokens
  refine ⟨by decide, by decide, ?_, ?_, ?_⟩
  · intro tag htag
    simp only [tokens, List.mem_cons, Token.startTag.injEq, reduceCtorEq, List.not_mem_nil,
      or_false] at htag
    subst htag
    decide
  · have hbefore : ∀ token ∈ ([] : List Token), token.isTag = false := by simp
    refine .intro hbefore List.mem_cons_self rfl rfl ⟨?_, ?_, ?_⟩ .nil rfl hbefore
    · rintro ns ⟨⟩
    · intro a ha hown
      rw [List.mem_singleton.mp ha] at hown
      cases hown
    · intro declared hdeclared _ _
      rw [List.mem_singleton.mp hdeclared]
      exact ⟨_, List.mem_cons_self, rfl, rfl⟩
  · rintro ⟨bound, hbound⟩
    cases hbound

end Schema

end PersistenceMapping
