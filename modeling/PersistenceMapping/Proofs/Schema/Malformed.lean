/-
Malformed values count as missing.

Without validation a value is taken as it is, and one that is malformed for the kind of its
attribute keeps out the default.  So the bound elements are not the same with and without it, but
what is read off them is: a reader supplies what the default would have said.

While a stream is bound and the same stream without malformed values, the same elements are open in
both and their attributes differ in nothing else (`Progress.Settled`).  Whatever is taken in leads
to the same fault or to what differs in nothing else again (`read_settled`), and so does the run
(`run_settled`).  In the end there are elements that are alike, and these map to the same.

Attributes of a tag have to have distinct names, for where one is repeated the second counts as soon
as the first is gone.
-/
import PersistenceMapping.Proofs.Dispatch
import PersistenceMapping.Proofs.Mapping.Congruence
import PersistenceMapping.Proofs.Schema.Leniency
import PersistenceMapping.Proofs.Schema.Relaid

namespace PersistenceMapping

/-- The same error, or results that are related. -/
inductive Together {ε α β : Type} (R : α → β → Prop) : Except ε α → Except ε β → Prop
  | error {e : ε} : Together R (.error e) (.error e)
  | ok {a : α} {b : β} (h : R a b) : Together R (.ok a) (.ok b)

namespace Together

variable {ε α β γ δ : Type} {R : α → β → Prop} {result : Except ε α} {result' : Except ε β}

theorem map {S : γ → δ → Prop} {f : α → γ} {g : β → δ} (h : Together R result result')
    (hfg : ∀ a b, R a b → S (f a) (g b)) : Together S (result.map f) (result'.map g) := by
  cases h with
  | error => exact .error
  | ok hab => exact .ok (hfg _ _ hab)

theorem map_eq {f : α → γ} {g : β → γ} (h : Together R result result')
    (hfg : ∀ a b, R a b → g b = f a) : result'.map g = result.map f := by
  cases h with
  | error => rfl
  | ok hab => exact congrArg Except.ok (hfg _ _ hab)

end Together

/-- Whether an attribute in an element of this name has a value that is not of its kind. -/
def Schema.isMalformed (schema : Schema) (element : String) (a : Attribute) : Bool :=
  (schema.declared? element a.name).any fun declared => !declared.kind.accepts a.value

/-- A tag without the attributes whose values are malformed. -/
def StartTag.withoutMalformed (schema : Schema) (tag : StartTag) : StartTag :=
  { tag with attributes := tag.attributes.filter fun a => !schema.isMalformed tag.localName a }

/-- A token without the attributes whose values are malformed. -/
def Token.withoutMalformed (schema : Schema) : Token → Token
  | .startTag tag => .startTag (tag.withoutMalformed schema)
  | token => token

/-- A stream without the attributes whose values are malformed. -/
def TokenStream.withoutMalformed (schema : Schema) (s : TokenStream) : TokenStream :=
  { s with items := s.items.map (·.map (Token.withoutMalformed schema)) }

/-- No attribute of a tag is repeated. -/
def Token.Distinct (token : Token) : Prop :=
  ∀ tag, token = .startTag tag → (tag.attributes.map (·.name)).Nodup

namespace Schema

variable {schema : Schema} {p p' : Progress} {failure : Option TokenError} {tag : StartTag}

/-! ### Attributes -/

/-- An attribute whose value is malformed has its default where it is left out. -/
theorem settles_filter {decl : ElementDecl} (hdecl : schema.element? decl.name = some decl)
    {attributes bound bound' : List Attribute} (hdistinct : (attributes.map (·.name)).Nodup)
    (hbound : decl.Completes attributes bound)
    (hbound' : decl.Completes (attributes.filter fun a => !schema.isMalformed decl.name a) bound')
    (n : String) :
    schema.Settles decl.name n (Attributes.get? bound n) (Attributes.get? bound' n) := by
  have hdeclared : schema.declared? decl.name n = decl.attribute? n := by
    rw [declared?, hdecl, Option.bind_some]
  have hfilter : (attributes.filter fun a => !schema.isMalformed decl.name a).filter decl.takes =
      (attributes.filter decl.takes).filter fun a => !schema.isMalformed decl.name a := by
    rw [List.filter_filter, List.filter_filter]
    simp only [Bool.and_comm]
  have hnodup : ((attributes.filter decl.takes).map (·.name)).Nodup :=
    hdistinct.sublist (List.filter_sublist.map _)
  rw [hbound n, hbound' n, hfilter, Attributes.get?, Attributes.get?, find?_key_filter hnodup]
  cases hfind : (attributes.filter decl.takes).find? (·.name == n) with
  | none => exact Or.inl rfl
  | some a =>
      by_cases hmalformed : schema.isMalformed decl.name a = true
      · obtain ⟨hmem, rfl⟩ := (find?_key_eq_some_iff hnodup).mp hfind
        have htakes := (List.mem_filter.mp hmem).2
        rw [ElementDecl.takes, Bool.and_eq_true] at htakes
        obtain ⟨declared, hattribute⟩ := Option.isSome_iff_exists.mp htakes.2
        refine Or.inr ⟨declared, a.value, hdeclared.trans hattribute, rfl, ?_, ?_⟩
        · rw [isMalformed, hdeclared, hattribute, Option.any_some, Bool.not_eq_true'] at hmalformed
          exact hmalformed
        · rw [Option.filter_some_neg (by simp [hmalformed]), hattribute]
          rfl
      · rw [Option.filter_some_pos (by simpa using hmalformed)]
        exact Or.inl rfl

/-! ### Open elements -/

/-- Open elements that differ at most in malformed values. -/
structure Frame.Settled (schema : Schema) (f f' : Frame) : Prop where
  decl : f'.decl = f.decl
  attributes : ∀ n, schema.Settles f.decl.name n (Attributes.get? f.attributes n)
    (Attributes.get? f'.attributes n)
  children : List.Forall₂ (BoundElement.Alike schema) f.children f'.children
  text : f'.text = f.text

/-- What has been bound so far, with and without malformed values. -/
structure Progress.Settled (schema : Schema) (p p' : Progress) : Prop where
  opened : List.Forall₂ (Frame.Settled schema) p.opened p'.opened
  root : Option.Rel (BoundElement.Alike schema) p.root p'.root
  skipped : p'.skipped = p.skipped

theorem Frame.Settled.close {f f' : Frame} (h : f.Settled schema f') :
    BoundElement.Alike schema f.close f'.close := by
  rw [Frame.close, Frame.close, h.decl, h.text]
  exact .mk h.attributes (List.rel_reverse h.children) rfl

/-- A start tag opens elements that differ at most in malformed values. -/
theorem openFrame_settled (hs : Consistent schema.elements schema.root) {decl : ElementDecl}
    (hdecl : schema.element? tag.localName = some decl)
    (hdistinct : (tag.attributes.map (·.name)).Nodup) :
    Together (Frame.Settled schema) (openFrame false decl tag)
      (openFrame false decl (tag.withoutMalformed schema)) := by
  have hnames := hs.attributeNames decl (List.mem_of_find?_eq_some hdecl)
  obtain ⟨bound, hbound, hcompletes⟩ := decl.bindAttributes_lenient hnames tag.attributes
  obtain ⟨bound', hbound', hcompletes'⟩ :=
    decl.bindAttributes_lenient hnames (tag.withoutMalformed schema).attributes
  have hname := element?_name hdecl
  rw [openFrame_lenient, openFrame_lenient, hbound, hbound']
  rw [StartTag.withoutMalformed, ← hname] at hcompletes'
  exact .ok ⟨rfl, settles_filter (hname.symm ▸ hdecl) hdistinct hcompletes hcompletes', .nil, rfl⟩

/-! ### Tokens -/

theorem declarationIn_settled (h : p.Settled schema p') (validate : Bool) (tag : StartTag) :
    schema.declarationIn validate p'.opened (tag.withoutMalformed schema) =
      schema.declarationIn validate p.opened tag := by
  obtain ⟨opened, root, skipped⟩ := p
  obtain ⟨opened', root', skipped'⟩ := p'
  cases h.opened with
  | nil => rfl
  | cons hf _ =>
      simp only [declarationIn, hf.decl]
      rfl

theorem readStart_settled (hs : Consistent schema.elements schema.root) (h : p.Settled schema p')
    (hdistinct : (tag.attributes.map (·.name)).Nodup) :
    Together (Progress.Settled schema) (schema.readStart false p tag)
      (schema.readStart false p' (tag.withoutMalformed schema)) := by
  have hroot : p'.root.isSome = p.root.isSome := by
    have hroots := h.root
    generalize p.root = root, p'.root = root' at hroots
    cases hroots <;> rfl
  rw [readStart, readStart, hroot, declarationIn_settled h]
  by_cases hsome : p.root.isSome = true
  · rw [if_pos hsome, if_pos hsome]
    exact .error
  · rw [if_neg hsome, if_neg hsome]
    cases hfound : schema.declarationIn false p.opened tag with
    | error fault => exact .error
    | ok found =>
        cases found with
        | none => exact .ok ⟨h.opened, h.root, rfl⟩
        | some decl =>
            have hframe := openFrame_settled hs (element?_of_declarationIn hfound) hdistinct
            exact hframe.map fun _ _ hf => ⟨.cons hf h.opened, h.root, h.skipped⟩

theorem readEnd_settled (h : p.Settled schema p') (name : String) :
    Together (Progress.Settled schema) (readEnd p name) (readEnd p' name) := by
  obtain ⟨opened, root, skipped⟩ := p
  obtain ⟨opened', root', skipped'⟩ := p'
  obtain ⟨hopened, hroot, hskipped⟩ := h
  cases hopened with
  | nil => exact .error
  | @cons f f' rest rest' hf hrest =>
      simp only [readEnd, hf.decl]
      by_cases hname : QName.localName name = f.decl.name
      · rw [if_pos hname, if_pos hname]
        cases hrest with
        | nil => exact .ok ⟨.nil, .some hf.close, hskipped⟩
        | cons hparent habove =>
            exact .ok ⟨.cons ⟨hparent.decl, hparent.attributes, .cons hf.close hparent.children,
              hparent.text⟩ habove, hroot, hskipped⟩
      · rw [if_neg hname, if_neg hname]
        exact .error

theorem readText_settled (h : p.Settled schema p') (validate : Bool) (content : String) :
    Together (Progress.Settled schema) (readText validate p content)
      (readText validate p' content) := by
  obtain ⟨opened, root, skipped⟩ := p
  obtain ⟨opened', root', skipped'⟩ := p'
  obtain ⟨hopened, hroot, hskipped⟩ := h
  cases hopened with
  | nil => exact .ok ⟨.nil, hroot, hskipped⟩
  | @cons f f' rest rest' hf hrest =>
      simp only [readText, hf.decl, hf.text]
      split
      · exact .ok ⟨.cons ⟨rfl, hf.attributes, hf.children, rfl⟩ hrest, hroot, hskipped⟩
      · split
        · exact .error
        · exact .ok ⟨.cons hf hrest, hroot, hskipped⟩

theorem skip_settled (h : p.Settled schema p') (token : Token) :
    (skip p token).Settled schema (skip p' (token.withoutMalformed schema)) := by
  cases token with
  | startTag tag => exact ⟨h.opened, h.root, congrArg (· + 1) h.skipped⟩
  | endTag name => exact ⟨h.opened, h.root, congrArg (· - 1) h.skipped⟩
  | _ => exact h

/-- A token without malformed values is refused for the same fault or leads to what differs in
nothing else. -/
theorem read_settled (hs : Consistent schema.elements schema.root) (h : p.Settled schema p')
    {token : Token} (hdistinct : token.Distinct) :
    Together (Progress.Settled schema) (schema.read false p token)
      (schema.read false p' (token.withoutMalformed schema)) := by
  unfold read
  rw [h.skipped]
  by_cases hskips : 0 < p.skipped
  · rw [if_pos hskips, if_pos hskips]
    exact .ok (skip_settled h token)
  · rw [if_neg hskips, if_neg hskips]
    cases token with
    | startTag tag => exact readStart_settled hs h (hdistinct tag rfl)
    | endTag name => exact readEnd_settled h name
    | text content | cdata content => exact readText_settled h false content
    | _ => exact .ok h

/-! ### Runs -/

theorem finish_settled (h : p.Settled schema p') :
    Together (BoundElement.Alike schema) p.finish p'.finish := by
  obtain ⟨opened, root, skipped⟩ := p
  obtain ⟨opened', root', skipped'⟩ := p'
  obtain ⟨hopened, hroot, -⟩ := h
  cases hopened with
  | cons hf _ =>
      simp only [Progress.finish, hf.decl]
      exact .error
  | nil =>
      cases hroot with
      | none => exact .error
      | some hroot => exact .ok hroot

/-- Items without malformed values are refused for the same fault or bound to what is alike. -/
theorem run_settled (hs : Consistent schema.elements schema.root) (h : p.Settled schema p')
    {items : List Outcome} (hdistinct : ∀ token, .ok token ∈ items → token.Distinct) :
    Together (BoundElement.Alike schema) (schema.run false failure p items)
      (schema.run false failure p' (items.map (·.map (Token.withoutMalformed schema)))) := by
  induction items generalizing p p' with
  | nil =>
      cases failure with
      | some e => exact .error
      | none => exact finish_settled h
  | cons item items ih =>
      cases item with
      | error e => exact .error
      | ok token =>
          have hend : token.withoutMalformed schema = .endDocument ↔ token = .endDocument := by
            cases token <;> simp [Token.withoutMalformed]
          have hread := read_settled hs h (hdistinct token (by simp))
          rw [List.map_cons, run, Except.map, run, h.skipped]
          simp only [hend]
          split
          · exact finish_settled h
          · generalize schema.read false p token = result,
              schema.read false p' (token.withoutMalformed schema) = result' at hread
            cases hread with
            | error => exact .error
            | ok hread => exact ih hread fun token htoken => hdistinct token (by simp [htoken])

/-- In a hierarchical document a malformed value counts as much as a missing one. -/
theorem Hierarchical.unmarshal_withoutMalformed {schema : Schema} (hschema : compiled = .ok schema)
    {s : TokenStream} (hdistinct : ∀ token, .ok token ∈ s.items → token.Distinct) :
    schema.unmarshal false (s.withoutMalformed schema) = schema.unmarshal false s := by
  have hs := (consistent_of_compile hschema).1
  obtain rfl := eq_table_of_compiled hschema
  have hrun : Together (BoundElement.Alike table) (table.bind false s)
      (table.bind false (s.withoutMalformed table)) :=
    run_settled hs ⟨.nil, .none, rfl⟩ hdistinct
  exact hrun.map_eq fun _ _ halike => Mapping.ofElement_congr halike

/-- The values are malformed where there is a default that is true, one that is false and none, and
where a value of a flag for one element is a name for another. -/
theorem Hierarchical.unmarshal_withoutMalformed_nested :
    let s : TokenStream := ⟨[
      .ok (.startTag ⟨"hibernate-mapping", none, [⟨"default-lazy", "maybe"⟩, ⟨"package", "p"⟩]⟩),
      .ok (.startTag ⟨"class", none, [⟨"name", "C"⟩, ⟨"mutable", ""⟩, ⟨"batch-size", "-1"⟩]⟩),
      .ok (.startTag ⟨"property", none, [⟨"lazy", "proxy"⟩, ⟨"name", "v"⟩, ⟨"update", "no"⟩]⟩),
      .ok (.endTag "property"),
      .ok (.startTag ⟨"many-to-one", none, [⟨"name", "r"⟩, ⟨"lazy", "proxy"⟩]⟩),
      .ok (.endTag "many-to-one"), .ok (.endTag "class"), .ok (.endTag "hibernate-mapping")], none⟩
    let s' : TokenStream := ⟨[
      .ok (.startTag ⟨"hibernate-mapping", none, [⟨"package", "p"⟩]⟩),
      .ok (.startTag ⟨"class", none, [⟨"name", "C"⟩]⟩),
      .ok (.startTag ⟨"property", none, [⟨"name", "v"⟩]⟩), .ok (.endTag "property"),
      .ok (.startTag ⟨"many-to-one", none, [⟨"name", "r"⟩, ⟨"lazy", "proxy"⟩]⟩),
      .ok (.endTag "many-to-one"), .ok (.endTag "class"), .ok (.endTag "hibernate-mapping")], none⟩
    compiled = .ok table ∧ s.withoutMalformed table = s' ∧
      (table.unmarshal false s).isOk = true ∧ table.unmarshal false s' = table.unmarshal false s
    := by
  intro s s'
  have hwithout : s.withoutMalformed table = s' := by rfl
  have hdistinct : ∀ token, .ok token ∈ s.items → token.Distinct := by
    intro token htoken tag htag
    simp only [s, List.mem_cons, List.not_mem_nil, or_false, Except.ok.injEq, htag,
      Token.startTag.injEq, reduceCtorEq, false_or] at htoken
    rcases htoken with rfl | rfl | rfl | rfl <;> decide
  refine ⟨compiled_eq_table, hwithout, by decide +kernel, ?_⟩
  rw [← hwithout]
  exact Hierarchical.unmarshal_withoutMalformed compiled_eq_table hdistinct

end Schema

end PersistenceMapping
