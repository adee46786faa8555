/-
The index and the elements of a collection.

Of the children that describe the index of a collection the last one counts, and so it is with those
that describe its elements.  The kind of the collection decides which children describe an index,
and the table lets more of them stand in a collection than are read: the children of a map may be
those of a list, but a map is not found by position, so a `list-index` in it is passed over
(`CollectionKind.indexNames`).  Nothing else is: collections that have no index may not have a child
that describes one (`unmarshal_indexed`).
-/
import PersistenceMapping.Proofs.Mapping.Mirrored
import PersistenceMapping.Proofs.Schema.Permitted

namespace PersistenceMapping

namespace Mapping

open Schema.Hierarchical

/-- The names of the elements that describe the index of a collection of this kind. -/
def CollectionKind.indexNames (kind : CollectionKind) : List String :=
  if kind = map then indexElements.erase "list-index" else indexElements

/-- What an element describes as the index of a collection, found by position or not. -/
inductive CollectionIndex.DescribedBy (positional : Bool) : CollectionIndex → BoundElement → Prop
  | column {e : BoundElement} (hposition : positional = true)
      (hname : e.name = "list-index" ∨ e.name = "index") :
      CollectionIndex.DescribedBy positional
        (.column (columnsOf e) ((e.number? "base").getD 0)) e
  | mapKey {e : BoundElement}
      (hname : e.name = "map-key" ∨ positional = false ∧ e.name = "index") :
      CollectionIndex.DescribedBy positional
        (.mapKey e.typeName? (columnsOf e) (e.attributeOrChild? "formula")) e
  | composite {e : BoundElement} (hname : e.name = "composite-map-key") :
      CollectionIndex.DescribedBy positional (.composite (e.mandatory "class") (keyPartsOf e)) e
  | manyToMany {e : BoundElement} (hname : e.name = "map-key-many-to-many") :
      CollectionIndex.DescribedBy positional (.manyToMany (e.attribute? "class") (columnsOf e)) e
  | manyToAny {e : BoundElement} (hname : e.name = "index-many-to-any") :
      CollectionIndex.DescribedBy positional
        (.manyToAny (e.mandatory "id-type") (e.attributeD "meta-type" "string") (columnsOf e)) e

/-- What an element describes as the elements of a collection. -/
inductive CollectionElement.DescribedBy : CollectionElement → BoundElement → Prop
  | basic {e : BoundElement} (hname : e.name = "element") :
      CollectionElement.DescribedBy
        (.simple (.basic e.typeName? (columnsOf e) (e.attributeOrChild? "formula"))) e
  | oneToMany {e : BoundElement} (hname : e.name = "one-to-many") :
      CollectionElement.DescribedBy (.simple (.oneToMany (e.attribute? "class"))) e
  | manyToMany {e : BoundElement} (hname : e.name = "many-to-many") :
      CollectionElement.DescribedBy (.simple (.manyToMany (e.attribute? "class") (columnsOf e))) e
  | manyToAny {e : BoundElement} (hname : e.name = "many-to-any") :
      CollectionElement.DescribedBy
        (.simple (.manyToAny (e.mandatory "id-type") (e.attributeD "meta-type" "string")
          (metaValuesOf e) (columnsOf e))) e
  | composite {e : BoundElement} (hname : e.name = "composite-element") :
      CollectionElement.DescribedBy (.composite (compositeOf e)) e

/-- A collection has an index just if a child of its element describes one, and then it is what the
last such child describes; and so it is with what its elements are. -/
structure IndexKept (c : Collection) (element : Option CollectionElement) (e : BoundElement) :
    Prop where
  index : Option.Rel (CollectionIndex.DescribedBy c.kind.isPositional) c.index
    (e.childrenAmong c.kind.indexNames).getLast?
  element : Option.Rel CollectionElement.DescribedBy element
    (e.childrenAmong elementElements).getLast?

/-- A member of the kind and the name that its element gives it; a collection with the index and the
elements that are described there. -/
structure Member.Indexed (m : Member) (e : BoundElement) : Prop where
  named : m.NamedBy e
  kept : ∀ c element, m = .collection c element → IndexKept c element e

variable {e : BoundElement}

theorem describedBy_of_index {positional : Bool} {i : CollectionIndex}
    (h : CollectionIndex.ofElement? positional e = some i) : i.DescribedBy positional e := by
  unfold CollectionIndex.ofElement? at h
  split_ifs at h with hposition hkey hcomposite hmany hany
  · simp only [Bool.and_eq_true, Bool.or_eq_true, beq_iff_eq] at hposition
    cases h
    exact .column hposition.1 hposition.2
  · simp only [Bool.and_eq_true, Bool.or_eq_true, beq_iff_eq, not_and, not_or] at hposition
    simp only [Bool.or_eq_true, decide_eq_true_eq] at hkey
    cases h
    refine .mapKey (hkey.imp_right fun hname => ⟨?_, hname⟩)
    rw [← Bool.not_eq_true]
    intro htrue
    exact (hposition htrue).2 hname
  · cases h
    exact .composite hcomposite
  · cases h
    exact .manyToMany hmany
  · cases h
    exact .manyToAny hany

theorem describedBy_of_own {element : CollectionElement} (h : ownElement? e = some element) :
    element.DescribedBy e := by
  unfold ownElement? SimpleElement.ofElement? at h
  split_ifs at h with hcomposite helement hone hmany hany
  · cases h
    exact .composite hcomposite
  · cases h
    exact .basic helement
  · cases h
    exact .oneToMany hone
  · cases h
    exact .manyToMany hmany
  · cases h
    exact .manyToAny hany
  · cases h

/-! ### Children that count -/

/-- The names that are read off as those of an index are all of them, but for a position in what is
not found by position. -/
theorem isIndex_eq_contains {kind : CollectionKind} {name : String}
    (h : kind.isPositional = true ∨ kind = .map ∨ name ≠ "list-index") :
    isIndex kind.isPositional name = kind.indexNames.contains name := by
  rw [Bool.eq_iff_iff]
  cases kind with
  | set | bag | idbag =>
      have hname : name ≠ "list-index" := by simpa [CollectionKind.isPositional] using h
      simp [isIndex, CollectionKind.indexNames, CollectionKind.isPositional, indexElements, hname]
  | map | list | array | primitiveArray =>
      simp [isIndex, CollectionKind.indexNames, CollectionKind.isPositional, indexElements]

/-- A position may not stand in collections that are not indexed at all. -/
theorem not_permits_listIndex {kind : CollectionKind} (hposition : kind.isPositional = false)
    (hmap : kind ≠ .map) : table.permits kind.elementName "list-index" = false := by
  cases kind with
  | set | bag | idbag => decide +kernel
  | map => exact absurd rfl hmap
  | list | array | primitiveArray => cases hposition

theorem indexOf?_kept {kind : CollectionKind} (he : e.Permitted table)
    (hname : e.name = kind.elementName) :
    Option.Rel (CollectionIndex.DescribedBy kind.isPositional) (indexOf? kind e)
      (e.childrenAmong kind.indexNames).getLast? := by
  have hchildren : e.childrenAmong kind.indexNames =
      e.children.filter fun c => isIndex kind.isPositional c.name := by
    refine List.filter_congr fun c hc => (isIndex_eq_contains ?_).symm
    by_cases hposition : kind.isPositional = true
    · exact Or.inl hposition
    by_cases hmap : kind = .map
    · exact Or.inr (Or.inl hmap)
    · refine Or.inr (Or.inr fun hlist => ?_)
      have hpermits := he.names c hc
      rw [hname, hlist, not_permits_listIndex (by simpa using hposition) hmap] at hpermits
      cases hpermits
  rw [hchildren]
  refine rel_getLast? (forall₂_filterMap (S := Eq) (List.forall₂_same.mpr fun _ _ => rfl) ?_ ?_)
  · rintro c _ rfl
    exact isIndex_eq _ c
  · rintro c _ i rfl hi
    exact describedBy_of_index hi

/-- What the elements are is read from the last child on. -/
theorem elementOf?_eq_getLast? (es : List BoundElement) :
    elementOf? es = (es.filterMap ownElement?).getLast? := by
  induction es with
  | nil => rfl
  | cons e es ih =>
      rw [elementOf?_cons, ih]
      cases hown : ownElement? e with
      | none => rw [List.filterMap_cons_none hown, Option.or_none]
      | some element =>
          rw [List.filterMap_cons_some hown, List.getLast?_cons, Option.or_some]

theorem elementOf?_kept (e : BoundElement) :
    Option.Rel CollectionElement.DescribedBy (elementOf? e.children)
      (e.childrenAmong elementElements).getLast? := by
  rw [elementOf?_eq_getLast?]
  refine rel_getLast? (forall₂_filterMap (S := Eq) (List.forall₂_same.mpr fun _ _ => rfl) ?_ ?_)
  · rintro c _ rfl
    rw [← isElement_eq_contains, isElement_eq]
  · rintro c _ element rfl hown
    exact describedBy_of_own hown

/-- What is known of members where all elements stand where they may. -/
theorem tells_indexed : Tells (BoundElement.Permitted table) Member.Indexed where
  children _ he := he.children
  member e m he hm := by
    refine ⟨namedBy_of_ofElement? hm, ?_⟩
    rintro c element rfl
    obtain ⟨name, attributes, children, text⟩ := e
    rw [Member.ofElement?] at hm
    cases hkind : MemberKind.ofName? name with
    | none =>
        rw [hkind] at hm
        cases hm
    | some kind =>
        rw [hkind] at hm
        cases kind with
        | collection kind =>
            cases hm
            exact ⟨indexOf?_kept he (MemberKind.eq_elementName hkind),
              elementOf?_kept (.mk name attributes children text)⟩
        | _ => cases hm

end Mapping

namespace Schema

/-- In a document that validation lets pass, every collection has the index and the elements that
the last of its children describe, and a position does not count in a map. -/
theorem Hierarchical.unmarshal_indexed {schema : Schema} (hschema : compiled = .ok schema)
    {s : TokenStream} {m : Mapping} (h : schema.unmarshal true s = .ok m) :
    ∃ root e, (∀ ts, TagTree.Written ts (TokenStream.upToEnd s.items) ↔ ts = [root]) ∧
      root.Binds schema e ∧ m.Mirrors Mapping.Member.Indexed e := by
  have hs := (consistent_of_compile hschema).1
  obtain rfl := eq_table_of_compiled hschema
  obtain ⟨e, hbind, rfl⟩ := exists_of_map_eq_ok h
  obtain ⟨root, hwritten, hbinds⟩ := bind_written hs hbind
  exact ⟨root, e, fun _ => hwritten.eq_iff, hbinds,
    Mapping.ofElement_mirrors Mapping.tells_indexed (bind_permitted hbind)⟩

/-- Of two children that describe an index the last one counts, and so it is with the elements; in a
set there is only the latter to read. -/
theorem Hierarchical.unmarshal_indexed_list :
    let s : TokenStream := .ofTokens [
      .startTag ⟨"hibernate-mapping", none, []⟩, .startTag ⟨"class", none, []⟩,
      .startTag ⟨"list", none, [⟨"name", "l"⟩]⟩,
      .startTag ⟨"list-index", none, []⟩, .endTag "list-index",
      .startTag ⟨"index", none, [⟨"column", "i"⟩]⟩, .endTag "index",
      .startTag ⟨"element", none, []⟩, .endTag "element",
      .startTag ⟨"one-to-many", none, [⟨"class", "D"⟩]⟩, .endTag "one-to-many", .endTag "list",
      .startTag ⟨"set", none, [⟨"name", "s"⟩]⟩, .endTag "set",
      .endTag "class", .endTag "hibernate-mapping"]
    compiled = .ok table ∧ ∃ (m : Mapping) (root : TagTree) (e : BoundElement),
      table.unmarshal true s = .ok m ∧ root.Binds table e ∧
      m.Mirrors Mapping.Member.Indexed e ∧
      m.classes.map (fun c => c.members.filterMap fun
        | .collection collection _ => some collection.index
        | _ => none) = [[some (.column [{ name := "i" }] 0), none]] := by
  intro s
  obtain ⟨m, hm, hindexes⟩ : ∃ m, table.unmarshal true s = .ok m ∧
      m.classes.map (fun c => c.members.filterMap fun
        | .collection collection _ => some collection.index
        | _ => none) = [[some (.column [{ name := "i" }] 0), none]] :=
    exists_of_map_eq_ok (by decide +kernel)
  obtain ⟨root, e, -, hbinds, hmirrors⟩ := Hierarchical.unmarshal_indexed compiled_eq_table hm
  exact ⟨compiled_eq_table, m, root, e, hm, hbinds, hmirrors, hindexes⟩

/-- A map may have a `list-index`, and it is validated, but the map has no index then. -/
theorem Hierarchical.unmarshal_listIndex_of_map :
    let s : TokenStream := .ofTokens [
      .startTag ⟨"hibernate-mapping", none, []⟩, .startTag ⟨"class", none, []⟩,
      .startTag ⟨"map", none, [⟨"name", "m"⟩]⟩,
      .startTag ⟨"list-index", none, []⟩, .endTag "list-index", .endTag "map",
      .endTag "class", .endTag "hibernate-mapping"]
    compiled = .ok table ∧
      (table.bind true s).toOption.map (fun e => (e.childrenNamed "class").map fun c =>
        (c.childrenNamed "map").map fun map => map.children.map (·.name)) =
          some [[["list-index"]]] ∧
      (table.unmarshal true s).toOption.map (fun m => m.classes.map fun c =>
        c.members.filterMap fun
          | .collection collection _ => some (collection.kind, collection.index)
          | _ => none) = some [[(.map, none)]] := by
  intro s
  exact ⟨compiled_eq_table, by decide +kernel, by decide +kernel⟩

end Schema

end PersistenceMapping
