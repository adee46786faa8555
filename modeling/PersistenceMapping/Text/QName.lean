/-
Qualified names.

A name is split at its first colon into a qualifier and a local name; a name without a
colon is all local (`QName.split`).  Putting the two back together gives the name again
(`QName.join_split`), and taking apart what has been put together gives the two again, as long as
no colon is where it would come first (`QName.split_qualified`, `QName.split_unqualified`).
-/
namespace PersistenceMapping

namespace QName

/-- The qualifier, if there is one, and the local name. -/
def split (name : String) : Option String × String :=
  let before := name.toList.takeWhile (· ≠ ':')
  match name.toList.dropWhile (· ≠ ':') with
  | _ :: after => (some (String.ofList before), String.ofList after)
  | [] => (none, name)

/-- A name of the given qualifier and local name. -/
def join : Option String → String → String
  | some qualifier, localName => qualifier ++ ":" ++ localName
  | none, localName => localName

/-- The part of a name before its first colon. -/
def qualifier? (name : String) : Option String :=
  (split name).1

/-- The part of a name after its first colon, or all of it. -/
def localName (name : String) : String :=
  (split name).2

/-- The name with another local name and the same qualifier. -/
def withLocalName (name localName : String) : String :=
  join (qualifier? name) localName

/-- Whether an attribute of this name declares a namespace. -/
def declaresNamespace (name : String) : Bool :=
  name == "xmlns" || qualifier? name == some "xmlns"

theorem join_split (name : String) : join (split name).1 (split name).2 = name := by
  have happ := List.takeWhile_append_dropWhile (p := (· ≠ ':')) (l := name.toList)
  unfold split
  split
  · rename_i c after h
    have hc : c = ':' := by
      have := List.head?_dropWhile_not (p := (· ≠ ':')) (l := name.toList)
      rw [h] at this
      simpa using this
    subst hc
    rw [h] at happ
    apply String.toList_inj.1
    simp only [join, String.toList_append, String.toList_ofList]
    simpa using happ
  · rfl

theorem split_qualified {qualifier : String} (h : ':' ∉ qualifier.toList) (localName : String) :
    split (qualifier ++ ":" ++ localName) = (some qualifier, localName) := by
  have hname : (qualifier ++ ":" ++ localName).toList =
      qualifier.toList ++ ':' :: localName.toList := by
    simp [String.toList_append]
  have hplain : ∀ c ∈ qualifier.toList, decide (c ≠ ':') = true := by
    intro c hc
    exact decide_eq_true fun heq => h (heq ▸ hc)
  rw [split, hname, List.dropWhile_append_of_pos hplain, List.takeWhile_append_of_pos hplain]
  simp

theorem split_unqualified {name : String} (h : ':' ∉ name.toList) : split name = (none, name) := by
  have hplain : ∀ c ∈ name.toList, decide (c ≠ ':') = true := by
    intro c hc
    exact decide_eq_true fun heq => h (heq ▸ hc)
  have hdrop : (name.toList ++ []).dropWhile (· ≠ ':') = [] :=
    List.dropWhile_append_of_pos hplain
  rw [List.append_nil] at hdrop
  rw [split, hdrop]

/-- No colon stands before the first one. -/
theorem not_mem_of_qualifier? {name qualifier : String} (h : qualifier? name = some qualifier) :
    ':' ∉ qualifier.toList := by
  unfold qualifier? split at h
  split at h
  · obtain rfl := Option.some.inj h
    rw [String.toList_ofList]
    intro hmem
    have hall := List.all_takeWhile (p := (· ≠ ':')) (l := name.toList)
    simpa using List.all_eq_true.mp hall ':' hmem
  · cases h

/-- A name has the local name that it is given, and the qualifier that it had. -/
theorem split_withLocalName (name : String) {localName : String} (h : ':' ∉ localName.toList) :
    split (withLocalName name localName) = (qualifier? name, localName) := by
  unfold withLocalName
  cases hqualifier : qualifier? name with
  | none => exact split_unqualified h
  | some qualifier => exact split_qualified (not_mem_of_qualifier? hqualifier) localName

end QName

end PersistenceMapping
