/-
Escaping is undone by resolving references.

Two facts are needed of what is escaped.  It reads back as what it was, whatever string that is
(`unescape_escape`), and none of the characters that end character data or an attribute value
is left in it (`escape_plain`).
-/
import Mathlib.Tactic.SplitIfs
import PersistenceMapping.Text.Reference

namespace PersistenceMapping

/-! ### Up to the first that does not satisfy -/

section Stretch

variable {α : Type} {p : α → Bool} {l rest : List α}

theorem dropWhile_stretch (hl : ∀ x ∈ l, p x = true) (hrest : ∀ x ∈ rest.head?, p x = false) :
    (l ++ rest).dropWhile p = rest := by
  rw [List.dropWhile_append_of_pos hl]
  cases rest with
  | nil => rfl
  | cons x rest => exact List.dropWhile_cons_of_neg (by simpa using hrest x)

theorem takeWhile_stretch (hl : ∀ x ∈ l, p x = true) (hrest : ∀ x ∈ rest.head?, p x = false) :
    (l ++ rest).takeWhile p = l := by
  rw [List.takeWhile_append_of_pos hl]
  cases rest with
  | nil => simp
  | cons x rest =>
      rw [List.takeWhile_cons_of_neg (by simpa using hrest x), List.append_nil]

end Stretch

namespace Reference

variable {c : Char} {name : String}

/-- The name that is written for a character stands for that character. -/
theorem named?_of_name? (h : name? c = some name) : named? name = some c := by
  simp only [name?] at h
  split_ifs at h <;> cases h <;> simp_all [named?]

/-- The characters of a predefined name neither end a reference nor begin a number. -/
theorem plain_name (h : name? c = some name) :
    ∀ x ∈ name.toList, x ≠ '&' ∧ x ≠ ';' ∧ x ≠ '#' ∧ x ≠ '<' ∧ x ≠ '>' ∧ x ≠ '"' ∧ x ≠ '\'' := by
  simp only [name?] at h
  split_ifs at h <;> cases h <;> simp

theorem plain_of_name?_eq_none (h : name? c = none) :
    c ≠ '&' ∧ c ≠ '<' ∧ c ≠ '>' ∧ c ≠ '"' ∧ c ≠ '\'' := by
  refine ⟨?_, ?_, ?_, ?_, ?_⟩ <;> rintro rfl <;> exact absurd h (by decide)

/-! ### What escaped text is made of -/

theorem toList_escape (s : String) : (escape s).toList = s.toList.flatMap escapeChar := by
  rw [escape, String.toList_ofList]

theorem escapeChar_ne_nil (c : Char) : escapeChar c ≠ [] := by
  unfold escapeChar
  split <;> simp

theorem escape_ne_empty {s : String} (h : s ≠ "") : escape s ≠ "" := by
  intro he
  rw [← String.toList_inj, toList_escape] at he
  obtain ⟨c, l, hs⟩ := List.exists_cons_of_ne_nil (mt String.toList_eq_nil_iff.mp h)
  rw [hs, List.flatMap_cons] at he
  exact escapeChar_ne_nil c (List.append_eq_nil_iff.mp he).1

/-- No bracket and no quote is left in what is escaped. -/
theorem escape_plain {s : String} {x : Char} (hx : x ∈ (escape s).toList) :
    x ≠ '<' ∧ x ≠ '>' ∧ x ≠ '"' ∧ x ≠ '\'' := by
  rw [toList_escape] at hx
  obtain ⟨c, -, hx⟩ := List.mem_flatMap.mp hx
  unfold escapeChar at hx
  split at hx
  · rename_i name h
    simp only [List.cons_append, List.mem_cons, List.mem_append, List.not_mem_nil,
      or_false] at hx
    rcases hx with rfl | hx | rfl
    · decide
    · exact (plain_name h x hx).2.2.2
    · decide
  · rename_i h
    rw [List.mem_singleton.mp hx]
    exact (plain_of_name?_eq_none h).2

/-! ### Reading it back -/

variable {length start : Nat} {cs plain body after tail : List Char}

theorem resolve_name (h : name? c = some name) (start : Nat) :
    resolve start name.toList = .ok c := by
  have hnumber : ∀ digits, name.toList ≠ '#' :: digits := by
    intro digits heq
    exact (plain_name h '#' (by simp [heq])).2.2.1 rfl
  unfold resolve
  split
  · rename_i heq
    exact absurd heq (hnumber _)
  · rw [String.ofList_toList, named?_of_name? h]

/-- Text without an ampersand is left as it is. -/
theorem unescapeFrom_plain (h : ∀ x ∈ cs, x ≠ '&') : unescapeFrom length start cs = .ok cs := by
  have hall : ∀ x ∈ cs, decide (x ≠ '&') = true := by simpa using h
  have hdrop : (cs ++ []).dropWhile (· ≠ '&') = [] := dropWhile_stretch hall (by simp)
  have htake : (cs ++ []).takeWhile (· ≠ '&') = cs := takeWhile_stretch hall (by simp)
  rw [List.append_nil] at hdrop htake
  unfold unescapeFrom
  split
  · rw [htake]
  · rename_i heq
    rw [hdrop] at heq
    cases heq

/-- Behind text without an ampersand, a reference gives its character. -/
theorem unescapeFrom_reference (hplain : ∀ x ∈ plain, x ≠ '&')
    (hbody : ∀ x ∈ body, x ≠ '&' ∧ x ≠ ';')
    (hresolve : ∀ start, resolve start body = .ok c)
    (htail : ∀ start, unescapeFrom length start after = .ok tail) :
    unescapeFrom length start (plain ++ '&' :: (body ++ ';' :: after)) =
      .ok (plain ++ c :: tail) := by
  have hall : ∀ x ∈ plain, decide (x ≠ '&') = true := by simpa using hplain
  have hall' : ∀ x ∈ body, (decide (x ≠ '&') && decide (x ≠ ';')) = true := by simpa using hbody
  have hdrop : (plain ++ '&' :: (body ++ ';' :: after)).dropWhile (· ≠ '&') =
      '&' :: (body ++ ';' :: after) := dropWhile_stretch hall (by simp)
  have htake : (plain ++ '&' :: (body ++ ';' :: after)).takeWhile (· ≠ '&') = plain :=
    takeWhile_stretch hall (by simp)
  have hdrop' : (body ++ ';' :: after).dropWhile (fun c => c ≠ '&' && c ≠ ';') =
      ';' :: after := dropWhile_stretch hall' (by simp)
  have htake' : (body ++ ';' :: after).takeWhile (fun c => c ≠ '&' && c ≠ ';') = body :=
    takeWhile_stretch hall' (by simp)
  unfold unescapeFrom
  split
  · rename_i heq
    rw [hdrop] at heq
    cases heq
  · rename_i heq
    rw [hdrop] at heq
    cases heq
    simp only [htake, htake']
    split
    · rename_i heq'
      rw [hdrop'] at heq'
      cases heq'
      simp only [hresolve, htail]
    · rename_i hnot
      exact absurd hdrop' (hnot after)

theorem unescapeFrom_escape (cs : List Char) : ∀ plain start, (∀ x ∈ plain, x ≠ '&') →
    unescapeFrom length start (plain ++ cs.flatMap escapeChar) = .ok (plain ++ cs) := by
  induction cs with
  | nil =>
      intro plain start hplain
      simpa using unescapeFrom_plain hplain
  | cons c cs ih =>
      intro plain start hplain
      rw [List.flatMap_cons, escapeChar]
      rcases hc : name? c with _ | name
      · -- The character joins the text before it.
        have hplain' : ∀ x ∈ plain ++ [c], x ≠ '&' := by
          intro x hx
          rcases List.mem_append.mp hx with hx | hx
          · exact hplain x hx
          · rw [List.mem_singleton.mp hx]
            exact (plain_of_name?_eq_none hc).1
        simpa using ih (plain ++ [c]) start hplain'
      · have hbody := plain_name hc
        have htail : ∀ start, unescapeFrom length start (cs.flatMap escapeChar) = .ok cs := by
          intro start
          exact ih [] start (by simp)
        have hname : ∀ x ∈ name.toList, x ≠ '&' ∧ x ≠ ';' :=
          fun x hx => ⟨(hbody x hx).1, (hbody x hx).2.1⟩
        simpa using unescapeFrom_reference hplain hname (resolve_name hc) htail

/-- What is escaped reads back as what it was. -/
theorem unescape_escape (s : String) : unescape (escape s) = .ok s := by
  rw [unescape, toList_escape]
  rw [← List.nil_append (s.toList.flatMap escapeChar), unescapeFrom_escape s.toList [] 0 (by simp)]
  exact congrArg Except.ok String.ofList_toList

end Reference

end PersistenceMapping
