/-
What trimming takes away.

A string is what is left of it once it is trimmed, between blanks (`exists_trim`).  Blanks that come
to stand at an end of a string change nothing about what is left (`trim_blank_append`,
`trim_append_blank`), so nothing more is left out when a string is trimmed twice.
-/
import PersistenceMapping.Text.Space

namespace PersistenceMapping

section Characters

variable {p : Char → Bool} {cs ds : List Char}

theorem trimBoth_append_left (hds : ds.all p = true) : trimBoth p (ds ++ cs) = trimBoth p cs := by
  rw [trimBoth, List.dropWhile_append_of_pos (List.all_eq_true.mp hds), trimBoth]

theorem trimBoth_append_right (hds : ds.all p = true) : trimBoth p (cs ++ ds) = trimBoth p cs := by
  by_cases hcs : cs.dropWhile p = []
  · have hall : cs.all p = true := by
      rw [← trimBoth_eq_nil_iff, trimBoth, hcs]
      rfl
    rw [trimBoth_eq_nil_iff.mpr hall, trimBoth_eq_nil_iff, List.all_append, hall, hds]
    rfl
  · have hdrop : (cs ++ ds).dropWhile p = cs.dropWhile p ++ ds := by
      rw [List.dropWhile_append, if_neg (by simpa using hcs)]
    have hreverse : ∀ c ∈ ds.reverse, p c = true := by
      rw [← List.all_eq_true, List.all_reverse]
      exact hds
    rw [trimBoth, hdrop, List.reverse_append, List.dropWhile_append_of_pos hreverse, trimBoth]

theorem exists_trimBoth (p : Char → Bool) (cs : List Char) :
    ∃ before after, before.all p = true ∧ after.all p = true ∧
      cs = before ++ trimBoth p cs ++ after := by
  refine ⟨cs.takeWhile p, ((cs.dropWhile p).reverse.takeWhile p).reverse, List.all_takeWhile,
    by rw [List.all_reverse, List.all_takeWhile], ?_⟩
  rw [trimBoth, List.append_assoc, ← List.reverse_append, List.takeWhile_append_dropWhile,
    List.reverse_reverse, List.takeWhile_append_dropWhile]

end Characters

variable {s blanks : String}

/-- A string is blanks, what is left of it once it is trimmed, and blanks. -/
theorem exists_trim (s : String) :
    ∃ before after, isBlankText before = true ∧ isBlankText after = true ∧
      s = before ++ trim s ++ after := by
  obtain ⟨before, after, hbefore, hafter, hcs⟩ := exists_trimBoth isBlank s.toList
  refine ⟨String.ofList before, String.ofList after, by simpa [isBlankText] using hbefore,
    by simpa [isBlankText] using hafter, ?_⟩
  rw [← String.toList_inj]
  simpa [trim] using hcs

theorem trim_blank_append (h : isBlankText blanks = true) : trim (blanks ++ s) = trim s := by
  rw [trim, String.toList_append, trimBoth_append_left h, trim]

theorem trim_append_blank (h : isBlankText blanks = true) : trim (s ++ blanks) = trim s := by
  rw [trim, String.toList_append, trimBoth_append_right h, trim]

@[simp]
theorem trim_trim (s : String) : trim (trim s) = trim s := by
  obtain ⟨before, after, hbefore, hafter, hs⟩ := exists_trim s
  have htrim := congrArg trim hs
  rw [trim_append_blank hafter, trim_blank_append hbefore] at htrim
  exact htrim.symm

end PersistenceMapping
