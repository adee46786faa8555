/-
White space, of which there are two notions.

`isSpace` is the space of markup: the four characters that separate attributes and
may stand outside the root element.  `isBlank` is the Unicode property White_Space:
what is trimmed from the text of an element.  Every space is blank (`isBlank_of_isSpace`),
and trimming stops at the first character that is not (`trim`).
-/
namespace PersistenceMapping

/-- Space, tab, line feed or carriage return. -/
def isSpace (c : Char) : Bool :=
  c == ' ' || c == '\t' || c == '\n' || c == '\r'

/-- A character with the Unicode property White_Space. -/
def isBlank (c : Char) : Bool :=
  let n := c.toNat
  (0x9 ≤ n && n ≤ 0xD) || n == 0x20 || n == 0x85 || n == 0xA0 || n == 0x1680
    || (0x2000 ≤ n && n ≤ 0x200A) || n == 0x2028 || n == 0x2029 || n == 0x202F
    || n == 0x205F || n == 0x3000

theorem isBlank_of_isSpace {c : Char} (h : isSpace c = true) : isBlank c = true := by
  simp only [isSpace, Bool.or_eq_true, beq_iff_eq] at h
  rcases h with ((rfl | rfl) | rfl) | rfl <;> decide

/-- The characters after the leading ones that satisfy `p` and before the trailing ones. -/
def trimBoth (p : Char → Bool) (cs : List Char) : List Char :=
  ((cs.dropWhile p).reverse.dropWhile p).reverse

/-- A string without its leading and trailing blanks. -/
def trim (s : String) : String :=
  String.ofList (trimBoth isBlank s.toList)

/-- A string without its leading blanks. -/
def trimStart (s : String) : String :=
  String.ofList (s.toList.dropWhile isBlank)

/-- Whether nothing is left of a string once it is trimmed. -/
def isBlankText (s : String) : Bool :=
  s.toList.all isBlank

theorem trimBoth_eq_nil_iff {p : Char → Bool} {cs : List Char} :
    trimBoth p cs = [] ↔ cs.all p = true := by
  have hdrop : ∀ l : List Char, l.dropWhile p = [] ↔ l.all p = true := by
    intro l
    induction l with
    | nil => simp
    | cons c l ih => by_cases hc : p c = true <;> simp [hc, ih]
  rw [trimBoth, List.reverse_eq_nil_iff, hdrop, List.all_reverse, ← hdrop cs]
  constructor
  · intro h
    cases hcs : cs.dropWhile p with
    | nil => rfl
    | cons c rest =>
      have hc := List.head?_dropWhile_not p cs
      rw [hcs] at hc h
      simp_all
  · intro h
    rw [h]
    rfl

/-- Nothing is left of just those strings that hold nothing but blanks. -/
theorem trim_eq_empty_iff {s : String} : trim s = "" ↔ isBlankText s = true := by
  rw [trim, isBlankText, ← trimBoth_eq_nil_iff, ← String.toList_inj, String.toList_ofList]
  exact Iff.rfl

/-- Equality up to the case of ASCII letters. -/
def equalsIgnoringCase (a b : String) : Bool :=
  a.toLower == b.toLower

end PersistenceMapping
