/-
Unsigned numbers of 32 bits, as attributes and character references write them.

Digits are read from the left, and the first offence wins: a character that is no digit
before the overflow that it would have caused, an overflow before any later character.
-/
import PersistenceMapping.Text.Space

namespace PersistenceMapping

namespace Number

/-- Why a sequence of characters is no number. -/
inductive Fault where
  | empty
  | invalidDigit
  | tooLarge
  deriving DecidableEq, Repr

/-- The text of a fault. -/
def Fault.message : Fault → String
  | empty => "cannot parse integer from empty string"
  | invalidDigit => "invalid digit found in string"
  | tooLarge => "number too large to fit in target type"

/-- The value of a digit, of either case, in a radix of at most sixteen. -/
def digit? (radix : Nat) (c : Char) : Option Nat :=
  let n := c.toNat
  let value :=
    if '0'.toNat ≤ n && n ≤ '9'.toNat then some (n - '0'.toNat)
    else if 'a'.toNat ≤ n && n ≤ 'f'.toNat then some (n - 'a'.toNat + 10)
    else if 'A'.toNat ≤ n && n ≤ 'F'.toNat then some (n - 'A'.toNat + 10)
    else none
  value.filter (· < radix)

/-- Reads digits onto the value of those before them. -/
def accumulate (radix value : Nat) : List Char → Except Fault Nat
  | [] => .ok value
  | c :: cs =>
    match digit? radix c with
    | none => .error .invalidDigit
    | some d =>
      if value * radix + d < UInt32.size then accumulate radix (value * radix + d) cs
      else .error .tooLarge

/-- The number that digits write, without a sign. -/
def ofDigits (radix : Nat) : List Char → Except Fault Nat
  | [] => .error .empty
  | cs => accumulate radix 0 cs

/-- A trimmed decimal number with an optional single plus sign. -/
def parse? (s : String) : Option UInt32 :=
  let digits :=
    match trimBoth isBlank s.toList with
    | '+' :: cs => cs
    | cs => cs
  match ofDigits 10 digits with
  | .ok n => some (UInt32.ofNat n)
  | .error _ => none

theorem lt_of_accumulate {radix value n : Nat} {cs : List Char} (hv : value < UInt32.size)
    (h : accumulate radix value cs = .ok n) : n < UInt32.size := by
  induction cs generalizing value with
  | nil => cases h; exact hv
  | cons c cs ih =>
    simp only [accumulate] at h
    split at h
    · cases h
    · split at h
      · rename_i hlt
        exact ih hlt h
      · cases h

end Number

end PersistenceMapping
