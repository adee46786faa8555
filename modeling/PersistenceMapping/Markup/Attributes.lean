/-
The attributes inside a tag.

What follows the name of a tag is a sequence of names, equal signs and quoted values,
with spaces around each.  Reading stops at the first fault, so the result is the
attributes before it and the fault itself (`readAttributes`).  Repeated names count as a
fault only where they are asked for.

Positions are byte offsets from the start of the tag's name.
-/
import PersistenceMapping.Markup.Fault
import PersistenceMapping.Text.Space

namespace PersistenceMapping

namespace Markup

/-- An attribute as it is written, and where its name starts. -/
structure RawAttribute where
  position : Nat
  name : RawText
  value : RawText
  deriving DecidableEq, Repr

/-- A text and the byte offset at which it starts. -/
structure Located where
  position : Nat
  text : RawText
  deriving DecidableEq, Repr

namespace Located

/-- Splits a text behind its longest beginning of symbols that satisfy `p`. -/
def span (p : Symbol → Bool) (t : Located) : RawText × Located :=
  let taken := t.text.takeWhile p
  (taken, ⟨t.position + RawText.size taken, t.text.dropWhile p⟩)

/-- A text without its leading spaces. -/
def skipSpaces (t : Located) : Located :=
  (t.span (·.satisfies isSpace)).2

theorem length_span_le (p : Symbol → Bool) (t : Located) :
    (t.span p).2.text.length ≤ t.text.length :=
  (List.dropWhile_suffix p).length_le

theorem length_skipSpaces_le (t : Located) : t.skipSpaces.text.length ≤ t.text.length :=
  length_span_le _ t

end Located

/-- Whether a symbol ends the name of an attribute. -/
def endsName (s : Symbol) : Bool :=
  s.satisfies fun c => c == '=' || isSpace c

/-- The name that starts with the symbol `first` at `position`, and what follows its equal
sign.  The first symbol belongs to the name whatever it is. -/
def readName (position : Nat) (first : Symbol) (t : RawText) :
    Except AttributeFault (RawText × Located) :=
  let (name, rest) := Located.span (fun s => !endsName s) ⟨position + first.size, t⟩
  let sign := rest.skipSpaces
  match sign.text with
  | .char '=' :: after => .ok (first :: name, ⟨sign.position + 1, after⟩)
  | _ => .error (.missingEquals sign.position)

/-- The quoted value that starts at `t`, after spaces, and what follows its closing quote. -/
def readValue (t : Located) : Except AttributeFault (RawText × Located) :=
  let opening := t.skipSpaces
  match opening.text with
  | [] => .error (.missingValue opening.position)
  | .stray _ :: _ => .error (.unquoted opening.position)
  | .char quote :: rest =>
    if quote == '"' || quote == '\'' then
      let (value, closing) := Located.span (· ≠ .char quote) ⟨opening.position + 1, rest⟩
      match closing.text with
      | [] => .error (.unclosedQuote closing.position quote)
      | _ :: after => .ok (value, ⟨closing.position + 1, after⟩)
    else .error (.unquoted opening.position)

theorem length_lt_of_readName {position : Nat} {first : Symbol} {t name : RawText} {rest : Located}
    (h : readName position first t = .ok (name, rest)) : rest.text.length < t.length := by
  have h1 := Located.length_span_le (fun s => !endsName s) ⟨position + first.size, t⟩
  have h2 := Located.length_skipSpaces_le
    (Located.span (fun s => !endsName s) ⟨position + first.size, t⟩).2
  simp only [readName] at h
  split at h
  · rename_i after heq
    cases h
    rw [heq] at h2
    simp only [List.length_cons] at h1 h2 ⊢
    omega
  · cases h

theorem length_lt_of_readValue {t rest : Located} {value : RawText}
    (h : readValue t = .ok (value, rest)) : rest.text.length < t.text.length := by
  have h1 := Located.length_skipSpaces_le t
  simp only [readValue] at h
  split at h
  · cases h
  · cases h
  · rename_i quote tail heq
    have h2 := Located.length_span_le (· ≠ .char quote) ⟨t.skipSpaces.position + 1, tail⟩
    split at h
    · split at h
      · cases h
      · rename_i _ after heq'
        cases h
        rw [heq'] at h2
        rw [heq] at h1
        simp only [List.length_cons] at h1 h2 ⊢
        omega
    · cases h

/-- The attributes of a text that come before its first fault, and that fault.  `seen` holds
the earlier attributes whose names may not be repeated; nothing when any name may. -/
def readAttributesFrom (seen : Option (List RawAttribute)) (t : Located) :
    List RawAttribute × Option AttributeFault :=
  match hk : t.skipSpaces.text with
  | [] => ([], none)
  | first :: tail =>
    let position := t.skipSpaces.position
    match hn : readName position first tail with
    | .error fault => ([], some fault)
    | .ok (name, afterName) =>
      match (seen.getD []).find? (·.name == name) with
      | some earlier => ([], some (.duplicate position earlier.position))
      | none =>
        match hv : readValue afterName with
        | .error fault => ([], some fault)
        | .ok (value, rest) =>
          have : rest.text.length < t.text.length := by
            have h1 := length_lt_of_readName hn
            have h2 := length_lt_of_readValue hv
            have h3 := Located.length_skipSpaces_le t
            rw [hk, List.length_cons] at h3
            omega
          let a : RawAttribute := ⟨position, name, value⟩
          let (attributes, fault) := readAttributesFrom (seen.map (a :: ·)) rest
          (a :: attributes, fault)
termination_by t.text.length

/-- The attributes of a tag before the first fault, and that fault.  A repeated name is a
fault when `distinct` holds. -/
def readAttributes (distinct : Bool) (t : Located) : List RawAttribute × Option AttributeFault :=
  readAttributesFrom (if distinct then some [] else none) t

end Markup

end PersistenceMapping
