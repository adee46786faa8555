/-
Characters written as references.

`escape` writes the five characters with a predefined name as references to it and
leaves all others alone.  `unescape` resolves the five names and references by number;
anything else between an ampersand and a semicolon is an error, as is an ampersand that
no semicolon ends.  Faults carry byte offsets into the text.
-/
import PersistenceMapping.Text.Number

namespace PersistenceMapping

namespace Reference

/-- Why a reference by number stands for no character. -/
inductive NumberFault where
  | signed
  | unreadable (fault : Number.Fault)
  | zero
  | noCharacter (code : Nat)
  deriving DecidableEq, Repr

/-- The text of a fault. -/
def NumberFault.message : NumberFault → String
  | signed => "unexpected number sign"
  | unreadable fault => fault.message
  | zero => "0x0 character is not permitted in XML"
  | noCharacter code => s!"`{code}` is not a valid codepoint"

/-- Why a text cannot be unescaped. -/
inductive Fault where
  /-- No semicolon ends the reference that starts at `start`. -/
  | unterminated (start length : Nat)
  | unknown (start stop : Nat) (name : String)
  | number (fault : NumberFault)
  deriving DecidableEq, Repr

/-- The text of a fault. -/
def Fault.message : Fault → String
  | unterminated start length =>
    s!"Error while escaping character at range {start}..{length}: Cannot find ';' after '&'"
  | unknown start stop name => s!"at {start}..{stop}: unrecognized entity `{name}`"
  | number fault => "invalid character reference: " ++ fault.message

/-- The name of a character that has a predefined one. -/
def name? (c : Char) : Option String :=
  if c = '<' then some "lt"
  else if c = '>' then some "gt"
  else if c = '&' then some "amp"
  else if c = '\'' then some "apos"
  else if c = '"' then some "quot"
  else none

/-- The character of a predefined name. -/
def named? (name : String) : Option Char :=
  if name = "lt" then some '<'
  else if name = "gt" then some '>'
  else if name = "amp" then some '&'
  else if name = "apos" then some '\''
  else if name = "quot" then some '"'
  else none

/-- A character as it is written in text and attribute values. -/
def escapeChar (c : Char) : List Char :=
  match name? c with
  | some name => '&' :: name.toList ++ [';']
  | none => [c]

/-- A string as it is written in text and attribute values. -/
def escape (s : String) : String :=
  String.ofList (s.toList.flatMap escapeChar)

/-- The character of a reference by number, given what follows the number sign. -/
def ofNumber (digits : List Char) : Except NumberFault Char :=
  let (radix, digits) :=
    match digits with
    | 'x' :: hex => (16, hex)
    | _ => (10, digits)
  match digits with
  | '+' :: _ => .error .signed
  | '-' :: _ => .error .signed
  | _ =>
    match Number.ofDigits radix digits with
    | .error fault => .error (.unreadable fault)
    | .ok code =>
      if code = 0 then .error .zero
      else if code.isValidChar then .ok (Char.ofNat code)
      else .error (.noCharacter code)

/-- The number of bytes of a character sequence. -/
def width (cs : List Char) : Nat :=
  cs.foldl (fun n c => n + c.utf8Size) 0

/-- The character that a reference stands for, given what stands between its ampersand
and its semicolon and where that starts. -/
def resolve (start : Nat) (body : List Char) : Except Fault Char :=
  match body with
  | '#' :: digits =>
    match ofNumber digits with
    | .ok c => .ok c
    | .error fault => .error (.number fault)
  | _ =>
    match named? (String.ofList body) with
    | some c => .ok c
    | none => .error (.unknown start (start + width body) (String.ofList body))

/-- Unescapes what is left of a text of `length` bytes from the offset `start` on. -/
def unescapeFrom (length start : Nat) (cs : List Char) : Except Fault (List Char) :=
  let plain := cs.takeWhile (· ≠ '&')
  let amp := start + width plain
  match h : cs.dropWhile (· ≠ '&') with
  | [] => .ok plain
  | _ :: rest =>
    let body := rest.takeWhile fun c => c ≠ '&' && c ≠ ';'
    match h' : rest.dropWhile (fun c => c ≠ '&' && c ≠ ';') with
    | ';' :: after =>
      have : after.length < cs.length := by
        have h1 := (List.dropWhile_suffix (· ≠ '&') (l := cs)).length_le
        have h2 := (List.dropWhile_suffix (fun c => c ≠ '&' && c ≠ ';') (l := rest)).length_le
        rw [h] at h1
        rw [h'] at h2
        simp only [List.length_cons] at h1 h2
        omega
      match resolve (amp + 1) body with
      | .error fault => .error fault
      | .ok c =>
        match unescapeFrom length (amp + width body + 2) after with
        | .error fault => .error fault
        | .ok tail => .ok (plain ++ c :: tail)
    | _ => .error (.unterminated amp length)
termination_by cs.length

/-- A text with its references resolved. -/
def unescape (s : String) : Except Fault String :=
  match unescapeFrom s.utf8ByteSize 0 s.toList with
  | .ok cs => .ok (String.ofList cs)
  | .error fault => .error fault

end Reference

end PersistenceMapping
