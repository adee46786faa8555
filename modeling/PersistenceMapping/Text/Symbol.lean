/-
What a byte document consists of.

A `Symbol` is a decoded character, or a stray byte that belongs to no well-formed
UTF-8 sequence.  A byte document is cut into symbols once (`RawText.ofBytes`), and all
scanning works on symbols: every delimiter of markup is an ASCII character, so no cut
falls inside a sequence.  A piece that has been cut out becomes a string with
`RawText.decode`, which fails at its first stray byte and says where.

The bytes of a string decode to its own characters (`RawText.ofBytes_encode`).
-/
namespace PersistenceMapping

/-- A character of a byte document, or a byte that is part of none. -/
inductive Symbol where
  | char (c : Char)
  | stray (b : UInt8)
  deriving DecidableEq, Repr

namespace Symbol

/-- The number of bytes that a symbol stands for. -/
def size : Symbol → Nat
  | char c => c.utf8Size
  | stray _ => 1

/-- The bytes that a symbol stands for. -/
def bytes : Symbol → List UInt8
  | char c => String.utf8EncodeChar c
  | stray b => [b]

/-- The character of a symbol, if it is one. -/
def char? : Symbol → Option Char
  | char c => some c
  | stray _ => none

/-- Whether a symbol is a character that satisfies `p`. -/
def satisfies (p : Char → Bool) : Symbol → Bool
  | char c => p c
  | stray _ => false

end Symbol

/-! ### Decoding -/

namespace Utf8

/-- What an unfinished sequence calls for: the range of its next byte, and the number of
continuation bytes after that one. -/
structure Sequel where
  low : UInt8
  high : UInt8
  more : Nat
  deriving DecidableEq, Repr

namespace Sequel

/-- What has to follow a lead byte.  The ranges leave out overlong forms, surrogates and
everything above the last code point. -/
def ofLead (b : UInt8) : Option Sequel :=
  if b < 0xC2 then none
  else if b < 0xE0 then some ⟨0x80, 0xBF, 0⟩
  else if b = 0xE0 then some ⟨0xA0, 0xBF, 1⟩
  else if b = 0xED then some ⟨0x80, 0x9F, 1⟩
  else if b < 0xF0 then some ⟨0x80, 0xBF, 1⟩
  else if b = 0xF0 then some ⟨0x90, 0xBF, 2⟩
  else if b < 0xF4 then some ⟨0x80, 0xBF, 2⟩
  else if b = 0xF4 then some ⟨0x80, 0x8F, 2⟩
  else none

/-- Whether a byte may come next. -/
def admits (q : Sequel) (b : UInt8) : Bool :=
  q.low ≤ b && b ≤ q.high

end Sequel

/-- The bits that a lead byte gives, when `more` continuation bytes follow the next one. -/
def leadBits (b : UInt8) : (more : Nat) → Nat
  | 0 => b.toNat % 32
  | 1 => b.toNat % 16
  | _ => b.toNat % 8

/-- The code point of a sequence whose bits so far are `value`, and the bytes after it. -/
def finish (value : Nat) (low high : UInt8) : Nat → List UInt8 → Option (Nat × List UInt8)
  | _, [] => none
  | 0, b :: rest =>
    if low ≤ b && b ≤ high then some (value * 64 + b.toNat % 64, rest) else none
  | more + 1, b :: rest =>
    if low ≤ b && b ≤ high then finish (value * 64 + b.toNat % 64) 0x80 0xBF more rest else none

/-- The character at the head of a byte list, and the bytes after it. -/
def decodeFirst : List UInt8 → Option (Char × List UInt8)
  | [] => none
  | b :: rest =>
    if b < 0x80 then some (Char.ofNat b.toNat, rest)
    else
      match Sequel.ofLead b with
      | none => none
      | some q =>
        (finish (leadBits b q.more) q.low q.high q.more rest).map
          fun (code, after) => (Char.ofNat code, after)

theorem length_lt_of_finish {value : Nat} {low high : UInt8} {more : Nat} {bs after : List UInt8}
    {code : Nat} (h : finish value low high more bs = some (code, after)) :
    after.length < bs.length := by
  induction more generalizing value low high bs with
  | zero =>
    cases bs with
    | nil => simp [finish] at h
    | cons b rest =>
      simp only [finish] at h
      split at h
      · cases h; simp
      · cases h
  | succ more ih =>
    cases bs with
    | nil => simp [finish] at h
    | cons b rest =>
      simp only [finish] at h
      split at h
      · have := ih h
        simp only [List.length_cons]
        omega
      · cases h

theorem length_lt_of_decodeFirst {bs after : List UInt8} {c : Char}
    (h : decodeFirst bs = some (c, after)) : after.length < bs.length := by
  cases bs with
  | nil => simp [decodeFirst] at h
  | cons b rest =>
    simp only [decodeFirst] at h
    split at h
    · cases h; simp
    · split at h
      · cases h
      · rename_i q _
        simp only [Option.map_eq_some_iff, Prod.exists, Prod.mk.injEq] at h
        obtain ⟨code, bs', hf, _, rfl⟩ := h
        have := length_lt_of_finish hf
        simp only [List.length_cons]
        omega

/-! ### Decoding what was encoded

The cases follow the length of the encoding.  In each the lead byte determines its
`Sequel`, the next byte lies in the range that it gives, and the bits put together
again are the code point.
-/

theorem finish_zero {value : Nat} {low high b : UInt8} {rest : List UInt8}
    (h : low.toNat ≤ b.toNat ∧ b.toNat ≤ high.toNat) :
    finish value low high 0 (b :: rest) = some (value * 64 + b.toNat % 64, rest) := by
  simp [finish, UInt8.le_iff_toNat_le, h]

theorem finish_succ {value more : Nat} {low high b : UInt8} {rest : List UInt8}
    (h : low.toNat ≤ b.toNat ∧ b.toNat ≤ high.toNat) :
    finish value low high (more + 1) (b :: rest)
      = finish (value * 64 + b.toNat % 64) 0x80 0xBF more rest := by
  simp [finish, UInt8.le_iff_toNat_le, h]

/-- The head of an encoded character is that character. -/
theorem decodeFirst_encode (c : Char) (rest : List UInt8) :
    decodeFirst (String.utf8EncodeChar c ++ rest) = some (c, rest) := by
  have hv : c.val.toNat < 0xD800 ∨ 0xDFFF < c.val.toNat ∧ c.val.toNat < 0x110000 := c.valid
  have hc : Char.ofNat c.val.toNat = c := Char.ofNat_toNat c
  rw [String.utf8EncodeChar.eq_1]
  generalize c.val.toNat = n at hv hc
  split
  · have h1 : UInt8.ofNat n < 0x80 := by simp [UInt8.lt_iff_toNat_lt]; omega
    have h2 : n % 256 = n := by omega
    simp [decodeFirst, h1, h2, hc]
  · split
    · have e0 : (UInt8.ofNat (n / 64 % 32 + 192)).toNat = n / 64 % 32 + 192 := by simp; omega
      have e1 : (UInt8.ofNat (n % 64 + 128)).toNat = n % 64 + 128 := by simp; omega
      generalize UInt8.ofNat (n / 64 % 32 + 192) = b0 at e0
      generalize UInt8.ofNat (n % 64 + 128) = b1 at e1
      have hl : Sequel.ofLead b0 = some ⟨0x80, 0xBF, 0⟩ := by
        simp only [Sequel.ofLead, UInt8.lt_iff_toNat_lt, e0]
        rw [if_neg (by simp; omega), if_pos (by simp; omega)]
      have h0 : ¬ b0 < 0x80 := by simp only [UInt8.lt_iff_toNat_lt, e0]; simp
      simp only [decodeFirst, List.cons_append, List.nil_append, h0, if_false, hl]
      rw [finish_zero (by rw [e1]; constructor <;> simp; omega)]
      have : leadBits b0 0 * 64 + b1.toNat % 64 = n := by simp only [leadBits, e0, e1]; omega
      simp [this, hc]
    · split
      · have e0 : (UInt8.ofNat (n / 4096 % 16 + 224)).toNat = n / 4096 % 16 + 224 := by simp; omega
        have e1 : (UInt8.ofNat (n / 64 % 64 + 128)).toNat = n / 64 % 64 + 128 := by simp; omega
        have e2 : (UInt8.ofNat (n % 64 + 128)).toNat = n % 64 + 128 := by simp; omega
        generalize UInt8.ofNat (n / 4096 % 16 + 224) = b0 at e0
        generalize UInt8.ofNat (n / 64 % 64 + 128) = b1 at e1
        generalize UInt8.ofNat (n % 64 + 128) = b2 at e2
        have h0 : ¬ b0 < 0x80 := by simp only [UInt8.lt_iff_toNat_lt, e0]; simp
        have hl : ∃ q, Sequel.ofLead b0 = some q ∧ q.more = 1 ∧ q.low.toNat ≤ b1.toNat
            ∧ b1.toNat ≤ q.high.toNat := by
          simp only [Sequel.ofLead, UInt8.lt_iff_toNat_lt, ← UInt8.toNat_inj, e0, e1]
          rw [if_neg (by simp), if_neg (by simp)]
          split
          · exact ⟨_, rfl, rfl, by simp_all; omega⟩
          · split
            · exact ⟨_, rfl, rfl, by simp_all; omega⟩
            · rw [if_pos (by simp; omega)]
              exact ⟨_, rfl, rfl, by simp; omega⟩
        obtain ⟨⟨low, high, more⟩, hq, hm, hr⟩ := hl
        simp only at hm hr
        subst hm
        simp only [decodeFirst, List.cons_append, List.nil_append, h0, if_false, hq]
        rw [finish_succ hr, finish_zero (by rw [e2]; simp; omega)]
        have : (leadBits b0 1 * 64 + b1.toNat % 64) * 64 + b2.toNat % 64 = n := by
          simp only [leadBits, e0, e1, e2]; omega
        simp [this, hc]
      · have e0 : (UInt8.ofNat (n / 262144 % 8 + 240)).toNat = n / 262144 % 8 + 240 := by
          simp; omega
        have e1 : (UInt8.ofNat (n / 4096 % 64 + 128)).toNat = n / 4096 % 64 + 128 := by simp; omega
        have e2 : (UInt8.ofNat (n / 64 % 64 + 128)).toNat = n / 64 % 64 + 128 := by simp; omega
        have e3 : (UInt8.ofNat (n % 64 + 128)).toNat = n % 64 + 128 := by simp; omega
        generalize UInt8.ofNat (n / 262144 % 8 + 240) = b0 at e0
        generalize UInt8.ofNat (n / 4096 % 64 + 128) = b1 at e1
        generalize UInt8.ofNat (n / 64 % 64 + 128) = b2 at e2
        generalize UInt8.ofNat (n % 64 + 128) = b3 at e3
        have h0 : ¬ b0 < 0x80 := by simp only [UInt8.lt_iff_toNat_lt, e0]; simp
        have hl : ∃ q, Sequel.ofLead b0 = some q ∧ q.more = 2 ∧ q.low.toNat ≤ b1.toNat
            ∧ b1.toNat ≤ q.high.toNat := by
          simp only [Sequel.ofLead, UInt8.lt_iff_toNat_lt, ← UInt8.toNat_inj, e0, e1]
          rw [if_neg (by simp), if_neg (by simp), if_neg (by simp), if_neg (by simp),
            if_neg (by simp)]
          split
          · exact ⟨_, rfl, rfl, by simp_all; omega⟩
          · split
            · exact ⟨_, rfl, rfl, by simp; omega⟩
            · rename_i h1 h2
              simp at h1 h2
              rw [if_pos (by simp; omega)]
              exact ⟨_, rfl, rfl, by simp; omega⟩
        obtain ⟨⟨low, high, more⟩, hq, hm, hr⟩ := hl
        simp only at hm hr
        subst hm
        simp only [decodeFirst, List.cons_append, List.nil_append, h0, if_false, hq]
        rw [finish_succ hr, finish_succ (by rw [e2]; constructor <;> simp; omega),
          finish_zero (by rw [e3]; constructor <;> simp; omega)]
        have : ((leadBits b0 2 * 64 + b1.toNat % 64) * 64 + b2.toNat % 64) * 64 + b3.toNat % 64
            = n := by
          simp only [leadBits, e0, e1, e2, e3]; omega
        simp [this, hc]

/-- Why bytes are no text. -/
inductive Fault where
  /-- The `length` bytes at `index` begin no well-formed sequence. -/
  | invalid (index length : Nat)
  /-- The bytes end inside the sequence that starts at `index`. -/
  | incomplete (index : Nat)
  deriving DecidableEq, Repr

/-- The text of a fault. -/
def Fault.message : Fault → String
  | invalid index length =>
    s!"invalid utf-8 sequence of {length} bytes from index {index}"
  | incomplete index => s!"incomplete utf-8 byte sequence from index {index}"

/-- The fault of a sequence at `index` of which `seen` bytes are well-formed so far. -/
def faultAfter (index seen : Nat) (low high : UInt8) : Nat → List Symbol → Fault
  | _, [] => .incomplete index
  | more + 1, .stray b :: rest =>
    if low ≤ b && b ≤ high then faultAfter index (seen + 1) 0x80 0xBF more rest
    else .invalid index seen
  | _, _ :: _ => .invalid index seen

/-- The fault of a stray byte at `index`, given the symbols after it. -/
def faultAt (index : Nat) (b : UInt8) (rest : List Symbol) : Fault :=
  match Sequel.ofLead b with
  | none => .invalid index 1
  | some q => faultAfter index 1 q.low q.high q.more rest

end Utf8

/-! ### Text that has not been decoded -/

/-- The content of a byte document, or a piece of it. -/
abbrev RawText := List Symbol

namespace RawText

/-- Prepends to the symbols of `bs` those already read, which are kept in reverse. -/
def ofBytesAfter (read : List Symbol) (bs : List UInt8) : RawText :=
  match bs with
  | [] => read.reverse
  | b :: rest =>
    match h : Utf8.decodeFirst (b :: rest) with
    | some (c, after) =>
      have := Utf8.length_lt_of_decodeFirst h
      ofBytesAfter (.char c :: read) after
    | none => ofBytesAfter (.stray b :: read) rest
termination_by bs.length
decreasing_by
  · exact this
  · exact Nat.lt_succ_self _

/-- The symbols of a byte list. -/
def ofBytes (bs : List UInt8) : RawText :=
  ofBytesAfter [] bs

/-- The symbols of a string. -/
def ofString (s : String) : RawText :=
  s.toList.map .char

/-- The number of bytes that a text stands for. -/
def size (t : RawText) : Nat :=
  t.foldl (fun n s => n + s.size) 0

/-- The bytes that a text stands for. -/
def bytes (t : RawText) : List UInt8 :=
  t.flatMap Symbol.bytes

/-- A text as a string, unless a byte of it is stray. -/
def decode (t : RawText) : Except Utf8.Fault String :=
  match t.dropWhile (fun s => s.char?.isSome) with
  | .stray b :: rest => .error (Utf8.faultAt (size (t.takeWhile fun s => s.char?.isSome)) b rest)
  | _ => .ok (String.ofList (t.filterMap Symbol.char?))

/-- A text as a string; nothing when a byte of it is stray. -/
def decodeOrEmpty (t : RawText) : String :=
  match decode t with
  | .ok s => s
  | .error _ => ""

/-- What follows `word` at the head of a text. -/
def after? : (word : List Char) → RawText → Option RawText
  | [], t => some t
  | c :: word, .char d :: t => if c = d then after? word t else none
  | _ :: _, _ => none

/-- The text before the first occurrence of `word`, and the text after it. -/
def splitAtFirst (word : List Char) (t : RawText) : Option (RawText × RawText) :=
  go [] t
where
  go (seen : RawText) : RawText → Option (RawText × RawText)
    | [] => none
    | s :: t =>
      match after? word (s :: t) with
      | some rest => some (seen.reverse, rest)
      | none => go (s :: seen) t

theorem ofBytesAfter_encode (cs : List Char) (read : List Symbol) :
    ofBytesAfter read (cs.flatMap String.utf8EncodeChar) = read.reverse ++ cs.map .char := by
  induction cs generalizing read with
  | nil => simp [ofBytesAfter]
  | cons c cs ih =>
    have hd := Utf8.decodeFirst_encode c (cs.flatMap String.utf8EncodeChar)
    rw [List.flatMap_cons]
    generalize hb : String.utf8EncodeChar c ++ cs.flatMap String.utf8EncodeChar = bs at hd
    cases bs with
    | nil => simp [Utf8.decodeFirst] at hd
    | cons b rest =>
      rw [ofBytesAfter.eq_2]
      split
      · rename_i d after h
        rw [hd] at h
        cases h
        simp [ih]
      · rename_i h
        rw [hd] at h
        cases h

/-- The bytes of a string decode to its own characters. -/
theorem ofBytes_encode (s : String) :
    ofBytes (s.toList.flatMap String.utf8EncodeChar) = ofString s := by
  simp [ofBytes, ofString, ofBytesAfter_encode]

@[simp] theorem decode_ofString (s : String) : decode (ofString s) = .ok s := by
  have h : ∀ cs : List Char,
      List.dropWhile (fun s : Symbol => s.char?.isSome) (cs.map Symbol.char) = [] := by
    intro cs
    induction cs with
    | nil => rfl
    | cons c cs ih =>
      rw [List.map_cons, List.dropWhile_cons_of_pos rfl]
      exact ih
  have h' : ∀ cs : List Char, (cs.map Symbol.char).filterMap Symbol.char? = cs := by
    intro cs
    induction cs with
    | nil => rfl
    | cons c cs ih => simpa [Symbol.char?] using ih
  simp [decode, ofString, h, h']

end RawText

end PersistenceMapping
