/-
The tokens of written bytes.

A document is written as a string and read as bytes.  The bytes of a string decode to its own
characters, and a document that begins with a bracket begins with no byte order mark, so what
comes out of the reader is what was written (`stream_ofBytes_written`).
-/
import PersistenceMapping.Proofs.Markup.Reading

namespace PersistenceMapping

/-! ### Bytes of strings -/

theorem byteArray_toList_loop (bs : ByteArray) (i : Nat) (read : List UInt8) :
    ByteArray.toList.loop bs i read = read.reverse ++ bs.data.toList.drop i := by
  induction i, read using ByteArray.toList.loop.induct bs with
  | case1 i read hi ih =>
      have hlt : i < bs.data.size := hi
      have hget : bs.get! i = bs.data.toList[i] := by
        rw [Array.getElem_toList]
        exact getElem!_pos bs.data i hlt
      have hdrop : bs.data.toList.drop i = bs.data.toList[i] :: bs.data.toList.drop (i + 1) :=
        List.drop_eq_getElem_cons hlt
      rw [ByteArray.toList.loop, if_pos hi, ih, hget, hdrop, List.reverse_cons, List.append_assoc]
      rfl
  | case2 i read hi =>
      have hdrop : bs.data.toList.drop i = [] := List.drop_eq_nil_of_le (Nat.le_of_not_lt hi)
      rw [ByteArray.toList.loop, if_neg hi, hdrop, List.append_nil]

theorem toList_toUTF8 (s : String) : s.toUTF8.toList = s.toList.flatMap String.utf8EncodeChar := by
  have hencode : s.toUTF8 = (s.toList.flatMap String.utf8EncodeChar).toByteArray :=
    (String.utf8Encode_toList (b := s)).symm
  rw [ByteArray.toList, byteArray_toList_loop, hencode, List.toList_data_toByteArray]
  rfl

namespace TokenStream

theorem ofBytes_eq (bytes : List UInt8) :
    ofBytes bytes = { items :=
      Markup.Reader.readAll none .initial (Markup.withoutByteOrderMark (.ofBytes bytes)) } := by
  cases bytes <;> rfl

/-- The bytes of a string stand for its characters. -/
theorem source_of_chars {s : String} {cs : List Char} (h : s = String.ofList cs) :
    RawText.ofBytes s.toUTF8.toList = cs.map .char := by
  rw [toList_toUTF8, RawText.ofBytes_encode, RawText.ofString, h, String.toList_ofList]

theorem append_of_chars {s s' : String} {cs cs' : List Char} (h : s = String.ofList cs)
    (h' : s' = String.ofList cs') : s ++ s' = String.ofList (cs ++ cs') := by
  rw [h, h', String.ofList_append]

end TokenStream

namespace Markup

variable {marks : List Mark}

/-- Marks that are written one after the other, symbol by symbol. -/
theorem ofString_join_write (marks : List Mark) :
    RawText.ofString (String.join (marks.map Mark.write)) = Reader.written marks := by
  induction marks with
  | nil => rfl
  | cons m marks ih =>
      rw [List.map_cons, String.join_cons, RawText.ofString_append, ih]
      rfl

theorem withoutByteOrderMark_of_bracket {t : RawText} (h : t.head? = some (.char '<')) :
    withoutByteOrderMark t = t := by
  obtain ⟨rest, rfl⟩ := List.head?_eq_some_iff.mp h
  rfl

/-- The bytes of what was written are read from its first bracket on. -/
theorem ofBytes_written (hhead : (Reader.written marks).head? = some (.char '<')) :
    TokenStream.ofBytes (String.join (marks.map Mark.write)).toUTF8.toList =
      { items := Reader.readAll none .initial (Reader.written marks) } := by
  rw [TokenStream.ofBytes_eq, toList_toUTF8, RawText.ofBytes_encode, ofString_join_write,
    withoutByteOrderMark_of_bracket hhead]

/-- What was written of marks that can be told apart gives their tokens back. -/
theorem stream_ofBytes_written (hhead : (Reader.written marks).head? = some (.char '<'))
    (hwritable : ∀ m ∈ marks, m.Writable) (hseparated : Reader.Separated marks)
    {last : List String} (hnested : Nested [] marks last) :
    ∃ tokens : List Token,
      TokenStream.ofBytes (String.join (marks.map Mark.write)).toUTF8.toList =
        { items := (tokens ++ [Token.endDocument]).map .ok } ∧
      tokens.map Token.withoutNamespace = marks.flatMap Mark.tokens := by
  have hinitial : Reader.initial.At [] := ⟨rfl, Scope.isText_initial⟩
  obtain ⟨tokens, hread, htokens⟩ := Reader.readAll_written hwritable hseparated hnested hinitial
  exact ⟨tokens, by rw [ofBytes_written hhead, hread], htokens⟩

end Markup

end PersistenceMapping
