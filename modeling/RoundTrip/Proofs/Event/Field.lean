import Mathlib.Data.List.Basic
import RoundTrip.Header
import RoundTrip.Proofs.Text.Digits
import RoundTrip.Proofs.Text.Octets
import RoundTrip.Timestamp.Rfc3339

namespace RoundTrip.Header

def isReadable (c : Char) : Bool := (0x20 ≤ c.toNat && c.toNat < 0x7F) || c.toNat == 9

def readable (text : String) : Bool := text.toList.all isReadable

theorem isTextByte_ofNat {n : Nat} (h : n < 256) :
    isTextByte (UInt8.ofNat n) = ((0x20 ≤ n && n < 0x7F) || n == 9) := by
  have toNat : (UInt8.ofNat n).toNat = n := UInt8.toNat_ofNat_of_lt' h
  simp only [isTextByte, UInt8.le_iff_toNat_le, UInt8.lt_iff_toNat_lt, toNat]
  congr 1
  rw [Bool.eq_iff_iff, beq_iff_eq, beq_iff_eq, ← UInt8.toNat_inj, toNat]
  rfl

theorem encodeChar_beyond {c : Char} (h : 0x7F < c.toNat) :
    (String.utf8EncodeChar c).all isTextByte = false := by
  obtain ⟨b, rest, starts⟩ := List.exists_cons_of_ne_nil (String.utf8EncodeChar_ne_nil (c := c))
  have high : 0x80 ≤ b := Text.Utf8.high_of_mem_encodeChar h (starts ▸ List.mem_cons_self)
  have unread : isTextByte b = false := by
    rw [UInt8.le_iff_toNat_le] at high
    rw [← UInt8.ofNat_toNat (x := b), isTextByte_ofNat b.toNat_lt]
    have high : 0x80 ≤ b.toNat := high
    simp only [Bool.or_eq_false_iff, Bool.and_eq_false_iff, decide_eq_false_iff_not,
      beq_eq_false_iff_ne]
    omega
  rw [starts, List.all_cons, unread, Bool.false_and]

theorem encodeChar_all (c : Char) :
    (String.utf8EncodeChar c).all isTextByte = isReadable c := by
  by_cases h : c.toNat ≤ 0x7F
  · rw [Text.Utf8.encodeChar_ascii h, List.all_cons, List.all_nil, Bool.and_true,
      isTextByte_ofNat (by omega)]
    rfl
  · rw [encodeChar_beyond (Nat.lt_of_not_le h), isReadable]
    simp only [Bool.false_eq, Bool.or_eq_false_iff, Bool.and_eq_false_iff,
      decide_eq_false_iff_not, beq_eq_false_iff_ne]
    omega

theorem encode_all (text : String) :
    (Text.Utf8.encode text).all isTextByte = readable text := by
  rw [Text.Utf8.encode, readable, List.all_flatMap]
  simp only [encodeChar_all]

theorem decodeChar {c : Char} (h : isReadable c = true) :
    (String.utf8EncodeChar c).map (fun b => Char.ofNat b.toNat) = [c] := by
  have ascii : c.toNat ≤ 0x7F := by
    simp only [isReadable, Bool.or_eq_true, Bool.and_eq_true, decide_eq_true_eq,
      beq_iff_eq] at h
    omega
  have toNat : (UInt8.ofNat c.toNat).toNat = c.toNat :=
    UInt8.toNat_ofNat_of_lt' (Nat.lt_of_le_of_lt ascii (by decide))
  rw [Text.Utf8.encodeChar_ascii ascii, List.map_singleton, toNat, Char.ofNat_toNat]

theorem text?_encode (text : String) :
    text? (Text.Utf8.encode text) = if readable text then some text else none := by
  rw [text?, encode_all]
  split
  next h =>
    have chars : (Text.Utf8.encode text).map (fun b => Char.ofNat b.toNat) = text.toList := by
      rw [Text.Utf8.encode, List.map_flatMap]
      calc text.toList.flatMap (fun c => (String.utf8EncodeChar c).map fun b => Char.ofNat b.toNat)
          = text.toList.flatMap (fun c => [c]) := by
            apply List.flatMap_congr
            intro c hc
            exact decodeChar (List.all_eq_true.1 h c hc)
        _ = text.toList := List.flatMap_singleton' _
    rw [chars, String.ofList_toList]
  next => rfl

theorem readable_of_text? {value : Bytes} {text : String} (h : text? value = some text) :
    readable text = true := by
  rw [text?] at h
  split at h
  next ascii =>
    cases h
    rw [readable, String.toList_ofList, List.all_map, List.all_eq_true]
    intro b hb
    have textByte := List.all_eq_true.1 ascii b hb
    have low : b.toNat < 256 := b.toNat_lt
    rw [← UInt8.ofNat_toNat (x := b), isTextByte_ofNat low] at textByte
    have valid : b.toNat.isValidChar := Or.inl (by omega)
    have toNat : (Char.ofNat b.toNat).toNat = b.toNat := by
      rw [Char.ofNat, dif_pos valid]
      rfl
    rw [Function.comp_apply, isReadable, toNat]
    exact textByte
  next => cases h

theorem readable_append (s t : String) : readable (s ++ t) = (readable s && readable t) := by
  rw [readable, String.toList_append, List.all_append]
  rfl

theorem isReadable_of_isDigit {c : Char} (h : c.isDigit = true) : isReadable c = true := by
  obtain ⟨low, high⟩ := Char.isDigit_iff_toNat.1 h
  have low : 0x30 ≤ c.toNat := low
  have high : c.toNat ≤ 0x39 := high
  rw [isReadable, Bool.or_eq_true, Bool.and_eq_true, decide_eq_true_eq, decide_eq_true_eq]
  omega

theorem readable_padded (width n : Nat) : readable (Text.padded width n) = true := by
  rw [readable, List.all_eq_true]
  intro c hc
  exact isReadable_of_isDigit (Text.isDigit_of_mem_padded hc)

theorem readable_yearText (year : Int) : readable (Timestamp.yearText year) = true := by
  rw [Timestamp.yearText]
  split
  · exact readable_padded _ _
  · rw [readable_append, readable_padded, Bool.and_true]
    split <;> decide

theorem readable_fractionText (nanos : Nat) : readable (Timestamp.fractionText nanos) = true := by
  have point : readable "." = true := by decide
  rw [Timestamp.fractionText]
  split
  · decide
  · split
    · rw [readable_append, readable_padded, point, Bool.and_true]
    · split <;> rw [readable_append, readable_padded, point, Bool.and_true]

theorem readable_time (t : Timestamp) : readable t.text = true := by
  have marks : readable "-" = true ∧ readable "T" = true ∧ readable ":" = true ∧
      readable "Z" = true := by decide
  obtain ⟨hyphen, separator, colon, zone⟩ := marks
  simp only [Timestamp.text, readable_append, readable_padded, readable_yearText,
    readable_fractionText, hyphen, separator, colon, zone, Bool.and_self]

end RoundTrip.Header
