import Mathlib.Tactic.SplitIfs
import RoundTrip.Json.Reader
import RoundTrip.Proofs.Text.Octets

namespace RoundTrip.Json

open Text.Utf8

theorem readUnicode_control : ∀ n < 0x20, ∀ rest,
    readEscape (octets ['u', '0', '0', hexDigit (n / 16), hexDigit (n % 16)] ++ rest) =
      .ok (Char.ofNat n, rest) := by
  have unit : ∀ n < 0x20,
      octets ['u', '0', '0', hexDigit (n / 16), hexDigit (n % 16)] =
          [0x75, 0x30, 0x30, UInt8.ofNat (hexDigit (n / 16)).toNat,
            UInt8.ofNat (hexDigit (n % 16)).toNat] ∧
        hexUnit? 0x30 0x30 (UInt8.ofNat (hexDigit (n / 16)).toNat)
          (UInt8.ofNat (hexDigit (n % 16)).toNat) = some n := by decide
  have scalar : ∀ n < 0x20, isTrailSurrogate n = false ∧ isLeadSurrogate n = false := by decide
  intro n small rest
  obtain ⟨written, read⟩ := unit n small
  obtain ⟨noTrail, noLead⟩ := scalar n small
  rw [written]
  simp [readEscape, readUnicode, readHex, read, noTrail, noLead, bind, Except.bind, pure,
    Except.pure]

theorem escape_spec (c : Char) :
    (escape c = [c] ∧ c ≠ '"' ∧ c ≠ '\\' ∧ 0x20 ≤ c.toNat) ∨
      ∃ e, escape c = '\\' :: e ∧ ∀ rest, readEscape (octets e ++ rest) = .ok (c, rest) := by
  have named {n : Nat} (same : c.toNat = n) : Char.ofNat n = c := by
    rw [← same, Char.ofNat_toNat]
  rw [escape]
  split_ifs with quote slash newline carriage tab backspace feed control
  · exact .inr ⟨_, rfl, fun rest => by rw [quote]; rfl⟩
  · exact .inr ⟨_, rfl, fun rest => by rw [slash]; rfl⟩
  · exact .inr ⟨_, rfl, fun rest => by rw [newline]; rfl⟩
  · exact .inr ⟨_, rfl, fun rest => by rw [carriage]; rfl⟩
  · exact .inr ⟨_, rfl, fun rest => by rw [tab]; rfl⟩
  · exact .inr ⟨_, rfl, fun rest => by rw [← named backspace]; rfl⟩
  · exact .inr ⟨_, rfl, fun rest => by rw [← named feed]; rfl⟩
  · refine .inr ⟨_, rfl, fun rest => ?_⟩
    rw [readUnicode_control _ control, Char.ofNat_toNat]
  · exact .inl ⟨rfl, quote, slash, Nat.le_of_not_lt control⟩

def PlainByte (b : UInt8) : Prop := b ≠ 0x22 ∧ b ≠ 0x5C ∧ ¬ b < 0x20

theorem plainByte_of_mem {c : Char} (noQuote : c ≠ '"') (noSlash : c ≠ '\\')
    (noControl : 0x20 ≤ c.toNat) {b : UInt8} (mem : b ∈ String.utf8EncodeChar c) :
    PlainByte b := by
  simp only [PlainByte, ne_eq, ← UInt8.toNat_inj, UInt8.lt_iff_toNat_lt]
  by_cases ascii : c.toNat ≤ 0x7F
  · rw [encodeChar_ascii ascii, List.mem_singleton] at mem
    have toNat : b.toNat = c.toNat := by
      rw [mem, UInt8.toNat_ofNat_of_lt' (Nat.lt_of_le_of_lt ascii (by decide))]
    rw [toNat]
    refine ⟨?_, ?_, Nat.not_lt_of_le noControl⟩
    · intro same
      exact noQuote (Char.toNat_inj.1 same)
    · intro same
      exact noSlash (Char.toNat_inj.1 same)
  · have high := UInt8.le_iff_toNat_le.1 (high_of_mem_encodeChar (Nat.lt_of_not_le ascii) mem)
    have high : 0x80 ≤ b.toNat := high
    have marks : (0x22 : UInt8).toNat = 0x22 ∧ (0x5C : UInt8).toNat = 0x5C ∧
        (0x20 : UInt8).toNat = 0x20 := by decide
    omega

theorem gatherString_plain {bytes : Bytes} (plain : ∀ b ∈ bytes, PlainByte b) (fuel : Nat)
    (acc rest : Bytes) :
    gatherString (bytes.length + fuel) acc (bytes ++ rest) =
      gatherString fuel (bytes.reverse ++ acc) rest := by
  induction bytes generalizing acc with
  | nil => rw [List.length_nil, Nat.zero_add]; rfl
  | cons b others ih =>
    obtain ⟨⟨noQuote, noSlash, noControl⟩, plain⟩ := List.forall_mem_cons.1 plain
    rw [List.length_cons, Nat.add_right_comm, List.cons_append, gatherString, if_neg noQuote,
      if_neg noSlash, if_neg noControl, ih plain, List.reverse_cons, List.append_assoc,
      List.singleton_append]

theorem gatherString_chars (cs : List Char) {fuel : Nat}
    (enough : (octets (cs.flatMap escape)).length < fuel) (acc rest : Bytes) :
    gatherString fuel acc (octets (cs.flatMap escape) ++ 0x22 :: rest) =
      .ok ((octets cs).reverse ++ acc, rest) := by
  induction cs generalizing fuel acc with
  | nil =>
    obtain ⟨fuel, rfl⟩ := Nat.exists_eq_succ_of_ne_zero (Nat.ne_zero_of_lt enough)
    rfl
  | cons c others ih =>
    rw [List.flatMap_cons, octets_append, List.length_append] at enough
    rw [List.flatMap_cons, octets_append, octets_cons, List.reverse_append, List.append_assoc,
      List.append_assoc]
    rcases escape_spec c with ⟨same, noQuote, noSlash, noControl⟩ | ⟨e, escaped, read⟩
    · have once : octets [c] = String.utf8EncodeChar c := List.append_nil _
      rw [same, once] at enough ⊢
      have head : (String.utf8EncodeChar c).length ≤ fuel := by omega
      obtain ⟨fuel, rfl⟩ := Nat.exists_eq_add_of_le head
      rw [gatherString_plain fun b => plainByte_of_mem noQuote noSlash noControl]
      exact ih (by omega) _
    · have slash : octets ('\\' :: e) = 0x5C :: octets e := octets_cons_ascii (by decide) e
      rw [escaped, slash] at enough ⊢
      obtain ⟨fuel, rfl⟩ := Nat.exists_eq_succ_of_ne_zero (Nat.ne_zero_of_lt enough)
      rw [List.length_cons] at enough
      rw [List.cons_append, gatherString, if_neg (by decide), if_pos rfl, read]
      exact ih (by omega) _

theorem octets_quote (s : String) (rest : Bytes) :
    octets (quote s) ++ rest = 0x22 :: (octets (s.toList.flatMap escape) ++ 0x22 :: rest) := by
  rw [quote, List.cons_append, octets_cons_ascii (by decide), octets_append, List.cons_append,
    List.append_assoc]
  rfl

theorem readString_quote (s : String) {fuel : Nat} (enough : (octets (quote s)).length < fuel)
    (rest : Bytes) :
    readString fuel (octets (s.toList.flatMap escape) ++ 0x22 :: rest) = .ok (s, rest) := by
  have written := octets_quote s []
  rw [List.append_nil] at written
  rw [written, List.length_cons, List.length_append] at enough
  rw [readString, gatherString_chars _ (by omega)]
  simp only [List.append_nil, List.reverse_reverse]
  rw [← encode_eq, decode?_encode]

end RoundTrip.Json
