import Mathlib.Tactic.SplitIfs
import RoundTrip.Text.Utf8

namespace RoundTrip.Text.Utf8

def octets (cs : List Char) : Bytes := cs.flatMap String.utf8EncodeChar

@[simp] theorem octets_nil : octets [] = [] := rfl

theorem octets_cons (c : Char) (cs : List Char) :
    octets (c :: cs) = String.utf8EncodeChar c ++ octets cs :=
  List.flatMap_cons

@[simp] theorem octets_append (xs ys : List Char) : octets (xs ++ ys) = octets xs ++ octets ys :=
  List.flatMap_append

theorem encode_eq (s : String) : encode s = octets s.toList := rfl

@[simp] theorem encode_ofList (cs : List Char) : encode (String.ofList cs) = octets cs := by
  rw [encode_eq, String.toList_ofList]

theorem encode_inj {s t : String} : encode s = encode t ↔ s = t := by
  constructor
  · intro same
    have decoded := congrArg decode? same
    rw [decode?_encode, decode?_encode] at decoded
    exact Option.some.inj decoded
  · exact congrArg encode

theorem length_le_octets (cs : List Char) : cs.length ≤ (octets cs).length := by
  induction cs with
  | nil => exact Nat.le_refl 0
  | cons c rest ih =>
    have some : 0 < c.utf8Size := Char.utf8Size_pos c
    rw [octets_cons, List.length_append, String.length_utf8EncodeChar, List.length_cons]
    omega

theorem length_encode (s : String) : (encode s).length = s.utf8ByteSize := by
  rw [← String.size_toByteArray, ← toByteArray_encode, List.size_toByteArray]

theorem length_le_utf8ByteSize (s : String) : s.toList.length ≤ s.utf8ByteSize := by
  rw [← length_encode]
  exact length_le_octets s.toList

theorem encodeChar_ascii {c : Char} (h : c.toNat ≤ 0x7F) :
    String.utf8EncodeChar c = [UInt8.ofNat c.toNat] :=
  if_pos h

theorem octets_cons_ascii {c : Char} (h : c.toNat ≤ 0x7F) (cs : List Char) :
    octets (c :: cs) = UInt8.ofNat c.toNat :: octets cs := by
  rw [octets_cons, encodeChar_ascii h, List.singleton_append]

theorem high_of_mem_encodeChar {c : Char} (h : 0x7F < c.toNat) {b : UInt8}
    (mem : b ∈ String.utf8EncodeChar c) : 0x80 ≤ b := by
  have low {n : Nat} (low : 0x80 ≤ n) (high : n < 256) : 0x80 ≤ UInt8.ofNat n := by
    rw [UInt8.le_iff_toNat_le, UInt8.toNat_ofNat_of_lt' high]
    exact low
  have beyond : ¬ c.val.toNat ≤ 0x7F := Nat.not_le_of_lt h
  rw [String.utf8EncodeChar, if_neg beyond] at mem
  -- two, three or four octets
  split_ifs at mem <;> simp only [List.mem_cons, List.not_mem_nil, or_false] at mem
  · rcases mem with rfl | rfl <;> exact low (by omega) (by omega)
  · rcases mem with rfl | rfl | rfl <;> exact low (by omega) (by omega)
  · rcases mem with rfl | rfl | rfl | rfl <;> exact low (by omega) (by omega)

end RoundTrip.Text.Utf8
