import Mathlib.Data.String.Basic
import RoundTrip.Proofs.Text.Octets

namespace RoundTrip.Text.Utf8

theorem ofNat_inj_iff {m n : Nat} (hm : m < UInt8.size) (hn : n < UInt8.size) :
    UInt8.ofNat m = UInt8.ofNat n ↔ m = n := by
  rw [← UInt8.toNat_inj, UInt8.toNat_ofNat_of_lt' hm, UInt8.toNat_ofNat_of_lt' hn]

theorem encodeChar_lt {c d : Char} (h : c < d) (xs ys : Bytes) :
    String.utf8EncodeChar c ++ xs < String.utf8EncodeChar d ++ ys := by
  have before : c.val.toNat < d.val.toNat := h
  have top : d.val.toNat < 0x110000 := by
    have valid := d.valid
    simp only [UInt32.isValidChar, Nat.isValidChar] at valid
    omega
  rw [String.utf8EncodeChar, String.utf8EncodeChar]
  generalize c.val.toNat = m at before
  generalize d.val.toNat = n at before top
  have digits (k : Nat) : k / 4096 = k / 64 / 64 ∧ k / 262144 = k / 64 / 64 / 64 := by omega
  simp only [digits]
  have size : UInt8.size = 256 := rfl
  -- as many cases as there are lengths of both characters
  split_ifs <;> simp (disch := omega) only [List.cons_append, List.nil_append,
    List.cons_lt_cons_iff, UInt8.ofNat_lt_iff_lt, ofNat_inj_iff] <;> omega

theorem octets_lt {cs ds : List Char} (h : cs < ds) : octets cs < octets ds := by
  induction h with
  | @nil d ds =>
    obtain ⟨b, rest, starts⟩ := List.exists_cons_of_ne_nil (String.utf8EncodeChar_ne_nil (c := d))
    rw [octets_cons, starts]
    exact List.nil_lt_cons _ _
  | @cons c cs ds _ ih =>
    rw [octets_cons, octets_cons]
    exact List.append_left_lt ih
  | rel before =>
    rw [octets_cons, octets_cons]
    exact encodeChar_lt before _ _

theorem encode_lt_iff {s t : String} : encode s < encode t ↔ s < t := by
  have forth {s t : String} (h : s < t) : encode s < encode t :=
    octets_lt (String.lt_iff_toList_lt.1 h)
  constructor
  · intro h
    by_contra notBefore
    rcases (not_lt.1 notBefore).eq_or_lt with rfl | after
    · exact List.lt_irrefl _ h
    · exact List.lt_asymm h (forth after)
  · exact forth

end RoundTrip.Text.Utf8
