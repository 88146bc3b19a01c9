import RoundTrip.Proofs.Text.Octets

namespace RoundTrip.Text.Utf8

theorem lossy_begin {o : Owed} {b : UInt8} (begins : lead b = some o) (owes : o.count ≠ 0)
    (acc : List Char) (rest : Bytes) : lossy none acc (b :: rest) = lossy (some o) acc rest := by
  rw [lossy, begins]
  exact if_neg owes

theorem lossy_last {low high : UInt8} {value n : Nat} (above : low.toNat ≤ n)
    (below : n ≤ high.toNat) (acc : List Char) (rest : Bytes) :
    lossy (some ⟨1, low, high, value⟩) acc (UInt8.ofNat n :: rest) =
      lossy none (Char.ofNat (value * 64 + n % 64) :: acc) rest := by
  have octet := UInt8.toNat_ofNat_of_lt' (Nat.lt_of_le_of_lt below high.toNat_lt)
  have within : low ≤ UInt8.ofNat n ∧ UInt8.ofNat n ≤ high := by
    rw [UInt8.le_iff_toNat_le, UInt8.le_iff_toNat_le, octet]
    exact ⟨above, below⟩
  rw [lossy, if_pos within, octet]
  rfl

theorem lossy_next {low high : UInt8} {value n count : Nat} (above : low.toNat ≤ n)
    (below : n ≤ high.toNat) (acc : List Char) (rest : Bytes) :
    lossy (some ⟨count + 2, low, high, value⟩) acc (UInt8.ofNat n :: rest) =
      lossy (some ⟨count + 1, 0x80, 0xBF, value * 64 + n % 64⟩) acc rest := by
  have octet := UInt8.toNat_ofNat_of_lt' (Nat.lt_of_le_of_lt below high.toNat_lt)
  have within : low ≤ UInt8.ofNat n ∧ UInt8.ofNat n ≤ high := by
    rw [UInt8.le_iff_toNat_le, UInt8.le_iff_toNat_le, octet]
    exact ⟨above, below⟩
  rw [lossy, if_pos within, octet]
  exact if_neg (by simp)

theorem lead_two {n : Nat} (above : 0xC2 ≤ n) (below : n ≤ 0xDF) :
    lead (UInt8.ofNat n) = some ⟨1, 0x80, 0xBF, n % 32⟩ := by
  have octet : (UInt8.ofNat n).toNat = n :=
    UInt8.toNat_ofNat_of_lt' (Nat.lt_of_le_of_lt below (by decide))
  rw [lead, octet, if_neg (by omega), if_pos ⟨above, below⟩]

/-- Overlong octets and surrogates are kept out by the range of the second octet. -/
theorem lead_three {n m : Nat} (above : 0xE0 ≤ n) (below : n ≤ 0xEF) (follows : 0x80 ≤ m)
    (ends : m ≤ 0xBF) (short : n = 0xE0 → 0xA0 ≤ m) (scalar : n = 0xED → m ≤ 0x9F) :
    ∃ low high : UInt8, lead (UInt8.ofNat n) = some ⟨2, low, high, n % 16⟩ ∧
      low.toNat ≤ m ∧ m ≤ high.toNat := by
  have octet : (UInt8.ofNat n).toNat = n :=
    UInt8.toNat_ofNat_of_lt' (Nat.lt_of_le_of_lt below (by decide))
  rw [lead, octet, if_neg (by omega), if_neg (by omega)]
  by_cases first : n = 0xE0
  · exact ⟨0xA0, 0xBF, by rw [if_pos first, first], short first, ends⟩
  · rw [if_neg first]
    by_cases surrogate : n = 0xED
    · exact ⟨0x80, 0x9F, by rw [if_pos surrogate, surrogate], follows, scalar surrogate⟩
    · rw [if_neg surrogate, if_pos ⟨by omega, below⟩]
      exact ⟨0x80, 0xBF, rfl, follows, ends⟩

/-- Overlong octets and what lies beyond the last character are kept out in the same way. -/
theorem lead_four {n m : Nat} (above : 0xF0 ≤ n) (below : n ≤ 0xF4) (follows : 0x80 ≤ m)
    (ends : m ≤ 0xBF) (short : n = 0xF0 → 0x90 ≤ m) (scalar : n = 0xF4 → m ≤ 0x8F) :
    ∃ low high : UInt8, lead (UInt8.ofNat n) = some ⟨3, low, high, n % 8⟩ ∧
      low.toNat ≤ m ∧ m ≤ high.toNat := by
  have octet : (UInt8.ofNat n).toNat = n :=
    UInt8.toNat_ofNat_of_lt' (Nat.lt_of_le_of_lt below (by decide))
  rw [lead, octet, if_neg (by omega), if_neg (by omega), if_neg (by omega), if_neg (by omega),
    if_neg (by omega)]
  by_cases first : n = 0xF0
  · exact ⟨0x90, 0xBF, by rw [if_pos first, first], short first, ends⟩
  · rw [if_neg first]
    by_cases last : n = 0xF4
    · exact ⟨0x80, 0x8F, by rw [if_neg (by omega), if_pos last, last], follows, scalar last⟩
    · rw [if_pos ⟨by omega, by omega⟩]
      exact ⟨0x80, 0xBF, rfl, follows, ends⟩

theorem lossy_encodeChar (c : Char) (acc : List Char) (rest : Bytes) :
    lossy none acc (String.utf8EncodeChar c ++ rest) = lossy none (c :: acc) rest := by
  have valid : c.val.toNat.isValidChar := c.valid
  have read {n : Nat} (same : n = c.val.toNat) : Char.ofNat n = c := same ▸ Char.ofNat_toNat c
  rw [String.utf8EncodeChar]
  generalize c.val.toNat = v at valid read ⊢
  -- one, two, three or four octets
  split
  next ascii =>
    have begins : lead (UInt8.ofNat v) = some ⟨0, 0x80, 0xBF, v⟩ := by
      rw [lead, UInt8.toNat_ofNat_of_lt' (Nat.lt_of_le_of_lt ascii (by decide)), if_pos ascii]
    rw [List.singleton_append, lossy, begins, ← read rfl]
    rfl
  next =>
    split
    next =>
      have begins := lead_two (n := v / 64 % 32 + 192) (by omega) (by omega)
      simp only [List.cons_append, List.nil_append]
      rw [lossy_begin begins (by decide : 1 ≠ 0), lossy_last (by simp) (by simp; omega),
        read (by omega)]
    next =>
      split
      next =>
        obtain ⟨low, high, begins, above, below⟩ :=
          lead_three (n := v / 4096 % 16 + 224) (m := v / 64 % 64 + 128) (by omega) (by omega)
            (by omega) (by omega) (by omega) (by omega)
        simp only [List.cons_append, List.nil_append]
        rw [lossy_begin begins (by decide : 2 ≠ 0), lossy_next above below,
          lossy_last (by simp) (by simp; omega), read (by omega)]
      next =>
        obtain ⟨low, high, begins, above, below⟩ :=
          lead_four (n := v / 262144 % 8 + 240) (m := v / 4096 % 64 + 128) (by omega) (by omega)
            (by omega) (by omega) (by omega) (by omega)
        simp only [List.cons_append, List.nil_append]
        rw [lossy_begin begins (by decide : 3 ≠ 0), lossy_next above below,
          lossy_next (by simp) (by simp; omega), lossy_last (by simp) (by simp; omega),
          read (by omega)]

theorem lossy_octets (cs acc : List Char) : lossy none acc (octets cs) = acc.reverse ++ cs := by
  induction cs generalizing acc with
  | nil => rw [octets_nil, lossy, List.append_nil]
  | cons c rest ih =>
    rw [octets_cons, lossy_encodeChar, ih, List.reverse_cons, List.append_assoc,
      List.singleton_append]

@[simp] theorem decodeLossy_encode (s : String) : decodeLossy (encode s) = s := by
  rw [decodeLossy, encode_eq, lossy_octets, List.reverse_nil, List.nil_append, String.ofList_toList]

end RoundTrip.Text.Utf8
