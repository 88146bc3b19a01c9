import Mathlib.Algebra.Ring.Nat
import RoundTrip.Text.Basic

namespace RoundTrip.Text

theorem decimal_eq (ds : List Char) : decimal ds = Nat.ofDigitChars 10 ds 0 :=
  Nat.ofDigitChars_eq_foldl.symm

@[simp] theorem decimal_toDigits (n : Nat) : decimal (Nat.toDigits 10 n) = n := by
  rw [decimal_eq, Nat.ofDigitChars_ten_toDigits]

theorem decimal_append (xs ys : List Char) :
    decimal (xs ++ ys) = decimal xs * 10 ^ ys.length + decimal ys := by
  rw [decimal_eq, Nat.ofDigitChars_append, Nat.ofDigitChars_eq_ofDigitChars_zero, decimal_eq,
    decimal_eq, Nat.mul_comm]

theorem decimal_zeros (count : Nat) : decimal (List.replicate count '0') = 0 := by
  rw [decimal_eq, Nat.ofDigitChars_replicate_zero, Nat.mul_zero]

theorem span_append {α : Type} {p : α → Bool} {xs ys : List α} (all : ∀ x ∈ xs, p x = true)
    (stop : ∀ y ∈ ys.head?, p y = false) :
    (xs ++ ys).takeWhile p = xs ∧ (xs ++ ys).dropWhile p = ys := by
  rw [List.takeWhile_append_of_pos all, List.dropWhile_append_of_pos all]
  cases ys with
  | nil => simp
  | cons y ys =>
    have stop : p y = false := stop y rfl
    simp [stop]

theorem isDigit_of_mem_takeWhile {c : Char} {cs : List Char} (h : c ∈ cs.takeWhile Char.isDigit) :
    c.isDigit = true :=
  List.all_eq_true.1 List.all_takeWhile c h

theorem digit_lt {c : Char} (digit : c.isDigit = true) : c.toNat - '0'.toNat < 10 := by
  obtain ⟨-, high⟩ := Char.isDigit_iff_toNat.1 digit
  have high : c.toNat ≤ 0x39 := high
  have zero : '0'.toNat = 0x30 := rfl
  omega

theorem decimal_lt {ds : List Char} (digits : ∀ c ∈ ds, c.isDigit = true) :
    decimal ds < 10 ^ ds.length := by
  induction ds with
  | nil => exact Nat.one_pos
  | cons c rest ih =>
    obtain ⟨first, others⟩ := List.forall_mem_cons.1 digits
    have head : decimal [c] = c.toNat - '0'.toNat := Nat.zero_add _
    have low := digit_lt first
    have tail := ih others
    rw [← List.singleton_append, decimal_append, head, List.length_append, List.length_singleton,
      Nat.pow_add, Nat.pow_one]
    calc (c.toNat - '0'.toNat) * 10 ^ rest.length + decimal rest
        < (c.toNat - '0'.toNat) * 10 ^ rest.length + 10 ^ rest.length := Nat.add_lt_add_left tail _
      _ = (c.toNat - '0'.toNat + 1) * 10 ^ rest.length := (Nat.succ_mul _ _).symm
      _ ≤ 10 * 10 ^ rest.length := Nat.mul_le_mul_right _ low

theorem isDigit_of_mem_toDigits {n : Nat} {c : Char} (h : c ∈ Nat.toDigits 10 n) :
    c.isDigit = true :=
  Nat.isDigit_of_mem_toDigits (by decide) (by decide) h

theorem toList_padded (width n : Nat) : (padded width n).toList =
    List.replicate (width - (Nat.toDigits 10 n).length) '0' ++ Nat.toDigits 10 n :=
  String.toList_ofList

@[simp] theorem decimal_padded (width n : Nat) : decimal (padded width n).toList = n := by
  rw [toList_padded, decimal_append, decimal_zeros, Nat.zero_mul, Nat.zero_add, decimal_toDigits]

theorem length_padded {width n : Nat} (positive : 0 < width) (fits : n < 10 ^ width) :
    (padded width n).toList.length = width := by
  have short := (Nat.length_toDigits_le_iff (b := 10) (by decide) positive).2 fits
  rw [toList_padded, List.length_append, List.length_replicate, Nat.sub_add_cancel short]

theorem isDigit_of_mem_padded {width n : Nat} {c : Char} (h : c ∈ (padded width n).toList) :
    c.isDigit = true := by
  rw [toList_padded, List.mem_append] at h
  rcases h with h | h
  · rw [List.eq_of_mem_replicate h]
    rfl
  · exact isDigit_of_mem_toDigits h

end RoundTrip.Text
