import Mathlib.Data.Rat.Lemmas
import Mathlib.Algebra.Order.Field.Rat
import Mathlib.Algebra.Order.Ring.Unbundled.Rat
import Mathlib.Data.Nat.Log
import Mathlib.Tactic.FieldSimp
import Mathlib.Tactic.Linarith
import Mathlib.Tactic.NormNum
import Mathlib.Tactic.Positivity
import Mathlib.Tactic.GCongr
import Mathlib.Tactic.Ring
import RoundTrip.Decimal.Double

namespace RoundTrip.Double

structure Finite (d : Double) : Prop where
  significand : d.significand < bound
  exponent : d.exponent ≤ greatestExponent

def value (d : Double) : ℚ := d.significand * 2 ^ d.exponent

def limit : Nat := (2 ^ 54 - 1) * 2 ^ 970

theorem limit_cast : (limit : ℚ) = (2 ^ 54 - 1) * 2 ^ 970 := by
  rw [limit, Nat.cast_mul, Nat.cast_pow, Nat.cast_sub (by decide)]
  norm_num

theorem two_zpow_pos (e : Int) : (0 : ℚ) < 2 ^ e := zpow_pos (by norm_num) e

theorem scaled_pos (num : Nat) {den : Nat} (positive : 0 < den) (e : Int) :
    0 < (scaled num den e).2 := by
  cases e with
  | ofNat e => exact Nat.mul_pos positive (Nat.pow_pos (by decide))
  | negSucc e => exact positive

theorem scaled_div (num den : Nat) (e : Int) :
    ((scaled num den e).1 : ℚ) / (scaled num den e).2 = num / den / 2 ^ e := by
  cases e with
  | ofNat e =>
    simp only [scaled, Int.ofNat_eq_natCast, zpow_natCast, Nat.pow_eq, Nat.cast_mul, Nat.cast_pow,
      Nat.cast_ofNat, div_div]
  | negSucc e =>
    simp only [scaled, zpow_negSucc, Nat.pow_eq, Nat.cast_mul, Nat.cast_pow, Nat.cast_ofNat,
      div_inv_eq_mul]
    ring

theorem nearest_le {n d m : Nat} (h : 2 * n < (2 * m + 1) * d) : nearest n d ≤ m := by
  have split : d * (n / d) + n % d = n := Nat.div_add_mod n d
  have expand : (2 * m + 1) * d = 2 * (d * m) + d := by ring
  have past {k : Nat} (le : k ≤ n / d) : d * k ≤ d * (n / d) := Nat.mul_le_mul_left d le
  simp only [nearest]
  split_ifs with down tie
  · by_contra above
    have := past (Nat.lt_of_not_le above)
    rw [Nat.succ_eq_add_one, Nat.mul_add] at this
    omega
  · by_contra above
    have := past (show m ≤ n / d by omega)
    omega
  · by_contra above
    have := past (show m ≤ n / d by omega)
    omega

theorem nearest_le_of_div {n d m : Nat} (positive : 0 < d) (h : (n : ℚ) / d < m + 1 / 2) :
    nearest n d ≤ m := by
  apply nearest_le
  have positive : (0 : ℚ) < d := Nat.cast_pos.2 positive
  rw [div_lt_iff₀ positive] at h
  have twice : (2 * n : ℚ) < (2 * m + 1) * d := by linarith
  exact_mod_cast twice

section

variable {num den : Nat}

theorem ratio_lt (positive : 0 < den) :
    (num : ℚ) / den < 2 ^ ((num.log2 : Int) - den.log2 + 1) := by
  have above : (num : ℚ) < 2 ^ (num.log2 + 1) := by exact_mod_cast Nat.lt_log2_self
  have below : (2 ^ den.log2 : ℚ) ≤ den := by
    exact_mod_cast Nat.log2_self_le positive.ne'
  have power : (2 : ℚ) ^ ((num.log2 : Int) - den.log2 + 1) = 2 ^ (num.log2 + 1) / 2 ^ den.log2 := by
    rw [sub_add_eq_add_sub, zpow_sub₀ (by norm_num)]
    norm_cast
  rw [power]
  exact div_lt_div₀ above below (by positivity) (by positivity)

theorem le_ratio (num_positive : 0 < num) (positive : 0 < den) :
    2 ^ ((num.log2 : Int) - den.log2 - 1) ≤ (num : ℚ) / den := by
  have below : (2 ^ num.log2 : ℚ) ≤ num := by
    exact_mod_cast Nat.log2_self_le num_positive.ne'
  have above : (den : ℚ) ≤ 2 ^ (den.log2 + 1) := by
    exact_mod_cast Nat.lt_log2_self.le
  have power : (2 : ℚ) ^ ((num.log2 : Int) - den.log2 - 1) = 2 ^ num.log2 / 2 ^ (den.log2 + 1) := by
    rw [sub_sub, zpow_sub₀ (by norm_num)]
    norm_cast
  rw [power]
  exact div_le_div₀ (by positivity) below (by positivity) above

theorem div_lt_bound_iff (positive : 0 < den) (e : Int) :
    (scaled num den e).1 / (scaled num den e).2 < bound ↔ (num : ℚ) / den < 2 ^ (53 + e) := by
  have scaled_positive : 0 < (scaled num den e).2 := scaled_pos num positive e
  have grid := two_zpow_pos e
  rw [Nat.div_lt_iff_lt_mul scaled_positive, zpow_add₀ (by norm_num), ← div_lt_iff₀ grid,
    ← scaled_div, div_lt_iff₀ (Nat.cast_pos.2 scaled_positive), bound]
  norm_cast

theorem ratio_lt_exponentOf (positive : 0 < den) :
    (num : ℚ) / den < 2 ^ (53 + exponentOf num den) := by
  simp only [exponentOf]
  split_ifs with fits
  · exact (div_lt_bound_iff positive _).1 fits
  · apply (ratio_lt positive).trans_le
    exact zpow_le_zpow_right₀ (by norm_num) (by omega)

theorem exponentOf_normal (num_positive : 0 < num) (positive : 0 < den) :
    exponentOf num den = leastExponent ∨ 2 ^ (52 + exponentOf num den) ≤ (num : ℚ) / den := by
  simp only [exponentOf]
  split_ifs with fits
  · by_cases least : (num.log2 : Int) - den.log2 - 53 ≤ leastExponent
    · exact .inl (max_eq_right least)
    · right
      apply le_trans _ (le_ratio num_positive positive)
      exact zpow_le_zpow_right₀ (by norm_num) (by omega)
  · right
    have full := le_of_not_gt fun low => fits ((div_lt_bound_iff positive _).2 low)
    apply le_trans _ full
    exact zpow_le_zpow_right₀ (by norm_num) (by omega)

def rounded (num den : Nat) : Nat :=
  nearest (scaled num den (exponentOf num den)).1 (scaled num den (exponentOf num den)).2

theorem rounded_le {m : Nat} (positive : 0 < den)
    (h : (num : ℚ) / den < (m + 1 / 2) * 2 ^ exponentOf num den) : rounded num den ≤ m := by
  apply nearest_le_of_div (scaled_pos num positive _)
  rwa [scaled_div, div_lt_iff₀ (two_zpow_pos _)]

theorem rounded_le_bound (positive : 0 < den) : rounded num den ≤ bound := by
  apply rounded_le positive
  apply (ratio_lt_exponentOf positive).trans
  rw [zpow_add₀ (by norm_num)]
  apply mul_lt_mul_of_pos_right _ (two_zpow_pos _)
  norm_num [bound]

theorem ofRatio_eq (num_positive : 0 < num) :
    ofRatio num den =
      if rounded num den = bound then
        if greatestExponent < exponentOf num den + 1 then none
        else some ⟨false, bound / 2, exponentOf num den + 1⟩
      else if greatestExponent < exponentOf num den then none
      else some ⟨false, rounded num den, exponentOf num den⟩ := by
  simp only [ofRatio, num_positive.ne', if_false, rounded]
  split_ifs <;> simp_all

theorem Finite.zero : zero.Finite := ⟨by decide, by decide⟩

theorem finite_of_ofRatio (positive : 0 < den) {d : Double} (h : ofRatio num den = some d) :
    d.Finite := by
  rcases Nat.eq_zero_or_pos num with rfl | num_positive
  · cases h
    exact Finite.zero
  · have le : rounded num den ≤ bound := rounded_le_bound positive
    rw [ofRatio_eq num_positive] at h
    split_ifs at h with full tooLarge tooLarge
    · cases h
      exact ⟨show bound / 2 < bound by decide, Int.not_lt.1 tooLarge⟩
    · cases h
      exact ⟨lt_of_le_of_ne le full, Int.not_lt.1 tooLarge⟩

theorem exists_ofRatio (positive : 0 < den) (h : (num : ℚ) / den < limit) :
    ∃ d, ofRatio num den = some d := by
  rcases Nat.eq_zero_or_pos num with rfl | num_positive
  · exact ⟨zero, rfl⟩
  · have range : exponentOf num den ≤ greatestExponent := by
      rcases exponentOf_normal num_positive positive with least | normal
      · rw [least]
        decide
      · by_contra above
        have power : (2 : ℚ) ^ (1024 : Int) ≤ 2 ^ (52 + exponentOf num den) :=
          zpow_le_zpow_right₀ (by norm_num) (by simp only [greatestExponent] at above; omega)
        have top : (limit : ℚ) < 2 ^ (1024 : Int) := by
          rw [limit_cast, show (1024 : Int) = 54 + (970 : Nat) from rfl, zpow_add₀ (by norm_num),
            zpow_natCast]
          exact mul_lt_mul_of_pos_right (by norm_num) (by positivity)
        linarith
    rw [ofRatio_eq num_positive]
    split_ifs with full tooLarge tooLarge
    · -- At the greatest exponent the rounded significand stays below the bound.
      exfalso
      have last : exponentOf num den = greatestExponent := by omega
      have below : rounded num den ≤ bound - 1 := by
        apply rounded_le positive
        have half : (limit : ℚ) = ((bound - 1 : Nat) + 1 / 2) * 2 ^ greatestExponent := by
          rw [limit_cast, show greatestExponent = 1 + (970 : Nat) from rfl, zpow_add₀ (by norm_num),
            zpow_natCast, ← mul_assoc]
          norm_num [bound]
        rwa [last, ← half]
      rw [full] at below
      exact absurd below (by decide)
    · exact ⟨_, rfl⟩
    · exact absurd range (Int.not_le.2 tooLarge)
    · exact ⟨_, rfl⟩

theorem value_ofRatio (num_positive : 0 < num) {d : Double} (h : ofRatio num den = some d) :
    d.value = rounded num den * 2 ^ exponentOf num den := by
  rw [ofRatio_eq num_positive] at h
  split_ifs at h with full
  · cases h
    have twice : (bound : ℚ) = (bound / 2 : Nat) * 2 := by norm_num [bound]
    rw [value, full, twice, zpow_add₀ (by norm_num)]
    ring
  · cases h
    rfl

theorem value_le (positive : 0 < den) {d : Double} (h : ofRatio num den = some d) {m : Nat}
    {k : Int} (fits : m ≤ bound) (least : leastExponent ≤ k)
    (above : (num : ℚ) / den ≤ m * 2 ^ k) : d.value ≤ m * 2 ^ k := by
  rcases Nat.eq_zero_or_pos num with rfl | num_positive
  · cases h
    rw [value, zero, Nat.cast_zero, zero_mul]
    exact mul_nonneg (Nat.cast_nonneg m) (two_zpow_pos k).le
  · rw [value_ofRatio num_positive h]
    generalize same : exponentOf num den = e
    have grid : (0 : ℚ) < 2 ^ e := two_zpow_pos e
    rcases le_or_gt e k with coarse | fine
    · -- `m * 2 ^ k` is a point of the grid
      obtain ⟨shift, rfl⟩ : ∃ n : Nat, k = e + n := Int.le.dest coarse |>.imp fun _ h => h.symm
      have point : (m : ℚ) * 2 ^ (e + (shift : Int)) = ((m * 2 ^ shift : Nat) : ℚ) * 2 ^ e := by
        rw [zpow_add₀ (by norm_num), zpow_natCast]
        push_cast
        ring
      rw [point] at above ⊢
      apply mul_le_mul_of_nonneg_right _ grid.le
      rw [Nat.cast_le]
      apply rounded_le positive
      rw [same]
      nlinarith
    · -- `m * 2 ^ k` lies a binade below, unless it is the ratio itself
      have normal : 2 ^ (52 + e) ≤ (num : ℚ) / den := by
        rw [← same]
        apply (exponentOf_normal num_positive positive).resolve_left
        rw [same]
        omega
      have top : (m : ℚ) * 2 ^ k ≤ 2 ^ (52 + e) := by
        have binade : (2 : ℚ) ^ (53 + k) ≤ 2 ^ (52 + e) :=
          zpow_le_zpow_right₀ (by norm_num) (by omega)
        rw [zpow_add₀ (by norm_num)] at binade
        have small : (m : ℚ) ≤ 2 ^ (53 : Int) := by
          have := Nat.cast_le (α := ℚ).2 fits
          norm_num [bound] at this ⊢
          exact this
        exact (mul_le_mul_of_nonneg_right small (two_zpow_pos k).le).trans binade
      have significand : rounded num den ≤ 2 ^ 52 := by
        apply rounded_le positive
        rw [same]
        have power : (2 : ℚ) ^ (52 + e) = 2 ^ 52 * 2 ^ e := by
          rw [zpow_add₀ (by norm_num)]
          norm_cast
        push_cast
        nlinarith
      calc (rounded num den : ℚ) * 2 ^ e ≤ (2 ^ 52 : Nat) * 2 ^ e :=
            mul_le_mul_of_nonneg_right (Nat.cast_le.2 significand) grid.le
        _ = 2 ^ (52 + e) := by
            rw [zpow_add₀ (by norm_num)]
            norm_cast
        _ ≤ (num : ℚ) / den := normal
        _ ≤ m * 2 ^ k := above

end

theorem ratio_pos (d : Double) : 0 < d.ratio.2 := by
  rw [ratio]
  split
  · exact Nat.one_pos
  · exact Nat.pow_pos (by decide)

theorem ratio_div (d : Double) : (d.ratio.1 : ℚ) / d.ratio.2 = d.value := by
  rw [ratio, value]
  split
  next e same =>
    rw [same]
    simp
  next e same =>
    rw [same, zpow_negSucc]
    simp [div_eq_mul_inv]

theorem Finite.value_lt {d : Double} (h : d.Finite) : d.value < limit := by
  have significand : (d.significand : ℚ) < 2 ^ 53 := by
    have := Nat.cast_lt (α := ℚ).2 h.significand
    norm_num [bound] at this ⊢
    exact this
  have most : (d.significand : ℚ) ≤ 2 ^ 53 - 1 := by
    have := Nat.le_sub_one_of_lt h.significand
    have := Nat.cast_le (α := ℚ).2 this
    norm_num [bound] at this ⊢
    exact this
  calc d.value ≤ (2 ^ 53 - 1) * 2 ^ greatestExponent :=
        mul_le_mul most (zpow_le_zpow_right₀ (by norm_num) h.exponent) (two_zpow_pos _).le
          (by norm_num)
    _ < limit := by
        rw [limit_cast, show greatestExponent = 1 + (970 : Nat) from rfl, zpow_add₀ (by norm_num),
          zpow_natCast, ← mul_assoc]
        exact mul_lt_mul_of_pos_right (by norm_num) (by positivity)

theorem exists_mul {a b : Double} (h : a.value * b.value < limit) :
    ∃ d, a.mul b = some d ∧ d.Finite := by
  have positive : 0 < a.ratio.2 * b.ratio.2 := Nat.mul_pos a.ratio_pos b.ratio_pos
  obtain ⟨d, rounds⟩ : ∃ d, a.mul b = some d := exists_ofRatio positive (by
    rwa [Nat.cast_mul, Nat.cast_mul, mul_div_mul_comm, ratio_div, ratio_div])
  exact ⟨d, rounds, finite_of_ofRatio positive rounds⟩

theorem exists_div {a b : Double} (dividend : a.value < limit) (divisor : 1 ≤ b.value) :
    ∃ d, a.div b = some d ∧ d.Finite := by
  have nonzero : 0 < b.ratio.1 := by
    rw [← ratio_div] at divisor
    by_contra none
    rw [Nat.eq_zero_of_not_pos none, Nat.cast_zero, zero_div] at divisor
    exact absurd divisor (by norm_num)
  have positive : 0 < a.ratio.2 * b.ratio.1 := Nat.mul_pos a.ratio_pos nonzero
  have nonneg : 0 ≤ a.value := mul_nonneg (Nat.cast_nonneg _) (two_zpow_pos _).le
  obtain ⟨d, rounds⟩ : ∃ d, a.div b = some d := exists_ofRatio positive (by
    rw [Nat.cast_mul, Nat.cast_mul, mul_div_mul_comm, ratio_div, ← inv_div (b.ratio.1 : ℚ),
      ratio_div]
    exact (mul_le_of_le_one_right nonneg (inv_le_one_of_one_le₀ divisor)).trans_lt dividend)
  exact ⟨d, rounds, finite_of_ofRatio positive rounds⟩

end RoundTrip.Double
