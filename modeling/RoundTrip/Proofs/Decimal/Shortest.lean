import RoundTrip.Decimal.Shortest
import RoundTrip.Proofs.Decimal.Double

/-!
How large the shortest decimal of a number can be: it has at most eighteen digits and does not lie
above the reals that round to the number.
-/

namespace RoundTrip.Decimal

open Double (two_zpow_pos)

def Scientific.value (s : Scientific) : ℚ := s.digits * 10 ^ s.exponent

theorem ten_zpow_pos (e : Int) : (0 : ℚ) < 10 ^ e := zpow_pos (by norm_num) e

theorem power_pos (e : Int) : 0 < (power e).2 := by
  cases e with
  | ofNat e => exact Nat.one_pos
  | negSucc e => exact Nat.pow_pos (by decide)

theorem power_div (e : Int) : ((power e).1 : ℚ) / (power e).2 = 10 ^ e := by
  cases e with
  | ofNat e => simp [power]
  | negSucc e =>
    rw [zpow_negSucc]
    simp [power]

theorem lt_digitCount (n : Nat) : n < 10 ^ digitCount n :=
  (Nat.length_toDigits_le_iff (by decide) Nat.length_toDigits_pos).1 (Nat.le_refl _)

theorem le_of_digitCount {n : Nat} (positive : 0 < n) : 10 ^ (digitCount n - 1) ≤ n := by
  rcases Nat.eq_zero_or_pos (digitCount n - 1) with one | more
  · rw [one]
    exact positive
  · by_contra below
    have short := (Nat.length_toDigits_le_iff (by decide) more).2 (Nat.lt_of_not_le below)
    have some : 0 < digitCount n := Nat.length_toDigits_pos
    have same : (Nat.toDigits 10 n).length = digitCount n := rfl
    omega

theorem lt_magnitude {num den : Nat} (num_positive : 0 < num) (positive : 0 < den) :
    (num : ℚ) / den < 10 ^ (magnitude num den + 1) := by
  have den_positive : (0 : ℚ) < den := Nat.cast_pos.2 positive
  rw [div_lt_iff₀ den_positive]
  by_cases large : den ≤ num
  · have whole : num < 10 ^ digitCount (num / den) * den :=
      (Nat.div_lt_iff_lt_mul positive).1 (lt_digitCount _)
    rw [magnitude, if_pos large, Int.sub_add_cancel, zpow_natCast]
    exact_mod_cast whole
  · have some : 0 < den / num := Nat.div_pos (Nat.le_of_not_le large) num_positive
    obtain ⟨n, count⟩ : ∃ n, digitCount (den / num) = n + 1 :=
      ⟨_, (Nat.sub_add_cancel (show 0 < digitCount (den / num) from Nat.length_toDigits_pos)).symm⟩
    have below : num * 10 ^ n ≤ den := by
      have lead := le_of_digitCount some
      rw [count, Nat.add_sub_cancel] at lead
      exact (Nat.mul_le_mul_left num lead).trans (Nat.mul_div_le den num)
    have grid : (0 : ℚ) < 10 ^ n := by positivity
    have shifted : (10 : ℚ) ^ (-(n : Int)) = (10 ^ n)⁻¹ := by rw [zpow_neg, zpow_natCast]
    rw [magnitude, if_neg large]
    simp only [count, Nat.add_sub_cancel, Nat.pow_eq]
    split_ifs with near
    · have exponent : 1 - ((n + 1 : Nat) : Int) + 1 = 1 + -(n : Int) := by omega
      have below : (num : ℚ) * 10 ^ n ≤ den := by exact_mod_cast below
      rw [exponent, zpow_add₀ (by norm_num), shifted, zpow_one, mul_assoc, inv_mul_eq_div,
        mul_div_assoc', lt_div_iff₀ grid]
      linarith
    · have exponent : -((n + 1 : Nat) : Int) + 1 = -(n : Int) := by omega
      have below : (num : ℚ) * 10 ^ n < den := by exact_mod_cast Nat.lt_of_not_le near
      rw [exponent, shifted, inv_mul_eq_div, lt_div_iff₀ grid]
      exact below

theorem normalize_value (fuel : Nat) (s : Scientific) :
    (normalize fuel s).value = s.value ∧ (normalize fuel s).digits ≤ s.digits := by
  induction fuel generalizing s with
  | zero => exact ⟨rfl, Nat.le_refl _⟩
  | succ fuel ih =>
    rw [normalize]
    split
    next zero =>
      obtain ⟨same, le⟩ := ih ⟨s.digits / 10, s.exponent + 1⟩
      refine ⟨same.trans ?_, le.trans (Nat.div_le_self _ _)⟩
      have digits : ((s.digits / 10 : Nat) : ℚ) * 10 = s.digits := by
        exact_mod_cast Nat.div_mul_cancel (Nat.dvd_of_mod_eq_zero zero.2)
      rw [Scientific.value, Scientific.value, zpow_add₀ (by norm_num), zpow_one, ← digits]
      ring
    next => exact ⟨rfl, Nat.le_refl _⟩

theorem normalize_of_zero (fuel : Nat) {s : Scientific} (zero : s.digits = 0) :
    normalize fuel s = s := by
  cases fuel with
  | zero => rfl
  | succ fuel => exact if_neg fun h => h.1 zero

theorem Interval.holds_of_nearest? {i : Interval} {p : Nat × Nat} {n : Nat}
    (h : i.nearest? p = some n) : i.holds p n = true := by
  simp only [nearest?] at h
  split_ifs at h with down up
  · cases h
    exact (Bool.and_eq_true_iff.1 down).1
  · cases h
    exact up

theorem Interval.bounds_of_holds {i : Interval} {p : Nat × Nat} {n : Nat}
    (h : i.holds p n = true) :
    i.low * p.2 ≤ n * p.1 * i.den ∧ n * p.1 * i.den ≤ i.high * p.2 := by
  rw [holds] at h
  split at h
  · exact of_decide_eq_true h
  · obtain ⟨low, high⟩ := of_decide_eq_true h
    exact ⟨low.le, high.le⟩

theorem search_spec (i : Interval) (lead : Int) (fuel count : Nat) :
    search i lead fuel count = ⟨0, 0⟩ ∨
      ∃ k, k < count + fuel ∧ (search i lead fuel count).exponent = lead - k + 1 ∧
        i.holds (power (lead - k + 1)) (search i lead fuel count).digits = true := by
  induction fuel generalizing count with
  | zero => exact .inl rfl
  | succ fuel ih =>
    rw [search]
    cases near : i.nearest? (power (lead - count + 1)) with
    | some n => exact .inr ⟨count, by omega, rfl, Interval.holds_of_nearest? near⟩
    | none =>
      apply (ih (count + 1)).imp_right
      rintro ⟨k, tried, found⟩
      exact ⟨k, by omega, found⟩

/-- The interval lies within half a unit around the number. -/
structure Around (d : Double) (i : Interval) : Prop where
  den : 0 < i.den
  low : 0 < i.low
  value : (i.value : ℚ) / i.den = d.value
  high : (i.high : ℚ) / i.den = d.value + 2 ^ d.exponent / 2

theorem around_ofDouble {d : Double} (nonzero : 0 < d.significand) :
    Around d (Interval.ofDouble d) := by
  have grid := Double.ratio_div ⟨false, 1, d.exponent - 2⟩
  have den := Double.ratio_pos ⟨false, 1, d.exponent - 2⟩
  have quarter : (2 : ℚ) ^ (d.exponent - 2) = 2 ^ d.exponent / 4 := by
    rw [zpow_sub₀ (by norm_num)]
    norm_num
  rw [Double.value, Nat.cast_one, one_mul, quarter] at grid
  have num : 0 < (Double.ratio ⟨false, 1, d.exponent - 2⟩).1 := by
    by_contra none
    rw [Nat.eq_zero_of_not_pos none, Nat.cast_zero, zero_div] at grid
    have := two_zpow_pos d.exponent
    linarith
  refine ⟨den, ?_, ?_, ?_⟩
  · apply Nat.mul_pos _ num
    split_ifs <;> omega
  · simp only [Interval.ofDouble, Nat.cast_mul, mul_div_assoc, grid, Double.value]
    push_cast
    ring
  · simp only [Interval.ofDouble, Nat.cast_mul, mul_div_assoc, grid, Double.value]
    push_cast
    ring

def digitLimit : Nat := 15 * 10 ^ 16

structure Short (d : Double) (s : Scientific) : Prop where
  zero : s.digits = 0 → s.exponent = 0
  digits : s.digits ≤ digitLimit
  value : s.value ≤ d.value + 2 ^ d.exponent / 2

theorem Around.short {d : Double} (nonzero : 0 < d.significand) {i : Interval}
    (around : Around d i) {count : Nat} (tried : count ≤ maxDigits) {n : Nat}
    (held : i.holds (power (magnitude i.value i.den - count + 1)) n = true) :
    Short d ⟨n, magnitude i.value i.den - count + 1⟩ := by
  generalize lead : magnitude i.value i.den = m at held ⊢
  obtain ⟨low, high⟩ := Interval.bounds_of_holds held
  have den : (0 : ℚ) < i.den := Nat.cast_pos.2 around.den
  have unit := power_pos (m - count + 1)
  have value : (n : ℚ) * 10 ^ (m - count + 1) ≤ d.value + 2 ^ d.exponent / 2 := by
    have high : (n : ℚ) * (power (m - count + 1)).1 * i.den ≤
        i.high * (power (m - count + 1)).2 := by
      exact_mod_cast high
    rw [← around.high, ← power_div, mul_div_assoc', div_le_div_iff₀ (Nat.cast_pos.2 unit) den]
    exact high
  refine ⟨?_, ?_, value⟩
  · rintro rfl
    rw [Nat.zero_mul, Nat.zero_mul] at low
    exact absurd low (Nat.not_le_of_lt (Nat.mul_pos around.low unit))
  · have one : (1 : ℚ) ≤ d.significand := by exact_mod_cast nonzero
    have half : (2 : ℚ) ^ d.exponent ≤ d.value :=
      le_mul_of_one_le_left (two_zpow_pos _).le one
    have positive : 0 < i.value := by
      have := around.value
      by_contra none
      rw [Nat.eq_zero_of_not_pos none, Nat.cast_zero, zero_div] at this
      have := two_zpow_pos d.exponent
      linarith
    have below := lt_magnitude positive around.den
    rw [around.value, lead] at below
    have split : (10 : ℚ) ^ (m + 1) = 10 ^ count * 10 ^ (m - count + 1) := by
      rw [← zpow_natCast, ← zpow_add₀ (by norm_num)]
      congr 1
      omega
    have grid := ten_zpow_pos (m - count + 1)
    have digits : (n : ℚ) ≤ 3 / 2 * 10 ^ count := by
      apply le_of_mul_le_mul_right _ grid
      rw [split] at below
      linarith
    have most : (10 : ℚ) ^ count ≤ 10 ^ 17 := pow_le_pow_right₀ (by norm_num) tried
    have limit : (n : ℚ) ≤ (150000000000000000 : Nat) := by
      push_cast
      linarith
    exact Nat.cast_le.1 limit

theorem short_search {d : Double} (nonzero : 0 < d.significand) {i : Interval}
    (around : Around d i) :
    Short d (search i (magnitude i.value i.den) maxDigits 1) := by
  rcases search_spec i (magnitude i.value i.den) maxDigits 1 with none | ⟨count, tried, same, held⟩
  · rw [none]
    refine ⟨fun _ => rfl, Nat.zero_le _, ?_⟩
    have positive := two_zpow_pos d.exponent
    have nonneg : 0 ≤ d.value := mul_nonneg (Nat.cast_nonneg _) positive.le
    rw [Scientific.value, Nat.cast_zero, zero_mul]
    linarith
  · have short := around.short nonzero (show count ≤ maxDigits by omega) held
    rwa [← same] at short

theorem short_shortest {d : Double} (nonzero : 0 < d.significand) : Short d (shortest d) := by
  have short := short_search nonzero (around_ofDouble nonzero)
  simp only [shortest]
  generalize search _ _ _ _ = s at short ⊢
  obtain ⟨same, le⟩ := normalize_value maxDigits s
  refine ⟨?_, le.trans short.digits, same.le.trans short.value⟩
  intro zero
  have digits : s.digits = 0 := by
    rw [Scientific.value, zero, Nat.cast_zero, zero_mul] at same
    have := (mul_eq_zero.1 same.symm).resolve_right (ten_zpow_pos _).ne'
    exact_mod_cast this
  rw [normalize_of_zero _ digits]
  exact short.zero digits

end RoundTrip.Decimal
