import RoundTrip.Json.Number
import RoundTrip.Proofs.Decimal.Shortest

/-!
A shortest decimal is never too large to be read, although reading rounds three times: its digits,
the power of ten and their product.
-/

namespace RoundTrip.Json

open Double (limit)
open Decimal (digitLimit)

/-- The middle between the largest number and the one before it. Above it lies no shortest decimal
but that of the largest number. -/
def ceiling : Nat := (2 ^ 54 - 3) * 2 ^ 970

def cap (n : Nat) : Nat := min digitLimit (ceiling / 10 ^ n)

theorem powTen_checked : ∀ n ≤ maxPower,
    (Double.powTen n).any (fun p =>
        p.ratio.2 ≤ p.ratio.1 ∧ cap n * p.ratio.1 < limit * p.ratio.2) = true ∧
      ∃ k < 6, cap n / 2 ^ k ≤ Double.bound ∧ cap n / 2 ^ k * 2 ^ k = cap n := by
  decide +kernel

theorem powTen_spec {n : Nat} (fits : n ≤ maxPower) :
    ∃ p, Double.powTen n = some p ∧ 1 ≤ p.value ∧ cap n * p.value < limit := by
  obtain ⟨p, same, checked⟩ := (Option.any_eq_true _ _).1 (powTen_checked n fits).1
  obtain ⟨one, product⟩ := of_decide_eq_true checked
  have positive : (0 : ℚ) < p.ratio.2 := Nat.cast_pos.2 p.ratio_pos
  refine ⟨p, same, ?_, ?_⟩
  · rw [← p.ratio_div, one_le_div positive, Nat.cast_le]
    exact one
  · rw [← p.ratio_div, mul_div_assoc', div_lt_iff₀ positive]
    exact_mod_cast product

theorem exists_ofNat {n : Nat} (fits : n ≤ digitLimit) :
    ∃ d, Double.ofNat n = some d ∧ d.Finite := by
  have below : ((n : Nat) : ℚ) / (1 : Nat) < limit := by
    rw [Nat.cast_one, div_one, Nat.cast_lt]
    exact fits.trans_lt (by decide +kernel : digitLimit < limit)
  obtain ⟨d, rounds⟩ := Double.exists_ofRatio Nat.one_pos below
  exact ⟨d, rounds, Double.finite_of_ofRatio Nat.one_pos rounds⟩

theorem ofNat_value_le {n : Nat} {d : Double} (rounds : Double.ofNat n = some d) {m k : Nat}
    (fits : m ≤ Double.bound) (le : n ≤ m * 2 ^ k) : d.value ≤ (m * 2 ^ k : Nat) := by
  have least : Double.leastExponent ≤ (k : Int) := by
    have : Double.leastExponent ≤ 0 := by decide
    omega
  have := Double.value_le Nat.one_pos rounds fits least (by
    rw [Nat.cast_one, div_one, zpow_natCast]
    exact_mod_cast le)
  rw [zpow_natCast] at this
  exact_mod_cast this

theorem exists_multiply {significand n : Nat} (digits : significand ≤ digitLimit)
    (scaled : significand * 10 ^ n ≤ ceiling) {s : Double}
    (rounds : Double.ofNat significand = some s) :
    ∃ d, multiplyByPower s n = some d ∧ d.Finite := by
  rw [multiplyByPower]
  split_ifs with fits zero
  · obtain ⟨p, power, -, product⟩ := powTen_spec fits
    obtain ⟨-, k, -, bounded, exact⟩ := powTen_checked n fits
    have le_cap : significand ≤ cap n :=
      le_min digits ((Nat.le_div_iff_mul_le (Nat.pow_pos (by decide))).2 scaled)
    have value := ofNat_value_le rounds bounded (le_cap.trans exact.ge)
    rw [exact] at value
    have nonneg : 0 ≤ p.value := mul_nonneg (Nat.cast_nonneg _) (Double.two_zpow_pos _).le
    obtain ⟨d, same, finite⟩ := Double.exists_mul (a := s) (b := p)
      ((mul_le_mul_of_nonneg_right value nonneg).trans_lt product)
    exact ⟨d, by rw [power]; exact same, finite⟩
  · obtain ⟨d, same, finite⟩ := exists_ofNat digits
    cases rounds.symm.trans same
    exact ⟨s, rfl, finite⟩
  · -- the power alone is above the ceiling
    exfalso
    have positive : 0 < significand := by
      by_contra none
      rw [Nat.eq_zero_of_not_pos none] at rounds
      cases rounds
      exact zero rfl
    have top : ceiling < 10 ^ (maxPower + 1) := by decide +kernel
    have power : 10 ^ (maxPower + 1) ≤ 10 ^ n := Nat.pow_le_pow_right (by decide) (by omega)
    have scaled := (Nat.le_mul_of_pos_left (10 ^ n) positive).trans scaled
    omega

theorem exists_divide (fuel : Nat) {d : Double} (finite : d.Finite) {n : Nat} (enough : n ≤ fuel) :
    ∃ r, divideByPower fuel d n = some r ∧ r.Finite := by
  induction fuel generalizing d n with
  | zero => exact ⟨d, rfl, finite⟩
  | succ fuel ih =>
    rw [divideByPower]
    split_ifs with last zero
    · obtain ⟨p, power, one, -⟩ := powTen_spec last
      rw [power]
      exact Double.exists_div finite.value_lt one
    · exact ⟨d, rfl, finite⟩
    · obtain ⟨p, power, one, -⟩ := powTen_spec (Nat.le_refl maxPower)
      obtain ⟨q, quotient, finite⟩ := Double.exists_div finite.value_lt one
      rw [power]
      simp only [Option.bind_some, quotient]
      apply ih finite
      have : 0 < maxPower := by decide
      omega

theorem exists_floatOf {significand : Nat} {exponent : Int} (digits : significand ≤ digitLimit)
    (scaled : ∀ n : Nat, exponent = n → significand * 10 ^ n ≤ ceiling) :
    ∃ d, (∀ negative, floatOf negative significand exponent = .ok (.float (signed negative d))) ∧
      d.Finite := by
  obtain ⟨s, rounds, finite⟩ := exists_ofNat digits
  have scales : ∃ d, scaleByPower s exponent = some d ∧ d.Finite := by
    cases exponent with
    | ofNat n => exact exists_multiply digits (scaled n rfl) rounds
    | negSucc n => exact exists_divide (n + 1) finite (Nat.le_refl _)
  obtain ⟨d, same, finite⟩ := scales
  refine ⟨d, ?_, finite⟩
  intro negative
  rw [floatOf, rounds, Option.bind_some, same]

end RoundTrip.Json
