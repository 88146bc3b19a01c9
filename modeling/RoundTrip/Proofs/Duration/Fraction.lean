import Mathlib.Tactic.FieldSimp
import RoundTrip.Proofs.Duration.Reading

/-!
What the fraction digits are worth that are not read. In a unit that is a power of ten they never
complete a nanosecond. A minute and an hour have a factor three, so that the digits that are read
may end just below a whole nanosecond, and then one is missing.
-/

namespace RoundTrip.Duration

open Text (decimal)

theorem portion_nonneg (digits : List Char) : 0 ≤ portion digits :=
  div_nonneg (Nat.cast_nonneg _) (pow_nonneg (by norm_num) _)

theorem portion_lt_one {digits : List Char} (isDigit : ∀ c ∈ digits, c.isDigit = true) :
    portion digits < 1 := by
  rw [portion, div_lt_one (pow_pos (by norm_num) _)]
  exact_mod_cast Text.decimal_lt isDigit

theorem portion_append (xs ys : List Char) :
    portion (xs ++ ys) = portion xs + portion ys / 10 ^ xs.length := by
  rw [portion, portion, portion, Text.decimal_append, List.length_append, pow_add]
  push_cast
  field_simp

theorem floor_add {x y : ℚ} (nonneg : 0 ≤ x) (positive : 0 ≤ y) (small : y < 1) :
    ⌊x + y⌋₊ = ⌊x⌋₊ + if 1 ≤ Int.fract x + y then 1 else 0 := by
  have parts : (⌊x⌋₊ : ℚ) + Int.fract x = x := by
    rw [natCast_floor_eq_intCast_floor nonneg, Int.floor_add_fract]
  have low := Int.fract_nonneg x
  have high := Int.fract_lt_one x
  rw [Nat.floor_eq_iff (add_nonneg nonneg positive)]
  split_ifs with carries
  all_goals
    push_cast
    constructor <;> linarith

namespace Amount

def dropped (a : Amount) : List Char := a.digits.drop fractionDigits

/-- The nanoseconds of the amount by all of its digits. -/
def exactNanos (a : Amount) : Nat := a.wholeNanos + ⌊portion a.digits * a.scale⌋₊

def remainder (a : Amount) : ℚ := portion a.dropped * a.scale / 10 ^ fractionDigits

/-- The digits that are not read complete a nanosecond. -/
def Carries (a : Amount) : Prop := 1 ≤ Int.fract (portion a.cut * a.scale) + a.remainder

instance (a : Amount) : Decidable a.Carries := inferInstanceAs (Decidable (_ ≤ _))

variable (a : Amount)

theorem dropped_isDigit : ∀ c ∈ a.dropped, c.isDigit = true :=
  fun c hc => a.digits_isDigit c (List.mem_of_mem_drop hc)

theorem scale_lt : a.scale < 10 ^ fractionDigits := by
  obtain ⟨-, -, -, scale⟩ := a.unit_spec
  exact scale.trans_lt (by decide)

theorem cut_length_of_dropped (h : a.dropped ≠ []) : a.cut.length = fractionDigits := by
  have longer := List.length_pos_iff.2 h
  rw [dropped, List.length_drop] at longer
  rw [cut, List.length_take]
  omega

theorem portion_digits : portion a.digits * a.scale = portion a.cut * a.scale + a.remainder := by
  by_cases all : a.dropped = []
  · have same : a.digits = a.cut := by
      rw [cut, ← List.append_nil (a.digits.take _), ← all]
      exact (List.take_append_drop _ _).symm
    rw [remainder, all, same]
    simp [portion, decimal]
  · have split : a.digits = a.cut ++ a.dropped := (List.take_append_drop _ _).symm
    rw [split, portion_append, a.cut_length_of_dropped all, remainder]
    ring

theorem remainder_nonneg : 0 ≤ a.remainder :=
  div_nonneg (mul_nonneg (portion_nonneg _) (Nat.cast_nonneg _)) (pow_nonneg (by norm_num) _)

theorem remainder_lt_one : a.remainder < 1 := by
  have scale : (a.scale : ℚ) < 10 ^ fractionDigits := by exact_mod_cast a.scale_lt
  rw [remainder, div_lt_one (pow_pos (by norm_num) _)]
  calc portion a.dropped * a.scale
      ≤ 1 * a.scale :=
        mul_le_mul_of_nonneg_right (portion_lt_one a.dropped_isDigit).le (Nat.cast_nonneg _)
    _ < 10 ^ fractionDigits := by rwa [one_mul]

theorem exactNanos_eq : a.exactNanos = a.nanos + if a.Carries then 1 else 0 := by
  have nonneg : 0 ≤ portion a.cut * a.scale := mul_nonneg (portion_nonneg _) (Nat.cast_nonneg _)
  rw [exactNanos, portion_digits, floor_add nonneg a.remainder_nonneg a.remainder_lt_one, nanos,
    Nat.add_assoc]
  rfl

variable {a}

theorem dropped_of_carries (carries : a.Carries) : a.dropped ≠ [] := by
  intro all
  have none : a.remainder = 0 := by
    rw [remainder, all]
    simp [portion, decimal]
  rw [Carries, none, add_zero] at carries
  exact absurd (Int.fract_lt_one _) carries.not_gt

theorem not_carries_of_dvd (divides : a.scale ∣ 10 ^ fractionDigits) : ¬ a.Carries := by
  intro carries
  obtain ⟨m, power⟩ := divides
  have positive : 0 < m := by
    apply Nat.pos_of_ne_zero
    rintro rfl
    cases power
  have unit : (a.scale : ℚ) / 10 ^ fractionDigits = 1 / m := by
    have scale : (a.scale : ℚ) ≠ 0 := Nat.cast_ne_zero.2 a.unit_spec.2.2.1.ne'
    have product : (10 : ℚ) ^ fractionDigits = a.scale * m := by exact_mod_cast power
    rw [product, div_mul_cancel_left₀ scale, one_div]
  have read : portion a.cut * a.scale = (decimal a.cut : ℚ) / m := by
    rw [portion, a.cut_length_of_dropped (dropped_of_carries carries), div_mul_eq_mul_div,
      mul_div_assoc, unit, mul_one_div]
  have rest : a.remainder = portion a.dropped / m := by
    rw [remainder, mul_div_assoc, unit, mul_one_div]
  have whole : ((decimal a.cut % m : Nat) : ℚ) + 1 ≤ m := by
    exact_mod_cast (Nat.mod_lt _ positive : decimal a.cut % m < m)
  rw [Carries, read, rest, Int.fract_div_natCast_eq_div_natCast_mod, ← add_div,
    one_le_div (Nat.cast_pos.2 positive)] at carries
  linarith [portion_lt_one a.dropped_isDigit]

theorem unit_of_carries (carries : a.Carries) : a.unit = "m" ∨ a.unit = "h" := by
  have divides : ∀ u ∈ units, ¬ (u.1 = "m" ∨ u.1 = "h") → u.2 ∣ 10 ^ fractionDigits := by decide
  by_contra other
  exact not_carries_of_dvd (divides _ a.known other) carries

theorem nanos_eq_exactNanos_iff : a.nanos = a.exactNanos ↔ ¬ a.Carries := by
  rw [a.exactNanos_eq]
  split_ifs with carries
  · exact iff_of_false (Nat.lt_succ_self _).ne (not_not.2 carries)
  · exact iff_of_true rfl carries

end Amount

theorem Sign.apply_inj {sign : Sign} {m n : Nat} : sign.apply m = sign.apply n ↔ m = n := by
  cases sign <;> simp [Sign.apply]

variable {text : String} {sign : Sign} {a : Amount} {z : Int}

/-- A single amount that is read is read exactly unless its last digits complete a nanosecond, which
takes minutes or hours and more digits than are read. Then one nanosecond is missing. -/
theorem amount_exact_iff (spells : text.toList = spell sign [a])
    (read : parseSigned text = .ok z) :
    (z = sign.apply a.exactNanos ↔ ¬ a.Carries) ∧
    (a.Carries → (a.unit = "m" ∨ a.unit = "h") ∧ a.dropped ≠ []) ∧
    (a.Carries → z = sign.apply (a.exactNanos - 1)) := by
  have single : total [a] = a.nanos := List.sum_singleton
  rw [parseSigned_spell spells, map_eq_ok] at read
  obtain ⟨n, read, rfl⟩ := read
  obtain ⟨-, rfl⟩ := (readFrom_ok_iff (Nat.zero_le _)).1 read
  rw [single, Nat.zero_add, Sign.apply_inj]
  refine ⟨Amount.nanos_eq_exactNanos_iff, ?_, ?_⟩
  · intro carries
    exact ⟨Amount.unit_of_carries carries, Amount.dropped_of_carries carries⟩
  · intro carries
    rw [a.exactNanos_eq, if_pos carries]
    rfl

def almostTwo : Amount where
  whole := ['1']
  fraction := some (List.replicate 25 '9')
  unit := "s"
  scale := 10 ^ 9
  isDigit := List.all_eq_true.1 rfl
  some_digit := by decide
  known := by decide

theorem amount_exact_almostTwo :
    "-1.9999999999999999999999999s".toList = spell .minus [almostTwo] ∧
      parseSigned "-1.9999999999999999999999999s" = .ok (-1999999999) ∧
        -1999999999 = Sign.minus.apply almostTwo.exactNanos := by
  have spells : "-1.9999999999999999999999999s".toList = spell .minus [almostTwo] := by
    decide +kernel
  have read : parseSigned "-1.9999999999999999999999999s" = .ok (-1999999999) := by
    decide +kernel
  obtain ⟨exact, carries, -⟩ := amount_exact_iff spells read
  exact ⟨spells, read, exact.2 fun carried => absurd (carries carried).1 (by decide)⟩

/-- A nanosecond in minutes, rounded up in the last of its digits. -/
def overNano : Amount where
  whole := ['0']
  fraction := some "00000000001666666666666666667".toList
  unit := "m"
  scale := 60 * 10 ^ 9
  isDigit := List.all_eq_true.1 rfl
  some_digit := by decide
  known := by decide

/-- Not every single amount is read by all of its digits: in minutes a nanosecond may be missing. -/
theorem not_every_amount_exact :
    ¬ ∀ (text : String) (sign : Sign) (a : Amount) (z : Int), text.toList = spell sign [a] →
      parseSigned text = .ok z → z = sign.apply a.exactNanos := by
  intro every
  have spells : "0.00000000001666666666666666667m".toList = spell .none [overNano] := by
    decide +kernel
  have read : parseSigned "0.00000000001666666666666666667m" = .ok 0 := by decide +kernel
  have same := every _ _ _ _ spells read
  rw [Amount.exactNanos, floor_portion] at same
  exact absurd same (by decide +kernel)

end RoundTrip.Duration
