import RoundTrip.Proofs.Duration.Fraction

/-!
How long the time is that a text spells, to the last of its digits, and how much of it is counted.
Every amount is counted in whole nanoseconds on its own. A text with several amounts that are none
may so count for less than its value rounded down, by less than a nanosecond for each of them.
-/

namespace RoundTrip.Duration

open Text (decimal)

namespace Amount

/-- The nanoseconds that an amount stands for, with their fraction. -/
def value (a : Amount) : ℚ := (decimal a.whole + portion a.digits) * a.scale

variable (a : Amount)

theorem portion_mul_nonneg : 0 ≤ portion a.digits * a.scale :=
  mul_nonneg (portion_nonneg _) (Nat.cast_nonneg _)

theorem value_eq : a.value = portion a.digits * a.scale + a.wholeNanos := by
  rw [value, wholeNanos, add_mul, add_comm]
  push_cast
  rfl

theorem value_nonneg : 0 ≤ a.value := by
  rw [value_eq]
  exact add_nonneg a.portion_mul_nonneg (Nat.cast_nonneg _)

theorem floor_value : ⌊a.value⌋₊ = a.exactNanos := by
  rw [value_eq, Nat.floor_add_natCast a.portion_mul_nonneg, exactNanos, Nat.add_comm]

theorem nanos_le_value : (a.nanos : ℚ) ≤ a.value := by
  have counted : a.nanos ≤ a.exactNanos := by
    rw [a.exactNanos_eq]
    exact Nat.le_add_right _ _
  rw [← floor_value] at counted
  exact (Nat.cast_le.2 counted).trans (Nat.floor_le a.value_nonneg)

variable {a}

theorem value_lt (stays : ¬ a.Carries) : a.value < a.nanos + 1 := by
  have exact := a.exactNanos_eq
  rw [if_neg stays, Nat.add_zero] at exact
  rw [← exact, ← floor_value]
  exact Nat.lt_floor_add_one _

end Amount

def value (amounts : List Amount) : ℚ := (amounts.map Amount.value).sum

/-- Whole nanoseconds of the value that are not counted. -/
def loss (amounts : List Amount) : Nat := ⌊value amounts⌋₊ - total amounts

/-- How many amounts are counted for less than their value. -/
def broken (amounts : List Amount) : Nat := amounts.countP fun a => a.value ≠ a.nanos

theorem value_cons (a : Amount) (rest : List Amount) :
    value (a :: rest) = a.value + value rest :=
  List.sum_cons

theorem total_le_value (amounts : List Amount) : (total amounts : ℚ) ≤ value amounts := by
  induction amounts with
  | nil => exact le_rfl
  | cons a rest ih =>
    rw [total_cons, value_cons, Nat.cast_add]
    exact add_le_add a.nanos_le_value ih

theorem floor_value (amounts : List Amount) :
    ⌊value amounts⌋₊ = total amounts + loss amounts := by
  have counted := Nat.le_floor (total_le_value amounts)
  rw [loss]
  omega

theorem value_lt_of_broken {amounts : List Amount} (stay : ∀ a ∈ amounts, ¬ a.Carries) :
    broken amounts = 0 ∧ value amounts = total amounts ∨
      value amounts < total amounts + broken amounts := by
  induction amounts with
  | nil => exact .inl ⟨rfl, rfl⟩
  | cons a rest ih =>
    rw [List.forall_mem_cons] at stay
    have below := Amount.value_lt stay.1
    rw [value_cons, total_cons]
    by_cases full : a.value = a.nanos
    · have same : broken (a :: rest) = broken rest := List.countP_cons_of_neg (by simpa using full)
      rw [same, full]
      push_cast
      rcases ih stay.2 with ⟨none, counted⟩ | below
      · exact .inl ⟨none, by rw [counted]⟩
      · right
        linarith
    · have more : broken (a :: rest) = broken rest + 1 :=
        List.countP_cons_of_pos (by simpa using full)
      right
      rw [more]
      push_cast
      rcases ih stay.2 with ⟨none, counted⟩ | below
      · rw [none, counted, Nat.cast_zero]
        linarith
      · linarith

theorem loss_le {amounts : List Amount} (stay : ∀ a ∈ amounts, ¬ a.Carries) :
    loss amounts ≤ broken amounts - 1 := by
  rcases value_lt_of_broken stay with ⟨-, counted⟩ | below
  · rw [loss, counted, Nat.floor_natCast, Nat.sub_self]
    exact Nat.zero_le _
  · have nonneg : 0 ≤ value amounts := (Nat.cast_nonneg _).trans (total_le_value amounts)
    have floor : ⌊value amounts⌋₊ < total amounts + broken amounts := by
      rw [Nat.floor_lt nonneg]
      exact_mod_cast below
    rw [floor_value] at floor
    omega

theorem total_le_total {short long : List Amount} (le : value short ≤ value long) :
    total short ≤ total long + loss long := by
  rw [← floor_value]
  exact Nat.le_floor ((total_le_value short).trans le)

end RoundTrip.Duration
