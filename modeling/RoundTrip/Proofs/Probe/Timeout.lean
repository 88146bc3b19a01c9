import RoundTrip.Proofs.Duration.Value
import RoundTrip.Proofs.Probe.Granted

namespace RoundTrip

open Duration (Amount Sign value total loss broken readFrom)

/-- The request carries a timeout that these amounts spell, without a minus. -/
def Event.Asks (e : Event) (amounts : List Amount) : Prop :=
  ∃ (text : String) (sign : Sign), e.extension? "timeout" = some text ∧ sign ≠ .minus ∧
    text.toList = Duration.spell sign amounts

variable {policy : DeadlinePolicy} {e e' : Event} {amounts short long : List Amount}

theorem Event.Asks.parse (asks : e.Asks amounts) :
    ∃ text, e.extension? "timeout" = some text ∧ Duration.parse text = readFrom 0 amounts := by
  obtain ⟨text, sign, given, unnegated, spells⟩ := asks
  refine ⟨text, given, ?_⟩
  have applied (n : Nat) : sign.apply n = n := by
    cases sign with
    | none | plus => rfl
    | minus => exact absurd rfl unnegated
  rw [Duration.parse, Duration.parseSigned_spell spells]
  cases readFrom 0 amounts with
  | error fault => rfl
  | ok n =>
    have nonneg : ¬ (n : Int) < 0 := (Int.natCast_nonneg n).not_gt
    simp only [Except.map, applied, if_neg nonneg, Int.toNat_natCast]

namespace DeadlinePolicy

theorem timeoutFor_within (policy : DeadlinePolicy) (asks : e.Asks amounts)
    (within : total amounts ≤ Duration.limit) :
    policy.timeoutFor e = .ok (min (total amounts) policy.maxTimeout) := by
  obtain ⟨text, given, read⟩ := asks.parse
  rw [Duration.readFrom_of_total (by rwa [Nat.zero_add]), Nat.zero_add] at read
  rw [timeoutFor, given]
  simp only [read]

theorem timeoutFor_beyond (policy : DeadlinePolicy) (asks : e.Asks amounts)
    (beyond : Duration.limit < total amounts) (contained : ∀ a ∈ amounts, ¬ a.Overflows) :
    policy.timeoutFor e = .ok policy.defaultTimeout := by
  obtain ⟨text, given, read⟩ := asks.parse
  rw [Duration.readFrom_of_contained contained (by rwa [Nat.zero_add]) (Nat.zero_le _)] at read
  rw [timeoutFor, given]
  simp only [read]

/-- What a request is granted that asks for no less than another one. -/
structure Grants (policy : DeadlinePolicy) (e e' : Event) (short long : List Amount) : Prop where
  /-- In the range of durations it is granted no less, but for what its text loses in counting. -/
  ordered : total short ≤ Duration.limit → total long ≤ Duration.limit → ∃ wait wait',
    policy.timeoutFor e = .ok wait ∧ policy.timeoutFor e' = .ok wait' ∧ wait ≤ wait' + loss long
  clamped : total long ≤ Duration.limit → (policy.maxTimeout + loss long : ℚ) ≤ value long →
    policy.timeoutFor e' = .ok policy.maxTimeout
  /-- Beyond the range it does not read as a duration. -/
  beyond : Duration.limit < total long → (∀ a ∈ long, ¬ a.Overflows) →
    policy.timeoutFor e' = .ok policy.defaultTimeout
  /-- Nothing is lost of a text with at most one amount that is not a whole number of nanoseconds,
  and else less than a nanosecond for each of them. -/
  lost : (∀ a ∈ long, ¬ a.Carries) → loss long ≤ broken long - 1

theorem min_le_min_add {a b c : Nat} (le : a ≤ b + c) (m : Nat) : min a m ≤ min b m + c := by
  omega

theorem longer_granted_no_less (policy : DeadlinePolicy) (asks : e.Asks short)
    (asks' : e'.Asks long) (le : value short ≤ value long) :
    Grants policy e e' short long := by
  constructor
  case ordered =>
    intro within within'
    exact ⟨_, _, policy.timeoutFor_within asks within, policy.timeoutFor_within asks' within',
      min_le_min_add (Duration.total_le_total le) _⟩
  case clamped =>
    intro within above
    have reaches : policy.maxTimeout + loss long ≤ ⌊value long⌋₊ :=
      Nat.le_floor (by exact_mod_cast above)
    rw [Duration.floor_value] at reaches
    rw [policy.timeoutFor_within asks' within,
      Nat.min_eq_right (Nat.le_of_add_le_add_right reaches)]
  case beyond => exact policy.timeoutFor_beyond asks'
  case lost => exact Duration.loss_le

def timedRequest (timeout : String) : Event :=
  (Event.bare "1" Kind.scheduler.name "caller").setExtension "timeout" timeout

def halfHour : Amount where
  whole := ['0']
  fraction := some ['5']
  unit := "h"
  scale := 3600 * 10 ^ 9
  isDigit := List.all_eq_true.1 rfl
  some_digit := by decide
  known := by decide

def threeQuarters : Amount where
  whole := []
  fraction := some "75".toList
  unit := "h"
  scale := 3600 * 10 ^ 9
  isDigit := List.all_eq_true.1 rfl
  some_digit := by decide
  known := by decide

theorem asks_halfHour : (timedRequest "0.5h").Asks [halfHour] :=
  ⟨"0.5h", .none, by decide +kernel, by decide, by decide +kernel⟩

theorem longer_granted_maximum :
    (timedRequest "0.5h").Asks [halfHour] ∧ (timedRequest "+.75h").Asks [threeQuarters] ∧
      value [halfHour] ≤ value [threeQuarters] ∧
        Grants {} (timedRequest "0.5h") (timedRequest "+.75h") [halfHour] [threeQuarters] ∧
          ({} : DeadlinePolicy).timeoutFor (timedRequest "+.75h") =
            .ok (30 * Duration.minute) := by
  have asks : (timedRequest "+.75h").Asks [threeQuarters] :=
    ⟨"+.75h", .plus, by decide +kernel, by decide, by decide +kernel⟩
  have le : value [halfHour] ≤ value [threeQuarters] := by decide +kernel
  have granted := longer_granted_no_less {} asks_halfHour asks le
  exact ⟨asks_halfHour, asks, le, granted, granted.clamped (by decide +kernel) (by decide +kernel)⟩

def centuries : Amount where
  whole := "3000000".toList
  fraction := none
  unit := "h"
  scale := 3600 * 10 ^ 9
  isDigit := List.all_eq_true.1 rfl
  some_digit := by decide
  known := by decide

/-- Beyond the range a request may be granted less than a shorter one. -/
theorem not_every_longer_granted_no_less :
    ¬ ∀ (policy : DeadlinePolicy) (e e' : Event) (short long : List Amount) (wait wait' : Duration),
      policy.defaultTimeout ≤ policy.maxTimeout → e.Asks short → e'.Asks long →
        value short ≤ value long → policy.timeoutFor e = .ok wait →
          policy.timeoutFor e' = .ok wait' → wait ≤ wait' := by
  intro every
  have asks : (timedRequest "3000000h").Asks [centuries] :=
    ⟨"3000000h", .none, by decide +kernel, by decide, by decide +kernel⟩
  have granted := every {} _ _ _ _ (30 * Duration.minute) (2 * Duration.minute) (by decide)
    asks_halfHour asks (by decide +kernel) (by decide +kernel) (by decide +kernel)
  exact absurd granted (by decide)

/-- A nanosecond is lost of two halves. -/
example : ({} : DeadlinePolicy).timeoutFor (timedRequest "1ns") = .ok 1 ∧
    ({} : DeadlinePolicy).timeoutFor (timedRequest "0.5ns0.5ns") = .ok 0 := by
  decide +kernel

end DeadlinePolicy

end RoundTrip
