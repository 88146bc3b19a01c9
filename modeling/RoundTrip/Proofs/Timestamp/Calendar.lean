import Mathlib.Tactic.Ring
import RoundTrip.Timestamp.Calendar

/-!
Every count of days is that of one date. A count is split into an era, a century of it, a cycle of
four years, a year and a day, counted from March, so that a leap day is the last of its year.
-/

namespace RoundTrip.Date

/-- A day of an era. The last year of a cycle has a leap day, but not in the last cycle of a
century, unless that century is the last. -/
structure EraDay where
  century : Int
  cycle : Int
  year : Int
  day : Int
  centuries : 0 ≤ century ∧ century ≤ 3
  cycles : 0 ≤ cycle ∧ cycle ≤ 24
  years : 0 ≤ year ∧ year ≤ 3
  days : 0 ≤ day ∧ day ≤ 365
  leap : day = 365 → year = 3 ∧ (cycle < 24 ∨ century = 3)

namespace EraDay

def index (x : EraDay) : Int := 36524 * x.century + 1461 * x.cycle + 365 * x.year + x.day

def yearOfEra (x : EraDay) : Int := 100 * x.century + 4 * x.cycle + x.year

theorem exists_index {d : Int} (low : 0 ≤ d) (high : d < eraDays) : ∃ x : EraDay, x.index = d := by
  have high : d < 146097 := high
  by_cases last : d = 146096
  · exact ⟨⟨3, 24, 3, 365, by omega, by omega, by omega, by omega, by omega⟩, last.symm⟩
  · have centuries : 0 ≤ d / 36524 ∧ d / 36524 ≤ 3 := by omega
    have cycles : 0 ≤ d % 36524 / 1461 ∧ d % 36524 / 1461 ≤ 24 := by omega
    by_cases leap : d % 36524 % 1461 = 1460
    · refine ⟨⟨d / 36524, d % 36524 / 1461, 3, 365, centuries, cycles, by omega, by omega,
        by omega⟩, ?_⟩
      simp only [index]
      omega
    · refine ⟨⟨d / 36524, d % 36524 / 1461, d % 36524 % 1461 / 365, d % 36524 % 1461 % 365,
        centuries, cycles, by omega, by omega, by omega⟩, ?_⟩
      simp only [index]
      omega

theorem yearOfEra_index (x : EraDay) :
    (x.index - x.index / 1460 + x.index / 36524 - x.index / 146096) / 365 = x.yearOfEra := by
  obtain ⟨c, k, y, r, ⟨c0, c3⟩, ⟨k0, k24⟩, ⟨y0, y3⟩, ⟨r0, r365⟩, leap⟩ := x
  simp only [index, yearOfEra]
  generalize same : 36524 * c + 1461 * k + 365 * y + r = d
  have century : d / 36524 - d / 146096 = c := by
    by_cases last : d = 146096
    · have top : c = 3 := by omega
      omega
    · have within : 36524 * c ≤ d ∧ d < 36524 * (c + 1) := by omega
      have quotient : d / 36524 = c := by omega
      have below : d / 146096 = 0 := by omega
      omega
  -- `late` counts the one more leap day that may have been taken for past at the end of a cycle.
  obtain ⟨late, cycle, early, notLate⟩ :
      ∃ late, d / 1460 = 25 * c + k + late ∧ 0 ≤ r - late ∧ r - late < 365 := by
    have split : d = 1460 * (25 * c + k) + (24 * c + k + 365 * y + r) := by omega
    rw [split, Int.mul_add_ediv_left _ _ (by decide)]
    generalize rest : 24 * c + k + 365 * y + r = t
    have small : 0 ≤ t ∧ t < 2920 := by omega
    by_cases next : t < 1460
    · have none : t / 1460 = 0 := Int.ediv_eq_zero_of_lt small.1 next
      exact ⟨0, by rw [none], by omega, by omega⟩
    · have one : t / 1460 = 1 := by
        clear rest split century
        omega
      exact ⟨1, by rw [one], by omega, by omega⟩
  have days : d - d / 1460 + d / 36524 - d / 146096 =
      365 * (100 * c + 4 * k + y) + (r - late) := by
    rw [cycle, Int.add_sub_assoc, century, ← same]
    ring
  rw [days, Int.mul_add_ediv_left _ _ (by decide), Int.ediv_eq_zero_of_lt early notLate,
    Int.add_zero]

theorem daysBeforeYear_yearOfEra (x : EraDay) : daysBeforeYear x.yearOfEra = x.index - x.day := by
  obtain ⟨c, k, y, r, ⟨c0, c3⟩, ⟨k0, k24⟩, ⟨y0, y3⟩, ⟨r0, r365⟩, leap⟩ := x
  simp only [index, yearOfEra, daysBeforeYear]
  omega

theorem yearOfEra_bounds (x : EraDay) : 0 ≤ x.yearOfEra ∧ x.yearOfEra < 400 := by
  obtain ⟨c, k, y, r, ⟨c0, c3⟩, ⟨k0, k24⟩, ⟨y0, y3⟩, ⟨r0, r365⟩, leap⟩ := x
  simp only [yearOfEra]
  omega

theorem isLeap_of_leap (x : EraDay) (leap : x.day = 365) (era : Int) :
    isLeap (x.yearOfEra + era * 400 + 1) = true := by
  obtain ⟨year, cycle⟩ := x.leap leap
  have cycles := x.cycles
  have centuries := x.centuries
  rw [isLeap, decide_eq_true_eq, yearOfEra]
  omega

theorem index_bounds (x : EraDay) : 0 ≤ x.index ∧ x.index < eraDays := by
  obtain ⟨c, k, y, r, ⟨c0, c3⟩, ⟨k0, k24⟩, ⟨y0, y3⟩, ⟨r0, r365⟩, leap⟩ := x
  simp only [index, eraDays]
  omega

end EraDay

def monthOfDay (day : Int) : Int := (5 * day + 2) / 153

theorem monthOfDay_spec {day : Int} (days : 0 ≤ day ∧ day ≤ 365) :
    (0 ≤ monthOfDay day ∧ monthOfDay day ≤ 11) ∧
      0 ≤ day - daysBeforeMonth (monthOfDay day) ∧
      day - daysBeforeMonth (monthOfDay day) ≤ 30 := by
  simp only [monthOfDay, daysBeforeMonth]
  omega

theorem monthOfDay_short {day : Int}
    (short : monthOfDay day = 1 ∨ monthOfDay day = 3 ∨ monthOfDay day = 6 ∨ monthOfDay day = 8) :
    day - daysBeforeMonth (monthOfDay day) ≤ 29 := by
  simp only [daysBeforeMonth]
  simp only [monthOfDay] at short ⊢
  omega

theorem monthOfDay_last {day : Int} (days : 0 ≤ day ∧ day ≤ 365) (last : monthOfDay day = 11) :
    day - daysBeforeMonth (monthOfDay day) ≤ 28 ∧
      (day - daysBeforeMonth (monthOfDay day) = 28 → day = 365) := by
  obtain ⟨-, high⟩ := days
  rw [last]
  simp only [daysBeforeMonth]
  omega

namespace EraDay

def count (x : EraDay) (era : Int) : Int := era * eraDays + x.index - epochShift

def date (x : EraDay) (era : Int) : Date :=
  let month := monthOfDay x.day
  { year := if month < 10 then x.yearOfEra + era * 400 else x.yearOfEra + era * 400 + 1
    month := (if month < 10 then month + 3 else month - 9).toNat
    day := (x.day - daysBeforeMonth month + 1).toNat }

theorem exists_count (days : Int) : ∃ (x : EraDay) (era : Int), x.count era = days := by
  have era : (days + epochShift) / eraDays * eraDays + (days + epochShift) % eraDays =
      days + epochShift := Int.ediv_mul_add_emod _ _
  obtain ⟨x, same⟩ := exists_index (Int.emod_nonneg (days + epochShift) (by decide : eraDays ≠ 0))
    (Int.emod_lt_of_pos (days + epochShift) (by decide))
  refine ⟨x, (days + epochShift) / eraDays, ?_⟩
  rw [count, same, era, Int.add_sub_cancel]

theorem ofDays_count (x : EraDay) (era : Int) : ofDays (x.count era) = x.date era := by
  obtain ⟨low, high⟩ := x.index_bounds
  have shifted : x.count era + epochShift = x.index + eraDays * era := by
    rw [count, Int.sub_add_cancel, Int.add_comm, Int.mul_comm]
  have dayOfEra : (x.index + eraDays * era) % eraDays = x.index := by
    rw [Int.add_mul_emod_self_left, Int.emod_eq_of_lt low high]
  have eraOf : (x.index + eraDays * era) / eraDays = era := by
    rw [Int.add_mul_ediv_left _ _ (by decide), Int.ediv_eq_zero_of_lt low high, Int.zero_add]
  have day : x.index - daysBeforeYear x.yearOfEra = x.day := by
    rw [daysBeforeYear_yearOfEra, Int.sub_sub_self]
  simp only [ofDays, shifted, dayOfEra, eraOf, yearOfEra_index, day]
  rfl

theorem toDays_date (x : EraDay) (era : Int) : (x.date era).toDays = x.count era := by
  obtain ⟨⟨low, high⟩, first, -⟩ := monthOfDay_spec x.days
  obtain ⟨year0, year400⟩ := x.yearOfEra_bounds
  have before := x.daysBeforeYear_yearOfEra
  have eraOf : (x.yearOfEra + era * 400) / 400 = era := by omega
  have yearOf : (x.yearOfEra + era * 400) % 400 = x.yearOfEra := by omega
  have day : ((x.day - daysBeforeMonth (monthOfDay x.day) + 1).toNat : Int) =
      x.day - daysBeforeMonth (monthOfDay x.day) + 1 := Int.toNat_of_nonneg (by omega)
  by_cases late : monthOfDay x.day < 10
  · have month : ((monthOfDay x.day + 3).toNat : Int) = monthOfDay x.day + 3 :=
      Int.toNat_of_nonneg (by omega)
    have past : ¬ (monthOfDay x.day + 3).toNat ≤ 2 := by omega
    simp only [toDays, date, late, if_true, past, if_false, month, day, eraOf, yearOf, before,
      Int.add_sub_cancel, count]
    omega
  · have month : ((monthOfDay x.day - 9).toNat : Int) = monthOfDay x.day - 9 :=
      Int.toNat_of_nonneg (by omega)
    have early : (monthOfDay x.day - 9).toNat ≤ 2 := by omega
    simp only [toDays, date, late, if_false, early, if_true, month, day, eraOf, yearOf, before,
      Int.add_sub_cancel, Int.sub_add_cancel, count]
    omega

theorem isValid_date (x : EraDay) (era : Int) : (x.date era).isValid = true := by
  obtain ⟨⟨low, high⟩, first, last⟩ := monthOfDay_spec x.days
  have short := @monthOfDay_short x.day
  have february := monthOfDay_last x.days
  rw [isValid, decide_eq_true_eq]
  by_cases late : monthOfDay x.day < 10
  · have march : ¬ (monthOfDay x.day + 3).toNat = 2 := by omega
    simp only [date, late, if_true, monthLength, march, if_false]
    refine ⟨by omega, by omega, by omega, ?_⟩
    split
    · have early := short (by omega)
      omega
    · omega
  · simp only [date, late, if_false, monthLength]
    refine ⟨by omega, by omega, by omega, ?_⟩
    split
    · obtain ⟨within, leap⟩ := february (by omega)
      by_cases leapDay : x.day = 365
      · rw [if_pos (x.isLeap_of_leap leapDay era)]
        omega
      · split <;> omega
    · split <;> omega

end EraDay

theorem toDays_ofDays (days : Int) : (ofDays days).toDays = days := by
  obtain ⟨x, era, rfl⟩ := EraDay.exists_count days
  rw [EraDay.ofDays_count, EraDay.toDays_date]

theorem isValid_ofDays (days : Int) : (ofDays days).isValid = true := by
  obtain ⟨x, era, rfl⟩ := EraDay.exists_count days
  rw [EraDay.ofDays_count, EraDay.isValid_date]

end RoundTrip.Date
