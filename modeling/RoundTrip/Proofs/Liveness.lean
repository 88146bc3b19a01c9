import RoundTrip.Liveness

/-!
The age that liveness reports, and the time that has really passed since the last success. Both ends
of that time are cut to whole milliseconds on their own, so the two differ by less than one.
-/

namespace RoundTrip.Liveness

/-- What can happen while liveness is watched: a success, or a number of microseconds that pass. -/
inductive Turn
  | record
  | advance (micros : Nat)
  deriving DecidableEq, Repr

/-- Liveness in the course of time. It does not know the exact instant of the last success, which is
kept beside it. -/
structure Watch where
  liveness : Liveness
  now : Duration
  last : Duration
  deriving DecidableEq, Repr

namespace Watch

def start (stale : Duration) : Watch := ⟨{ stale }, 0, 0⟩

def turn (w : Watch) : Turn → Watch
  | .record => { w with liveness := w.liveness.record w.now, last := w.now }
  | .advance micros => { w with now := w.now + micros * Duration.microsecond }

def run (w : Watch) : List Turn → Watch
  | [] => w
  | t :: rest => (w.turn t).run rest

/-- The time since the last success, or since the beginning if there was none. -/
def age (w : Watch) : Duration := w.now - w.last

def status (w : Watch) : Status := w.liveness.status w.now

structure Kept (stale : Duration) (w : Watch) : Prop where
  past : w.last ≤ w.now
  liveness : w.liveness = ⟨stale, w.last.toMillis⟩

variable {stale : Duration} {w : Watch}

theorem toMillis_mono {a b : Duration} (h : a ≤ b) : a.toMillis ≤ b.toMillis :=
  Nat.div_le_div_right h

theorem Kept.start (stale : Duration) : Kept stale (start stale) := by
  have zero : Duration.toMillis 0 = 0 := Nat.zero_div _
  exact ⟨Nat.le_refl 0, congrArg (Liveness.mk stale) zero.symm⟩

theorem Kept.turn (h : Kept stale w) (t : Turn) : Kept stale (w.turn t) := by
  cases t with
  | record =>
    refine ⟨Nat.le_refl _, ?_⟩
    have later : max w.last.toMillis w.now.toMillis = w.now.toMillis :=
      Nat.max_eq_right (toMillis_mono h.past)
    rw [Watch.turn, h.liveness, Liveness.record, later]
  | advance micros => exact ⟨Nat.le_add_right_of_le h.past, h.liveness⟩

theorem Kept.run (h : Kept stale w) (ts : List Turn) : Kept stale (w.run ts) := by
  induction ts generalizing w with
  | nil => exact h
  | cons t rest ih => exact ih (h.turn t)

theorem Kept.since (h : Kept stale w) :
    w.status.since = Duration.ofMillis (w.now.toMillis - w.last.toMillis) := by
  rw [status, Liveness.status, h.liveness]
  rfl

theorem Kept.healthy_iff (h : Kept stale w) :
    w.status.healthy = true ↔ w.status.since ≤ stale := by
  rw [status, Liveness.status, h.liveness]
  exact decide_eq_true_iff

theorem run_unrecorded {ts : List Turn} (none_recorded : .record ∉ ts) (w : Watch) :
    w.now ≤ (w.run ts).now ∧ (w.run ts).last = w.last := by
  induction ts generalizing w with
  | nil => exact ⟨Nat.le_refl _, rfl⟩
  | cons t rest ih =>
    obtain ⟨other, others⟩ := not_or.1 (mt List.mem_cons.2 none_recorded)
    obtain ⟨later, kept⟩ := ih others (w.turn t)
    cases t with
    | record => exact absurd rfl other
    | advance micros => exact ⟨Nat.le_trans (Nat.le_add_right _ _) later, kept⟩

theorem floors_within {a b : Duration} (h : a ≤ b) :
    Duration.ofMillis (b.toMillis - a.toMillis) < b - a + Duration.millisecond ∧
      b - a < Duration.ofMillis (b.toMillis - a.toMillis) + Duration.millisecond := by
  have numbers (m n : Nat) (h : m ≤ n) :
      (n / 1000000 - m / 1000000) * 1000000 < n - m + 1000000 ∧
        n - m < (n / 1000000 - m / 1000000) * 1000000 + 1000000 := by
    omega
  exact numbers a b h

theorem floors_whole {a b : Duration} (ha : Duration.millisecond ∣ a)
    (hb : Duration.millisecond ∣ b) :
    Duration.ofMillis (b.toMillis - a.toMillis) = b - a := by
  have floor {d : Duration} (whole : Duration.millisecond ∣ d) :
      Duration.ofMillis d.toMillis = d :=
    Nat.div_mul_cancel whole
  calc
    Duration.ofMillis (b.toMillis - a.toMillis)
      = Duration.ofMillis b.toMillis - Duration.ofMillis a.toMillis := Nat.sub_mul _ _ _
    _ = b - a := by rw [floor ha, floor hb]

theorem le_iff_of_apart {reported age limit margin : Nat} (below : reported < age + margin)
    (above : age < reported + margin) (apart : age + margin ≤ limit ∨ limit + margin ≤ age) :
    reported ≤ limit ↔ age ≤ limit := by
  omega

/-- What is reported is true to the millisecond. -/
structure Truthful (stale : Duration) (w : Watch) : Prop where
  within : w.status.since < w.age + Duration.millisecond ∧
    w.age < w.status.since + Duration.millisecond
  /-- The last success is never counted later than the present, so no age is cut off at zero. -/
  ahead : w.last ≤ w.now ∧ w.liveness.lastMillis ≤ w.now.toMillis
  aging : ∀ ts, .record ∉ ts → w.status.since ≤ (w.run ts).status.since
  fresh : (w.turn .record).status.since = 0
  stale_told : w.status.stale = stale
  apart : w.age + Duration.millisecond ≤ stale ∨ stale + Duration.millisecond ≤ w.age →
    (w.status.healthy = true ↔ w.age ≤ stale)
  whole : Duration.millisecond ∣ w.last → Duration.millisecond ∣ w.now →
    (w.status.healthy = true ↔ w.age ≤ stale)

theorem Kept.truthful (h : Kept stale w) : Truthful stale w := by
  have within : w.status.since < w.age + Duration.millisecond ∧
      w.age < w.status.since + Duration.millisecond := by
    rw [h.since]
    exact floors_within h.past
  constructor
  case within => exact within
  case ahead =>
    refine ⟨h.past, ?_⟩
    rw [h.liveness]
    exact toMillis_mono h.past
  case aging =>
    intro ts none_recorded
    obtain ⟨later, kept⟩ := run_unrecorded none_recorded w
    rw [h.since, (h.run ts).since, kept]
    exact Nat.mul_le_mul_right _ (Nat.sub_le_sub_right (toMillis_mono later) _)
  case fresh =>
    rw [(h.turn .record).since]
    exact congrArg Duration.ofMillis (Nat.sub_self _)
  case stale_told => rw [status, Liveness.status, h.liveness]
  case apart =>
    intro apart
    rw [h.healthy_iff]
    exact le_iff_of_apart within.1 within.2 apart
  case whole =>
    intro last now
    rw [h.healthy_iff, h.since, floors_whole last now, age]

theorem age_true_to_millisecond (stale : Duration) (ts : List Turn) :
    Truthful stale ((start stale).run ts) :=
  ((Kept.start stale).run ts).truthful

/-- A success at 0.9 ms counts for 0 ms: at 2.1 ms an age of 1.2 ms is reported as 2 ms. -/
example : ((start 1500000).run [.advance 900, .record, .advance 1200]).status =
    ⟨false, 2 * Duration.millisecond, 1500000⟩ := by
  decide

end Watch

end RoundTrip.Liveness
