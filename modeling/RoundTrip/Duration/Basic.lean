namespace RoundTrip

/-- A length of time in nanoseconds. -/
abbrev Duration := Nat

namespace Duration

def microsecond : Duration := 1000
def millisecond : Duration := 1000000
def second : Duration := 1000000000
def minute : Duration := 60 * second
def hour : Duration := 60 * minute
def day : Duration := 24 * hour

def toMillis (d : Duration) : Nat := d / millisecond

def ceilMillis (d : Duration) : Nat := (d + (millisecond - 1)) / millisecond

def ofMillis (ms : Nat) : Duration := ms * millisecond

/-- The whole millisecond at which a timer that is set to `d` fires. -/
def tick (d : Duration) : Duration := ofMillis (ceilMillis d)

@[simp] theorem toMillis_ofMillis (ms : Nat) : toMillis (ofMillis ms) = ms := by
  simp [toMillis, ofMillis, millisecond]

@[simp] theorem ceilMillis_ofMillis (ms : Nat) : ceilMillis (ofMillis ms) = ms := by
  simp only [ceilMillis, ofMillis, millisecond]; omega

theorem ceilMillis_ofMillis_add (ms : Nat) (d : Duration) :
    ceilMillis (ofMillis ms + d) = ms + ceilMillis d := by
  simp only [ceilMillis, ofMillis, millisecond]; omega

@[simp] theorem tick_ofMillis (ms : Nat) : tick (ofMillis ms) = ofMillis ms := by
  rw [tick, ceilMillis_ofMillis]

theorem le_tick (d : Duration) : d ≤ d.tick := by
  have round (n : Nat) : n ≤ (n + 999999) / 1000000 * 1000000 := by omega
  exact round d

theorem tick_lt_add (d : Duration) : d.tick < d + millisecond := by
  have round (n : Nat) : (n + 999999) / 1000000 * 1000000 < n + 1000000 := by omega
  exact round d

@[simp] theorem tick_tick (d : Duration) : d.tick.tick = d.tick := tick_ofMillis _

theorem tick_mono {d e : Duration} (h : d ≤ e) : d.tick ≤ e.tick :=
  Nat.mul_le_mul_right _ (Nat.div_le_div_right (Nat.add_le_add_right h _))

theorem tick_lt_tick_add (d : Duration) {period : Duration} (h : millisecond ≤ period) :
    d.tick < (d + period).tick :=
  Nat.lt_of_lt_of_le d.tick_lt_add (Nat.le_trans (Nat.add_le_add_left h d) (le_tick _))

end Duration

end RoundTrip
