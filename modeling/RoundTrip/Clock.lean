import RoundTrip.Duration.Basic

/-!
Virtual time. The clock of a machine counts nanoseconds. It stands still while the machine works
and moves only in `advance`, which stops at every instant at which the machine is to be woken. The
machine is woken just then, never later.
-/

namespace RoundTrip.Clock

/-- States `σ` with a clock, and what they put out, `ω`. -/
structure Machine (σ ω : Type) where
  now : σ → Duration
  setNow : Duration → σ → σ
  timers : σ → List Duration
  wake : σ → List ω × σ

namespace Machine

variable {σ ω : Type}

def runTo (m : Machine σ ω) (target : Duration) : Nat → σ → List ω × σ
  | 0, s => ([], m.setNow target s)
  | fuel + 1, s =>
    match (m.timers s).min? with
    | none => ([], m.setNow target s)
    | some t =>
      if target < t then ([], m.setNow target s)
      else
        let (out, s) := m.wake (m.setNow (max (m.now s) t) s)
        let (later, s) := m.runTo target fuel s
        (out ++ later, s)

/-- Moves the clock on. Timers that have fired are gone or set to a later instant, so there are no
more rounds than instants. -/
def advance (m : Machine σ ω) (d : Duration) (s : σ) : List ω × σ :=
  m.runTo (m.now s + d) (d + 1) s

end Machine

end RoundTrip.Clock
