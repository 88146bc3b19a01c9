import RoundTrip.Duration.Basic

/-!
Liveness: how long ago a round trip last succeeded. Times are kept in whole milliseconds since the
monitor began, and its beginning counts as a success.
-/

namespace RoundTrip

structure Liveness where
  stale : Duration
  lastMillis : Nat := 0
  deriving DecidableEq, Repr

namespace Liveness

structure Status where
  healthy : Bool
  since : Duration
  stale : Duration
  deriving DecidableEq, Repr

def record (l : Liveness) (now : Duration) : Liveness :=
  { l with lastMillis := max l.lastMillis now.toMillis }

def since (l : Liveness) (now : Duration) : Duration :=
  Duration.ofMillis (now.toMillis - l.lastMillis)

def status (l : Liveness) (now : Duration) : Status :=
  ⟨l.since now ≤ l.stale, l.since now, l.stale⟩

end Liveness

end RoundTrip
