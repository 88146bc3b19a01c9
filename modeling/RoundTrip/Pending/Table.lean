import RoundTrip.Error
import RoundTrip.Duration.Basic

/-!
The table of outstanding round trips: at most one entry a key. Every way out of it removes the
entry, so each registration is settled by exactly one of them.

Instants are durations since the clock began.
-/

namespace RoundTrip.Pending

structure Entry where
  key : Key
  registration : Nat
  deadline : Duration
  deriving DecidableEq, Repr

structure Table where
  entries : List Entry := []
  closed : Bool := false
  next : Nat := 0
  deriving DecidableEq, Repr

namespace Table

def find? (t : Table) (key : Key) : Option Entry := t.entries.find? fun e => e.key = key

def contains (t : Table) (key : Key) : Bool := (t.find? key).isSome

def size (t : Table) : Nat := t.entries.length

/-- Why a registration at `now` is refused: a deadline that has passed counts before a closed table,
and that before a taken key. -/
def refusal? (t : Table) (now : Duration) (key : Key) (deadline : Duration) :
    Option ExecutionError :=
  if deadline ≤ now then some (.timeout key 0)
  else if t.closed then some .shuttingDown
  else if t.contains key then some (.collision key)
  else none

def insert (t : Table) (key : Key) (deadline : Duration) : Table :=
  { t with entries := t.entries ++ [⟨key, t.next, deadline⟩], next := t.next + 1 }

def remove (t : Table) (key : Key) : Table :=
  { t with entries := t.entries.filter fun e => e.key ≠ key }

def skip (t : Table) : Table := { t with next := t.next + 1 }

def removeOwn (t : Table) (key : Key) (registration : Nat) : Table :=
  { t with entries := t.entries.filter fun e => ¬(e.key = key ∧ e.registration = registration) }

def overdue (t : Table) (now : Duration) : List Entry := t.entries.filter fun e => e.deadline ≤ now

def sweep (t : Table) (now : Duration) : Table :=
  { t with entries := t.entries.filter fun e => now < e.deadline }

def close (t : Table) : Table := { t with entries := [], closed := true }

end Table

end RoundTrip.Pending
