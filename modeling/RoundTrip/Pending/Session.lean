import RoundTrip.Clock
import RoundTrip.Pending.Table

/-!
A pending table with those who wait on it, a sweeper and a clock.

Every registration has a waiter with a slot. Whoever removes the entry says so in the slot: with a
value when the delivery came or the table closed, without one otherwise. A wait ends when its slot
says something, or else when the timer set to its deadline fires; it then removes its own entry.

Instants are compared as they are, but every timer, the sweeper's too, fires at a whole millisecond.
-/

namespace RoundTrip.Pending

inductive Resolution
  | delivered
  | cancelled
  deriving DecidableEq, Repr

inductive Slot
  /-- The entry is still in the table. -/
  | empty
  | filled (r : Resolution)
  /-- The entry was removed without a value. -/
  | dropped
  deriving DecidableEq, Repr

inductive Outcome
  | delivered
  | expired
  | cancelled
  deriving DecidableEq, Repr

def Resolution.outcome : Resolution → Outcome
  | .delivered => .delivered
  | .cancelled => .cancelled

def Slot.outcome? : Slot → Option Outcome
  | .empty => none
  | .filled r => some r.outcome
  | .dropped => some .expired

structure Waiter where
  name : String
  key : Key
  registration : Nat
  deadline : Duration
  slot : Slot := .empty
  /-- The wait has begun; until then the deadline does not matter to the waiter. -/
  waiting : Bool := false
  deriving DecidableEq, Repr

structure Ending where
  instant : Duration
  waiter : Waiter
  outcome : Outcome
  deriving DecidableEq, Repr

inductive Exit
  | resolved
  | expired
  | swept
  | closed
  | timedOut
  /-- Its waiter went away before. -/
  | left
  deriving DecidableEq, Repr

def Exit.outcome : Exit → Outcome
  | .resolved => .delivered
  | .closed => .cancelled
  | .expired | .swept | .timedOut | .left => .expired

inductive Mark
  | registered (e : Entry)
  | removed (e : Entry) (exit : Exit)
  | ended (x : Ending)
  deriving DecidableEq, Repr

def Mark.ending? : Mark → Option Ending
  | .ended x => some x
  | _ => none

structure Sweeper where
  period : Duration
  next : Duration
  deriving DecidableEq, Repr

structure Session where
  now : Duration := 0
  table : Table := {}
  waiters : List Waiter := []
  sweeper : Option Sweeper := none
  deriving DecidableEq, Repr

namespace Session

def find? (s : Session) (name : String) : Option Waiter := s.waiters.find? fun w => w.name = name

def waiter? (s : Session) (registration : Nat) : Option Waiter :=
  s.waiters.find? fun w => w.registration = registration

def update (s : Session) (registration : Nat) (f : Waiter → Waiter) : Session :=
  { s with waiters := s.waiters.map fun w => if w.registration = registration then f w else w }

def signal (s : Session) (slot : Slot) (e : Entry) : Session :=
  s.update e.registration fun w => { w with slot := slot }

def signalAll (s : Session) (slot : Slot) (entries : List Entry) : Session :=
  entries.foldl (fun s e => s.signal slot e) s

def register (s : Session) (name : String) (key : Key) (deadline : Duration) :
    Except ExecutionError Session :=
  match s.table.refusal? s.now key deadline with
  | some error => .error error
  | none =>
    .ok { s with
      table := s.table.insert key deadline
      waiters := s.waiters ++ [⟨name, key, s.table.next, deadline, .empty, false⟩] }

/-- What a refused registration leaves behind. Its number was given out before the table was looked
at, but not before the deadline was. -/
def refuse (s : Session) : ExecutionError → Session
  | .timeout _ _ => s
  | .collision _ | .shuttingDown => { s with table := s.table.skip }

/-- Removes the entry of a key and signals its waiter. The first component tells whether there was
one. -/
def take (s : Session) (key : Key) (slot : Slot) : Bool × Session :=
  match s.table.find? key with
  | none => (false, s)
  | some e => (true, { s with table := s.table.remove key }.signal slot e)

def resolve (s : Session) (key : Key) : Bool × Session := s.take key (.filled .delivered)

def expire (s : Session) (key : Key) : Bool × Session := s.take key .dropped

def sweep (s : Session) (now : Duration) : Nat × Session :=
  let overdue := s.table.overdue now
  (overdue.length, { s with table := s.table.sweep now }.signalAll .dropped overdue)

def close (s : Session) : Nat × Session :=
  (s.table.size,
    { s with table := s.table.close }.signalAll (.filled .cancelled) s.table.entries)

/-- A waiter goes away; its entry goes with it if the table still holds it. -/
def leave (s : Session) (w : Waiter) : Session :=
  { s with
    table := s.table.removeOwn w.key w.registration
    waiters := s.waiters.filter fun v => v.registration ≠ w.registration }

def beginWait (s : Session) (w : Waiter) : Session :=
  s.update w.registration fun w => { w with waiting := true }

/-- How a wait ends now, if it does: by what its slot says, or else by its timer. -/
def ending? (s : Session) (w : Waiter) : Option Outcome :=
  if !w.waiting then none
  else
    match w.slot.outcome? with
    | some outcome => some outcome
    | none => if w.deadline.tick ≤ s.now then some .expired else none

def released (s : Session) (w : Waiter) (exit : Exit) : List Mark :=
  (s.table.entries.filter fun e => e.key = w.key ∧ e.registration = w.registration).map fun e =>
    .removed e exit

def finishEach : Session → List Waiter → List Mark × Session
  | s, [] => ([], s)
  | s, w :: rest =>
    match s.ending? w with
    | none => s.finishEach rest
    | some outcome =>
      let (later, s') := (s.leave w).finishEach rest
      (s.released w .timedOut ++ .ended ⟨s.now, w, outcome⟩ :: later, s')

def finish (s : Session) : List Mark × Session := s.finishEach s.waiters

def settle (s : Session) : List Ending × Session :=
  let (marks, s) := s.finish
  (marks.filterMap Mark.ending?, s)

/-- The first tick is set to the present instant. Sweeps never follow each other faster than a
millisecond. -/
def startSweeper (s : Session) (interval : Duration) : Session :=
  { s with sweeper := some ⟨max interval Duration.millisecond, s.now⟩ }

def dueSweep (s : Session) : List Entry :=
  match s.sweeper with
  | none => []
  | some w => if w.next.tick ≤ s.now then s.table.overdue s.now else []

def runSweeper (s : Session) : Session :=
  match s.sweeper with
  | none => s
  | some w =>
    if w.next.tick ≤ s.now then
      { (s.sweep s.now).2 with sweeper := some ⟨w.period, w.next + w.period⟩ }
    else s

/-- The token of the sweeper is cancelled, which it may see only behind a tick that is ready as
well. -/
def stopSweeper (s : Session) (tickFirst : Bool) : List Mark × Session :=
  if tickFirst then
    (s.dueSweep.map fun e => .removed e .swept, { s.runSweeper with sweeper := none })
  else ([], { s with sweeper := none })

def turn (s : Session) : List Mark × Session :=
  let (marks, s') := s.runSweeper.finish
  ((s.dueSweep.map fun e => .removed e .swept) ++ marks, s')

def wake (s : Session) : List Ending × Session :=
  let (marks, s) := s.turn
  (marks.filterMap Mark.ending?, s)

def timers (s : Session) : List Duration :=
  (s.sweeper.map fun w => w.next.tick).toList ++
    (s.waiters.filter Waiter.waiting).map fun w => w.deadline.tick

def machine : Clock.Machine Session Mark where
  now := Session.now
  setNow t s := { s with now := t }
  timers := timers
  wake := turn

def advance (s : Session) (d : Duration) : List Ending × Session :=
  let (marks, s) := machine.advance d s
  (marks.filterMap Mark.ending?, s)

end Session

end RoundTrip.Pending
