import RoundTrip.Pending.Session

namespace RoundTrip.Pending

inductive Op
  | register (name : String) (key : Key) (deadline : Duration)
  | resolve (key : Key)
  | expire (key : Key)
  | sweep (now : Duration)
  | close
  | wait (registration : Nat)
  /-- The waiter goes away: its wait is aborted, or it is abandoned or dropped. -/
  | leave (registration : Nat)
  | advance (d : Duration)
  | startSweeper (interval : Duration)
  /-- A sweeper is started whose token has been cancelled before. -/
  | startCancelled (interval : Duration) (tickFirst : Bool)
  | stopSweeper (tickFirst : Bool)

inductive Answer
  | none
  | refused (error : ExecutionError)
  | flag (b : Bool)
  | count (n : Nat)
  deriving DecidableEq, Repr

def Answer.removals : Answer → Nat
  | .none | .refused _ => 0
  | .flag b => b.toNat
  | .count n => n

namespace Session

def taken (s : Session) (key : Key) (exit : Exit) : List Mark :=
  (s.table.find? key).toList.map fun e => .removed e exit

/-- The immediate effect of an operation, before the waits that it made ready end. -/
def act (s : Session) : Op → Answer × List Mark × Session
  | .register name key deadline =>
    match s.register name key deadline with
    | .error error => (.refused error, [], s.refuse error)
    | .ok s' => (.none, [.registered ⟨key, s.table.next, deadline⟩], s')
  | .resolve key => (.flag (s.resolve key).1, s.taken key .resolved, (s.resolve key).2)
  | .expire key => (.flag (s.expire key).1, s.taken key .expired, (s.expire key).2)
  | .sweep now =>
    (.count (s.sweep now).1, (s.table.overdue now).map fun e => .removed e .swept,
      (s.sweep now).2)
  | .close =>
    (.count s.close.1, s.table.entries.map fun e => .removed e .closed, s.close.2)
  | .wait registration =>
    match s.waiter? registration with
    | none => (.none, [], s)
    | some w => (.none, [], s.beginWait w)
  | .leave registration =>
    match s.waiter? registration with
    | none => (.none, [], s)
    | some w => (.none, s.released w .left, s.leave w)
  | .advance d => (.none, machine.advance d s)
  | .startSweeper interval => (.none, (s.startSweeper interval).turn)
  | .startCancelled interval tickFirst => (.none, (s.startSweeper interval).stopSweeper tickFirst)
  | .stopSweeper tickFirst => (.none, s.stopSweeper tickFirst)

def perform (s : Session) (op : Op) : Answer × List Mark × Session :=
  let (answer, marks, s) := s.act op
  let (later, s) := s.finish
  (answer, marks ++ later, s)

def run : Session → List Op → List Mark × Session
  | s, [] => ([], s)
  | s, op :: rest =>
    let (_, marks, s) := s.perform op
    let (later, s) := s.run rest
    (marks ++ later, s)

end Session

end RoundTrip.Pending
