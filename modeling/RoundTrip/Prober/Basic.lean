import RoundTrip.Config
import RoundTrip.Pending.Session
import RoundTrip.Probe.Delivered
import RoundTrip.Probe.Effect
import RoundTrip.Prober.Reply

namespace RoundTrip

structure Conduct where
  /-- The time until it answers; `none` for a call that hangs. -/
  delay : Option Duration := some 0
  /-- The events that reach the prober right before the answer, given the topics created so far. -/
  deliveries : List String → Effect → List Event := fun _ _ => []
  failure : Option TriggerError := none

/-- The conduct of the collaborators that are configured, call by call. The last one goes on, and
without any every call succeeds. -/
abbrev Collaborators := Collaborator → Option (List Conduct)

def Conduct.next : List Conduct → Conduct × List Conduct
  | [] => ({}, [])
  | [c] => (c, [c])
  | c :: rest => (c, rest)

def Collaborators.set (cs : Collaborators) (c : Collaborator) (script : List Conduct) :
    Collaborators :=
  fun d => if d = c then some script else cs d

structure Ticket where
  name : String
  surface : Surface
  key : Key
  registration : Nat
  deadline : Duration
  started : Duration
  deriving DecidableEq, Repr

def Ticket.entry (t : Ticket) : Pending.Entry := ⟨t.key, t.registration, t.deadline⟩

inductive Flight.Phase
  | registered
  | calling (effect : Effect) (conduct : Conduct) (due : Option Duration)
  | waiting

def Flight.Phase.isWaiting : Phase → Bool
  | .waiting => true
  | .registered | .calling _ _ _ => false

structure Flight extends Ticket where
  nonce : Nonce
  phase : Flight.Phase

/-- Instants at which something becomes due for a flight that calls; waits have timers of their
own. -/
def Flight.timers (f : Flight) : List Duration :=
  match f.phase with
  | .calling _ _ due => f.deadline.tick :: due.toList
  | .registered | .waiting => []

structure Prober where
  config : Config
  collaborators : Collaborators
  session : Pending.Session := {}
  liveness : Liveness
  flights : List Flight := []
  topics : List String := []
  shutDown : Bool := false
  maintained : Bool := false

inductive Happening
  | called (instant : Duration) (effect : Effect)
  | delivered (instant : Duration) (id : String) (resolved : Bool)
  | ended (instant : Duration) (name : String) (reply : Reply)

inductive Mark
  | rejected (instant : Duration) (name : String) (reply : Reply)
  /-- The request makes its task panic, and nobody is told. -/
  | panicked (instant : Duration) (name : String)
  | refused (instant : Duration) (name : String) (surface : Surface) (error : ProbeError)
  | registered (instant : Duration) (t : Ticket)
  | called (instant : Duration) (registration : Nat) (effect : Effect)
  /-- An event was handed over, by a collaborator or from outside. It may have claimed an entry. -/
  | delivered (instant : Duration) (e : Event) (resolved : Bool) (claim : Option Pending.Entry)
      (byCollaborator : Bool)
  /-- The entry of a key was removed by hand. -/
  | expired (instant : Duration) (claim : Option Pending.Entry)
  | answered (instant : Duration) (registration : Nat) (failure : Option TriggerError)
  | brokenOff (instant : Duration) (registration : Nat)
  | ended (instant : Duration) (t : Ticket) (v : Verdict)
  | dropped (instant : Duration) (t : Ticket)
  | shutDown (instant : Duration)
  | sealed (instant : Duration)

def Mark.happening? : Mark → Option Happening
  | .rejected t name reply => some (.ended t name reply)
  | .refused t name surface error => some (.ended t name (surface.reply (.error error)))
  | .called t _ effect => some (.called t effect)
  | .delivered t e resolved _ true => some (.delivered t e.id resolved)
  | .ended t ticket v => some (.ended t ticket.name (ticket.surface.reply v))
  | .delivered _ _ _ _ false | .registered _ _ | .expired _ _ | .answered _ _ _
  | .brokenOff _ _ | .dropped _ _ | .panicked _ _ | .shutDown _ | .sealed _ => none

namespace Prober

def start (config : Config) (collaborators : Collaborators) : Except ProbeError Prober :=
  match config.validate with
  | .error e => .error (.validation e)
  | .ok _ => .ok { config, collaborators, liveness := { stale := config.stale } }

def now (p : Prober) : Duration := p.session.now

def tickets (p : Prober) : List Ticket := p.flights.map Flight.toTicket

def health (p : Prober) : Liveness.Status := p.liveness.status p.now

def claim? (p : Prober) (e : Event) : Option Pending.Entry :=
  (Delivered.key? e).bind p.session.table.find?

def deliver (p : Prober) (e : Event) : Bool × Prober :=
  match Delivered.key? e with
  | none => (false, p)
  | some key =>
    let (resolved, session) := p.session.resolve key
    (resolved,
      { p with
        session
        liveness := if resolved then p.liveness.record p.now else p.liveness })

def delivery (p : Prober) (e : Event) (byCollaborator : Bool) : Mark :=
  .delivered p.now e (p.deliver e).1 (p.claim? e) byCollaborator

end Prober

end RoundTrip
