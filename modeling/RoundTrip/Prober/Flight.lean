import RoundTrip.Prober.Basic

/-!
The life of a probe in flight. It first calls its collaborator and then waits for its delivery. Its
deadline bounds both: a call that is still running then is broken off, and the wait that follows
ends at once with whatever has happened to the registration. The shutdown signal ends either.

Where a flight finds two things ready at once, its nonce tells which one it sees.
-/

namespace RoundTrip.Prober

def leave (p : Prober) (f : Flight) : Prober :=
  match p.session.waiter? f.registration with
  | none => p
  | some w => { p with session := p.session.leave w }

def dropFlight (p : Prober) (registration : Nat) : Prober :=
  { p with flights := p.flights.filter fun f => f.registration ≠ registration }

def release (p : Prober) (f : Flight) : Prober := (p.leave f).dropFlight f.registration

def abandon (p : Prober) (f : Flight) (v : Verdict) : List Mark × Prober :=
  ([.ended p.now f.toTicket v], p.release f)

def setPhase (p : Prober) (f : Flight) (phase : Flight.Phase) : Prober :=
  { p with
    flights := p.flights.map fun g =>
      if g.registration = f.registration then { g with phase := phase } else g }

def beginWait (p : Prober) (f : Flight) : Prober :=
  let session := p.session.update f.registration fun w => { w with waiting := true }
  { p with session }.setPhase f .waiting

def verdict (f : Ticket) (now : Duration) : Pending.Outcome → Verdict
  | .delivered => .ok ()
  | .expired => .error (.execution (.timeout f.key (Duration.toMillis (now - f.started))))
  | .cancelled => .error (.execution .shuttingDown)

def land (p : Prober) : List Pending.Ending → List Mark × Prober
  | [] => ([], p)
  | e :: rest =>
    match p.flights.find? fun f => f.registration = e.waiter.registration with
    | none => p.land rest
    | some f =>
      let (later, p) := (p.dropFlight f.registration).land rest
      (.ended e.instant f.toTicket (verdict f.toTicket e.instant e.outcome) :: later, p)

/-- What a flight ends with as the signal comes, which its wait may be over and seen before. -/
def grounding (p : Prober) (f : Flight) : Verdict :=
  match (p.session.waiter? f.registration).bind p.session.ending? with
  | some outcome =>
    if f.nonce.outcomeFirst then verdict f.toTicket p.now outcome
    else .error (.execution .shuttingDown)
  | none => .error (.execution .shuttingDown)

def groundAll : Prober → List Flight → List Mark × Prober
  | p, [] => ([], p)
  | p, f :: rest =>
    let (now, p) := p.abandon f (p.grounding f)
    let (later, p) := p.groundAll rest
    (now ++ later, p)

def close (p : Prober) : List Mark × Prober :=
  ([.sealed p.now], { p with maintained := false, session := p.session.close.2 })

/-- Maintenance that sees the signal shuts the prober down. -/
def retire (p : Prober) : List Mark × Prober := if p.maintained then p.close else ([], p)

def settle (p : Prober) : List Mark × Prober :=
  if p.shutDown then
    let (grounded, p) := p.groundAll p.flights
    let (retired, p) := p.retire
    (grounded ++ retired, p)
  else
    let (endings, session) := p.session.settle
    { p with session }.land endings

def deliverAll (p : Prober) : List Event → List Mark × Prober
  | [] => ([], p)
  | e :: rest =>
    let (later, p') := (p.deliver e).2.deliverAll rest
    (p.delivery e true :: later, p')

def answer (p : Prober) (f : Flight) (effect : Effect) (conduct : Conduct) :
    List Mark × Prober :=
  let (deliveries, p) := p.deliverAll (conduct.deliveries p.topics effect)
  let answered := deliveries ++ [.answered p.now f.registration conduct.failure]
  match conduct.failure with
  | none => (answered, p.beginWait f)
  | some e =>
    let (end_, p) := p.abandon f (.error (.trigger e))
    (answered ++ end_, p)

def trigger (p : Prober) (f : Flight) (effect : Effect) : List Mark × Prober :=
  match p.collaborators effect.collaborator with
  | none =>
    let error := TriggerError.notConfigured effect.collaborator.name
    let (end_, p') := p.abandon f (.error (.trigger error))
    (.answered p.now f.registration (some error) :: end_, p')
  | some script =>
    let (conduct, rest) := Conduct.next script
    let p := { p with
      collaborators := p.collaborators.set effect.collaborator rest
      topics := p.topics ++ effect.createdTopic?.toList }
    let called := Mark.called p.now f.registration effect
    match conduct.delay with
    | some 0 =>
      let (later, p) := p.answer f effect conduct
      (called :: later, p)
    | delay => ([called], p.setPhase f (.calling effect conduct (delay.map (p.now + ·))))

def depart (p : Prober) (f : Flight) : Option Effect → List Mark × Prober
  | none => ([], p.beginWait f)
  | some effect => p.trigger f effect

/-- A flight begins. One that finds the signal fired may still make its call, and ends then. -/
def launch (p : Prober) (f : Flight) (effect : Option Effect) : List Mark × Prober :=
  if !p.shutDown then p.depart f effect
  else if f.nonce.callFirst then
    let (departed, p) := p.depart f effect
    let (grounded, p) := p.groundAll (p.flights.filter fun g => g.registration = f.registration)
    (departed ++ grounded, p)
  else p.abandon f (.error (.execution .shuttingDown))

def enter (p : Prober) (session : Pending.Session) (t : Ticket) (nonce : Nonce)
    (effect : Option Effect) : List Mark × Prober :=
  let f : Flight := ⟨t, nonce, .registered⟩
  let (later, p') := { p with session, flights := p.flights ++ [f] }.launch f effect
  (.registered p.now t :: later, p')

def register (p : Prober) (name : String) (surface : Surface) (key : Key) (deadline : Duration)
    (nonce : Nonce) (effect : Option Effect) : List Mark × Prober :=
  match p.session.register name key deadline with
  | .error error =>
    ([.refused p.now name surface (.execution error)],
      { p with session := p.session.refuse error })
  | .ok session =>
    p.enter session ⟨name, surface, key, p.session.table.next, deadline, p.now⟩ nonce effect

def probe (p : Prober) (name : String) (surface : Surface) (e : Event) (nonce : Nonce) :
    List Mark × Prober :=
  match Admission.ofEvent p.config.policy p.config.pods nonce e with
  | .error (.invalid error) => ([.refused p.now name surface (.validation error)], p)
  | .error .panic => ([.panicked p.now name], p)
  | .ok a => p.register name surface a.key (p.now + a.wait) nonce (a.probe.effect? e)

/-- An answer that comes with the deadline may be missed. -/
def answerDue : Prober → List Flight → List Mark × Prober
  | p, [] => ([], p)
  | p, f :: rest =>
    match f.phase with
    | .calling effect conduct (some due) =>
      if due ≤ p.now ∧ (p.now < f.deadline.tick ∨ f.nonce.answerFirst = true) then
        let (now, p) := p.answer f effect conduct
        let (later, p) := p.answerDue rest
        (now ++ later, p)
      else p.answerDue rest
    | _ => p.answerDue rest

def breakOff : Prober → List Flight → List Mark × Prober
  | p, [] => ([], p)
  | p, f :: rest =>
    match f.phase with
    | .calling _ _ _ =>
      if f.deadline.tick ≤ p.now then
        let (later, p') := (p.beginWait f).breakOff rest
        (.brokenOff p.now f.registration :: later, p')
      else p.breakOff rest
    | _ => p.breakOff rest

/-- Everything that happens at the present instant without anyone's doing. -/
def wake (p : Prober) : List Mark × Prober :=
  let p := { p with session := p.session.runSweeper }
  let (answered, p) := p.answerDue p.flights
  let (brokenOff, p) := p.breakOff p.flights
  let (settled, p) := p.settle
  (answered ++ brokenOff ++ settled, p)

def machine : Clock.Machine Prober Mark where
  now := now
  setNow t p := { p with session := { p.session with now := t } }
  timers p := p.session.timers ++ p.flights.flatMap Flight.timers
  wake := wake

/-- The shutdown signal fires. The sweeper ends with it: as its next tick is ahead, it has nothing
else to see first. -/
def signalShutdown (p : Prober) : List Mark × Prober :=
  ([.shutDown p.now], { p with shutDown := true, session := (p.session.stopSweeper false).2 })

def shutdown (p : Prober) : List Mark × Prober :=
  let (signalled, p) := p.signalShutdown
  let (closed, p) := p.close
  (signalled ++ closed, p)

/-- Background maintenance begins: sweeps until the prober shuts down. With the signal fired there
is nothing to sweep. -/
def run (p : Prober) : List Mark × Prober :=
  if p.shutDown then p.shutdown
  else
    { p with maintained := true, session := p.session.startSweeper p.config.sweep }.wake

end RoundTrip.Prober
