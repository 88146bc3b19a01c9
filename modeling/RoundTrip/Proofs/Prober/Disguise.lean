import RoundTrip.Proofs.Pending.Renumber
import RoundTrip.Proofs.Prober.Deliveries
import RoundTrip.Proofs.Prober.Reached

/-!
Probers that look different and do the same. A disguise exchanges the numbers and the surfaces of
the registrations, and it changes the session and the configuration in ways that the operations of
the pending table do not notice. What a prober does in a disguise is what it does, in that disguise.
-/

namespace RoundTrip

def Event.Within (keys : Key → Prop) (e : Event) : Prop :=
  ∀ key, Delivered.key? e = some key → keys key

theorem Event.within_all (e : Event) : e.Within fun _ => True := fun _ _ => trivial

structure Disguise where
  number : Nat → Nat := id
  surface : Ticket → Surface := Ticket.surface
  session : Pending.Session → Pending.Session := id
  waiter : Pending.Waiter → Pending.Waiter := Pending.Waiter.renumber number
  config : Config → Config := id
  maintained : Bool → Bool := id

namespace Disguise

def ticket (d : Disguise) (t : Ticket) : Ticket :=
  { t with registration := d.number t.registration, surface := d.surface t }

def flight (d : Disguise) (f : Flight) : Flight := ⟨d.ticket f.toTicket, f.nonce, f.phase⟩

def mark (d : Disguise) : Mark → Mark
  | .registered now t => .registered now (d.ticket t)
  | .called now registration effect => .called now (d.number registration) effect
  | .delivered now e resolved claim byCollaborator =>
    .delivered now e resolved (claim.map (Pending.Entry.renumber d.number)) byCollaborator
  | .expired now claim => .expired now (claim.map (Pending.Entry.renumber d.number))
  | .answered now registration failure => .answered now (d.number registration) failure
  | .brokenOff now registration => .brokenOff now (d.number registration)
  | .ended now t v => .ended now (d.ticket t) v
  | .dropped now t => .dropped now (d.ticket t)
  | .rejected now name reply => .rejected now name reply
  | .panicked now name => .panicked now name
  | .refused now name surface error => .refused now name surface error
  | .shutDown now => .shutDown now
  | .sealed now => .sealed now

def apply (d : Disguise) (p : Prober) : Prober :=
  { p with
    config := d.config p.config
    session := d.session p.session
    flights := p.flights.map d.flight
    maintained := d.maintained p.maintained }

def carry (d : Disguise) (out : List Mark × Prober) : List Mark × Prober :=
  (out.1.map d.mark, d.apply out.2)

structure Plain (d : Disguise) : Prop where
  number : d.number = id
  surface : d.surface = Ticket.surface

section Plain

variable {d : Disguise} (h : Plain d)
include h

theorem Plain.ticket : d.ticket = id := by
  funext t
  rw [Disguise.ticket, h.number, h.surface]
  rfl

theorem Plain.mark : d.mark = id := by
  funext m
  cases m <;> simp only [Disguise.mark, h.number, h.ticket, Pending.Entry.renumber_id,
    Option.map_id, id_eq]

theorem Plain.apply_eq (p : Prober) : d.apply p = { p with
    config := d.config p.config
    session := d.session p.session
    maintained := d.maintained p.maintained } := by
  have flight : d.flight = id := by
    funext f
    rw [Disguise.flight, h.ticket]
    rfl
  rw [apply, flight, List.map_id]

theorem Plain.carry_eq (out : List Mark × Prober) : d.carry out = (out.1, d.apply out.2) := by
  rw [carry, h.mark, List.map_id]

end Plain

/-- What is done to a registration does not notice the disguise, and what is done to a key does not
if it is one of these. -/
structure Transparent (d : Disguise) (keys : Key → Prop) : Prop where
  injective : Function.Injective d.number
  now : ∀ s, (d.session s).now = s.now
  find? : ∀ key, keys key → ∀ s, (d.session s).table.find? key =
    (s.table.find? key).map (Pending.Entry.renumber d.number)
  take : ∀ key, keys key → ∀ s slot, slot ≠ .empty → (d.session s).take key slot =
    ((s.take key slot).1, d.session (s.take key slot).2)
  waiter? : ∀ s registration, (d.session s).waiter? (d.number registration) =
    (s.waiter? registration).map d.waiter
  leave : ∀ s w, (d.session s).leave (d.waiter w) = d.session (s.leave w)
  beginWait : ∀ s w, (d.session s).beginWait (Pending.Waiter.renumber d.number w) =
    d.session (s.beginWait w)

/-- The operations of the pending table do not notice the disguise. -/
structure Lawful (d : Disguise) : Prop extends Transparent d fun _ => True where
  settle : ∀ s, (d.session s).settle =
    (s.settle.1.map (Pending.Ending.renumber d.number), d.session s.settle.2)
  ending? : ∀ s w, (d.session s).ending? (d.waiter w) = s.ending? w
  stop : ∀ s, ((d.session s).stopSweeper false).2 = d.session (s.stopSweeper false).2
  close : ∀ s, (d.session s).close.2 = d.session s.close.2
  policy : ∀ c, (d.config c).policy = c.policy
  pods : ∀ c, (d.config c).pods = c.pods
  unmaintained : d.maintained false = false

structure Steady (d : Disguise) : Prop extends Lawful d where
  setNow : ∀ t s, ({ d.session s with now := t } : Pending.Session) = d.session { s with now := t }
  runSweeper : ∀ s, (d.session s).runSweeper = d.session s.runSweeper
  timers : ∀ s, (d.session s).timers = s.timers
  start : ∀ s interval, (d.session s).startSweeper interval = d.session (s.startSweeper interval)
  sweep : ∀ c, (d.config c).sweep = c.sweep
  maintained : d.maintained = id

structure Fresh (d : Disguise) (s : Pending.Session) : Prop where
  next : (d.session s).table.next = d.number s.table.next
  register : ∀ name key deadline, (d.session s).register name key deadline =
    (s.register name key deadline).map d.session
  refuse : ∀ error, (d.session s).refuse error = d.session (s.refuse error)
  surface : ∀ t : Ticket, t.registration = s.table.next → d.surface t = t.surface

variable {d : Disguise}

namespace Transparent

variable {keys : Key → Prop} (h : Transparent d keys)
include h

theorem apply_now (p : Prober) : (d.apply p).now = p.now := h.now p.session

theorem setPhase (p : Prober) (f : Flight) (phase : Flight.Phase) :
    (d.apply p).setPhase (d.flight f) phase = d.apply (p.setPhase f phase) := by
  have flights : ((d.apply p).setPhase (d.flight f) phase).flights =
      (d.apply (p.setPhase f phase)).flights := by
    simp only [Prober.setPhase, apply, List.map_map]
    apply List.map_congr_left
    intro g _
    have number (g : Flight) : (d.flight g).registration = d.number g.registration := rfl
    rw [Function.comp_apply, Function.comp_apply, number, number]
    by_cases own : g.registration = f.registration
    · rw [if_pos own, if_pos (congrArg d.number own)]
      rfl
    · rw [if_neg own, if_neg (h.injective.ne own)]
  exact congrArg (fun flights => { d.apply p with flights }) flights

theorem deliver (p : Prober) {e : Event} (within : e.Within keys) :
    (d.apply p).deliver e = ((p.deliver e).1, d.apply (p.deliver e).2) := by
  rw [Prober.deliver, Prober.deliver]
  cases keyed : Delivered.key? e with
  | none => rfl
  | some key =>
    have resolved : (d.apply p).session.resolve key =
        ((p.session.resolve key).1, d.session (p.session.resolve key).2) :=
      h.take key (within key keyed) p.session _ (by decide)
    simp only [resolved, h.apply_now]
    rfl

theorem delivery (p : Prober) {e : Event} (within : e.Within keys) (byCollaborator : Bool) :
    (d.apply p).delivery e byCollaborator = d.mark (p.delivery e byCollaborator) := by
  have claim : (d.apply p).claim? e = (p.claim? e).map (Pending.Entry.renumber d.number) := by
    rw [Prober.claim?, Prober.claim?, Option.map_bind]
    cases keyed : Delivered.key? e with
    | none => rfl
    | some key => exact h.find? key (within key keyed) p.session
  rw [Prober.delivery, Prober.delivery, h.deliver p within, h.apply_now, claim]
  rfl

theorem deliverAll (p : Prober) {es : List Event} (within : ∀ e ∈ es, e.Within keys) :
    (d.apply p).deliverAll es = d.carry (p.deliverAll es) := by
  induction es generalizing p with
  | nil => rfl
  | cons e es ih =>
    have first := within e List.mem_cons_self
    rw [Prober.deliverAll, Prober.deliverAll, h.delivery p first, h.deliver p first]
    simp only [ih _ fun e he => within e (List.mem_cons_of_mem _ he)]
    rfl

theorem leave_flight (p : Prober) (f : Flight) :
    (d.apply p).leave (d.flight f) = d.apply (p.leave f) := by
  have found : (d.apply p).session.waiter? (d.flight f).registration =
      (p.session.waiter? f.registration).map d.waiter := h.waiter? p.session f.registration
  rw [Prober.leave, Prober.leave, found]
  cases p.session.waiter? f.registration with
  | none => rfl
  | some w => exact congrArg (fun session => { d.apply p with session }) (h.leave p.session w)

theorem dropFlight (p : Prober) (registration : Nat) :
    (d.apply p).dropFlight (d.number registration) = d.apply (p.dropFlight registration) := by
  have number (f : Flight) :
      (d.flight f).registration = d.number registration ↔ f.registration = registration :=
    h.injective.eq_iff
  simp only [Prober.dropFlight, apply, List.filter_map, Function.comp_def, ne_eq, number]

theorem release (p : Prober) (f : Flight) :
    (d.apply p).release (d.flight f) = d.apply (p.release f) := by
  rw [Prober.release, h.leave_flight]
  exact h.dropFlight _ _

theorem abandon (p : Prober) (f : Flight) (v : Verdict) :
    (d.apply p).abandon (d.flight f) v = d.carry (p.abandon f v) := by
  rw [Prober.abandon, h.release, h.apply_now]
  rfl

theorem beginWait_flight (p : Prober) (f : Flight) :
    (d.apply p).beginWait (d.flight f) = d.apply (p.beginWait f) := by
  have waits := h.beginWait p.session ⟨f.name, f.key, f.registration, f.deadline, .empty, false⟩
  have held := h.setPhase { p with
    session := p.session.update f.registration fun w => { w with waiting := true } } f .waiting
  exact (congrArg (fun session =>
    { d.apply p with session }.setPhase (d.flight f) .waiting) waits).trans held

theorem land (p : Prober) (es : List Pending.Ending) :
    (d.apply p).land (es.map (Pending.Ending.renumber d.number)) = d.carry (p.land es) := by
  induction es generalizing p with
  | nil => rfl
  | cons e rest ih =>
    have found : ((d.apply p).flights.find? fun f =>
        f.registration = (e.renumber d.number).waiter.registration) =
          (p.flights.find? fun f => f.registration = e.waiter.registration).map d.flight := by
      have number (f : Flight) :
          (d.flight f).registration = (e.renumber d.number).waiter.registration ↔
            f.registration = e.waiter.registration := h.injective.eq_iff
      simp only [apply, List.find?_map, Function.comp_def, number]
    rw [List.map_cons, Prober.land, Prober.land, found]
    cases p.flights.find? fun f => f.registration = e.waiter.registration with
    | none => exact ih p
    | some f =>
      have dropped : (d.apply p).dropFlight (d.flight f).registration =
          d.apply (p.dropFlight f.registration) := h.dropFlight p f.registration
      simp only [Option.map_some, dropped, ih]
      rfl

theorem answer (p : Prober) (f : Flight) (effect : Effect) {conduct : Conduct}
    (within : ∀ e ∈ conduct.deliveries p.topics effect, e.Within keys) :
    (d.apply p).answer (d.flight f) effect conduct = d.carry (p.answer f effect conduct) := by
  have topics : (d.apply p).topics = p.topics := rfl
  rw [Prober.answer, Prober.answer, topics, h.deliverAll p within]
  cases conduct.failure with
  | none =>
    simp only [carry, h.beginWait_flight, List.map_append, h.apply_now]
    rfl
  | some error =>
    simp only [carry, h.abandon, List.map_append, h.apply_now]
    rfl

theorem answerDue (p : Prober) (fs : List Flight)
    (within : ∀ x ∈ Journal.deliveries ((d.apply p).answerDue (fs.map d.flight)).1,
      x.2.Within keys) :
    (d.apply p).answerDue (fs.map d.flight) = d.carry (p.answerDue fs) := by
  induction fs generalizing p with
  | nil => rfl
  | cons f rest ih =>
    have phase : (d.flight f).phase = f.phase := rfl
    have deadline : (d.flight f).deadline = f.deadline := rfl
    have nonce : (d.flight f).nonce = f.nonce := rfl
    rw [List.map_cons, Prober.answerDue.eq_def] at within
    rw [List.map_cons, Prober.answerDue.eq_def, Prober.answerDue.eq_def p]
    simp only [phase, deadline, nonce, h.apply_now] at within ⊢
    cases calls : f.phase with
    | registered | waiting =>
      rw [calls] at within
      exact ih p within
    | calling effect conduct due =>
      rw [calls] at within
      cases due with
      | none => exact ih p within
      | some due =>
        simp only at within ⊢
        split at within
        next late =>
          rw [Journal.deliveries_append, Prober.deliveries_answer] at within
          have answered := h.answer p f effect fun e he =>
            within _ (List.mem_append_left _ (List.mem_map_of_mem he))
          rw [answered] at within
          have later := ih (p.answer f effect conduct).2 fun x hx =>
            within x (List.mem_append_right _ hx)
          rw [if_pos late, if_pos late, answered]
          simp only [carry, later, List.map_append]
        next early =>
          rw [if_neg early, if_neg early]
          exact ih p within

theorem breakOff (p : Prober) (fs : List Flight) :
    (d.apply p).breakOff (fs.map d.flight) = d.carry (p.breakOff fs) := by
  induction fs generalizing p with
  | nil => rfl
  | cons f rest ih =>
    have phase : (d.flight f).phase = f.phase := rfl
    have deadline : (d.flight f).deadline = f.deadline := rfl
    rw [List.map_cons, Prober.breakOff.eq_def, Prober.breakOff.eq_def p]
    simp only [phase, deadline, h.apply_now]
    split
    next =>
      split
      next =>
        simp only [h.beginWait_flight, ih]
        rfl
      next => exact ih p
    next => exact ih p

theorem endCalls (p : Prober)
    (within : ∀ x ∈ Journal.deliveries (d.apply p).endCalls.1, x.2.Within keys) :
    (d.apply p).endCalls = d.carry p.endCalls := by
  rw [Prober.endCalls, Journal.deliveries_append] at within
  have answered : (d.apply p).answerDue (d.apply p).flights = d.carry (p.answerDue p.flights) :=
    h.answerDue p p.flights fun x hx => within x (List.mem_append_left _ hx)
  have brokenOff (q : Prober) : (d.apply q).breakOff (d.apply q).flights =
      d.carry (q.breakOff q.flights) := h.breakOff q q.flights
  rw [Prober.endCalls, Prober.endCalls, answered]
  simp only [carry, brokenOff, List.map_append]

end Transparent

namespace Lawful

variable (h : Lawful d)
include h

theorem grounding (p : Prober) (f : Flight) :
    (d.apply p).grounding (d.flight f) = p.grounding f := by
  have found : (d.apply p).session.waiter? (d.flight f).registration =
      (p.session.waiter? f.registration).map d.waiter := h.waiter? p.session f.registration
  have finished : ((d.apply p).session.waiter? (d.flight f).registration).bind
      (d.apply p).session.ending? = (p.session.waiter? f.registration).bind p.session.ending? := by
    rw [found, Option.bind_map]
    exact congrArg (Option.bind _) (funext fun w => h.ending? p.session w)
  rw [Prober.grounding, Prober.grounding, finished, h.apply_now]
  rfl

theorem groundAll (p : Prober) (fs : List Flight) :
    (d.apply p).groundAll (fs.map d.flight) = d.carry (p.groundAll fs) := by
  induction fs generalizing p with
  | nil => rfl
  | cons f rest ih =>
    rw [List.map_cons, Prober.groundAll, Prober.groundAll, h.grounding, h.abandon]
    simp only [carry, ih, List.map_append]

theorem close_prober (p : Prober) : (d.apply p).close = d.carry p.close := by
  have closed : (d.apply p).session.close.2 = d.session p.session.close.2 := h.close p.session
  have unattended : d.apply p.close.2 = { d.apply p with
      maintained := false, session := d.session p.session.close.2 } := by
    rw [Prober.close, apply, h.unmaintained]
    rfl
  rw [Prober.close, closed, h.apply_now, carry, unattended]
  rfl

theorem retire {p : Prober} (attended : d.maintained p.maintained = p.maintained) :
    (d.apply p).retire = d.carry p.retire := by
  have same : (d.apply p).maintained = p.maintained := attended
  rw [Prober.retire, Prober.retire, same]
  split
  next => exact h.close_prober p
  next => rfl

theorem settle_prober {p : Prober}
    (attended : p.shutDown = true → d.maintained p.maintained = p.maintained) :
    (d.apply p).settle = d.carry p.settle := by
  have shutDown : (d.apply p).shutDown = p.shutDown := rfl
  cases down : p.shutDown with
  | true =>
    have grounded : (d.apply p).groundAll (d.apply p).flights = d.carry (p.groundAll p.flights) :=
      h.groundAll p p.flights
    have retired := h.retire (p := p.grounded) (by
      rw [p.grounded_maintained]
      exact attended down)
    rw [Prober.settle_down (shutDown.trans down), Prober.settle_down down, Prober.grounded,
      grounded]
    simp only [carry, List.map_append] at retired ⊢
    rw [show (p.groundAll p.flights).2 = p.grounded from rfl, retired]
  | false =>
    have settled : (d.apply p).session.settle =
        (p.session.settle.1.map (Pending.Ending.renumber d.number),
          d.session p.session.settle.2) := h.settle p.session
    rw [Prober.settle, Prober.settle, if_neg (by rw [shutDown, down]; decide),
      if_neg (by rw [down]; decide), settled]
    exact h.land { p with session := p.session.settle.2 } p.session.settle.1

theorem trigger (p : Prober) (f : Flight) (effect : Effect) :
    (d.apply p).trigger (d.flight f) effect = d.carry (p.trigger f effect) := by
  have collaborators : (d.apply p).collaborators = p.collaborators := rfl
  rw [Prober.trigger, Prober.trigger, collaborators, h.apply_now]
  cases p.collaborators effect.collaborator with
  | none =>
    simp only [h.abandon]
    rfl
  | some script =>
    let p₁ : Prober := { p with
      collaborators := p.collaborators.set effect.collaborator (Conduct.next script).2
      topics := p.topics ++ effect.createdTopic?.toList }
    have same : ({ d.apply p with
        collaborators := p.collaborators.set effect.collaborator (Conduct.next script).2
        topics := p.topics ++ effect.createdTopic?.toList } : Prober) = d.apply p₁ := rfl
    have answered := h.answer p₁ f effect fun e
      (_ : e ∈ (Conduct.next script).1.deliveries p₁.topics effect) => e.within_all
    have held := h.setPhase p₁ f (.calling effect (Conduct.next script).1
      ((Conduct.next script).1.delay.map (p₁.now + ·)))
    have topics : (d.apply p).topics = p.topics := rfl
    simp only [topics, same, h.apply_now]
    split
    next =>
      let called := Mark.called p.now (d.number f.registration) effect
      exact congrArg (fun out : List Mark × Prober => (called :: out.1, out.2)) answered
    next => exact congrArg (Prod.mk [Mark.called p.now (d.number f.registration) effect]) held

theorem depart (p : Prober) (f : Flight) (effect : Option Effect) :
    (d.apply p).depart (d.flight f) effect = d.carry (p.depart f effect) := by
  cases effect with
  | none => exact congrArg (Prod.mk []) (h.beginWait_flight p f)
  | some effect => exact h.trigger p f effect

theorem launch (p : Prober) (f : Flight) (effect : Option Effect) :
    (d.apply p).launch (d.flight f) effect = d.carry (p.launch f effect) := by
  have shutDown : (d.apply p).shutDown = p.shutDown := rfl
  have nonce : (d.flight f).nonce = f.nonce := rfl
  rw [Prober.launch.eq_def, Prober.launch.eq_def, shutDown, nonce, h.depart]
  split
  next => rfl
  next =>
    split
    next =>
      let q := (p.depart f effect).2
      have own : ((d.apply q).flights.filter fun g =>
          g.registration = (d.flight f).registration) =
            (q.flights.filter fun g => g.registration = f.registration).map d.flight := by
        have number (g : Flight) : (d.flight g).registration = (d.flight f).registration ↔
            g.registration = f.registration := h.injective.eq_iff
        simp only [apply, List.filter_map, Function.comp_def, number]
      have grounded := h.groundAll q (q.flights.filter fun g => g.registration = f.registration)
      rw [← own] at grounded
      simp only [carry, List.map_append] at grounded ⊢
      rw [show (p.depart f effect).2 = q from rfl, grounded]
    next => exact h.abandon p f _

theorem enter (p : Prober) (session : Pending.Session) (t : Ticket) (nonce : Nonce)
    (effect : Option Effect) :
    (d.apply p).enter (d.session session) (d.ticket t) nonce effect =
      d.carry (p.enter session t nonce effect) := by
  let f : Flight := ⟨t, nonce, .registered⟩
  have entered : ({ d.apply p with
      session := d.session session
      flights := (d.apply p).flights ++ [d.flight f] } : Prober) =
        d.apply { p with session, flights := p.flights ++ [f] } := by
    simp only [apply, List.map_append]
    rfl
  have launched := h.launch { p with session, flights := p.flights ++ [f] } f effect
  rw [← entered] at launched
  rw [Prober.enter, h.apply_now]
  exact congrArg (fun out => (Mark.registered p.now (d.ticket t) :: out.1, out.2)) launched

theorem signalShutdown (p : Prober) :
    (d.apply p).signalShutdown = d.carry p.signalShutdown := by
  have stopped : ((d.apply p).session.stopSweeper false).2 =
      d.session (p.session.stopSweeper false).2 := h.stop p.session
  rw [Prober.signalShutdown, stopped, h.apply_now]
  rfl

theorem shutdown (p : Prober) : (d.apply p).shutdown = d.carry p.shutdown := by
  rw [Prober.shutdown, h.signalShutdown]
  have closed := h.close_prober p.signalShutdown.2
  simp only [carry] at closed ⊢
  rw [closed]
  rfl

theorem cancel (p : Prober) (name : String) :
    (d.apply p).cancel name = d.carry (p.cancel name) := by
  have found : ((d.apply p).flights.find? fun f => f.name = name) =
      (p.flights.find? fun f => f.name = name).map d.flight := by
    rw [apply, List.find?_map]
    rfl
  rw [Prober.cancel, Prober.cancel, found]
  cases p.flights.find? fun f => f.name = name with
  | none => rfl
  | some f =>
    have released := h.release p f
    simp only [Option.map_some, released, h.apply_now]
    rfl

theorem expire (p : Prober) (key : Key) :
    (d.apply p).expire key = ((p.expire key).1, d.apply (p.expire key).2) := by
  have expired : (d.apply p).session.expire key =
      ((p.session.expire key).1, d.session (p.session.expire key).2) :=
    h.take key trivial p.session .dropped (by decide)
  rw [Prober.expire, expired]
  rfl

theorem contains (p : Prober) (key : Key) :
    (d.apply p).session.table.contains key = p.session.table.contains key := by
  have found : (d.apply p).session.table.find? key =
      (p.session.table.find? key).map (Pending.Entry.renumber d.number) :=
    h.find? key trivial p.session
  rw [Pending.Table.contains, found, Option.isSome_map, Pending.Table.contains]

theorem register {p : Prober} (fresh : d.Fresh p.session) (name : String) (surface : Surface)
    (key : Key) (deadline : Duration) (nonce : Nonce) (effect : Option Effect) :
    (d.apply p).register name surface key deadline nonce effect =
      d.carry (p.register name surface key deadline nonce effect) := by
  have registered : (d.apply p).session.register name key deadline =
      (p.session.register name key deadline).map d.session := fresh.register name key deadline
  rw [Prober.register, Prober.register, registered, h.apply_now]
  cases p.session.register name key deadline with
  | error error =>
    have refused : (d.apply p).session.refuse error = d.session (p.session.refuse error) :=
      fresh.refuse error
    simp only [Except.map, refused]
    rfl
  | ok session =>
    let t : Ticket := ⟨name, surface, key, p.session.table.next, deadline, p.now⟩
    have disguised : d.ticket t =
        ⟨name, surface, key, (d.apply p).session.table.next, deadline, p.now⟩ := by
      rw [ticket, fresh.surface t rfl, apply, fresh.next]
    have entered := h.enter p session t nonce effect
    rw [disguised] at entered
    exact entered

theorem probe {p : Prober} (fresh : d.Fresh p.session) (name : String) (surface : Surface)
    (e : Event) (nonce : Nonce) :
    (d.apply p).probe name surface e nonce = d.carry (p.probe name surface e nonce) := by
  have policy : (d.apply p).config.policy = p.config.policy := h.policy p.config
  have pods : (d.apply p).config.pods = p.config.pods := h.pods p.config
  rw [Prober.probe, Prober.probe, policy, pods, h.apply_now]
  split
  next => rfl
  next => rfl
  next a _ => exact h.register fresh name surface a.key _ nonce _

theorem act_delivery (p : Prober) (e : Event) :
    ([(d.apply p).delivery e false], ((d.apply p).deliver e).2) =
      d.carry ([p.delivery e false], (p.deliver e).2) := by
  rw [h.delivery p e.within_all, h.deliver p e.within_all]
  rfl

theorem httpReceive (p : Prober) (r : HttpRequest) :
    (d.apply p).httpReceive r = ((p.httpReceive r).1, d.carry (p.httpReceive r).2) := by
  have health : (d.apply p).health = p.health :=
    congrArg p.liveness.status (h.apply_now p)
  rw [Prober.httpReceive, Prober.httpReceive]
  split
  next =>
    simp only [Prober.healthResponse, health]
    rfl
  next =>
    rw [Prober.receive, Prober.receive]
    split
    next => rfl
    next =>
      cases Event.ofHttp r.headers r.body with
      | error => rfl
      | ok e => exact congrArg (Prod.mk _) (h.act_delivery p e)

theorem grpcDeliver (p : Prober) (body : Bytes) :
    (d.apply p).grpcDeliver body = ((p.grpcDeliver body).1, d.carry (p.grpcDeliver body).2) := by
  rw [Prober.grpcDeliver, Prober.grpcDeliver]
  cases Event.ofGrpc body with
  | error => rfl
  | ok e =>
    have flag := congrArg Prod.fst (h.deliver p e.within_all)
    simp only [flag]
    exact congrArg (Prod.mk _) (h.act_delivery p e)

end Lawful

namespace Steady

variable (h : Steady d)
include h

theorem wake (p : Prober) : (d.apply p).wake = d.carry p.wake := by
  let p₁ : Prober := { p with session := p.session.runSweeper }
  have swept : ({ d.apply p with session := (d.apply p).session.runSweeper } : Prober) =
      d.apply p₁ :=
    congrArg (fun session => { d.apply p with session }) (h.runSweeper p.session)
  have called := h.endCalls p₁ fun x _ => x.2.within_all
  have settled := h.settle_prober (p := p₁.endCalls.2) fun _ => congrFun h.maintained _
  rw [Prober.wake_eq, Prober.wake_eq, swept, Prober.endAll, Prober.endAll, called]
  simp only [carry] at settled ⊢
  rw [settled, List.map_append]

theorem advance (ms : Duration) (p : Prober) :
    Prober.machine.advance ms (d.apply p) = d.carry (Prober.machine.advance ms p) := by
  refine Clock.Machine.advance_image (g := d.apply) (h := d.mark) ?now ?setNow ?timers ?wake ms p
  case now => exact h.apply_now
  case setNow =>
    intro t p
    exact congrArg (fun session => { d.apply p with session }) (h.setNow t p.session)
  case timers =>
    intro p
    have flights : (d.apply p).flights.flatMap Flight.timers = p.flights.flatMap Flight.timers :=
      List.flatMap_map ..
    exact congrArg₂ (· ++ ·) (h.timers p.session) flights
  case wake => exact h.wake

theorem run (p : Prober) : (d.apply p).run = d.carry p.run := by
  have shutDown : (d.apply p).shutDown = p.shutDown := rfl
  rw [Prober.run, Prober.run, shutDown]
  split
  next => exact h.shutdown p
  next =>
    let p₁ : Prober := { p with
      maintained := true, session := p.session.startSweeper p.config.sweep }
    have started : ({ d.apply p with
        maintained := true
        session := (d.apply p).session.startSweeper (d.apply p).config.sweep } : Prober) =
          d.apply p₁ := by
      have sweep : (d.apply p).config.sweep = p.config.sweep := h.sweep p.config
      have session : (d.apply p).session.startSweeper p.config.sweep =
          d.session (p.session.startSweeper p.config.sweep) := h.start p.session _
      rw [sweep, session, apply, apply, h.maintained]
      rfl
    exact (congrArg Prober.wake started).trans (h.wake p₁)

end Steady

/-- The step lets the sweeper run or asks whether it does. -/
def minds : Prober.Step → Bool
  | .advance _ | .run | .stopRun => true
  | _ => false

theorem Lawful.act (h : Lawful d) {p : Prober} (fresh : d.Fresh p.session) {s : Prober.Step}
    (other : minds s = false) : (d.apply p).act s = ((p.act s).1, d.carry (p.act s).2) := by
  have health : (d.apply p).health = p.health :=
    congrArg p.liveness.status (h.apply_now p)
  cases s with
  | probe name e nonce => exact congrArg (Prod.mk _) (h.probe fresh name .direct e nonce)
  | httpProbe name r nonce =>
    rw [Prober.act, Prober.act, Prober.httpProbe, Prober.httpProbe, h.apply_now]
    split
    next => rfl
    next =>
      cases Event.ofHttp r.headers r.body with
      | error => rfl
      | ok e => exact congrArg (Prod.mk _) (h.probe fresh name .http e nonce)
  | grpcProbe name body nonce =>
    rw [Prober.act, Prober.act, Prober.grpcProbe, Prober.grpcProbe, h.apply_now]
    cases Event.ofGrpc body with
    | error => rfl
    | ok e => exact congrArg (Prod.mk _) (h.probe fresh name .grpc e nonce)
  | deliver e =>
    have flag := congrArg Prod.fst (h.deliver p e.within_all)
    rw [Prober.act, Prober.act, flag, h.act_delivery]
  | httpReceive r =>
    rw [Prober.act, h.httpReceive]
    rfl
  | grpcDeliver body =>
    rw [Prober.act, h.grpcDeliver]
    rfl
  | health | grpcHealth =>
    rw [Prober.act, Prober.act, health]
    rfl
  | contains key =>
    rw [Prober.act, Prober.act, h.contains]
    rfl
  | expire key =>
    have found : (d.apply p).session.table.find? key =
        (p.session.table.find? key).map (Pending.Entry.renumber d.number) :=
    h.find? key trivial p.session
    rw [Prober.act, Prober.act, h.expire, found, h.apply_now]
    rfl
  | cancel name => exact congrArg (Prod.mk _) (h.cancel p name)
  | shutdown => exact congrArg (Prod.mk _) (h.shutdown p)
  | signalShutdown => exact congrArg (Prod.mk _) (h.signalShutdown p)
  | advance | run | stopRun => cases other

theorem Steady.act (h : Steady d) {p : Prober} (fresh : d.Fresh p.session) (s : Prober.Step) :
    (d.apply p).act s = ((p.act s).1, d.carry (p.act s).2) := by
  have maintained : (d.apply p).maintained = p.maintained := congrFun h.maintained p.maintained
  cases s with
  | advance ms => exact congrArg (Prod.mk _) (h.advance ms p)
  | run => exact congrArg (Prod.mk _) (h.run p)
  | stopRun =>
    rw [Prober.act, Prober.act, maintained]
    split
    next => exact congrArg (Prod.mk _) (h.shutdown p)
    next => rfl
  | _ => exact h.toLawful.act fresh rfl

theorem Lawful.perform (h : Lawful d) {p q : Prober} {s t : Prober.Step}
    (acted : q.act t = ((p.act s).1, d.carry (p.act s).2))
    (attended : (p.act s).2.2.shutDown = true →
      d.maintained (p.act s).2.2.maintained = (p.act s).2.2.maintained) :
    q.perform t = ((p.perform s).1, d.carry (p.perform s).2) := by
  rw [Prober.perform, Prober.perform, acted]
  simp only [carry, h.settle_prober attended, ← List.map_append]

theorem Steady.perform (h : Steady d) {p : Prober} (fresh : d.Fresh p.session) (s : Prober.Step) :
    (d.apply p).perform s = ((p.perform s).1, d.carry (p.perform s).2) :=
  h.toLawful.perform (h.act fresh s) fun _ => congrFun h.maintained _

theorem Steady.steps (h : Steady d) {p : Prober} (quiet : p.Quiet)
    (fresh : ∀ s, p.session.table.next ≤ s.table.next → d.Fresh s) (ss : List Prober.Step) :
    ((d.apply p).steps ss).2 = d.apply (p.steps ss).2 ∧
      (d.apply p).journal ss = (p.journal ss).map d.mark ∧
        ((d.apply p).steps ss).1.map Prober.Shown.answer =
          (p.steps ss).1.map Prober.Shown.answer := by
  induction ss generalizing p with
  | nil => exact ⟨rfl, rfl, rfl⟩
  | cons s rest ih =>
    obtain ⟨(course : Prober.Course True p _ _), later⟩ := quiet.perform (s := s) fun _ _ => trivial
    have grown : p.session.table.next ≤ (p.perform s).2.2.session.table.next :=
      course.next_le quiet.sound
    obtain ⟨state, journal, answers⟩ := ih later fun s grown' => fresh s (Nat.le_trans grown grown')
    have performed := h.perform (fresh p.session (Nat.le_refl _)) s
    have stepped : ((d.apply p).step s).2 = d.apply (p.step s).2 := by
      rw [Prober.step, performed]
      rfl
    have answered : ((d.apply p).step s).1.answer = (p.step s).1.answer := by
      rw [Prober.step, performed]
      rfl
    refine ⟨?_, ?_, ?_⟩
    · rw [Prober.steps_cons, Prober.steps_cons, stepped]
      exact state
    · rw [Prober.journal, Prober.journal, performed, List.map_append]
      exact congrArg (List.map d.mark (p.perform s).2.1 ++ ·) journal
    · rw [Prober.steps_cons, Prober.steps_cons, stepped, List.map_cons, List.map_cons, answered]
      exact congrArg (List.cons (p.step s).1.answer) answers

end Disguise

end RoundTrip
