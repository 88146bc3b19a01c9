import RoundTrip.Proofs.Clock
import RoundTrip.Proofs.Prober.Request

/-!
What everything that a prober does keeps. A relation of two states and of the marks between them is
proved for the few changes that the prober's functions are made of; that each function keeps it
follows.
-/

namespace RoundTrip

def Mark.isNote : Mark → Bool
  | .registered _ _ | .called _ _ _ | .delivered _ _ _ _ _ | .shutDown _ => false
  | .rejected _ _ _ | .panicked _ _ | .refused _ _ _ _ | .expired _ _ | .answered _ _ _
  | .brokenOff _ _ | .ended _ _ _ | .dropped _ _ | .sealed _ => true

namespace Prober

def Step.isControl : Step → Bool
  | .shutdown | .run | .stopRun | .signalShutdown => true
  | _ => false

/-- A relation that composes and cares for nothing but registrations, calls, deliveries and the
shutdown signal. -/
structure Closed (R : Prober → List Mark → Prober → Prop) : Prop where
  composes : Clock.Machine.Composes R
  session : ∀ p session, R p [] { p with session }
  flights : ∀ p flights, R p [] { p with flights }
  unattended : ∀ p, p.shutDown = true → R p [] { p with maintained := false }
  note : ∀ p (m : Mark), m.isNote = true → R p [m] p
  deliver : ∀ p e byCollaborator, R p [p.delivery e byCollaborator] (p.deliver e).2

structure Controlled (R : Prober → List Mark → Prober → Prop) : Prop where
  signal : ∀ p, R p [.shutDown p.now] { p with shutDown := true }
  maintain : ∀ p, R p [] { p with maintained := true }

variable {R : Prober → List Mark → Prober → Prop} {p q r : Prober} {a b : List Mark}

namespace Closed

variable (h : Closed R)
include h

theorem refl (p : Prober) : R p [] p := h.composes.refl p

theorem trans (first : R p a q) (second : R q b r) : R p (a ++ b) r :=
  h.composes.trans first second

theorem after (change : R p [] q) (rest : R q b r) : R p b r := h.trans change rest

theorem before (first : R p a q) (change : R q [] r) : R p a r := by
  simpa using h.trans first change

theorem deliverAll (p : Prober) (es : List Event) :
    R p (p.deliverAll es).1 (p.deliverAll es).2 := by
  induction es generalizing p with
  | nil => exact h.refl p
  | cons e es ih => exact h.trans (h.deliver p e true) (ih _)

theorem release (p : Prober) (f : Flight) : R p [] (p.release f) := by
  rw [Prober.release, leave]
  split
  next => exact h.flights p _
  next w _ => exact h.trans (h.session p (p.session.leave w)) (h.flights _ _)

theorem abandon (p : Prober) (f : Flight) (v : Verdict) :
    R p (p.abandon f v).1 (p.abandon f v).2 :=
  h.trans (h.note p (.ended p.now f.toTicket v) rfl) (h.release p f)

theorem setPhase (p : Prober) (f : Flight) (phase : Flight.Phase) : R p [] (p.setPhase f phase) :=
  h.flights p _

theorem beginWait (p : Prober) (f : Flight) : R p [] (p.beginWait f) :=
  h.trans (h.session p _) (h.setPhase _ f .waiting)

theorem answer (p : Prober) (f : Flight) (effect : Effect) (conduct : Conduct) :
    R p (p.answer f effect conduct).1 (p.answer f effect conduct).2 := by
  have delivered := h.deliverAll p (conduct.deliveries p.topics effect)
  have answered (q : Prober) (failure : Option TriggerError) :
      R q [.answered q.now f.registration failure] q := h.note q _ rfl
  rw [Prober.answer]
  cases conduct.failure with
  | none => exact h.trans delivered (h.before (answered _ _) (h.beginWait _ f))
  | some error =>
    simp only [List.append_assoc]
    exact h.trans delivered (h.trans (answered _ _) (h.abandon _ f _))

theorem land (p : Prober) (es : List Pending.Ending) : R p (p.land es).1 (p.land es).2 := by
  induction es generalizing p with
  | nil => exact h.refl p
  | cons e rest ih =>
    rw [Prober.land]
    split
    next => exact ih p
    next f _ =>
      have dropped : R p [] (p.dropFlight f.registration) := h.flights p _
      exact h.trans (h.note p _ rfl) (h.trans dropped (ih _))

theorem groundAll (p : Prober) (fs : List Flight) : R p (p.groundAll fs).1 (p.groundAll fs).2 := by
  induction fs generalizing p with
  | nil => exact h.refl p
  | cons f rest ih => exact h.trans (h.abandon p f (p.grounding f)) (ih _)

theorem close {p : Prober} (down : p.shutDown = true) : R p p.close.1 p.close.2 := by
  let p₁ : Prober := { p with maintained := false }
  have unattended : R p [] p₁ := h.unattended p down
  have closed : R p₁ [] p.close.2 := h.session p₁ p.session.close.2
  exact h.trans (h.note p (.sealed p.now) rfl) (h.before unattended closed)

theorem retire {p : Prober} (down : p.shutDown = true) : R p p.retire.1 p.retire.2 := by
  rw [Prober.retire]
  split
  next => exact h.close down
  next => exact h.refl p

theorem settle (p : Prober) : R p p.settle.1 p.settle.2 := by
  cases down : p.shutDown with
  | true =>
    obtain ⟨session, flights, same⟩ := p.groundAll_eq p.flights
    have down' : p.grounded.shutDown = true := by rw [Prober.grounded, same, down]
    rw [settle_down down]
    exact h.trans (h.groundAll p p.flights) (h.retire down')
  | false =>
    rw [settle_up down]
    exact h.after (h.session p p.session.settle.2) (h.land _ p.session.settle.1)

theorem answerDue (p : Prober) (fs : List Flight) :
    R p (p.answerDue fs).1 (p.answerDue fs).2 := by
  induction fs generalizing p with
  | nil => exact h.refl p
  | cons f rest ih =>
    rw [answerDue.eq_def]
    simp only
    split
    next effect conduct due _ =>
      split
      next => exact h.trans (h.answer p f effect conduct) (ih _)
      next => exact ih p
    next => exact ih p

theorem breakOff (p : Prober) (fs : List Flight) : R p (p.breakOff fs).1 (p.breakOff fs).2 := by
  induction fs generalizing p with
  | nil => exact h.refl p
  | cons f rest ih =>
    rw [breakOff.eq_def]
    simp only
    split
    next =>
      split
      next => exact h.trans (h.note p _ rfl) (h.trans (h.beginWait p f) (ih _))
      next => exact ih p
    next => exact ih p

theorem wake (p : Prober) : R p p.wake.1 p.wake.2 := by
  let p₁ : Prober := { p with session := p.session.runSweeper }
  let p₂ := (p₁.answerDue p₁.flights).2
  have woken := h.trans (h.answerDue p₁ p₁.flights) (h.breakOff p₂ p₂.flights)
  exact h.after (h.session p p.session.runSweeper) (h.trans woken (h.settle _))

theorem advance (d : Duration) (p : Prober) :
    R p (machine.advance d p).1 (machine.advance d p).2 := by
  refine (Clock.Machine.advance_closed h.composes (I := fun _ => True) ?setNow ?wake d p
    trivial).2
  case setNow => exact fun t p _ => ⟨trivial, h.session p { p.session with now := t }⟩
  case wake => exact fun p _ => ⟨trivial, h.wake p⟩

theorem cancel (p : Prober) (name : String) : R p (p.cancel name).1 (p.cancel name).2 := by
  rw [Prober.cancel]
  split
  next => exact h.refl p
  next f _ => exact h.trans (h.note p _ rfl) (h.release p f)

theorem expire (p : Prober) (key : Key) :
    R p [.expired p.now (p.session.table.find? key)] (p.expire key).2 :=
  h.trans (h.note p _ rfl) (h.session p _)

theorem receive (p : Prober) (r : HttpRequest) :
    R p (p.httpReceive r).2.1 (p.httpReceive r).2.2 := by
  rw [httpReceive]
  split
  next => exact h.refl p
  next =>
    rw [Prober.receive]
    split
    next => exact h.refl p
    next =>
      split
      next => exact h.refl p
      next e _ => exact h.deliver p e false

section Control

variable (control : Controlled R)
include control

theorem signalShutdown (p : Prober) : R p p.signalShutdown.1 p.signalShutdown.2 :=
  h.before (control.signal p) (h.session { p with shutDown := true } _)

theorem shutdown (p : Prober) : R p p.shutdown.1 p.shutdown.2 :=
  h.trans (h.signalShutdown control p) (h.close rfl)

theorem run (p : Prober) : R p p.run.1 p.run.2 := by
  rw [Prober.run]
  split
  next => exact h.shutdown control p
  next =>
    let p₁ : Prober := { p with maintained := true }
    let p₂ : Prober := { p₁ with session := p.session.startSweeper p.config.sweep }
    have started : R p₁ [] p₂ := h.session p₁ _
    exact h.after (control.maintain p) (h.after started (h.wake p₂))

end Control

section Calls

variable (calls : ∀ p registration effect collaborators topics,
  R p [.called p.now registration effect] { p with collaborators, topics })
include calls

theorem trigger (p : Prober) (f : Flight) (effect : Effect) :
    R p (p.trigger f effect).1 (p.trigger f effect).2 := by
  rw [Prober.trigger]
  split
  next => exact h.trans (h.note p _ rfl) (h.abandon p f _)
  next script _ =>
    have called := calls p f.registration effect
      (p.collaborators.set effect.collaborator (Conduct.next script).2)
      (p.topics ++ effect.createdTopic?.toList)
    simp only
    split
    next => exact h.trans called (h.answer _ f effect _)
    next => exact h.trans called (h.setPhase _ f _)

theorem depart (p : Prober) (f : Flight) (effect : Option Effect) :
    R p (p.depart f effect).1 (p.depart f effect).2 := by
  cases effect with
  | none => exact h.beginWait p f
  | some effect => exact h.trigger calls p f effect

theorem launch (p : Prober) (f : Flight) (effect : Option Effect) :
    R p (p.launch f effect).1 (p.launch f effect).2 := by
  rw [launch.eq_def]
  split
  next => exact h.depart calls p f effect
  next =>
    split
    next => exact h.trans (h.depart calls p f effect) (h.groundAll _ _)
    next => exact h.abandon p f _

variable (enters : ∀ p t, R p [.registered p.now t] p)
include enters

theorem enter (p : Prober) (session : Pending.Session) (t : Ticket) (nonce : Nonce)
    (effect : Option Effect) :
    R p (p.enter session t nonce effect).1 (p.enter session t nonce effect).2 := by
  let p₁ : Prober := { p with session }
  let p₂ : Prober := { p₁ with flights := p.flights ++ [⟨t, nonce, .registered⟩] }
  have entered : R p [.registered p.now t] p₁ :=
    h.trans (enters p t) (h.session p session)
  have seated : R p₁ [] p₂ := h.flights p₁ _
  exact h.trans entered (h.trans seated (h.launch calls p₂ _ effect))

theorem probe (p : Prober) (name : String) (surface : Surface) (e : Event) (nonce : Nonce) :
    R p (p.probe name surface e nonce).1 (p.probe name surface e nonce).2 := by
  rw [Prober.probe]
  split
  next => exact h.note p _ rfl
  next => exact h.note p _ rfl
  next a _ =>
    rw [register]
    split
    next error _ => exact h.trans (h.note p _ rfl) (h.session p (p.session.refuse error))
    next session _ => exact h.enter calls enters p session _ nonce _

end Calls

theorem act (s : Step)
    (control : s.isControl = true → Controlled R)
    (calls : s.request?.isSome = true → ∀ p registration effect collaborators topics,
      R p [.called p.now registration effect] { p with collaborators, topics })
    (enters : s.request?.isSome = true → ∀ p t, R p [.registered p.now t] p) (p : Prober) :
    R p (p.act s).2.1 (p.act s).2.2 := by
  cases request : s.request? with
  | some r =>
    have requests : s.request?.isSome = true := by rw [request]; rfl
    rw [act_request request]
    exact h.probe (calls requests) (enters requests) p _ _ _ _
  | none =>
    cases s with
    | probe => cases request
    | httpProbe name r nonce =>
      rw [Prober.act, httpProbe]
      rw [Step.request?] at request
      split
      next => exact h.note p _ rfl
      next fits =>
        split
        next => exact h.note p _ rfl
        next decoded => simp [fits, decoded, Except.toOption] at request
    | grpcProbe name body nonce =>
      rw [Prober.act, grpcProbe]
      rw [Step.request?] at request
      split
      next => exact h.note p _ rfl
      next decoded => simp [decoded, Except.toOption] at request
    | deliver e => exact h.deliver p e false
    | httpReceive r => exact h.receive p r
    | grpcDeliver body =>
      rw [Prober.act, grpcDeliver]
      split
      next => exact h.refl p
      next e _ => exact h.deliver p e false
    | health | grpcHealth | contains => exact h.refl p
    | expire key => exact h.expire p key
    | advance d => exact h.advance d p
    | cancel name => exact h.cancel p name
    | shutdown => exact h.shutdown (control rfl) p
    | run => exact h.run (control rfl) p
    | stopRun =>
      rw [Prober.act]
      split
      next => exact h.shutdown (control rfl) p
      next => exact h.refl p
    | signalShutdown => exact h.signalShutdown (control rfl) p

theorem perform (s : Step)
    (control : s.isControl = true → Controlled R)
    (calls : s.request?.isSome = true → ∀ p registration effect collaborators topics,
      R p [.called p.now registration effect] { p with collaborators, topics })
    (enters : s.request?.isSome = true → ∀ p t, R p [.registered p.now t] p) (p : Prober) :
    R p (p.perform s).2.1 (p.perform s).2.2 :=
  h.trans (h.act s control calls enters p) (h.settle _)

theorem steps (control : Controlled R)
    (calls : ∀ p registration effect collaborators topics,
      R p [.called p.now registration effect] { p with collaborators, topics })
    (enters : ∀ p t, R p [.registered p.now t] p) (p : Prober) (ss : List Step) :
    R p (p.journal ss) (p.steps ss).2 := by
  induction ss generalizing p with
  | nil => exact h.refl p
  | cons s rest ih =>
    exact h.trans (h.perform s (fun _ => control) (fun _ => calls) (fun _ => enters) p) (ih _)

end Closed

end Prober

end RoundTrip
