import RoundTrip.Proofs.Pending.Withdraw
import RoundTrip.Proofs.Prober.Acknowledgement

/-!
Shutdown is final. It ends every call that is in flight at once, and a prober that is down stays as
it is: it answers requests without calling anybody and matches no delivery.
-/

namespace RoundTrip.Prober

open Journal

variable {config : Config} {collaborators : Collaborators} {past : List Mark} {p q : Prober}
  {s : Step}

/-- A step that shuts the prober down, at once or because its maintenance ends. -/
inductive Shuts (p : Prober) : Step → Prop
  | shutdown : Shuts p .shutdown
  | stopped : p.maintained = true → Shuts p .stopRun
  | signalled : p.maintained = true → Shuts p .signalShutdown
  | late : p.shutDown = true → Shuts p .run

theorem Shuts.fires (h : Shuts p s) : Fires p s := by
  cases h with
  | shutdown => exact .shutdown
  | stopped attended => exact .stopped attended
  | signalled => exact .signal
  | late down => exact .late down

theorem Shuts.act (h : Shuts p s) :
    p.act s = (.none, p.shutdown) ∨ p.maintained = true ∧ p.act s = (.none, p.signalShutdown) := by
  cases h with
  | shutdown => exact .inl rfl
  | stopped attended => exact .inl (by rw [Prober.act, if_pos attended])
  | signalled attended => exact .inr ⟨attended, rfl⟩
  | late down => exact .inl (by rw [Prober.act, run, if_pos down])

/-- The steps, taken back to back: nobody gets to see one of them before the next. -/
def rush (p : Prober) : List Step → Prober
  | [] => p
  | s :: rest => (p.act s).2.2.rush rest

theorem Ready.rush (h : Ready p) {ss : List Step} (prompt : ∀ s ∈ ss, s.isPrompt = true) :
    Ready (p.rush ss) := by
  induction ss generalizing p with
  | nil => exact h
  | cons s rest ih =>
    obtain ⟨(_ : Course True p _ _), ready⟩ :=
      h.act (prompt s List.mem_cons_self) fun _ _ => trivial
    exact ih ready fun s hs => prompt s (List.mem_cons_of_mem _ hs)

theorem configured : Closed fun p _ q => q.config = p.config := by
  constructor
  case composes => exact ⟨fun _ => rfl, fun first second => second.trans first⟩
  case session | flights | unattended | note => intros; rfl
  case deliver =>
    intro p e _
    rw [deliver]
    split <;> rfl

theorem configured_control : Controlled fun p _ q => q.config = p.config :=
  ⟨fun _ => rfl, fun _ => rfl⟩

theorem act_config (p : Prober) (s : Step) : (p.act s).2.2.config = p.config :=
  configured.act s (fun _ => configured_control) (fun _ _ _ _ _ _ => rfl) (fun _ _ _ => rfl) p

theorem perform_config (p : Prober) (s : Step) : (p.perform s).2.2.config = p.config :=
  (configured.settle _).trans (act_config p s)

theorem steps_config (p : Prober) (ss : List Step) : (p.steps ss).2.config = p.config :=
  configured.steps configured_control (fun _ _ _ _ _ => rfl) (fun _ _ => rfl) p ss

theorem rush_config (p : Prober) (ss : List Step) : (p.rush ss).config = p.config := by
  induction ss generalizing p with
  | nil => rfl
  | cons s rest ih => exact (ih _).trans (act_config p s)

/-- The wait of the flight is over; it has only to return its result. -/
def Returning (p : Prober) (f : Flight) (v : Verdict) : Prop :=
  ∃ w outcome, p.session.waiter? f.registration = some w ∧ p.session.ending? w = some outcome ∧
    v = verdict f.toTicket p.now outcome

theorem grounding_returning (p : Prober) (f : Flight) :
    p.grounding f = .error (.execution .shuttingDown) ∨ Returning p f (p.grounding f) := by
  rw [grounding]
  cases finished : (p.session.waiter? f.registration).bind p.session.ending? with
  | none => exact .inl rfl
  | some outcome =>
    obtain ⟨w, found, ends⟩ := Option.bind_eq_some_iff.1 finished
    simp only
    split
    next => exact .inr ⟨w, outcome, found, ends, rfl⟩
    next => exact .inl rfl

theorem Sound.returning_close (h : p.Sound) {f : Flight} {v : Verdict}
    (returning : Returning p.close.2 f v) :
    v = .error (.execution .shuttingDown) ∨ Returning p f v := by
  obtain ⟨w, outcome, found, ends, told⟩ := returning
  have now : p.close.2.now = p.now := close_now p
  have closed : p.close.2.session.waiter? f.registration = (p.session.waiter? f.registration).map
      (Pending.Session.withdrawn (fun _ => true) (.filled .cancelled)) := by
    rw [Prober.close, h.session.close_eq]
    exact p.session.waiter?_withdraw (fun _ => true) (.filled .cancelled) f.registration
  rw [now] at told
  rw [closed] at found
  obtain ⟨v', found', rfl⟩ := Option.map_eq_some_iff.1 found
  rw [Prober.close, h.session.close_eq] at ends
  rw [Pending.Session.withdrawn] at ends
  split at ends
  next =>
    left
    rw [Pending.Session.ending?] at ends
    split at ends
    next => cases ends
    next =>
      obtain rfl := Option.some.inj ends
      exact told
  next => exact .inr ⟨v', outcome, found', ends, told⟩

theorem Sound.calling_not_returning (h : p.Sound) {f : Flight} (hf : f ∈ p.flights)
    (calls : f.phase.isWaiting = false) (v : Verdict) : ¬ Returning p f v := by
  rintro ⟨w, outcome, found, ends, -⟩
  obtain ⟨v, hv, seat⟩ := h.waiter_of_flight hf
  have entry : v.entry = f.entry := congrArg Seat.entry seat
  have number : w.registration = f.registration := by simpa using List.find?_some found
  have same : v = w := h.session.waiter_unique hv (List.mem_of_find?_eq_some found)
    ((congrArg Pending.Entry.registration entry).trans number.symm)
  have waiting : v.waiting = f.phase.isWaiting := congrArg Seat.waiting seat
  rw [calls, same] at waiting
  rw [Pending.Session.ending?, waiting] at ends
  cases ends

/-- Every flight ends at this instant, with a refusal unless its wait was over already. -/
structure EndsAll (p : Prober) (marks : List Mark) : Prop where
  all : (endings marks).map (fun x => (x.1, x.2.1)) = p.tickets.map fun t => (p.now, t)
  verdict : ∀ x ∈ endings marks, x.2.2 = .error (.execution .shuttingDown) ∨
    ∃ f ∈ p.flights, f.toTicket = x.2.1 ∧ Returning p f x.2.2

theorem EndsAll.of_groundings {marks : List Mark} {v : Flight → Verdict}
    (ended : endings marks = p.flights.map fun f => (p.now, f.toTicket, v f))
    (told : ∀ f, v f = .error (.execution .shuttingDown) ∨ Returning p f (v f)) :
    EndsAll p marks := by
  constructor
  case all =>
    rw [ended, List.map_map, tickets, List.map_map]
    rfl
  case verdict =>
    intro x hx
    rw [ended] at hx
    obtain ⟨f, hf, rfl⟩ := List.mem_map.1 hx
    exact (told f).imp_right fun returning => ⟨f, hf, rfl, returning⟩

theorem Ready.shut_ends (h : Ready p) (shuts : Shuts p s) : EndsAll p (p.perform s).2.1 := by
  have marks : (p.perform s).2.1 = (p.act s).2.1 ++ (p.act s).2.2.settle.1 := rfl
  obtain ⟨(_ : Course True p _ _), ready⟩ := h.signalShutdown
  rcases shuts.act with acted | ⟨-, acted⟩ <;> rw [acted] at marks
  · have ended : endings (p.perform s).2.1 = p.flights.map fun f =>
        (p.shutdown.2.now, f.toTicket, p.shutdown.2.grounding f) := by
      rw [marks]
      exact ready.close.sound.settle_endings rfl
    rw [show p.shutdown.2.now = p.now from close_now p.signalShutdown.2] at ended
    refine .of_groundings ended fun f => ?_
    rcases p.shutdown.2.grounding_returning f with shut | returning
    · exact .inl shut
    · exact ready.sound.returning_close returning
  · have ended : endings (p.perform s).2.1 = p.flights.map fun f =>
        (p.now, f.toTicket, p.signalShutdown.2.grounding f) := by
      rw [marks]
      exact ready.sound.settle_endings rfl
    exact .of_groundings ended fun f => p.signalShutdown.2.grounding_returning f

structure Down (p : Prober) : Prop where
  quiet : Quiet p
  down : p.shutDown = true
  unswept : p.session.sweeper = none
  closed : p.session.table.closed = true

theorem Ready.settle_down (h : Ready p) (down : p.shutDown = true)
    (unswept : p.session.sweeper = none)
    (closes : p.maintained = true ∨ p.session.table.closed = true) :
    Down p.settle.2 ∧ p.settle.2.liveness = p.liveness := by
  have quiet := h.settle
  have frame := (h.sound.grounded_moves down).frame h.sound
  obtain ⟨session, flights, same⟩ := p.groundAll_eq p.flights
  have liveness : p.grounded.liveness = p.liveness := by rw [Prober.grounded, same]
  cases attended : p.maintained with
  | true =>
    rw [settle_maintained down attended] at quiet ⊢
    refine ⟨⟨quiet, frame.shutDown.trans down, ?_, ?_⟩, liveness⟩
    · exact p.grounded.close_sweeper.trans (frame.sweeper.trans unswept)
    · rw [close_table]
      rfl
  | false =>
    rw [settle_unmaintained down attended] at quiet ⊢
    have closed := closes.resolve_left (by rw [attended]; decide)
    exact ⟨⟨quiet, frame.shutDown.trans down, frame.sweeper.trans unswept,
      frame.closed.trans closed⟩, liveness⟩

theorem Ready.shut (h : Ready p) (shuts : Shuts p s) :
    Down (p.perform s).2.2 ∧ (p.perform s).2.2.liveness = p.liveness := by
  have state : (p.perform s).2.2 = (p.act s).2.2.settle.2 := rfl
  obtain ⟨(_ : Course True p _ _), ready⟩ := h.signalShutdown
  rcases shuts.act with acted | ⟨attended, acted⟩ <;> rw [state, acted]
  · refine ready.close.settle_down rfl (close_sweeper _) (.inr ?_)
    exact congrArg Pending.Table.closed (close_table _)
  · exact ready.settle_down rfl rfl (.inl attended)

/-- Why a request is turned away once the prober is down, if it gets an answer. -/
def turnedAway (config : Config) (r : ProbeRequest) : Option ProbeError :=
  match Admission.ofEvent config.policy config.pods r.nonce r.event with
  | .error (.invalid error) => some (.validation error)
  | .error .panic => none
  | .ok a => some (.execution (if a.wait = 0 then .timeout a.key 0 else .shuttingDown))

section

variable (h : Down p)
include h

theorem Down.flights : p.flights = [] := (h.quiet.calm h.down).1

theorem Down.unmaintained : p.maintained = false := (h.quiet.calm h.down).2

theorem Down.waiters : p.session.waiters = [] := h.quiet.sound.waiters_nil h.flights

theorem Down.entries : p.session.table.entries = [] := h.quiet.sound.session.closed h.closed

theorem Down.timers : machine.timers p = [] := by
  simp [machine, Pending.Session.timers, h.unswept, h.waiters, h.flights]

theorem Down.find? (key : Key) : p.session.table.find? key = none := by
  rw [Pending.Table.find?, h.entries]
  rfl

theorem Down.deliver (e : Event) : p.deliver e = (false, p) := by
  have unmatched : (p.deliver e).1 = false := by
    rw [Prober.deliver]
    split
    next => rfl
    next key _ => simp only [Pending.Session.resolve, Pending.Session.take, h.find? key]
  exact Prod.ext unmatched (deliver_unmatched unmatched)

theorem Down.signalShutdown : p.signalShutdown = ([.shutDown p.now], p) := by
  have same : ({ p with
      shutDown := true, session := (p.session.stopSweeper false).2 } : Prober) = p := by
    have session : (p.session.stopSweeper false).2 = p.session :=
      congrArg (fun sweeper => { p.session with sweeper }) h.unswept.symm
    rw [session, ← h.down]
  rw [Prober.signalShutdown, same]

theorem Down.shutdown : p.shutdown = ([.shutDown p.now, .sealed p.now], p) := by
  have session : p.session.close.2 = p.session := by
    have table : p.session.table.close = p.session.table := by
      rw [Pending.Table.close, ← h.entries, ← h.closed]
    rw [Pending.Session.close, table, h.entries]
    rfl
  have closed : p.close = ([.sealed p.now], p) := by
    rw [Prober.close, session, ← h.unmaintained]
  rw [Prober.shutdown, h.signalShutdown]
  simp only [closed]
  rfl

theorem Down.refusal? (key : Key) (wait : Duration) :
    p.session.table.refusal? p.session.now key (p.session.now + wait) =
      some (if wait = 0 then .timeout key 0 else .shuttingDown) := by
  rw [Pending.Table.refusal?, h.closed]
  by_cases zero : wait = 0
  · rw [zero, Nat.add_zero, if_pos (Nat.le_refl _), if_pos rfl]
  · have ahead : p.session.now < p.session.now + wait :=
      Nat.lt_add_of_pos_right (Nat.pos_of_ne_zero zero)
    rw [if_neg (Nat.not_le_of_lt ahead), if_neg zero, if_pos rfl]

theorem Down.probe (r : ProbeRequest) :
    ∃ marks q, p.probe r.name r.surface r.event r.nonce = (marks, q) ∧
      marks.filterMap Mark.happening? = ((turnedAway p.config r).map fun error =>
        Happening.ended p.now r.name (r.surface.reply (.error error))).toList ∧
      (q = p ∨ q = p.skipped) := by
  rw [Prober.probe, turnedAway]
  cases Admission.ofEvent p.config.policy p.config.pods r.nonce r.event with
  | error refusal => cases refusal <;> exact ⟨_, p, rfl, rfl, .inl rfl⟩
  | ok a =>
    have refused := register_refused (h.refusal? a.key a.wait) r.name r.surface r.nonce
      (a.probe.effect? r.event)
    exact ⟨_, _, refused, rfl, refuse_eq p _⟩

end

/-- Nothing happened to `p` but that a number was given out or time has passed. -/
inductive Undisturbed (p : Prober) : Prober → Prop
  | same : Undisturbed p p
  | skipped : Undisturbed p p.skipped
  | passed {t : Duration} : p.now ≤ t → Undisturbed p (machine.setNow t p)

theorem Undisturbed.liveness (h : Undisturbed p q) : q.liveness = p.liveness := by cases h <;> rfl

theorem Down.undisturbed (h : Down p) (undisturbed : Undisturbed p q) : Down q := by
  cases undisturbed with
  | same => exact h
  | skipped => exact ⟨h.quiet.skipped, h.down, h.unswept, h.closed⟩
  | passed later =>
    exact ⟨h.quiet.pass later (by simp [h.timers]), h.down, h.unswept, h.closed⟩

section

variable (h : Down p)
include h

theorem Down.undisturbed_probe (name : String) (surface : Surface) (e : Event) (nonce : Nonce) :
    Undisturbed p (p.probe name surface e nonce).2 := by
  obtain ⟨marks, q, probed, -, same⟩ := h.probe ⟨name, surface, e, nonce⟩
  rw [probed]
  rcases same with rfl | rfl
  · exact .same
  · exact .skipped

theorem Down.undisturbed_deliver (e : Event) : Undisturbed p (p.deliver e).2 := by
  rw [h.deliver]
  exact .same

theorem Down.advance (d : Duration) :
    machine.advance d p = ([], machine.setNow (p.now + d) p) := by
  refine Clock.Machine.runTo_over ?_ _
  simp [h.timers]

theorem Down.act (s : Step) : Undisturbed p (p.act s).2.2 := by
  cases s with
  | probe name e nonce => exact h.undisturbed_probe name .direct e nonce
  | httpProbe name r nonce =>
    rw [Prober.act, httpProbe]
    split
    next => exact .same
    next =>
      split
      next => exact .same
      next e _ => exact h.undisturbed_probe name .http e nonce
  | grpcProbe name body nonce =>
    rw [Prober.act, grpcProbe]
    split
    next => exact .same
    next e _ => exact h.undisturbed_probe name .grpc e nonce
  | deliver e => exact h.undisturbed_deliver e
  | httpReceive r =>
    rw [Prober.act, httpReceive]
    split
    next => exact .same
    next =>
      rw [receive]
      split
      next => exact .same
      next =>
        split
        next => exact .same
        next e _ => exact h.undisturbed_deliver e
  | grpcDeliver body =>
    rw [Prober.act, grpcDeliver]
    split
    next => exact .same
    next e _ => exact h.undisturbed_deliver e
  | health | grpcHealth | contains => exact .same
  | expire key =>
    simp only [Prober.act, expire, Pending.Session.expire, Pending.Session.take, h.find? key]
    exact .same
  | advance d =>
    rw [Prober.act, h.advance]
    exact .passed (Nat.le_add_right _ _)
  | cancel name =>
    rw [Prober.act, cancel, h.flights]
    exact .same
  | shutdown =>
    rw [Prober.act, h.shutdown]
    exact .same
  | run =>
    rw [Prober.act, Prober.run, if_pos h.down, h.shutdown]
    exact .same
  | stopRun =>
    rw [Prober.act, h.unmaintained]
    exact .same
  | signalShutdown =>
    rw [Prober.act, h.signalShutdown]
    exact .same

theorem Down.perform (s : Step) : (p.perform s).2 = (p.act s).2 := by
  have rests := (h.undisturbed (h.act s)).quiet.settle
  simp only [Prober.perform, rests, List.append_nil]

theorem Down.step (s : Step) : Down (p.step s).2 ∧ (p.step s).2.liveness = p.liveness := by
  have stepped : (p.step s).2 = (p.act s).2.2 := congrArg Prod.snd (h.perform s)
  rw [stepped]
  exact ⟨h.undisturbed (h.act s), (h.act s).liveness⟩

end

theorem Down.steps (h : Down p) (ss : List Step) :
    Down (p.steps ss).2 ∧ (p.steps ss).2.liveness = p.liveness := by
  induction ss generalizing p with
  | nil => exact ⟨h, rfl⟩
  | cons s rest ih =>
    obtain ⟨down, liveness⟩ := h.step s
    obtain ⟨down', liveness'⟩ := ih down
    exact ⟨down', liveness'.trans liveness⟩

/-- Where a run is over: whatever else is done, `liveness` stays and nobody is let in. -/
structure ShutForGood (config : Config) (liveness : Liveness) (p : Prober) : Prop where
  empty : p.session.table.entries = []
  closed : p.session.table.closed = true
  nobody : p.tickets = []
  liveness : p.liveness = liveness
  requests : ∀ s r, s.request? = some r →
    (p.step s).1.happenings = ((turnedAway config r).map fun error =>
      Happening.ended p.now r.name (r.surface.reply (.error error))).toList
  deliveries : ∀ e, p.deliver e = (false, p)
  again : ∀ s ∈ [.shutdown, .run, .stopRun, .signalShutdown], p.step s = (⟨.none, []⟩, p)

theorem Down.shutForGood (h : Down p) : ShutForGood p.config p.liveness p := by
  constructor
  case empty => exact h.entries
  case closed => exact h.closed
  case nobody => rw [tickets, h.flights]; rfl
  case liveness => rfl
  case requests =>
    intro s r request
    obtain ⟨marks, q, probed, shown, -⟩ := h.probe r
    have noted : (p.perform s).2.1 = marks := by rw [h.perform, act_request request, probed]
    rw [← shown, ← noted]
    rfl
  case deliveries => exact h.deliver
  case again =>
    intro s again
    have acted : ∃ marks, p.act s = (.none, marks, p) ∧ marks.filterMap Mark.happening? = [] := by
      simp only [List.mem_cons, List.not_mem_nil, or_false] at again
      rcases again with rfl | rfl | rfl | rfl
      · exact ⟨_, by rw [Prober.act, h.shutdown], rfl⟩
      · exact ⟨_, by rw [Prober.act, Prober.run, if_pos h.down, h.shutdown], rfl⟩
      · exact ⟨_, by rw [Prober.act, h.unmaintained]; rfl, rfl⟩
      · exact ⟨_, by rw [Prober.act, h.signalShutdown], rfl⟩
    obtain ⟨marks, acted, unseen⟩ := acted
    rw [step_of_act acted h.quiet, unseen]

/-- The prober `q` is shut down by the step `s`. -/
structure Final (config : Config) (q : Prober) (s : Step) : Prop where
  ended : EndsAll q (q.perform s).2.1
  /-- That a call was delivered to does not help it while its collaborator has not answered. -/
  calling : ∀ f ∈ q.flights, f.phase.isWaiting = false → ∀ v, ¬ Returning q f v
  afterwards : ∀ after, ShutForGood config q.liveness ((q.perform s).2.2.steps after).2

def maintainedRun : List Step :=
  [.run, .probe "a" (creation "1") 0, .deliver creationReport,
    tickRequest "b" "3" { value := 1, outcomeFirst := true }, .advance Duration.second]

def hangingTicket : Ticket := ⟨"a", .direct, .pods .create, 0, 2 * Duration.minute, 0⟩

def waitingTicket : Ticket := ⟨"b", .direct, .scheduler, 1, 2 * Duration.minute, 0⟩

end RoundTrip.Prober
