import RoundTrip.Proofs.Prober.Shutdown
import RoundTrip.Proofs.Prober.Sweepless

/-!
The sweeper changes no result. A run without it is the same run, unless a delivery for a call comes
at the very instant at which the call runs out of time and a sweep comes by.
-/

namespace RoundTrip

/-- What happened, wherever the table was closed in the course of it. -/
def Journal.unsealed (j : List Mark) : List Mark := j.filter fun m => !m.isSealed

open Journal

theorem Journal.unsealed_append (j k : List Mark) : unsealed (j ++ k) = unsealed j ++ unsealed k :=
  List.filter_append ..

theorem Journal.happenings_unsealed (j : List Mark) :
    (unsealed j).filterMap Mark.happening? = j.filterMap Mark.happening? := by
  rw [unsealed, List.filterMap_filter]
  congr 1
  funext m
  cases m <;> rfl

namespace Prober

variable {p q : Prober} {s : Step} {ss ts : List Step} {interval : Duration}

structure Watch where
  maintained : Bool := false
  down : Bool := false

namespace Watch

def after (w : Watch) : Step → Watch
  | .run => if w.down then ⟨false, true⟩ else ⟨true, false⟩
  | .stopRun => if w.maintained then ⟨false, true⟩ else w
  | .shutdown | .signalShutdown => ⟨false, true⟩
  | _ => w

/-- What is done in place of a step when nobody maintains the prober. Whoever does has to shut it
down in the end, and that is still done. -/
def instead (w : Watch) : Step → Step
  | .run => if w.down then .shutdown else .advance 0
  | .stopRun => if w.maintained then .shutdown else .stopRun
  | .signalShutdown => if w.maintained then .shutdown else .signalShutdown
  | s => s

def unmaintained (w : Watch) : List Step → List Step
  | [] => []
  | s :: rest => w.instead s :: (w.after s).unmaintained rest

end Watch

def watch (p : Prober) : Watch := ⟨p.maintained, p.shutDown⟩

def Attended (p : Prober) (_ : List Mark) (q : Prober) : Prop :=
  q.shutDown = p.shutDown ∧
    (q.maintained = p.maintained ∨ p.shutDown = true ∧ q.maintained = false)

theorem Attended.closed : Closed Attended := by
  constructor
  case composes =>
    refine ⟨fun _ => ⟨rfl, .inl rfl⟩, fun first second => ⟨second.1.trans first.1, ?_⟩⟩
    rcases second.2 with same | ⟨down, ended⟩
    · rw [same]
      exact first.2
    · exact .inr ⟨first.1.symm.trans down, ended⟩
  case session | flights | note => exact fun _ _ => by simp [Attended]
  case unattended => exact fun p down => ⟨rfl, .inr ⟨down, rfl⟩⟩
  case deliver =>
    intro p e _
    rw [deliver]
    split <;> exact ⟨rfl, .inl rfl⟩

theorem Attended.watch {marks : List Mark} (h : Attended p marks q) (calm : Calm p) :
    q.watch = p.watch := by
  have maintained : q.maintained = p.maintained := by
    rcases h.2 with same | ⟨down, ended⟩
    · exact same
    · rw [ended, (calm down).2]
  rw [Prober.watch, maintained, h.1, Prober.watch]

theorem act_attended (other : s.isControl = false) (p : Prober) :
    Attended p (p.act s).2.1 (p.act s).2.2 := by
  refine Attended.closed.act s ?control ?calls ?enters p
  case control =>
    rw [other]
    nofun
  case calls | enters => intros; exact ⟨rfl, .inl rfl⟩

theorem Quiet.watch_down (h : Quiet p) (down : p.shutDown = true) : p.watch = ⟨false, true⟩ := by
  rw [watch, (h.calm down).2, down]

theorem Quiet.perform_watch (h : Quiet p) (s : Step) :
    (p.perform s).2.2.watch = p.watch.after s := by
  obtain ⟨(_ : Course True p _ _), quiet⟩ := h.perform (s := s) fun _ _ => trivial
  have settled : Attended (p.act s).2.2 _ (p.perform s).2.2 := Attended.closed.settle _
  have fired (fires : Fires p s) : (p.perform s).2.2.watch = ⟨false, true⟩ := by
    refine quiet.watch_down (settled.1.trans ?_)
    rcases fires.act with acted | acted <;> rw [acted] <;> rfl
  cases control : s.isControl with
  | false =>
    have same := (Attended.closed.composes.trans (act_attended control p) settled).watch h.calm
    cases s with
    | shutdown | run | stopRun | signalShutdown => cases control
    | _ => exact same
  | true =>
    cases s with
    | shutdown => exact fired .shutdown
    | signalShutdown => exact fired .signal
    | stopRun =>
      rw [Watch.after]
      split
      next attended => exact fired (.stopped attended)
      next unattended =>
        have acted : p.act .stopRun = (.none, [], p) :=
          congrArg (Prod.mk Answer.none) (if_neg unattended)
        rw [perform_of_act acted h]
    | run =>
      rw [Watch.after]
      split
      next down => exact fired (.late down)
      next up =>
        have acted : p.act .run = (.none, p.maintain.wake) := by
          rw [Prober.act, run_up (Bool.not_eq_true _ ▸ up)]
        rw [acted] at settled
        have woken := Attended.closed.composes.trans (Attended.closed.wake p.maintain) settled
        have started : p.maintain.watch = ⟨true, p.shutDown⟩ := rfl
        have still : p.shutDown = false := Bool.eq_false_of_not_eq_true up
        rw [woken.watch fun down => absurd down up, started, still]
    | _ => cases control

theorem groundAll_next (p : Prober) (fs : List Flight) :
    (p.groundAll fs).2.session.table.next = p.session.table.next := by
  induction fs generalizing p with
  | nil => rfl
  | cons f rest ih =>
    refine (ih (p.release f)).trans ?_
    rw [release, leave]
    split <;> rfl

theorem close_next (p : Prober) : p.close.2.session.table.next = p.session.table.next := by
  rw [close_table]
  rfl

theorem Down.session_eq (h : Down p) : p.session =
    { now := p.now, table := { closed := true, next := p.session.table.next } } := by
  have table : p.session.table = { closed := true, next := p.session.table.next } := by
    rw [← h.closed, ← h.entries]
  rw [now, ← table, ← h.waiters, ← h.unswept]

theorem Down.eq (h : Down p) (k : Down q) (now : q.now = p.now)
    (next : q.session.table.next = p.session.table.next)
    (same : { p with session := q.session, flights := q.flights } = q) : q = p := by
  have session : q.session = p.session := by
    rw [k.session_eq, h.session_eq, now, next]
  rw [session, k.flights, ← h.flights] at same
  exact same.symm

theorem Doomed.unsealed_settle (h : Doomed p) (sound : p.Sound) (down : p.shutDown = true) :
    unsealed p.settle.1 =
      p.tickets.map fun t => .ended p.now t (.error (.execution .shuttingDown)) := by
  have retired : unsealed p.grounded.retire.1 = [] := by
    rw [retire]
    split <;> rfl
  have grounded : (p.groundAll p.flights).1 =
      p.flights.map fun f => .ended p.now f.toTicket (.error (.execution .shuttingDown)) := by
    rw [groundAll_marks (sound.flights_ordered.imp Nat.ne_of_lt)]
    simp only [h.grounding]
  rw [settle_down down, unsealed_append, retired, List.append_nil, grounded, tickets, List.map_map,
    unsealed, List.filter_eq_self.2]
  · rfl
  · simp [Mark.isSealed]

theorem Quiet.signal_shuts_state (h : Quiet p) (attended : p.maintained = true) :
    (p.perform .signalShutdown).2.2 = (p.perform .shutdown).2.2 := by
  let p₁ := p.signalShutdown.2
  let p₂ := p.shutdown.2
  obtain ⟨(_ : Course True p _ _), ready⟩ := h.toReady.signalShutdown
  have sound₁ : p₁.Sound := ready.sound
  have sound₂ : p₂.Sound := ready.close.sound
  have state₁ : (p.perform .signalShutdown).2.2 = p₁.grounded.close.2 :=
    settle_maintained (p := p₁) rfl attended
  have state₂ : (p.perform .shutdown).2.2 = p₂.grounded :=
    settle_unmaintained (p := p₂) rfl rfl
  have down₁ := (h.toReady.shut (.signalled attended)).1
  have down₂ := (h.toReady.shut .shutdown).1
  refine down₂.eq down₁ ?now ?next ?same
  case now =>
    have now : p₂.now = p₁.now := close_now p₁
    rw [state₁, state₂, close_now, ((sound₁.grounded_moves rfl).frame sound₁).now,
      ((sound₂.grounded_moves rfl).frame sound₂).now, now]
  case next =>
    rw [state₁, state₂, close_next, grounded, groundAll_next, grounded, groundAll_next]
    exact (close_next p₁).symm
  case same =>
    obtain ⟨session₁, flights₁, grounded₁⟩ : ∃ session flights,
        p₁.grounded = { p₁ with session, flights } := p₁.groundAll_eq p₁.flights
    obtain ⟨session₂, flights₂, grounded₂⟩ : ∃ session flights,
        p₂.grounded = { p₂ with session, flights } := p₂.groundAll_eq p₂.flights
    rw [state₁, state₂, close, grounded₁, grounded₂]
    rfl

theorem Quiet.signal_shuts_unsealed (h : Quiet p) :
    unsealed (p.perform .signalShutdown).2.1 = unsealed (p.perform .shutdown).2.1 := by
  let p₁ := p.signalShutdown.2
  let p₂ := p.shutdown.2
  obtain ⟨(_ : Course True p _ _), ready⟩ := h.toReady.signalShutdown
  have signalled : Doomed p₁ := h.signalled_doomed
  have closed : Doomed p₂ := signalled.close ready.sound
  have now : p₂.now = p₁.now := close_now p₁
  have left := signalled.unsealed_settle ready.sound rfl
  have right := closed.unsealed_settle ready.close.sound rfl
  rw [now] at right
  have marks₁ : (p.perform .signalShutdown).2.1 = [.shutDown p.now] ++ p₁.settle.1 := rfl
  have marks₂ : (p.perform .shutdown).2.1 =
      [.shutDown p.now, .sealed p₁.now] ++ p₂.settle.1 := rfl
  rw [marks₁, marks₂, unsealed_append, unsealed_append, left, right]
  rfl

theorem Quiet.advance_zero (h : Quiet p) : machine.advance 0 p = ([], p) :=
  Clock.Machine.runTo_over h.timers_ahead 1

theorem Quiet.act_unswept (h : Quiet p) (interval : Duration)
    (spared : s = .signalShutdown → p.maintained = false)
    (apart : ∀ x ∈ deliveries (p.act s).2.1, p.ApartAt s x) :
    ((sweepless interval).apply p).act (p.watch.instead s) =
      ((p.act s).1, (sweepless interval).carry (p.act s).2) := by
  have lawful := sweepless_lawful interval
  have shutdown : ((sweepless interval).apply p).act .shutdown =
      (.none, (sweepless interval).carry p.shutdown) :=
    congrArg (Prod.mk _) (lawful.shutdown p)
  cases s with
  | advance d => exact congrArg (Prod.mk _) (h.advance_unswept d interval apart)
  | run =>
    have instead : p.watch.instead .run = if p.shutDown = true then .shutdown else .advance 0 := rfl
    rw [instead, Prober.act]
    cases down : p.shutDown with
    | true =>
      rw [Prober.run, if_pos down]
      exact shutdown
    | false =>
      have rests := (h.unswept interval).advance_zero
      rw [run_up down]
      exact congrArg (Prod.mk _) (rests.trans (h.maintain_unswept down interval).symm)
  | stopRun =>
    have instead : p.watch.instead .stopRun =
        if p.maintained = true then .shutdown else .stopRun := rfl
    rw [instead, Prober.act]
    split
    next => exact shutdown
    next => rfl
  | signalShutdown =>
    have instead : p.watch.instead .signalShutdown =
        if p.maintained = true then .shutdown else .signalShutdown := rfl
    rw [instead, if_neg (by rw [spared rfl]; decide)]
    exact lawful.act (sweepless_fresh interval _) rfl
  | _ => exact lawful.act (sweepless_fresh interval _) rfl

theorem Quiet.act_unmaintained (h : Quiet p) (spared : s = .signalShutdown → p.maintained = false)
    (down : (p.act s).2.2.shutDown = true) : (p.act s).2.2.maintained = false := by
  cases control : s.isControl with
  | false =>
    have attended := act_attended control p
    have same : (p.act s).2.2.maintained = p.maintained :=
      congrArg Watch.maintained (attended.watch h.calm)
    rw [same, (h.calm (attended.1.symm.trans down)).2]
  | true =>
    cases s with
    | shutdown => rfl
    | signalShutdown => exact spared rfl
    | stopRun =>
      rw [Prober.act] at down ⊢
      split at down
      next attended => rw [if_pos attended]; rfl
      next unattended => rw [if_neg unattended]; exact Bool.eq_false_of_not_eq_true unattended
    | run =>
      rw [Prober.act] at down ⊢
      cases before : p.shutDown with
      | true => rw [Prober.run, if_pos before]; rfl
      | false =>
        have woken := (Attended.closed.wake p.maintain).1
        rw [run_up before, woken] at down
        exact absurd (before.symm.trans down) (by decide)
    | _ => cases control

theorem Quiet.perform_unswept (h : Quiet p) (interval : Duration)
    (apart : ∀ x ∈ deliveries (p.perform s).2.1, p.ApartAt s x) :
    ∃ marks, ((sweepless interval).apply p).perform (p.watch.instead s) =
        ((p.perform s).1, marks, (sweepless interval).apply (p.perform s).2.2) ∧
      unsealed marks = unsealed (p.perform s).2.1 := by
  have lawful := sweepless_lawful interval
  -- a signal that ends maintenance closes the table too, and without maintenance somebody else does
  by_cases ended : s = .signalShutdown ∧ p.maintained = true
  · obtain ⟨rfl, attended⟩ := ended
    have state := h.signal_shuts_state attended
    have marks := h.signal_shuts_unsealed
    have instead : p.watch.instead .signalShutdown = .shutdown := if_pos attended
    have acted : ((sweepless interval).apply p).act .shutdown =
        ((p.act .shutdown).1, (sweepless interval).carry (p.act .shutdown).2) :=
      lawful.act (sweepless_fresh interval _) rfl
    have performed := lawful.perform acted fun _ => rfl
    rw [(sweepless_plain interval).carry_eq, ← state] at performed
    rw [instead]
    exact ⟨_, performed, marks.symm⟩
  · have spared : s = .signalShutdown → p.maintained = false :=
      fun signal => Bool.eq_false_of_not_eq_true fun attended => ended ⟨signal, attended⟩
    have acted := h.act_unswept interval spared fun x hx => apart x (by
      rw [Prober.perform, deliveries_append]
      exact List.mem_append_left _ hx)
    have performed := lawful.perform acted fun down => (h.act_unmaintained spared down).symm
    rw [(sweepless_plain interval).carry_eq] at performed
    exact ⟨_, performed, rfl⟩

/-- No probe in flight gets a delivery at an instant that has both its deadline and a sweep. -/
def Apart (p : Prober) : List Step → Prop
  | [] => True
  | s :: rest =>
    (∀ x ∈ deliveries (p.perform s).2.1, p.ApartAt s x) ∧ (p.step s).2.Apart rest

/-- No probe in flight gets a delivery at the instant of its deadline at all. -/
def offDeadlines (p : Prober) : List Step → Bool
  | [] => true
  | s :: rest =>
    ((deliveries (p.perform s).2.1).all fun x => p.tickets.all fun t =>
      !(Delivered.key? x.2 == some t.key && t.deadline.tick == x.1)) &&
      (p.step s).2.offDeadlines rest

theorem Apart.of_offDeadlines (off : p.offDeadlines ss = true) : p.Apart ss := by
  induction ss generalizing p with
  | nil => trivial
  | cons s rest ih =>
    rw [offDeadlines, Bool.and_eq_true] at off
    refine ⟨?_, ih off.2⟩
    intro x hx _ t ht keyed due
    have clear := List.all_eq_true.1 (List.all_eq_true.1 off.1 x hx) t ht
    simp [keyed, due] at clear

/-- Two runs that show the same, do the same and end in the same health. -/
structure Alike (p : Prober) (ss : List Step) (q : Prober) (ts : List Step) : Prop where
  shown : (p.steps ss).1 = (q.steps ts).1
  journal : unsealed (p.journal ss) = unsealed (q.journal ts)
  health : (p.steps ss).2.health = (q.steps ts).2.health

theorem Alike.symm (h : Alike p ss q ts) : Alike q ts p ss :=
  ⟨h.shown.symm, h.journal.symm, h.health.symm⟩

theorem Alike.trans {r : Prober} {us : List Step} (h : Alike p ss q ts)
    (k : Alike q ts r us) : Alike p ss r us :=
  ⟨h.shown.trans k.shown, h.journal.trans k.journal, h.health.trans k.health⟩

theorem Quiet.steps_unswept (h : Quiet p) (interval : Duration) (apart : p.Apart ss) :
    Alike p ss ((sweepless interval).apply p) (p.watch.unmaintained ss) := by
  induction ss generalizing p with
  | nil => exact ⟨rfl, rfl, rfl⟩
  | cons s rest ih =>
    obtain ⟨(_ : Course True p _ _), later⟩ := h.perform (s := s) fun _ _ => trivial
    obtain ⟨first, others⟩ := apart
    obtain ⟨marks, performed, same⟩ := h.perform_unswept interval first
    have stepped : ((sweepless interval).apply p).step (p.watch.instead s) =
        ((p.step s).1, (sweepless interval).apply (p.step s).2) := by
      rw [step, performed]
      simp only [step, ← happenings_unsealed marks, same, happenings_unsealed]
    have run : p.watch.unmaintained (s :: rest) =
        p.watch.instead s :: (p.step s).2.watch.unmaintained rest :=
      congrArg (fun w => p.watch.instead s :: Watch.unmaintained w rest) (h.perform_watch s).symm
    obtain ⟨shown, journal, health⟩ := ih later others
    rw [run]
    constructor
    case shown =>
      rw [steps_cons, steps_cons, stepped]
      exact congrArg (List.cons (p.step s).1) shown
    case journal =>
      rw [Prober.journal, Prober.journal, performed, unsealed_append, unsealed_append, same]
      exact congrArg (unsealed (p.perform s).2.1 ++ ·) journal
    case health =>
      rw [steps_cons, steps_cons, stepped]
      exact health

def dragging (sweep : Duration) : Prober :=
  { config := { sweep }
    collaborators := fun _ => some [
      { delay := some (1500 * Duration.millisecond)
        deliveries := fun _ _ => [creationReport] },
      { delay := none }]
    liveness := { stale := Config.stale {} } }

def draggingRun : List Step :=
  [.advance (300 * Duration.microsecond), .run, .probe "a" (creation "1") 0,
    .advance (3 * Duration.second), .probe "b" (creation "3") 1, .advance (2 * Duration.minute),
    .advance Duration.millisecond, .health, .signalShutdown]

/-- The pod is reported at the deadline, when the sweeper comes by as well. -/
def racing : Prober :=
  { hanging with
    collaborators := fun _ => some [
      { delay := some (2 * Duration.minute), deliveries := fun _ _ => [creationReport] }] }

example :
    let ss := [.run, .probe "a" (creation "1") { value := 0, answerFirst := true },
      .advance (2 * Duration.minute)]
    ¬ Alike racing ss racing (Watch.unmaintained {} ss) :=
  fun alike => absurd alike.health (by decide +kernel)

end Prober

end RoundTrip
