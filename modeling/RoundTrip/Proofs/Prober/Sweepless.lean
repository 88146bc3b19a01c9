import RoundTrip.Proofs.Prober.Invisible
import RoundTrip.Proofs.Prober.Overdue

/-!
A prober without its sweeper, as a disguise. Sweeps come at whole milliseconds, and so do the
timers, and none of them is late: whatever a sweep finds overdue belongs to a call that ends at that
very instant.
-/

namespace RoundTrip

namespace Pending.Session

def unswept (s : Session) : Session := { s with sweeper := none }

theorem take_unswept (s : Session) (key : Key) (slot : Slot) :
    s.unswept.take key slot = ((s.take key slot).1, (s.take key slot).2.unswept) := by
  have found : s.unswept.table.find? key = s.table.find? key := rfl
  rw [take, take, found]
  cases s.table.find? key <;> rfl

theorem signalAll_unswept (s : Session) (slot : Slot) (es : List Entry) :
    s.unswept.signalAll slot es = (s.signalAll slot es).unswept := by
  induction es generalizing s with
  | nil => rfl
  | cons e es ih => exact ih (s.signal slot e)

theorem close_unswept (s : Session) : s.unswept.close.2 = s.close.2.unswept :=
  signalAll_unswept { s with table := s.table.close } _ _

theorem finishEach_unswept (s : Session) (ws : List Waiter) :
    s.unswept.finishEach ws = ((s.finishEach ws).1, (s.finishEach ws).2.unswept) := by
  induction ws generalizing s with
  | nil => rfl
  | cons w rest ih =>
    have ends : s.unswept.ending? w = s.ending? w := rfl
    have left : s.unswept.leave w = (s.leave w).unswept := rfl
    rw [finishEach, finishEach, ends]
    split
    next => exact ih s
    next =>
      simp only [left, ih]
      rfl

theorem settle_unswept (s : Session) : s.unswept.settle = (s.settle.1, s.settle.2.unswept) := by
  have finished : s.unswept.finish = (s.finish.1, s.finish.2.unswept) :=
    finishEach_unswept s s.waiters
  rw [settle, finished]
  rfl

theorem register_unswept (s : Session) (name : String) (key : Key) (deadline : Duration) :
    s.unswept.register name key deadline = (s.register name key deadline).map unswept := by
  have refusal : s.unswept.table.refusal? s.unswept.now key deadline =
      s.table.refusal? s.now key deadline := rfl
  rw [register, register, refusal]
  cases s.table.refusal? s.now key deadline <;> rfl

end Pending.Session

def sweepless (interval : Duration) : Disguise :=
  { session := Pending.Session.unswept
    config := fun c => { c with sweep := interval }
    maintained := fun _ => false }

variable {interval : Duration}

theorem sweepless_plain (interval : Duration) : (sweepless interval).Plain := ⟨rfl, rfl⟩

theorem sweepless_lawful (interval : Duration) : (sweepless interval).Lawful := by
  constructor
  case toTransparent =>
    constructor
    case injective => exact Function.injective_id
    case find? =>
      intro key _ s
      simp only [sweepless, Pending.Entry.renumber_id, Option.map_id, id_eq]
      rfl
    case take => exact fun key _ s slot _ => s.take_unswept key slot
    case waiter? =>
      intro s registration
      simp only [sweepless, Pending.Waiter.renumber_id, Option.map_id, id_eq]
      rfl
    all_goals intros; rfl
  case settle =>
    intro s
    simp only [sweepless, Pending.Ending.renumber_id, List.map_id]
    exact s.settle_unswept
  case close => exact Pending.Session.close_unswept
  case unmaintained => rfl
  all_goals intros; rfl

theorem sweepless_fresh (interval : Duration) (s : Pending.Session) :
    (sweepless interval).Fresh s := by
  constructor
  case next => rfl
  case register => exact s.register_unswept
  case refuse =>
    intro error
    cases error <;> rfl
  case surface => exact fun _ _ => rfl

namespace Prober

variable {p q : Prober}

theorem sweepless_tickets (interval : Duration) (p : Prober) :
    ((sweepless interval).apply p).tickets = p.tickets := by
  rw [(sweepless_plain interval).apply_eq]
  rfl

theorem Due.unswept (h : Due p) (interval : Duration) : Primed ((sweepless interval).apply p) := by
  rw [(sweepless_plain interval).apply_eq]
  exact ⟨h.sound.congr rfl rfl rfl rfl, fun down => ⟨(h.calm down).1, rfl⟩, nofun, h.launched⟩

theorem Quiet.unswept (h : Quiet p) (interval : Duration) :
    Quiet ((sweepless interval).apply p) := by
  rw [(sweepless_plain interval).apply_eq]
  exact ⟨⟨h.sound.congr rfl rfl rfl rfl, nofun, h.flights⟩,
    fun down => ⟨(h.calm down).1, rfl⟩, h.resting⟩

theorem Primed.endAll_unswept (h : Primed p) (interval : Duration) :
    ((sweepless interval).apply p).endAll = (sweepless interval).carry p.endAll := by
  have lawful := sweepless_lawful interval
  have called := lawful.endCalls p fun x _ => x.2.within_all
  have calm := (h.endCalls.1.frame h.sound).calm h.calm
  have settled := lawful.settle_prober (p := p.endCalls.2) fun down => (calm down).2.symm
  rw [Prober.endAll, Prober.endAll, called]
  simp only [Disguise.carry] at settled ⊢
  rw [settled, List.map_append]

/-- No event that the marks tell of goes to the key of an entry that is overdue. -/
def Overlooks (p : Prober) (marks : List Mark) : Prop :=
  ∀ x ∈ Journal.deliveries marks, x.2.Within fun key =>
    ∀ e ∈ p.session.table.entries, e.deadline ≤ p.session.now → e.key ≠ key

theorem Due.sweeps_whole (h : Due p) {w : Pending.Sweeper} (runs : w ∈ p.session.sweeper)
    (now : w.next.tick ≤ p.session.now) : p.session.now.tick = p.session.now := by
  have sweeps : w.next.tick = p.session.now := Nat.le_antisymm now (h.sweeper w runs).2
  rw [← sweeps, Duration.tick_tick]

theorem Due.wake_unswept (h : Due p) (interval : Duration)
    (overlooks : ∀ w ∈ p.session.sweeper, w.next.tick ≤ p.session.now → p.Overlooks p.wake.1) :
    ((sweepless interval).apply p).wake = (sweepless interval).carry p.wake := by
  let d := sweepless interval
  let u := d.apply p
  have woken : d.carry p.wake = (d.apply { p with session := p.session.runSweeper }).endAll :=
    (h.primed.endAll_unswept interval).symm
  by_cases due : ∃ w ∈ p.session.sweeper, w.next.tick ≤ p.session.now
  · obtain ⟨w, runs, now⟩ := due
    -- With the sweeper or without it, the entries that the sweep takes are dropped now.
    let q : Pending.Entry → Bool := fun e => e ∈ p.session.table.overdue p.session.now
    have session :
        p.session.runSweeper.unswept = p.session.unswept.withdraw q .dropped := by
      have same : p.session.withdraw (fun e => e.deadline ≤ p.session.now) .dropped =
          p.session.withdraw q .dropped := by
        apply Pending.Session.withdraw_congr h.sound.session
        intro e he
        simp [q, Pending.Table.overdue, he]
      rw [h.sound.session.runSweeper_due runs now, same]
      rfl
    have swept : d.apply { p with session := p.session.runSweeper } = (dropping q).apply u := by
      rw [(dropping_plain q).apply_eq]
      exact congrArg (fun session => { u with session }) session
    have overdue : ∀ e, q e = true → e.deadline.tick ≤ u.session.now := by
      intro e held
      have late : e.deadline ≤ p.session.now :=
        of_decide_eq_true (List.mem_filter.1 (of_decide_eq_true held)).2
      have ticked := Duration.tick_mono late
      rwa [h.sweeps_whole runs now] at ticked
    have missed : ∀ x ∈ Journal.deliveries ((dropping q).apply u).endAll.1,
        x.2.Within fun key => ∀ e, q e = true → e.key ≠ key := by
      rw [← swept, ← woken, (sweepless_plain interval).carry_eq]
      intro x hx key keyed e held
      obtain ⟨entry, late⟩ := List.mem_filter.1 (of_decide_eq_true held)
      exact overlooks w runs now x hx key keyed e entry (of_decide_eq_true late)
    rw [woken, swept]
    exact ((h.unswept interval).endAll_dropping overdue missed).symm
  · have early : p.session.runSweeper = p.session :=
      Pending.Session.runSweeper_early fun w runs now => due ⟨w, runs, now⟩
    rw [woken, early]
    rfl

theorem Quiet.maintain_unswept (h : Quiet p) (up : p.shutDown = false) (interval : Duration) :
    (sweepless interval).carry p.maintain.wake = ([], (sweepless interval).apply p) := by
  obtain ⟨(_ : Course True p [] p.maintain), due⟩ := h.maintain up
  have woken := due.wake_unswept interval fun w runs now x _ key _ e entry late => by
    have ticked : e.deadline.tick ≤ p.session.now.tick := Duration.tick_mono late
    have whole : p.session.now.tick = p.session.now := due.sweeps_whole runs now
    rw [whole] at ticked
    exact absurd ticked (Nat.not_le_of_lt (h.not_overdue e entry))
  rw [← woken]
  exact (h.unswept interval).wake

/-- The sweeper sweeps at the instant `now` in the course of the step. -/
def SweepsAt (p : Prober) (s : Step) (now : Duration) : Prop :=
  ∃ d, s = .advance d ∧
    ∃ w ∈ p.session.sweeper, ∃ k : Nat, now = (w.next + k * w.period).tick

/-- In the course of the step, the event is not delivered to a probe in flight at an instant that
has both its deadline and a sweep. -/
def ApartAt (p : Prober) (s : Step) (x : Duration × Event) : Prop :=
  p.SweepsAt s x.1 → ∀ t ∈ p.tickets, Delivered.key? x.2 = some t.key → t.deadline.tick ≠ x.1

/-- What `p` can be when nothing but the clock has moved. -/
structure Later (p q : Prober) : Prop where
  quiet : Quiet q
  tickets : q.tickets ⊆ p.tickets
  sweeper : ∀ w ∈ q.session.sweeper, ∃ v ∈ p.session.sweeper, w.period = v.period ∧
    ∃ k : Nat, w.next = v.next + k * v.period

theorem Later.refl (h : Quiet p) : Later p p :=
  ⟨h, List.Subset.refl _, fun w hw => ⟨w, hw, rfl, 0, by rw [Nat.zero_mul, Nat.add_zero]⟩⟩

theorem Later.pass (h : Later p q) {t : Duration} (later : q.now ≤ t)
    (ahead : ∀ d ∈ machine.timers q, t < d) : Later p (machine.setNow t q) :=
  ⟨h.quiet.pass later ahead, h.tickets, h.sweeper⟩

theorem Later.fire (h : Later p q) {t : Duration} (later : q.now ≤ t)
    (due : ∀ d ∈ machine.timers q, t ≤ d) :
    Later p (machine.wake (machine.setNow t q)).2 ∧
      machine.now (machine.wake (machine.setNow t q)).2 = t := by
  have primed := (h.quiet.due later due).primed
  obtain ⟨moves, quiet⟩ := primed.endAll
  have frame := moves.frame primed.sound
  refine ⟨⟨quiet, List.Subset.trans frame.tickets h.tickets, ?_⟩,
    frame.now.trans (Pending.Session.runSweeper_now _)⟩
  intro w hw
  have armed : w ∈ (machine.setNow t q).session.runSweeper.sweeper := by
    rw [← frame.sweeper]
    exact hw
  obtain ⟨v, hv, period, k, next⟩ := Pending.Session.runSweeper_sweeper armed
  obtain ⟨u, hu, period', j, next'⟩ := h.sweeper v hv
  refine ⟨u, hu, period.trans period', j + k, ?_⟩
  rw [next, next', period', Nat.add_mul, Nat.add_assoc]

theorem Later.unswept (h : Later p q) (interval : Duration) :
    Later p ((sweepless interval).apply q) := by
  refine ⟨h.quiet.unswept interval, ?_, nofun⟩
  rw [sweepless_tickets]
  exact h.tickets

theorem Later.overlooks (h : Later p q) {t : Duration}
    (due : ∀ d ∈ machine.timers q, t ≤ d) {d : Duration}
    (apart : ∀ x ∈ Journal.deliveries (machine.setNow t q).wake.1, p.ApartAt (.advance d) x)
    {w : Pending.Sweeper} (hw : w ∈ q.session.sweeper) (now : w.next.tick ≤ t) :
    (machine.setNow t q).Overlooks (machine.setNow t q).wake.1 := by
  intro x hx key keyed e entry late same
  have at_t : x.1 = t := deliveries_wake _ x hx
  have sweep : w.next.tick = t :=
    Nat.le_antisymm now (due _ (session_timer (Pending.Session.sweeper_timer hw)))
  obtain ⟨v, hv, -, k, next⟩ := h.sweeper w hw
  have sweeps : p.SweepsAt (.advance d) x.1 := ⟨d, rfl, v, hv, k, by rw [← next, sweep, at_t]⟩
  obtain ⟨v', hv', -, rfl⟩ := h.quiet.sound.session.mem_entries.1 entry
  obtain ⟨f, hf, seat⟩ := h.quiet.sound.flight_of_waiter hv'
  have of_f : f.entry = v'.entry := congrArg Seat.entry seat
  have ticket : f.toTicket ∈ p.tickets := h.tickets (List.mem_map_of_mem hf)
  have keyed' : Delivered.key? x.2 = some f.key := by
    rw [keyed, ← same, ← of_f]
    rfl
  have ticked : f.deadline.tick ≤ t.tick := by
    rw [← of_f] at late
    exact Duration.tick_mono late
  rw [← sweep, Duration.tick_tick, sweep] at ticked
  refine apart x hx sweeps f.toTicket ticket keyed' ?_
  rw [at_t]
  exact Nat.le_antisymm ticked (due _ (h.quiet.flight_deadline hf))

theorem Quiet.advance_unswept (h : Quiet p) (d : Duration) (interval : Duration)
    (apart : ∀ x ∈ Journal.deliveries (machine.advance d p).1, p.ApartAt (.advance d) x) :
    machine.advance d ((sweepless interval).apply p) =
      (sweepless interval).carry (machine.advance d p) := by
  have lawful := sweepless_lawful interval
  refine Clock.Machine.advance_part (I := Later p)
    (A := fun m => ∀ x, m.delivery? = some x → p.ApartAt (.advance d) x)
    (g := (sweepless interval).apply) (h := List.map (sweepless interval).mark)
    ?ahead ?pass ?fire ?idle ?reset ?now_setNow ?timers_setNow ?keeps rfl
    (fun _ _ => List.map_append) lawful.apply_now ?setNow ?timers ?wake d p (.refl h) ?allowed
  case ahead => exact fun q hq => hq.quiet.timers_ahead
  case pass => exact fun t q hq later ahead => hq.pass later ahead
  case fire => exact fun t q hq later due => hq.fire later due
  case idle => exact fun q hq => hq.quiet.wake
  case reset => exact fun _ _ _ => rfl
  case now_setNow => exact fun _ _ => rfl
  case timers_setNow => exact fun _ _ => rfl
  case keeps => exact fun q hq => hq.unswept interval
  case setNow => exact fun _ _ => rfl
  case timers =>
    intro q
    rw [(sweepless_plain interval).apply_eq]
    exact List.append_subset.2 ⟨List.subset_append_of_subset_left _
      (List.subset_append_right _ _), List.subset_append_right _ _⟩
  case wake =>
    intro t q hq later due apart
    have told : ∀ x ∈ Journal.deliveries (machine.setNow t q).wake.1,
        p.ApartAt (.advance d) x := by
      intro x hx
      obtain ⟨m, hm, delivered⟩ := List.mem_filterMap.1 hx
      exact apart m hm x delivered
    exact (hq.quiet.due later due).wake_unswept interval fun w hw now =>
      hq.overlooks due told hw now
  case allowed =>
    intro m hm x delivered
    exact apart x (List.mem_filterMap.2 ⟨m, hm, delivered⟩)

end Prober

end RoundTrip
