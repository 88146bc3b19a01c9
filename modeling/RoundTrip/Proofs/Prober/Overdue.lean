import RoundTrip.Proofs.Pending.Withdraw
import RoundTrip.Proofs.Prober.Disguise

/-!
Entries that are overdue belong to calls that are about to end. Dropping them first makes no
difference, as long as nothing is delivered to their keys before the calls have ended.
-/

namespace RoundTrip

/-- The entries that `q` holds of have been dropped. -/
def dropping (q : Pending.Entry → Bool) : Disguise :=
  { session := fun s => s.withdraw q .dropped, waiter := Pending.Session.withdrawn q .dropped }

theorem dropping_transparent (q : Pending.Entry → Bool) :
    (dropping q).Transparent fun key => ∀ e, q e = true → e.key ≠ key := by
  constructor
  case injective => exact Function.injective_id
  case now => exact fun _ => rfl
  case find? =>
    intro key other s
    simp only [dropping, Pending.Entry.renumber_id, Option.map_id, id_eq]
    exact Pending.Session.find?_withdraw other s _
  case take => exact fun key other s slot full => Pending.Session.take_withdraw other s _ full
  case waiter? => exact fun s registration => s.waiter?_withdraw q _ registration
  case leave => exact fun s w => s.leave_withdraw q _ w
  case beginWait => exact fun s w => s.wait_withdraw q _ w.registration

theorem dropping_plain (q : Pending.Entry → Bool) : (dropping q).Plain := ⟨rfl, rfl⟩

namespace Prober

variable {p : Prober} {q : Pending.Entry → Bool}

theorem Ready.waits_or_ahead (h : Ready p) {w : Pending.Waiter} (hw : w ∈ p.session.waiters) :
    w.waiting = true ∨ p.session.now < w.deadline.tick := by
  obtain ⟨f, hf, seat⟩ := h.sound.flight_of_waiter hw
  have waiting : f.phase.isWaiting = w.waiting := congrArg Seat.waiting seat
  have deadline : f.deadline = w.deadline := congrArg (fun s => s.entry.deadline) seat
  have ahead := h.flights f hf
  rw [← waiting, ← deadline]
  rw [Flight.Ahead] at ahead
  cases phase : f.phase with
  | registered =>
    rw [phase] at ahead
    exact ahead.elim
  | calling effect conduct due =>
    rw [phase] at ahead
    exact .inr ahead.1
  | waiting => exact .inl rfl

theorem Quiet.not_overdue (h : Quiet p) :
    ∀ e ∈ p.session.table.entries, p.session.now < e.deadline.tick := by
  intro e he
  obtain ⟨w, hw, -, rfl⟩ := h.sound.session.mem_entries.1 he
  rcases h.waits_or_ahead hw with waits | ahead
  · exact (Pending.Session.ending?_eq_none.1 (h.resting w hw) waits).2
  · exact ahead

theorem land_withdrawn (p : Prober) (es : List Pending.Ending) (slot : Pending.Slot) :
    p.land (es.map (Pending.Ending.withdrawn q slot)) = p.land es := by
  induction es generalizing p with
  | nil => rfl
  | cons e rest ih =>
    have number : (e.withdrawn q slot).waiter.registration = e.waiter.registration :=
      Pending.Session.withdrawn_number q slot e.waiter
    rw [List.map_cons, land, land, number]
    split
    next => exact ih p
    next f _ =>
      rw [ih]
      rfl

theorem Sound.dropping_empty (h : p.Sound) (nobody : p.flights = []) (q : Pending.Entry → Bool) :
    (dropping q).apply p = p := by
  have gone : ∀ e ∈ p.session.table.entries, q e = false := by
    rw [h.session.entries, h.waiters_nil nobody]
    nofun
  have session : p.session.withdraw q .dropped = p.session :=
    Pending.Session.withdraw_nothing h.session _ gone
  rw [(dropping_plain q).apply_eq]
  exact congrArg (fun session => { p with session }) session

theorem Ready.settle_dropping (h : Ready p) (up : p.shutDown = false)
    (overdue : ∀ e, q e = true → e.deadline.tick ≤ p.session.now) :
    ((dropping q).apply p).settle = p.settle := by
  have quiet := h.settle
  have left : p.settle.2.session = p.session.settle.2 := by
    rw [settle_up up]
    exact land_session _ _
  have due : ∀ w ∈ p.session.waiters, w.slot = .empty → q w.entry = true →
      p.session.ending? w = some .expired := by
    intro w hw empty held
    have late : w.deadline.tick ≤ p.session.now := overdue w.entry held
    rcases h.waits_or_ahead hw with waits | ahead
    · simp [Pending.Session.ending?, waits, empty, Pending.Slot.outcome?, late]
    · exact absurd late (Nat.not_le_of_lt ahead)
  have gone : ∀ e ∈ p.session.settle.2.table.entries, q e = false := by
    rw [← left]
    intro e he
    have now : p.settle.2.session.now = p.session.now := by
      rw [left]
      exact (Pending.Session.finishEach_keeps _ _).1
    by_contra held
    have late := overdue e (by simpa using held)
    rw [← now] at late
    exact absurd late (Nat.not_le_of_lt (quiet.not_overdue e he))
  have sound : p.session.settle.2.Sound := by
    rw [← left]
    exact quiet.sound.session
  have settled := Pending.Session.settle_withdraw due sound gone
  rw [(dropping_plain q).apply_eq, Prober.settle, Prober.settle]
  simp only [up, Bool.false_eq_true, if_false, dropping, settled, land_withdrawn]
  rfl

theorem Primed.endAll_dropping (h : Primed p)
    (overdue : ∀ e, q e = true → e.deadline.tick ≤ p.session.now)
    (missed : ∀ x ∈ Journal.deliveries ((dropping q).apply p).endAll.1,
      x.2.Within fun key => ∀ e, q e = true → e.key ≠ key) :
    ((dropping q).apply p).endAll = p.endAll := by
  obtain ⟨moves, ready⟩ := h.endCalls
  have frame := moves.frame h.sound
  rw [deliveries_endAll] at missed
  have ended := (dropping_transparent q).endCalls p missed
  have settled : ((dropping q).apply p.endCalls.2).settle = p.endCalls.2.settle := by
    cases down : p.shutDown with
    | true =>
      have nobody := frame.calm h.calm (frame.shutDown.trans down)
      rw [ready.sound.dropping_empty nobody.1]
    | false =>
      have now : p.endCalls.2.session.now = p.session.now := frame.now
      exact ready.settle_dropping (frame.shutDown.trans down) (by rw [now]; exact overdue)
  rw [Prober.endAll, ended, (dropping_plain q).carry_eq]
  simp only [settled]
  rfl

end Prober

end RoundTrip
