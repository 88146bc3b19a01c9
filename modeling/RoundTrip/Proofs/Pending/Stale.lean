import RoundTrip.Proofs.Pending.Forget
import RoundTrip.Proofs.Pending.Settlement

namespace RoundTrip.Pending.Session

variable {s t : Session} {w : Waiter} {marks : List Mark}

theorem Sound.leave_own (h : s.Sound) (hw : w ∈ s.waiters) :
    (s.leave w).table.entries = s.table.entries.filter fun e => e ≠ w.entry := by
  rw [h.leave_entries hw]
  apply List.filter_congr
  intro e he
  obtain ⟨v, hv, -, rfl⟩ := h.mem_entries.1 he
  by_cases own : v.registration = w.registration
  · rw [h.waiter_unique hv hw own]
    simp
  · have apart : v.entry ≠ w.entry := fun same => own (congrArg Entry.registration same)
    simp [own, apart]

theorem Sound.released_own (h : s.Sound) (hw : w ∈ s.waiters) (exit : Exit) :
    s.released w exit = if w.entry ∈ s.table.entries then [.removed w.entry exit] else [] := by
  simp only [h.released_eq hw, h.held_iff hw]

def Timed (marks : List Mark) : Prop :=
  ∀ e, (e, .timedOut) ∈ removals marks →
    ∃ x, .ended x ∈ marks ∧ x.waiter.entry = e ∧ x.outcome = .expired

theorem Timed.append {a b : List Mark} (ha : Timed a) (hb : Timed b) : Timed (a ++ b) := by
  intro e he
  rw [removals_append] at he
  rcases List.mem_append.1 he with he | he
  · obtain ⟨x, hx, own⟩ := ha e he
    exact ⟨x, List.mem_append_left _ hx, own⟩
  · obtain ⟨x, hx, own⟩ := hb e he
    exact ⟨x, List.mem_append_right _ hx, own⟩

theorem Without.timed (never : Without .timedOut marks) : Timed marks :=
  fun e he => absurd he (never e)

theorem Sound.farewell_timed (h : s.Sound) (hw : w ∈ s.waiters) {outcome : Outcome}
    (ends : s.ending? w = some outcome) :
    Timed (s.released w .timedOut ++ [.ended ⟨s.now, w, outcome⟩]) := by
  intro e he
  have removed : e = w.entry ∧ w.slot = .empty := by
    rw [removals_append, h.released_eq hw] at he
    by_cases empty : w.slot = .empty
    · rw [if_pos empty] at he
      have same : (e, Exit.timedOut) = (w.entry, .timedOut) := by
        simpa [removals, Mark.removed?] using he
      exact ⟨congrArg Prod.fst same, empty⟩
    · simp [if_neg empty, removals, Mark.removed?] at he
  have expired : outcome = .expired := by
    rw [ending?, removed.2] at ends
    split at ends
    next => cases ends
    next =>
      simp only [Slot.outcome?] at ends
      split at ends
      next => exact (Option.some.inj ends).symm
      next => cases ends
  exact ⟨⟨s.now, w, outcome⟩, List.mem_append_right _ List.mem_cons_self, removed.1.symm, expired⟩

theorem Move.timed (m : Move s marks t) (sound : s.Sound) : Timed marks := by
  cases m with
  | register | skip | shut | wait | tick =>
    intro e he
    simp [removals, Mark.removed?] at he
  | @withdraw p exit slot tells =>
    refine Without.timed (without_removed ?_)
    rintro rfl
    cases tells
  | leave => exact Without.timed (without_removed (by decide))
  | finish hw ends => exact sound.farewell_timed hw ends

theorem Moves.timed (m : Moves s marks t) (sound : s.Sound) : Timed marks := by
  induction m with
  | refl =>
    intro e he
    cases he
  | step move _ ih => exact (move.timed sound).append (ih (move.sound sound))

/-- What a waiter of a session can do to the entries of the others. -/
structure Harmless (s : Session) : Prop where
  leaves : ∀ w ∈ s.waiters,
    (s.perform (.leave w.registration)).2.1 =
        (if w.entry ∈ s.table.entries then [.removed w.entry .left] else []) ∧
      (s.perform (.leave w.registration)).2.2 =
        { s with
          table := { s.table with entries := s.table.entries.filter fun e => e ≠ w.entry }
          waiters := s.waiters.filter fun v => v.registration ≠ w.registration }
  timers : ∀ op, Timed (s.perform op).2.1
  /-- Without a waiter whose entry is gone, everything else goes on as with it. -/
  stale : ∀ w ∈ s.waiters, w.entry ∉ s.table.entries → ∀ after,
    answers (s.forget w.registration) after = answers s after ∧
      (s.forget w.registration).run after =
        (others w.registration (s.run after).1, (s.run after).2.forget w.registration)
  /-- A waiter that has been told removes nothing, whether it waits or goes away. -/
  settled : ∀ w ∈ s.waiters, ∀ outcome, w.slot.outcome? = some outcome →
    w.entry ∉ s.table.entries ∧
      (s.perform (.wait w.registration)).2 =
        ([.ended ⟨s.now, { w with waiting := true }, outcome⟩], s.forget w.registration) ∧
      (s.perform (.leave w.registration)).2 = ([], s.forget w.registration)

theorem Quiet.settled (h : Quiet s) (hw : w ∈ s.waiters) {outcome : Outcome}
    (told : w.slot.outcome? = some outcome) :
    w.entry ∉ s.table.entries ∧
      (s.perform (.wait w.registration)).2 =
        ([.ended ⟨s.now, { w with waiting := true }, outcome⟩], s.forget w.registration) ∧
      (s.perform (.leave w.registration)).2 = ([], s.forget w.registration) := by
  have full : w.slot ≠ .empty := Slot.full_of_outcome told
  have gone : w.entry ∉ s.table.entries := fun held => full ((h.sound.held_iff hw).1 held)
  have left : s.leave w = s.forget w.registration :=
    h.sound.leave_stale (h.sound.stale hw gone) hw rfl
  have ends := s.ending?_begun told
  refine ⟨gone, ?_, ?_⟩
  · rw [h.perform_wait hw, farewell_of_some ends, ends, left]
    simp [full]
  · rw [h.perform_leave hw, h.sound.released_eq hw, if_neg full, left]

theorem stale_waiters_harmless (ops : List Op) : Harmless (run {} ops).2 := by
  have quiet : Quiet (run {} ops).2 := Quiet.empty.run ops
  constructor
  case leaves =>
    intro w hw
    rw [quiet.perform_leave hw, quiet.sound.released_own hw]
    refine ⟨rfl, ?_⟩
    rw [← quiet.sound.leave_own hw]
    rfl
  case timers =>
    intro op
    exact (quiet.sound.perform_moves op).timed quiet.sound
  case stale =>
    intro w hw gone after
    exact quiet.run_forget (quiet.sound.stale hw gone) after
  case settled =>
    intro w hw outcome told
    exact quiet.settled hw told

/-- The key was taken again before the first waiter went away. -/
example : (run {} [.register "a" .scheduler 5, .expire .scheduler, .register "b" .scheduler 7,
    .leave 0]).2.table.entries = [⟨.scheduler, 1, 7⟩] := by
  decide

end RoundTrip.Pending.Session
