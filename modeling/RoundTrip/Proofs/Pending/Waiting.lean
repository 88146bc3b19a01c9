import RoundTrip.Proofs.Pending.Course
import RoundTrip.Proofs.Pending.Settlement

namespace RoundTrip.Pending.Session

variable {s : Session} {w : Waiter}

theorem Quiet.leave_departed (h : Quiet s) (hw : w ∈ s.waiters) :
    (s.leave w).Departed w.registration := by
  refine (h.sound.leave hw).departed (h.sound.below w hw) ?_
  intro v hv
  simpa using (List.mem_filter.1 hv).2

theorem Quiet.wait_ended (h : Quiet s) (hw : w ∈ s.waiters) {outcome : Outcome}
    (ends : s.ending? { w with waiting := true } = some outcome) (after : List Op) :
    history w.registration (s.timeline (.wait w.registration :: after)) =
        (s.farewell { w with waiting := true }).map (Prod.mk s.now) ∧
      (s.run (.wait w.registration :: after)).2.Departed w.registration := by
  have performed := h.perform_wait hw
  rw [ends, Option.isSome_some, if_pos rfl] at performed
  have own : about w.registration (s.farewell { w with waiting := true }) =
      s.farewell { w with waiting := true } := s.about_farewell { w with waiting := true }
  have later := ((h.leave hw).timeline_course (List.Subset.refl after)).gone _ (h.leave_departed hw)
  simp only [timeline, timed, Session.run, performed, history_append, history_stamp, own, later.1,
    List.append_nil, true_and]
  exact later.2

theorem Quiet.wait_told (h : Quiet s) (hw : w ∈ s.waiters) {outcome : Outcome}
    (told : w.slot.outcome? = some outcome) (after : List Op) :
    history w.registration (s.timeline (.wait w.registration :: after)) =
      [(s.now, .ended ⟨s.now, { w with waiting := true }, outcome⟩)] := by
  have ends := s.ending?_begun told
  rw [(h.wait_ended hw ends after).1, farewell_of_some ends, if_neg (Slot.full_of_outcome told)]
  rfl

theorem Quiet.wait_endsBy (h : Quiet s) (hw : w ∈ s.waiters) (empty : w.slot = .empty)
    (ahead : s.now < w.deadline.tick) (after : List Op) :
    WaitEndsBy after { w with waiting := true } s.now w.deadline.tick
      (history w.registration (s.timeline (.wait w.registration :: after)))
      (s.run (.wait w.registration :: after)).2 := by
  have stays : s.ending? { w with waiting := true } = none :=
    ending?_eq_none.2 fun _ => ⟨empty, ahead⟩
  have performed := h.perform_wait hw
  rw [stays, farewell_of_none stays, Option.isSome_none, if_neg Bool.false_ne_true] at performed
  have quiet : Quiet (s.beginWait w) := by
    have state : (s.perform (.wait w.registration)).2.2 = s.beginWait w := by
      rw [performed]
    exact state ▸ h.perform (.wait w.registration)
  have untold : (s.beginWait w).Untold { w with waiting := true } :=
    ⟨List.mem_map.2 ⟨w, hw, if_pos rfl⟩, rfl, empty⟩
  simp only [timeline, timed, Session.run, performed, List.map_nil, List.nil_append]
  exact (quiet.timeline_course (List.Subset.refl after)).waits _ untold

/-- When and how the waits end that begin now, for the waiters that do not wait yet. -/
structure Punctual (journal : List Mark) (s : Session) : Prop where
  recorded : ∀ ops, (s.timeline ops).map Prod.snd = (s.run ops).1
  /-- The wait for an entry that is gone ends with what became of it. -/
  settled : ∀ w ∈ s.waiters, w.waiting = false → w.entry ∉ s.table.entries →
    ∃ exit, exits journal w.registration = [exit] ∧ exit.slot? = some w.slot ∧ ∀ after,
      history w.registration (s.timeline (.wait w.registration :: after)) =
        [(s.now, .ended ⟨s.now, { w with waiting := true }, exit.outcome⟩)]
  /-- The wait for an entry of the table ends when it is removed, which the wait itself does when
  the timer set to the deadline fires. -/
  waits : ∀ w ∈ s.waiters, w.waiting = false → w.entry ∈ s.table.entries → ∀ after,
    WaitEndsBy after { w with waiting := true } s.now (max s.now w.deadline.tick)
      (history w.registration (s.timeline (.wait w.registration :: after)))
      (s.run (.wait w.registration :: after)).2
  ahead : ∀ ops, ∀ w ∈ (s.run ops).2.waiters, w.waiting = true →
    (s.run ops).2.now < w.deadline.tick ∧ w.entry ∈ (s.run ops).2.table.entries
  /-- Without a wait the deadline passes unnoticed. -/
  unwaited : ∀ w ∈ s.waiters, w.waiting = false → ∀ after, .wait w.registration ∉ after →
    ∀ n ∈ history w.registration (s.timeline after), n.2.isWait = false

theorem Quiet.ahead (h : Quiet s) (hw : w ∈ s.waiters) (waits : w.waiting = true) :
    s.now < w.deadline.tick ∧ w.entry ∈ s.table.entries := by
  have empty := (ending?_eq_none.1 (h.resting w hw) waits).1
  exact ⟨h.untold_ahead ⟨hw, waits, empty⟩, h.sound.entry_mem hw empty⟩

theorem Quiet.wait_within (h : Quiet s) (hw : w ∈ s.waiters) (empty : w.slot = .empty)
    (after : List Op) :
    WaitEndsBy after { w with waiting := true } s.now (max s.now w.deadline.tick)
      (history w.registration (s.timeline (.wait w.registration :: after)))
      (s.run (.wait w.registration :: after)).2 := by
  by_cases overdue : w.deadline.tick ≤ s.now
  · have ends : s.ending? { w with waiting := true } = some .expired :=
      ending?_overdue rfl empty overdue
    obtain ⟨notes, gone⟩ := h.wait_ended hw ends after
    have reached : max s.now w.deadline.tick = s.now := max_eq_left overdue
    rw [farewell_of_some ends, if_pos empty] at notes
    rw [reached]
    exact .ends s.now .timedOut (by decide) le_rfl le_rfl (fun _ => rfl) notes gone
  · have ahead : s.now < w.deadline.tick := Nat.lt_of_not_le overdue
    have later : max s.now w.deadline.tick = w.deadline.tick := max_eq_right ahead.le
    rw [later]
    exact h.wait_endsBy hw empty ahead after

theorem waits_punctual (before : List Op) : Punctual (run {} before).1 (run {} before).2 := by
  have quiet : Quiet (run {} before).2 := Quiet.empty.run before
  have ledger := ledger_run before
  constructor
  case recorded => exact timeline_marks _
  case settled =>
    intro w hw _ gone
    have full : w.slot ≠ .empty := fun empty => gone ((quiet.sound.held_iff hw).2 empty)
    obtain ⟨exit, removed, tells⟩ := ledger.told w hw full
    refine ⟨exit, ledger.exits_removed removed, tells, ?_⟩
    exact quiet.wait_told hw (Exit.outcome_of_slot tells)
  case waits =>
    intro w hw _ held after
    exact quiet.wait_within hw ((quiet.sound.held_iff hw).1 held) after
  case ahead =>
    intro ops w hw waits
    exact (quiet.run ops).ahead hw waits
  case unwaited =>
    intro w hw unwaited after never
    refine ((quiet.timeline_course (List.Subset.refl after)).unwaited _ never ?_).2
    intro v hv same
    rw [quiet.sound.waiter_unique hv hw same, unwaited]

end RoundTrip.Pending.Session
