import RoundTrip.Proofs.Pending.Move

/-!
The states that a pending table can be led to, one change at a time. In each of them the entries of
the table and the waiters match, so a wait never waits for an entry that is gone.
-/

namespace RoundTrip.Pending

theorem Slot.outcome_of_ne_empty {slot : Slot} (told : slot ≠ .empty) :
    ∃ outcome, slot.outcome? = some outcome := by
  cases slot with
  | empty => exact absurd rfl told
  | filled r => exact ⟨r.outcome, rfl⟩
  | dropped => exact ⟨.expired, rfl⟩

namespace Session

/-- The changes one by one: an operation without the waits that end after it, the end of one wait, a
sweep by the sweeper, and time that passes. -/
inductive Leads : Session → Session → Prop
  | refl (s : Session) : Leads s s
  | act {s t : Session} (op : Op) : Leads (s.act op).2.2 t → Leads s t
  | finish {s t : Session} {w : Waiter} {outcome : Outcome} :
      w ∈ s.waiters → s.ending? w = some outcome → Leads (s.leave w) t → Leads s t
  | sweep {s t : Session} : Leads s.runSweeper t → Leads s t
  | pass {s t : Session} (now : Nat) : s.now ≤ now → Leads { s with now } t → Leads s t

theorem Leads.trans {s t u : Session} (h : Leads s t) (k : Leads t u) : Leads s u := by
  induction h with
  | refl => exact k
  | act op _ ih => exact .act op (ih k)
  | finish hw ends _ ih => exact .finish hw ends (ih k)
  | sweep _ ih => exact .sweep (ih k)
  | pass now later _ ih => exact .pass now later (ih k)

theorem Sound.finishEach_leads {s : Session} (h : s.Sound) {ws : List Waiter}
    (hws : ∀ w ∈ ws, w ∈ s.waiters)
    (distinct : ws.Pairwise fun v w => v.registration ≠ w.registration) :
    Leads s (s.finishEach ws).2 := by
  induction ws generalizing s with
  | nil => exact .refl s
  | cons w rest ih =>
    rw [List.pairwise_cons] at distinct
    have hw : w ∈ s.waiters := hws w List.mem_cons_self
    rw [finishEach]
    split
    next => exact ih h (fun v hv => hws v (List.mem_cons_of_mem _ hv)) distinct.2
    next outcome ends =>
      refine .finish hw ends (ih (h.leave hw) ?_ distinct.2)
      intro v hv
      have apart : v.registration ≠ w.registration := (distinct.1 v hv).symm
      exact List.mem_filter.2 ⟨hws v (List.mem_cons_of_mem _ hv), by simpa using apart⟩

theorem Sound.run_leads {s : Session} (h : s.Sound) (ops : List Op) : Leads s (s.run ops).2 := by
  induction ops generalizing s with
  | nil => exact .refl s
  | cons op rest ih =>
    have acted := (h.act_moves op).sound h
    have performed : Leads s (s.perform op).2.2 :=
      .act op (acted.finishEach_leads (fun _ hw => hw) (acted.ordered.imp Nat.ne_of_lt))
    exact performed.trans (ih ((h.perform_moves op).sound h))

theorem Leads.moves {s t : Session} (h : Leads s t) (sound : s.Sound) :
    ∃ marks, Moves s marks t := by
  induction h with
  | refl s => exact ⟨[], .refl s⟩
  | act op _ ih =>
    have acted := sound.act_moves op
    obtain ⟨marks, moves⟩ := ih (acted.sound sound)
    exact ⟨_, acted.trans moves⟩
  | finish hw ends _ ih =>
    have finished := (Move.finish hw ends).moves
    obtain ⟨marks, moves⟩ := ih (finished.sound sound)
    exact ⟨_, finished.trans moves⟩
  | sweep _ ih =>
    have swept := sound.runSweeper_moves
    obtain ⟨marks, moves⟩ := ih (swept.sound sound)
    exact ⟨_, swept.trans moves⟩
  | @pass s t now _ _ ih =>
    have passed : Move s [] { s with now } := .tick rfl rfl
    obtain ⟨marks, moves⟩ := ih (passed.sound sound)
    exact ⟨_, passed.moves.trans moves⟩

theorem Move.closed {s t : Session} {marks : List Mark} (m : Move s marks t)
    (closed : s.table.closed = true) : t.table.closed = true := by
  cases m with
  | register hr =>
    obtain ⟨-, opened, -, -⟩ := register_ok hr
    rw [closed] at opened
    cases opened
  | tick table => rw [table]; exact closed
  | shut => rfl
  | skip | withdraw | wait | leave | finish => exact closed

theorem Moves.closed {s t : Session} {marks : List Mark} (m : Moves s marks t)
    (closed : s.table.closed = true) : t.table.closed = true := by
  induction m with
  | refl => exact closed
  | step move _ ih => exact ih (move.closed closed)

theorem finishEach_ended {s : Session} {ws : List Waiter} {w : Waiter} (hw : w ∈ ws)
    {outcome : Outcome} (ends : s.ending? w = some outcome) :
    .ended ⟨s.now, w, outcome⟩ ∈ (s.finishEach ws).1 := by
  induction ws generalizing s with
  | nil => cases hw
  | cons v rest ih =>
    rw [finishEach]
    rcases List.mem_cons.1 hw with rfl | later
    · simp [ends]
    · split
      next => exact ih later ends
      next =>
        exact List.mem_append_right _ (List.mem_cons_of_mem _ (ih (s := s.leave v) later ends))

theorem Sound.waiter?_eq {s : Session} (h : s.Sound) {w : Waiter} (hw : w ∈ s.waiters) :
    s.waiter? w.registration = some w := by
  cases found : s.waiter? w.registration with
  | none =>
    have other := List.find?_eq_none.1 found w hw
    simp at other
  | some v =>
    rw [h.waiter_unique (mem_of_waiter? found) hw (registration_of_waiter? found)]

theorem Sound.wait_ends {s : Session} (h : s.Sound) {w : Waiter} (hw : w ∈ s.waiters)
    {outcome : Outcome} (told : w.slot.outcome? = some outcome) :
    .ended ⟨s.now, { w with waiting := true }, outcome⟩ ∈
      (s.perform (.wait w.registration)).2.1 := by
  have begun : s.act (.wait w.registration) = (.none, [], s.beginWait w) := by
    rw [act, h.waiter?_eq hw]
  have waits : { w with waiting := true } ∈ (s.beginWait w).waiters :=
    List.mem_map.2 ⟨w, hw, if_pos rfl⟩
  have ends : (s.beginWait w).ending? { w with waiting := true } = some outcome := by
    simp [ending?, told]
  have ended := finishEach_ended waits ends
  rw [perform, begun]
  exact ended

/-- How the entries of the table and the waiters match. -/
structure Matched (s : Session) : Prop where
  keys : (s.table.entries.map Entry.key).Nodup
  numbers : (s.table.entries.map Entry.registration).Nodup
  below : ∀ e ∈ s.table.entries, e.registration < s.table.next
  /-- An entry has one waiter, with its key, registration and deadline, which has been told
  nothing. -/
  owned : ∀ e ∈ s.table.entries, ∃ w ∈ s.waiters, w.entry = e ∧ w.slot = .empty ∧
    ∀ v ∈ s.waiters, v.registration = e.registration → v = w
  /-- A waiter without an entry has been told, and its wait ends at once. -/
  told : ∀ w ∈ s.waiters, w.entry ∉ s.table.entries → ∃ outcome,
    w.slot.outcome? = some outcome ∧
      .ended ⟨s.now, { w with waiting := true }, outcome⟩ ∈
        (s.perform (.wait w.registration)).2.1
  closed : s.table.closed = true →
    ∀ t, Leads s t → t.table.closed = true ∧ t.table.entries = []

theorem Sound.matched {s : Session} (h : s.Sound) : Matched s := by
  constructor
  case keys => exact List.pairwise_map.2 h.keys
  case numbers => exact List.pairwise_map.2 (h.entries_ordered.imp Nat.ne_of_lt)
  case below =>
    intro e he
    obtain ⟨w, hw, -, rfl⟩ := h.mem_entries.1 he
    exact h.below w hw
  case owned =>
    intro e he
    obtain ⟨w, hw, empty, rfl⟩ := h.mem_entries.1 he
    exact ⟨w, hw, rfl, empty, fun v hv number => h.waiter_unique hv hw number⟩
  case told =>
    intro w hw gone
    have told : w.slot ≠ .empty := fun empty => gone (h.entry_mem hw empty)
    obtain ⟨outcome, tells⟩ := Slot.outcome_of_ne_empty told
    exact ⟨outcome, tells, h.wait_ends hw tells⟩
  case closed =>
    intro closed t led
    obtain ⟨marks, moves⟩ := led.moves h
    have still := moves.closed closed
    exact ⟨still, (moves.sound h).closed still⟩

/-- The states of a run are among those that an empty table can be led to, and in all of these the
entries and the waiters match. -/
theorem reachable_matched :
    (∀ ops, Leads {} (run {} ops).2) ∧ ∀ s, Leads {} s → Matched s := by
  refine ⟨Sound.empty.run_leads, ?_⟩
  intro s led
  obtain ⟨marks, moves⟩ := led.moves .empty
  exact (moves.sound .empty).matched

def halfDelivered : Session :=
  { table := { entries := [⟨.ping, 1, 7⟩], next := 2 }
    waiters := [⟨"a", .scheduler, 0, 5, .filled .delivered, false⟩,
      ⟨"b", .ping, 1, 7, .empty, false⟩] }

theorem matched_halfDelivered : Leads {} halfDelivered ∧ Matched halfDelivered := by
  have led : Leads {} halfDelivered :=
    .act (.register "a" .scheduler 5) (.act (.register "b" .ping 7)
      (.act (.resolve .scheduler) (.refl _)))
  exact ⟨led, reachable_matched.2 halfDelivered led⟩

end Session

end RoundTrip.Pending
