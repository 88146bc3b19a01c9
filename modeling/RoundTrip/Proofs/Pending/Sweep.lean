import RoundTrip.Proofs.Pending.Waiting

/-!
Sweeps. A sweep removes the entries that are due and no others. The entries that a running sweeper
leaves in the table are younger than its last sweep, so they are not overdue by a whole period.
-/

namespace RoundTrip.Pending

def Op.isSweeper : Op → Bool
  | .startSweeper _ | .startCancelled _ _ | .stopSweeper _ => true
  | _ => false

namespace Session

variable {s t : Session} {w : Waiter} {op : Op}

/-- A sweep at an instant removes what is due then, counts it and tells its waiters. -/
structure SweepsAt (s : Session) (now : Duration) : Prop where
  counted : (s.sweep now).1 = (s.table.entries.filter fun e => e.deadline ≤ now).length
  left : (s.sweep now).2 = { s with
    table := { s.table with entries := s.table.entries.filter fun e => now < e.deadline }
    waiters := s.waiters.map fun w =>
      if w.entry ∈ s.table.entries ∧ w.deadline ≤ now then { w with slot := .dropped } else w }
  again : (s.sweep now).2.sweep now = (0, (s.sweep now).2)

theorem Sound.sweepsAt (h : s.Sound) (now : Duration) : s.SweepsAt now := by
  constructor
  case counted => rfl
  case left =>
    have entries : (s.table.entries.filter fun e => !decide (e.deadline ≤ now)) =
        s.table.entries.filter fun e => now < e.deadline := by
      simp only [← Nat.not_le, decide_not]
    have waiters : s.waiters.map (withdrawn (fun e => e.deadline ≤ now) .dropped) =
        s.waiters.map fun w => if w.entry ∈ s.table.entries ∧ w.deadline ≤ now
          then { w with slot := .dropped } else w := by
      apply List.map_congr_left
      intro w hw
      refine if_congr ?_ rfl rfl
      rw [h.held_iff hw, decide_eq_true_eq]
      rfl
    rw [h.sweep_eq, Session.withdraw, entries]
    exact congrArg (fun waiters => { s with
      table := { s.table with entries := s.table.entries.filter fun e => now < e.deadline }
      waiters }) waiters
  case again =>
    have swept : ∀ e ∈ (s.sweep now).2.table.entries, decide (e.deadline ≤ now) = false := by
      rw [h.sweep_eq]
      intro e he
      simpa using (List.mem_filter.1 he).2
    have none_due : (s.sweep now).2.table.overdue now = [] := by
      rw [Table.overdue, List.filter_eq_nil_iff]
      intro e he
      rw [swept e he]
      exact Bool.false_ne_true
    refine Prod.ext (congrArg List.length none_due) ?_
    rw [(h.sweep now).sweep_eq]
    exact withdraw_nothing (h.sweep now) .dropped swept

theorem Quiet.about_sweep (h : Quiet s) (hw : w ∈ s.waiters) (now : Duration) :
    about w.registration (s.perform (.sweep now)).2.1 =
      if w.entry ∈ s.table.entries ∧ w.deadline ≤ now then
        .removed w.entry .swept ::
          if w.waiting then [.ended ⟨s.now, w.told .swept, .expired⟩] else []
      else [] := by
  have performed : (s.perform (.sweep now)).2.1 =
      ((s.table.overdue now).map fun e => .removed e .swept) ++ (s.sweep now).2.finish.1 := rfl
  have there : withdrawn (fun e => e.deadline ≤ now) .dropped w ∈ (s.sweep now).2.waiters := by
    rw [h.sound.sweep_eq]
    exact List.mem_map_of_mem hw
  have later := (h.sound.sweep now).about_finish_own there
  have same : (s.sweep now).2.now = s.now := by
    rw [h.sound.sweep_eq]
    rfl
  rw [withdrawn_number] at later
  have due_iff : w.slot = .empty ∧ decide (w.entry.deadline ≤ now) = true ↔
      w.entry ∈ s.table.entries ∧ w.deadline ≤ now := by
    rw [h.sound.held_iff hw, decide_eq_true_eq]
    rfl
  rw [performed, about_append, later, Table.overdue, h.sound.about_withdraw hw, withdrawn]
  by_cases due : w.entry ∈ s.table.entries ∧ w.deadline ≤ now
  · rw [if_pos (due_iff.2 due), if_pos (due_iff.2 due), if_pos due]
    refine congrArg (List.cons _) ?_
    by_cases waits : w.waiting = true
    · have ends : (s.sweep now).2.ending? { w with slot := .dropped } = some .expired :=
        ending?_told waits rfl
      rw [if_pos waits]
      exact (farewell_of_some ends).trans (by rw [same]; rfl)
    · rw [if_neg waits]
      exact farewell_of_none (ending?_eq_none.2 fun awake => absurd awake waits)
  · have stays : (s.sweep now).2.ending? w = none := by
      have resting := h.resting w hw
      rwa [ending?, ← same] at resting
    rw [if_neg fun held => due (due_iff.1 held), if_neg fun held => due (due_iff.1 held),
      if_neg due, farewell_of_none stays]
    rfl

theorem Quiet.sweep_told (h : Quiet s) (hw : w ∈ s.waiters) {now : Duration}
    (held : w.entry ∈ s.table.entries) (due : w.deadline ≤ now) :
    (s.perform (.sweep now)).2.2.Told w.registration (· = .dropped) := by
  have sound := h.sound.sweep now
  have next : (s.perform (.sweep now)).2.2.table.next = s.table.next :=
    (finishEach_table _ _).1.trans (by rw [h.sound.sweep_eq]; rfl)
  refine ⟨(h.sound.below w hw).trans_eq next.symm, ?_⟩
  intro v hv own
  have there : v ∈ (s.sweep now).2.waiters := ((mem_finish sound).1 hv).1
  rw [h.sound.sweep_eq, waiters_withdraw] at there
  obtain ⟨u, hu, rfl⟩ := List.mem_map.1 there
  rw [withdrawn_number] at own
  rw [h.sound.waiter_unique hu hw own, withdrawn,
    if_pos ⟨(h.sound.held_iff hw).1 held, decide_eq_true due⟩]

theorem Quiet.wait_dropped (h : Quiet s) (hw : w ∈ s.waiters) (dropped : w.slot = .dropped)
    (after : List Op) : history w.registration (s.timeline (.wait w.registration :: after)) =
      [(s.now, .ended ⟨s.now, { w with waiting := true }, .expired⟩)] :=
  h.wait_told hw (by rw [dropped]; rfl) after

structure FreshSince (period last : Duration) (s : Session) : Prop where
  runs : ∃ next ≤ last + period, s.sweeper = some ⟨period, next⟩
  past : last ≤ s.now
  entries : ∀ e ∈ s.table.entries, last < e.deadline

def Fresh (period : Duration) (s : Session) : Prop := ∃ last, FreshSince period last s

variable {period : Duration}

theorem Fresh.mono (h : Fresh period s) (now : s.now ≤ t.now) (sweeper : t.sweeper = s.sweeper)
    (entries : ∀ e ∈ t.table.entries, e ∈ s.table.entries ∨ s.now < e.deadline) :
    Fresh period t := by
  obtain ⟨last, fresh⟩ := h
  refine ⟨last, sweeper ▸ fresh.runs, fresh.past.trans now, ?_⟩
  intro e he
  rcases entries e he with old | ahead
  · exact fresh.entries e old
  -- what came in since was not due then, and the last sweep was before
  · exact fresh.past.trans_lt ahead

theorem Sound.finish_entries (h : s.Sound) : s.finish.2.table.entries ⊆ s.table.entries := by
  intro e he
  obtain ⟨w, hw, empty, rfl⟩ := (h.finish_moves.sound h).mem_entries.1 he
  exact h.entry_mem ((mem_finish h).1 hw).1 empty

theorem Fresh.finish (h : Fresh period s) (sound : s.Sound) : Fresh period s.finish.2 := by
  obtain ⟨now, sweeper⟩ := finishEach_keeps s s.waiters
  exact h.mono now.ge sweeper fun e he => .inl (sound.finish_entries he)

theorem Sound.runSweeper_fresh (h : s.Sound) {next : Duration}
    (runs : s.sweeper = some ⟨period, next⟩) (due : next.tick ≤ s.now) :
    Fresh period s.runSweeper := by
  rw [h.runSweeper_due runs due]
  have past : next ≤ s.now := next.le_tick.trans due
  refine ⟨s.now, ⟨next + period, Nat.add_le_add_right past _, rfl⟩, le_rfl, ?_⟩
  intro e he
  simpa using (List.mem_filter.1 he).2

theorem Sound.turn_fresh (h : s.Sound) (swept : Fresh period s.runSweeper) :
    Fresh period s.turn.2 :=
  swept.finish (h.runSweeper_moves.sound h)

theorem Fresh.turn (h : Fresh period s) (sound : s.Sound) : Fresh period s.turn.2 := by
  refine sound.turn_fresh ?_
  obtain ⟨next, -, runs⟩ := h.choose_spec.runs
  by_cases due : next.tick ≤ s.now
  · exact sound.runSweeper_fresh runs due
  · rwa [runSweeper_early]
    intro w hw
    obtain rfl := Option.some.inj (runs.symm.trans hw)
    exact due

def Tended (period start : Duration) (s : Session) : Prop :=
  s.sweeper = some ⟨period, start⟩ ∨ Fresh period s

variable {start : Duration}

theorem Tended.mono (h : Tended period start s) (now : s.now ≤ t.now)
    (sweeper : t.sweeper = s.sweeper)
    (entries : ∀ e ∈ t.table.entries, e ∈ s.table.entries ∨ s.now < e.deadline) :
    Tended period start t := by
  rcases h with waits | fresh
  · exact .inl (sweeper.trans waits)
  · exact .inr (fresh.mono now sweeper entries)

theorem Tended.finish (h : Tended period start s) (sound : s.Sound) :
    Tended period start s.finish.2 := by
  obtain ⟨now, sweeper⟩ := finishEach_keeps s s.waiters
  exact h.mono now.ge sweeper fun e he => .inl (sound.finish_entries he)

theorem Tended.turn (h : Tended period start s) (sound : s.Sound) :
    Tended period start s.turn.2 := by
  rcases h with waits | fresh
  · by_cases due : start.tick ≤ s.now
    · exact .inr (sound.turn_fresh (sound.runSweeper_fresh waits due))
    · have idle : s.runSweeper = s := runSweeper_early fun w hw => by
        obtain rfl := Option.some.inj (waits.symm.trans hw)
        exact due
      rw [Session.turn, idle]
      exact .inl ((finishEach_keeps s s.waiters).2.trans waits)
  · exact .inr (fresh.turn sound)

theorem Quiet.start_tended (h : Quiet s) (interval : Duration) :
    Tended (max interval Duration.millisecond) s.now (s.perform (.startSweeper interval)).2.2 := by
  have started : Tended (max interval Duration.millisecond) s.now (s.startSweeper interval) :=
    .inl rfl
  rw [h.perform_startSweeper]
  exact started.turn (h.sound.startSweeper interval)

theorem Quiet.advance_tended (h : Quiet s) (tended : Tended period start s) (d : Duration) :
    Tended period start (machine.advance d s).2 := by
  have nothing : Clock.Machine.Composes fun (_ : Session) (_ : List Mark) (_ : Session) => True :=
    ⟨fun _ => trivial, fun _ _ => trivial⟩
  refine (Clock.Machine.advance_ahead nothing (I := fun s => Quiet s ∧ Tended period start s)
    ?ahead ?pass ?fire d s ⟨h, tended⟩).1.2
  case ahead =>
    rintro s ⟨h, -⟩
    exact h.timers_ahead
  case pass =>
    rintro t s ⟨h, tended⟩ later ahead
    exact ⟨⟨h.pass ahead, tended.mono later rfl fun e he => .inl he⟩, rfl, trivial⟩
  case fire =>
    rintro t s ⟨h, tended⟩ later first
    have due := h.due first
    have passed : Tended period start { s with now := t } :=
      tended.mono later rfl fun e he => .inl he
    exact ⟨⟨due.turn, passed.turn due.sound⟩, turn_now _, trivial⟩

theorem Quiet.perform_tended (h : Quiet s) (tended : Tended period start s)
    (apart : op.isSweeper = false) : Tended period start (s.perform op).2.2 := by
  have sound := (h.act op).sound
  cases clock : op.isClock with
  | false =>
    obtain ⟨now, sweeper, entries⟩ := h.sound.act_still clock
    exact (tended.mono now.ge sweeper entries).finish sound
  | true =>
    cases op with
    | advance d =>
      rw [h.perform_advance]
      exact h.advance_tended tended d
    | startSweeper | startCancelled | stopSweeper => cases apart
    | _ => cases clock

theorem Quiet.run_tended (h : Quiet s) (tended : Tended period start s) {ops : List Op}
    (apart : ∀ op ∈ ops, op.isSweeper = false) : Tended period start (s.run ops).2 := by
  induction ops generalizing s with
  | nil => exact tended
  | cons op rest ih =>
    exact ih (h.perform op) (h.perform_tended tended (apart op List.mem_cons_self))
      fun op later => apart op (List.mem_cons_of_mem _ later)

theorem Quiet.fresh_entries (h : Quiet s) (fresh : Fresh period s) :
    ∀ e ∈ s.table.entries, s.now < e.deadline + period + Duration.millisecond := by
  intro e he
  obtain ⟨last, ⟨next, soon, runs⟩, -, entries⟩ := fresh
  calc s.now
    _ < next.tick := (h.sweeper _ runs).2
    _ < next + Duration.millisecond := next.tick_lt_add
    _ ≤ last + period + Duration.millisecond := Nat.add_le_add_right soon _
    _ < e.deadline + period + Duration.millisecond :=
      Nat.add_lt_add_right (Nat.add_lt_add_right (entries e he) _) _

theorem Quiet.tended_entries (h : Quiet s) (tended : Tended period start s)
    (begun : start.tick ≤ s.now) :
    ∀ e ∈ s.table.entries, s.now < e.deadline + period + Duration.millisecond := by
  rcases tended with waits | fresh
  · exact absurd begun (Nat.not_le_of_lt (h.sweeper _ waits).2)
  · exact h.fresh_entries fresh

theorem unswept_finish (s : Session) : Without .swept s.finish.1 := by
  intro e he
  cases finishEach_timedOut s s.waiters _ he

theorem stopped_turn (off : s.sweeper = none) :
    s.turn.2.sweeper = none ∧ Without .swept s.turn.1 := by
  have idle : s.runSweeper = s := by rw [runSweeper, off]
  have nothing : s.dueSweep = [] := by rw [dueSweep, off]
  rw [turn, idle, nothing]
  exact ⟨(finishEach_keeps s s.waiters).2.trans off, unswept_finish s⟩

theorem stopped_advance (off : s.sweeper = none) (d : Duration) :
    (machine.advance d s).2.sweeper = none ∧ Without .swept (machine.advance d s).1 := by
  have composes : Clock.Machine.Composes fun (_ : Session) (marks : List Mark) (_ : Session) =>
      Without .swept marks := ⟨fun _ => without_nil _, .append⟩
  exact Clock.Machine.advance_closed (m := machine) composes (I := fun s => s.sweeper = none)
    (fun _ _ off => ⟨off, without_nil _⟩) (fun _ off => stopped_turn off) d s off

theorem stopSweeper_off (s : Session) (tickFirst : Bool) :
    (s.stopSweeper tickFirst).2.sweeper = none := by
  cases tickFirst <;> rfl

theorem Sound.perform_stopped (h : s.Sound) (off : s.sweeper = none)
    (started : ∀ interval, op ≠ .startSweeper interval) :
    (s.perform op).2.2.sweeper = none := by
  refine (finishEach_keeps _ _).2.trans ?_
  cases clock : op.isClock with
  | false => exact (h.act_still clock).2.1.trans off
  | true =>
    cases op with
    | advance d => exact (stopped_advance off d).1
    | startSweeper interval => exact absurd rfl (started interval)
    | startCancelled | stopSweeper => exact stopSweeper_off _ _
    | _ => cases clock

theorem stopSweeper_unswept (idle : s.dueSweep = []) (tickFirst : Bool) :
    Without .swept (s.stopSweeper tickFirst).1 := by
  cases tickFirst with
  | false => exact without_nil _
  | true =>
    rw [stopSweeper, if_pos rfl, idle]
    exact without_nil _

theorem act_unswept (off : s.sweeper = none) (started : ∀ interval, op ≠ .startSweeper interval)
    (cancelled : ∀ interval tickFirst, op ≠ .startCancelled interval tickFirst)
    (asked : ∀ now, op ≠ .sweep now) : Without .swept (s.act op).2.1 := by
  cases op with
  | register name key deadline =>
    rw [act]
    split
    next => exact without_nil _
    next => exact fun e he => by cases he
  | resolve key | expire key | close => exact without_removed (by decide)
  | sweep now => exact absurd rfl (asked now)
  | wait registration =>
    rw [act]
    split <;> exact without_nil _
  | leave registration =>
    rw [act]
    split
    next => exact without_nil _
    next => exact without_removed (by decide)
  | advance d => exact (stopped_advance off d).2
  | startSweeper interval => exact absurd rfl (started interval)
  | startCancelled interval tickFirst => exact absurd rfl (cancelled interval tickFirst)
  | stopSweeper tickFirst => exact stopSweeper_unswept (by rw [dueSweep, off]) tickFirst

theorem Sound.run_stopped (h : s.Sound) (off : s.sweeper = none) {ops : List Op}
    (started : ∀ interval, .startSweeper interval ∉ ops) : (s.run ops).2.sweeper = none := by
  induction ops generalizing s with
  | nil => exact off
  | cons op rest ih =>
    have still := h.perform_stopped off
      fun interval same => started interval (same ▸ List.mem_cons_self)
    exact ih ((h.perform_moves op).sound h) still
      fun interval later => started interval (List.mem_cons_of_mem _ later)

/-- What is swept from a state on, when and by whom. -/
structure Sweeping (s : Session) : Prop where
  precise : ∀ t, Leads s t → ∀ now, t.SweepsAt now
  waiting : ∀ now, ∀ w ∈ s.waiters, about w.registration (s.perform (.sweep now)).2.1 =
    if w.entry ∈ s.table.entries ∧ w.deadline ≤ now then
      .removed w.entry .swept ::
        if w.waiting then [.ended ⟨s.now, w.told .swept, .expired⟩] else []
    else []
  /-- A wait that begins later ends as it begins. -/
  later : ∀ now between, ∀ w ∈ s.waiters, w.entry ∈ s.table.entries → w.deadline ≤ now →
    ∀ v ∈ (s.run (.sweep now :: between)).2.waiters, v.registration = w.registration → ∀ after,
      history v.registration
          ((s.run (.sweep now :: between)).2.timeline (.wait v.registration :: after)) =
        [((s.run (.sweep now :: between)).2.now,
          .ended ⟨(s.run (.sweep now :: between)).2.now, { v with waiting := true }, .expired⟩)]
  /-- From the first tick of a running sweeper on no entry is overdue by its period and the rounding
  of a timer, whether its waiter waits or not. -/
  fresh : ∀ interval after, (∀ op ∈ after, op.isSweeper = false) →
    s.now.tick ≤ (s.run (.startSweeper interval :: after)).2.now →
    ∀ e ∈ (s.run (.startSweeper interval :: after)).2.table.entries,
      (s.run (.startSweeper interval :: after)).2.now <
        e.deadline + max interval Duration.millisecond + Duration.millisecond
  /-- A sweeper does not sweep when its token is cancelled, -/
  stopped : ∀ tickFirst, Without .swept (s.perform (.stopSweeper tickFirst)).2.1
  /-- and once it is cancelled nothing is swept that nobody asks for. A sweeper that is started with
  a cancelled token may sweep as it starts, and not later. -/
  cancelled : ∀ stop, (∃ tickFirst, stop = .stopSweeper tickFirst ∨
      ∃ interval, stop = .startCancelled interval tickFirst) →
    ∀ after, (∀ i, .startSweeper i ∉ after) → ∀ op, (∀ i, op ≠ .startSweeper i) →
      (∀ i tickFirst, op ≠ .startCancelled i tickFirst) → (∀ now, op ≠ .sweep now) →
        Without .swept ((s.run (stop :: after)).2.perform op).2.1

/-- However short the interval is, the next sweep comes a millisecond later. -/
example : (run {} [.startSweeper 0, .register "a" .scheduler 5,
    .advance Duration.millisecond]).2.table.entries =
    [] := by
  decide

end Session

end RoundTrip.Pending
