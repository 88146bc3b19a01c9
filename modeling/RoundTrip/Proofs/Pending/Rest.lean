import RoundTrip.Proofs.Pending.Move

/-!
A pending table at rest: its timers are ahead, and no wait can end. An operation may disturb it, but
what is due at the present instant happens before the operation is over.
-/

namespace RoundTrip.Pending

def Op.isClock : Op → Bool
  | .advance _ | .startSweeper _ | .startCancelled _ _ | .stopSweeper _ => true
  | _ => false

namespace Session

theorem finishEach_waiters {s : Session} {ws : List Waiter} {w : Waiter}
    (hw : w ∈ (s.finishEach ws).2.waiters) :
    w ∈ s.waiters ∧ (w ∈ ws → s.ending? w = none) := by
  induction ws generalizing s with
  | nil => exact ⟨hw, fun h => by cases h⟩
  | cons v rest ih =>
    rw [finishEach] at hw
    split at hw
    next stays =>
      obtain ⟨old, none_due⟩ := ih hw
      refine ⟨old, ?_⟩
      intro hmem
      rcases List.mem_cons.1 hmem with rfl | hmem
      · exact stays
      · exact none_due hmem
    next =>
      obtain ⟨old, none_due⟩ := ih hw
      obtain ⟨old, apart⟩ := List.mem_filter.1 old
      refine ⟨old, ?_⟩
      intro hmem
      rcases List.mem_cons.1 hmem with rfl | hmem
      · simp at apart
      · exact none_due hmem

theorem ending?_eq_none {s : Session} {w : Waiter} :
    s.ending? w = none ↔ (w.waiting = true → w.slot = .empty ∧ s.now < w.deadline.tick) := by
  rw [ending?]
  cases w.waiting with
  | false => simp
  | true =>
    cases w.slot with
    | empty =>
      by_cases hd : w.deadline.tick ≤ s.now
      · simp [Slot.outcome?, hd, Nat.not_lt_of_le hd]
      · simp [Slot.outcome?, hd, Nat.lt_of_not_le hd]
    | filled r => simp [Slot.outcome?]
    | dropped => simp [Slot.outcome?]

structure Ready (s : Session) : Prop where
  sound : s.Sound
  sweeper : ∀ w ∈ s.sweeper, Duration.millisecond ≤ w.period ∧ s.now < w.next.tick

structure Quiet (s : Session) : Prop extends Ready s where
  resting : ∀ w ∈ s.waiters, s.ending? w = none

structure Due (s : Session) : Prop where
  sound : s.Sound
  sweeper : ∀ w ∈ s.sweeper, Duration.millisecond ≤ w.period ∧ s.now ≤ w.next.tick

theorem Quiet.empty : Quiet {} := by
  refine ⟨⟨Sound.empty, ?_⟩, ?_⟩ <;> simp

variable {s : Session}

theorem finishEach_keeps (s : Session) (ws : List Waiter) :
    (s.finishEach ws).2.now = s.now ∧ (s.finishEach ws).2.sweeper = s.sweeper := by
  induction ws generalizing s with
  | nil => exact ⟨rfl, rfl⟩
  | cons w rest ih =>
    rw [finishEach]
    split
    next => exact ih s
    next => exact ih (s.leave w)

theorem finishEach_nothing {ws : List Waiter} (rest : ∀ w ∈ ws, s.ending? w = none) :
    s.finishEach ws = ([], s) := by
  induction ws with
  | nil => rfl
  | cons w ws ih =>
    rw [finishEach, rest w List.mem_cons_self]
    exact ih fun v hv => rest v (List.mem_cons_of_mem _ hv)

theorem Ready.finish (h : Ready s) : Quiet s.finish.2 := by
  have keeps : s.finish.2.now = s.now ∧ s.finish.2.sweeper = s.sweeper :=
    finishEach_keeps s s.waiters
  obtain ⟨now, sweeper⟩ := keeps
  refine ⟨⟨h.sound.finish_moves.sound h.sound, ?_⟩, ?_⟩
  · rw [sweeper, now]
    exact h.sweeper
  · intro w hw
    have same : s.finish.2.ending? w = s.ending? w := by
      rw [ending?, ending?, now]
    obtain ⟨old, none_due⟩ := finishEach_waiters hw
    rw [same]
    exact none_due old

theorem runSweeper_now (s : Session) : s.runSweeper.now = s.now := by
  rw [runSweeper]
  split
  next => rfl
  next =>
    split
    next => exact signalAll_now _ _ _
    next => rfl

theorem Due.runSweeper (h : Due s) : Ready s.runSweeper := by
  refine ⟨h.sound.runSweeper_moves.sound h.sound, ?_⟩
  rw [runSweeper_now]
  intro w hw
  rw [Session.runSweeper] at hw
  split at hw
  next none_runs =>
    rw [none_runs] at hw
    cases hw
  next v runs =>
    obtain ⟨slow, due⟩ := h.sweeper v runs
    split at hw
    next =>
      obtain rfl := Option.some.inj hw
      exact ⟨slow, due.trans_lt (Duration.tick_lt_tick_add _ slow)⟩
    next early =>
      rw [runs] at hw
      obtain rfl := Option.some.inj hw
      exact ⟨slow, Nat.lt_of_not_le early⟩

theorem runSweeper_early (early : ∀ w ∈ s.sweeper, ¬ w.next.tick ≤ s.now) : s.runSweeper = s := by
  rw [runSweeper]
  split
  next => rfl
  next w runs => rw [if_neg (early w runs)]

theorem Sound.runSweeper_due (h : s.Sound) {w : Sweeper} (runs : s.sweeper = some w)
    (due : w.next.tick ≤ s.now) :
    s.runSweeper = { s.withdraw (fun e => e.deadline ≤ s.now) .dropped with
      sweeper := some ⟨w.period, w.next + w.period⟩ } := by
  rw [runSweeper, runs]
  simp only [if_pos due, h.sweep_eq]

theorem runSweeper_sweeper {w : Sweeper} (hw : w ∈ s.runSweeper.sweeper) :
    ∃ v ∈ s.sweeper, w.period = v.period ∧ ∃ k, w.next = v.next + k * v.period := by
  rw [runSweeper] at hw
  split at hw
  next none_runs =>
    rw [none_runs] at hw
    cases hw
  next v runs =>
    refine ⟨v, runs, ?_⟩
    split at hw
    next =>
      obtain rfl := Option.some.inj hw
      exact ⟨rfl, 1, by rw [Nat.one_mul]⟩
    next =>
      rw [runs] at hw
      obtain rfl := Option.some.inj hw
      exact ⟨rfl, 0, by rw [Nat.zero_mul, Nat.add_zero]⟩

theorem turn_now (s : Session) : s.turn.2.now = s.now :=
  (finishEach_keeps _ _).1.trans (runSweeper_now s)

theorem Due.turn (h : Due s) : Quiet s.turn.2 := h.runSweeper.finish

theorem Quiet.early (h : Quiet s) : ∀ w ∈ s.sweeper, ¬ w.next.tick ≤ s.now := by
  intro w runs
  exact Nat.not_le_of_lt (h.sweeper w runs).2

theorem Quiet.dueSweep_nil (h : Quiet s) : s.dueSweep = [] := by
  rw [dueSweep]
  split
  next => rfl
  next w runs => rw [if_neg (h.early w runs)]

theorem Quiet.turn (h : Quiet s) : s.turn = ([], s) := by
  rw [Session.turn, runSweeper_early h.early, h.dueSweep_nil, finish, finishEach_nothing h.resting]
  rfl

theorem sweeper_timer {w : Sweeper} (hw : w ∈ s.sweeper) : w.next.tick ∈ s.timers := by
  refine List.mem_append_left _ ?_
  rw [Option.mem_def.1 hw]
  exact List.mem_cons_self

theorem waiter_timer {w : Waiter} (hw : w ∈ s.waiters) (waits : w.waiting = true) :
    w.deadline.tick ∈ s.timers :=
  List.mem_append_right _ (List.mem_map.2 ⟨w, List.mem_filter.2 ⟨hw, waits⟩, rfl⟩)

theorem Quiet.timers_ahead (h : Quiet s) : ∀ d ∈ s.timers, s.now < d := by
  intro d hd
  rcases List.mem_append.1 hd with hd | hd
  · obtain ⟨w, hw, rfl⟩ := Option.map_eq_some_iff.1 (Option.mem_toList.1 hd)
    exact (h.sweeper w hw).2
  · obtain ⟨w, hw, rfl⟩ := List.mem_map.1 hd
    obtain ⟨hw, waits⟩ := List.mem_filter.1 hw
    exact (ending?_eq_none.1 (h.resting w hw) waits).2

theorem Quiet.due (h : Quiet s) {t : Duration} (due : ∀ d ∈ s.timers, t ≤ d) :
    Due { s with now := t } := by
  refine ⟨h.sound.congr rfl rfl, ?_⟩
  intro w hw
  exact ⟨(h.sweeper w hw).1, due _ (sweeper_timer (s := s) hw)⟩

theorem Quiet.pass (h : Quiet s) {t : Duration} (ahead : ∀ d ∈ s.timers, t < d) :
    Quiet { s with now := t } := by
  refine ⟨⟨h.sound.congr rfl rfl, ?_⟩, ?_⟩
  · intro w hw
    exact ⟨(h.sweeper w hw).1, ahead _ (sweeper_timer (s := s) hw)⟩
  · intro w hw
    rw [ending?_eq_none]
    intro waits
    have slot := (ending?_eq_none.1 (h.resting w hw) waits).1
    exact ⟨slot, ahead _ (waiter_timer (s := s) hw waits)⟩

theorem Quiet.advance (h : Quiet s) (d : Duration) : Quiet (machine.advance d s).2 := by
  have reflexive : Clock.Machine.Composes fun (_ : Session) (_ : List Mark) (_ : Session) => True :=
    ⟨fun _ => trivial, fun _ _ => trivial⟩
  refine (Clock.Machine.advance_ahead reflexive (I := Quiet) ?ahead ?pass ?fire d s h).1
  case ahead =>
    intro s h
    exact h.timers_ahead
  case pass =>
    intro t s h _ ahead
    exact ⟨h.pass ahead, rfl, trivial⟩
  case fire =>
    intro t s h _ due
    exact ⟨(h.due due).turn, turn_now _, trivial⟩

theorem Quiet.startSweeper (h : Quiet s) (interval : Duration) :
    Quiet (s.startSweeper interval).turn.2 := by
  have due : Due (s.startSweeper interval) := by
    refine ⟨h.sound.startSweeper interval, ?_⟩
    intro w started
    obtain rfl := Option.some.inj started
    exact ⟨le_max_right _ _, Duration.le_tick _⟩
  exact due.turn

theorem Ready.congr (h : Ready s) {s' : Session} (sound : s'.Sound) (now : s'.now = s.now)
    (sweeper : s'.sweeper = s.sweeper) : Ready s' := by
  refine ⟨sound, ?_⟩
  rw [now, sweeper]
  exact h.sweeper

theorem Sound.act_still (h : s.Sound) {op : Op} (still : op.isClock = false) :
    (s.act op).2.2.now = s.now ∧ (s.act op).2.2.sweeper = s.sweeper ∧
      ∀ e ∈ (s.act op).2.2.table.entries, e ∈ s.table.entries ∨ s.now < e.deadline := by
  cases op with
  | register name key deadline =>
    rw [act]
    split
    next error _ => cases error <;> exact ⟨rfl, rfl, fun e he => .inl he⟩
    next registered =>
      obtain ⟨ahead, -, -, rfl⟩ := register_ok registered
      refine ⟨rfl, rfl, ?_⟩
      intro e he
      rcases List.mem_append.1 he with old | new
      · exact .inl old
      · obtain rfl := List.mem_singleton.1 new
        exact .inr ahead
  | resolve key | expire key =>
    simp only [act, resolve, expire, h.take_eq]
    exact ⟨rfl, rfl, fun e he => .inl (List.mem_of_mem_filter he)⟩
  | sweep now =>
    simp only [act, h.sweep_eq]
    exact ⟨rfl, rfl, fun e he => .inl (List.mem_of_mem_filter he)⟩
  | close =>
    simp only [act, h.close_eq]
    exact ⟨rfl, rfl, fun e he => by cases he⟩
  | wait registration =>
    rw [act]
    split <;> exact ⟨rfl, rfl, fun e he => .inl he⟩
  | leave registration =>
    rw [act]
    split
    next => exact ⟨rfl, rfl, fun e he => .inl he⟩
    next => exact ⟨rfl, rfl, fun e he => .inl (List.mem_of_mem_filter he)⟩
  | advance | startSweeper | startCancelled | stopSweeper => cases still

theorem Quiet.act (h : Quiet s) (op : Op) : Ready (s.act op).2.2 := by
  have sound := (h.sound.act_moves op).sound h.sound
  cases clock : op.isClock with
  | false =>
    obtain ⟨now, sweeper, -⟩ := h.sound.act_still clock
    exact h.congr sound now sweeper
  | true =>
    cases op with
    | advance d => exact (h.advance d).toReady
    | startSweeper interval => exact (h.startSweeper interval).toReady
    | startCancelled _ tickFirst | stopSweeper tickFirst =>
      refine ⟨sound, fun w runs => ?_⟩
      cases tickFirst <;> cases runs
    | _ => cases clock

theorem Quiet.perform (h : Quiet s) (op : Op) : Quiet (s.perform op).2.2 := (h.act op).finish

theorem Quiet.run (h : Quiet s) (ops : List Op) : Quiet (s.run ops).2 := by
  induction ops generalizing s with
  | nil => exact h
  | cons op rest ih => exact ih (h.perform op)

end Session

end RoundTrip.Pending
