import RoundTrip.Proofs.Pending.Finish

/-!
The session without a waiter whose entry is gone. Its key may have been registered again, any
number of times, while the waiter is still around. Whatever becomes of it then, nobody else notices:
the run is the same as it would be without it.
-/

namespace RoundTrip.Pending

variable {r : Nat}

namespace Session

def forget (s : Session) (registration : Nat) : Session :=
  { s with waiters := s.waiters.filter fun w => w.registration ≠ registration }

/-- The registration is over: its waiter, if it is still there, has been told. -/
def Stale (s : Session) (registration : Nat) : Prop := s.Told registration (· ≠ .empty)

variable {s t : Session} {w : Waiter} {marks : List Mark}

theorem Moves.stale (m : Moves s marks t) (sound : s.Sound) (h : s.Stale r) : t.Stale r :=
  m.told sound (fun full => full rfl) h

theorem Sound.stale (h : s.Sound) (hw : w ∈ s.waiters) (gone : w.entry ∉ s.table.entries) :
    s.Stale w.registration := by
  refine ⟨h.below w hw, ?_⟩
  intro v hv same
  rw [h.waiter_unique hv hw same]
  exact fun empty => gone (h.entry_mem hw empty)

theorem mem_forget : w ∈ (s.forget r).waiters ↔ w ∈ s.waiters ∧ w.registration ≠ r := by
  simp [forget]

section

variable (h : s.Sound) (stale : s.Stale r)
include h stale

theorem Sound.apart : ∀ e ∈ s.table.entries, e.registration ≠ r := by
  intro e he own
  obtain ⟨w, hw, empty, rfl⟩ := h.mem_entries.1 he
  exact stale.slot w hw own empty

theorem Sound.forget : (s.forget r).Sound := by
  constructor
  case entries =>
    have kept : ((s.waiters.filter fun w => w.registration ≠ r).filter fun w => w.slot = .empty) =
        s.waiters.filter fun w => w.slot = .empty := by
      rw [List.filter_filter]
      apply List.filter_congr
      intro w hw
      by_cases own : w.registration = r
      · simp [stale.slot w hw own]
      · simp [own]
    rw [Session.forget, kept]
    exact h.entries
  case ordered => exact h.ordered.filter _
  case below =>
    intro w hw
    exact h.below w (mem_forget.1 hw).1
  case keys => exact h.keys
  case closed => exact h.closed

theorem Sound.leave_stale (hw : w ∈ s.waiters) (own : w.registration = r) :
    s.leave w = s.forget r := by
  have full := stale.slot w hw own
  have entries : (s.leave w).table.entries = s.table.entries := by
    rw [h.leave_entries hw, own, List.filter_eq_self]
    simpa using h.apart stale
  rw [Session.leave, Session.forget, ← own, Session.mk.injEq, Table.removeOwn, Table.mk.injEq]
  exact ⟨rfl, ⟨entries, rfl, rfl⟩, rfl, rfl⟩

end

theorem forget_forget (s : Session) (r : Nat) : (s.forget r).forget r = s.forget r := by
  simp [forget]

theorem leave_forget (s : Session) (w : Waiter) (r : Nat) :
    (s.forget r).leave w = (s.leave w).forget r := by
  simp only [leave, forget, List.filter_filter, Bool.and_comm]

theorem update_forget (s : Session) (registration r : Nat) {f : Waiter → Waiter}
    (keeps : ∀ w, (f w).registration = w.registration) :
    (s.forget r).update registration f = (s.update registration f).forget r := by
  have kept (w : Waiter) :
      (if w.registration = registration then f w else w).registration = w.registration := by
    split
    · exact keeps w
    · rfl
  simp only [update, forget, List.filter_map, Function.comp_def, kept]

theorem withdraw_forget (s : Session) (p : Entry → Bool) (slot : Slot) (r : Nat) :
    (s.forget r).withdraw p slot = (s.withdraw p slot).forget r := by
  simp only [withdraw, forget, List.filter_map, Function.comp_def, withdraw_registration]

theorem beginWait_forget (s : Session) (w : Waiter) (r : Nat) :
    (s.forget r).beginWait w = (s.beginWait w).forget r :=
  s.update_forget _ r fun _ => rfl

theorem beginWait_stale (s : Session) (w : Waiter) :
    (s.beginWait w).forget w.registration = s.forget w.registration := by
  rw [← beginWait_forget]
  exact update_nothing (fun v hv => (mem_forget.1 hv).2) _

theorem waiter?_forget {registration : Nat} (apart : registration ≠ r) (s : Session) :
    (s.forget r).waiter? registration = s.waiter? registration := by
  simp only [waiter?, forget, List.find?_filter]
  congr 1
  funext w
  by_cases same : w.registration = registration
  · simp [same, apart]
  · simp [same]

theorem waiter?_forget_self (s : Session) (r : Nat) : (s.forget r).waiter? r = none := by
  rw [waiter?, List.find?_eq_none]
  intro w hw
  simpa using (mem_forget.1 hw).2

theorem dueSweep_subset (s : Session) : s.dueSweep ⊆ s.table.entries := by
  rw [dueSweep]
  split
  next => exact List.nil_subset _
  next =>
    split
    next => exact List.filter_subset_self _
    next => exact List.nil_subset _

section

variable (h : s.Sound) (stale : s.Stale r)
include h stale

theorem Sound.finish_forget :
    (s.forget r).finish = (others r s.finish.1, s.finish.2.forget r) := by
  have forgot := h.forget stale
  have finished := h.finish_moves
  refine Prod.ext ?marks ?state
  case marks =>
    rw [forgot.finish_marks, h.finish_marks, others, filter_farewells fun n => decide (n ≠ r)]
    rfl
  case state =>
    have kept := finishEach_keeps s s.waiters
    have kept' := finishEach_keeps (s.forget r) (s.forget r).waiters
    have table := finishEach_table s s.waiters
    have table' := finishEach_table (s.forget r) (s.forget r).waiters
    refine Sound.ext (forgot.finish_moves.sound forgot)
      ((finished.sound h).forget (finished.stale h stale)) (kept'.1.trans kept.1.symm) ?_
      (table'.1.trans table.1.symm) (table'.2.trans table.2.symm) (kept'.2.trans kept.2.symm)
    rw [forgot.finish_waiters, Session.forget, Session.forget, h.finish_waiters,
      List.filter_filter, List.filter_filter]
    apply List.filter_congr
    intro w _
    exact Bool.and_comm _ _

theorem Sound.sweep_forget (now : Duration) :
    ((s.forget r).sweep now).2 = (s.sweep now).2.forget r := by
  rw [(h.forget stale).sweep_eq, h.sweep_eq, withdraw_forget]

theorem Sound.take_forget (key : Key) (slot : Slot) :
    (s.forget r).take key slot = ((s.take key slot).1, (s.take key slot).2.forget r) := by
  rw [(h.forget stale).take_eq, h.take_eq, withdraw_forget]
  rfl

theorem Sound.close_forget : (s.forget r).close.2 = s.close.2.forget r := by
  rw [(h.forget stale).close_eq, h.close_eq, withdraw_forget]
  rfl

theorem Sound.runSweeper_forget : (s.forget r).runSweeper = s.runSweeper.forget r := by
  have sweeper : (s.forget r).sweeper = s.sweeper := rfl
  have now : (s.forget r).now = s.now := rfl
  rw [runSweeper, runSweeper, sweeper, now]
  cases s.sweeper with
  | none => rfl
  | some w =>
    simp only
    split
    next =>
      rw [h.sweep_forget stale]
      rfl
    next => rfl

theorem Sound.others_kept {es : List Entry} (held : es ⊆ s.table.entries) (exit : Exit) :
    others r (es.map fun e => .removed e exit) = es.map fun e => .removed e exit := by
  apply others_all
  intro m hm
  obtain ⟨e, he, rfl⟩ := List.mem_map.1 hm
  exact h.apart stale e (held he)

theorem Sound.stopSweeper_forget (tickFirst : Bool) :
    (s.forget r).stopSweeper tickFirst =
      (others r (s.stopSweeper tickFirst).1, (s.stopSweeper tickFirst).2.forget r) := by
  cases tickFirst with
  | false => rfl
  | true =>
    have due : (s.forget r).dueSweep = s.dueSweep := rfl
    simp only [stopSweeper, if_true, h.runSweeper_forget stale, due,
      h.others_kept stale (dueSweep_subset s)]
    rfl

theorem Sound.turn_forget : (s.forget r).turn = (others r s.turn.1, s.turn.2.forget r) := by
  have swept := h.runSweeper_moves
  have due : (s.forget r).dueSweep = s.dueSweep := rfl
  rw [turn, turn, h.runSweeper_forget stale,
    (swept.sound h).finish_forget (swept.stale h stale), due]
  simp only [others_append, h.others_kept stale (dueSweep_subset s)]

end

theorem timers_forget (s : Session) (r : Nat) : (s.forget r).timers ⊆ s.timers := by
  intro d hd
  rcases List.mem_append.1 hd with hd | hd
  · exact List.mem_append_left _ hd
  · obtain ⟨w, hw, rfl⟩ := List.mem_map.1 hd
    obtain ⟨hw, waits⟩ := List.mem_filter.1 hw
    exact waiter_timer (mem_forget.1 hw).1 waits

theorem Quiet.forget (h : Quiet s) (stale : s.Stale r) : Quiet (s.forget r) := by
  refine ⟨⟨h.sound.forget stale, h.sweeper⟩, ?_⟩
  intro w hw
  exact h.resting w (mem_forget.1 hw).1

theorem Quiet.advance_forget (h : Quiet s) (stale : s.Stale r) (d : Duration) :
    machine.advance d (s.forget r) =
      (others r (machine.advance d s).1, (machine.advance d s).2.forget r) := by
  refine Clock.Machine.advance_part (I := fun s => Quiet s ∧ s.Stale r) (A := fun _ => True)
    (g := fun s => s.forget r) ?ahead ?pass ?fire ?idle (fun _ _ _ => rfl) (fun _ _ => rfl)
    (fun _ _ => rfl) ?keeps rfl (others_append r) (fun _ => rfl) (fun _ _ => rfl)
    (fun s => timers_forget s r) ?wake d s ⟨h, stale⟩ fun _ _ => trivial
  case ahead =>
    rintro s ⟨h, -⟩
    exact h.timers_ahead
  case pass =>
    rintro t s ⟨h, stale⟩ _ ahead
    exact ⟨h.pass ahead, stale.given, stale.slot⟩
  case fire =>
    rintro t s ⟨h, stale⟩ _ due
    have passed := h.due due
    have told : ({ s with now := t } : Session).Stale r := ⟨stale.given, stale.slot⟩
    exact ⟨⟨passed.turn, passed.sound.turn_moves.stale passed.sound told⟩, turn_now _⟩
  case idle =>
    rintro s ⟨h, -⟩
    exact h.turn
  case keeps =>
    rintro s ⟨h, stale⟩
    exact ⟨h.forget stale, stale.given, fun w hw => stale.slot w (mem_forget.1 hw).1⟩
  case wake =>
    rintro t s ⟨h, stale⟩ _ _ _
    have passed : ({ s with now := t } : Session).Sound := h.sound.congr rfl rfl
    exact passed.turn_forget ⟨stale.given, stale.slot⟩

theorem Stale.register_forget (stale : s.Stale r) (name : String) (key : Key)
    (deadline : Duration) : (s.forget r).register name key deadline =
      (s.register name key deadline).map fun s' => s'.forget r := by
  have apart : s.table.next ≠ r := stale.given.ne'
  have refusal : (s.forget r).table.refusal? (s.forget r).now key deadline =
      s.table.refusal? s.now key deadline := rfl
  rw [register, register, refusal]
  cases s.table.refusal? s.now key deadline with
  | some error => rfl
  | none => simp [Except.map, forget, apart]

theorem refuse_forget (s : Session) (error : ExecutionError) (r : Nat) :
    (s.forget r).refuse error = (s.refuse error).forget r := by
  cases error <;> rfl

theorem taken_subset (s : Session) (key : Key) :
    (s.table.find? key).toList ⊆ s.table.entries := by
  intro e he
  exact List.mem_of_find?_eq_some (Option.mem_toList.1 he)

theorem act_wait_forget (s : Session) (r registration : Nat) :
    (s.forget r).act (.wait registration) = ((s.act (.wait registration)).1,
      others r (s.act (.wait registration)).2.1, (s.act (.wait registration)).2.2.forget r) := by
  by_cases own : registration = r
  · subst own
    rw [Session.act, Session.act, waiter?_forget_self]
    cases found : s.waiter? registration with
    | none => rfl
    | some w =>
      rw [← registration_of_waiter? found, beginWait_stale]
      rfl
  · rw [Session.act, Session.act, waiter?_forget own]
    cases s.waiter? registration with
    | none => rfl
    | some w =>
      simp only [beginWait_forget]
      rfl

theorem Sound.act_leave_forget (h : s.Sound) (stale : s.Stale r) (registration : Nat) :
    (s.forget r).act (.leave registration) = ((s.act (.leave registration)).1,
      others r (s.act (.leave registration)).2.1,
      (s.act (.leave registration)).2.2.forget r) := by
  by_cases own : registration = r
  · subst own
    rw [Session.act, Session.act, waiter?_forget_self]
    cases found : s.waiter? registration with
    | none => rfl
    | some w =>
      have hw := mem_of_waiter? found
      have number := registration_of_waiter? found
      simp only [h.leave_stale stale hw number, h.released_eq hw,
        if_neg (stale.slot w hw number), forget_forget, others_nil]
  · rw [Session.act, Session.act, waiter?_forget own]
    cases s.waiter? registration with
    | none => rfl
    | some w =>
      have marks : others r (s.released w .left) = s.released w .left :=
        h.others_kept stale (List.filter_subset_self _) .left
      simp only [leave_forget, marks]
      rfl

theorem Quiet.act_forget (h : Quiet s) (stale : s.Stale r) (op : Op) :
    (s.forget r).act op = ((s.act op).1, others r (s.act op).2.1, (s.act op).2.2.forget r) := by
  cases op with
  | register name key deadline =>
    rw [Session.act, Session.act, stale.register_forget]
    cases s.register name key deadline with
    | error error =>
      exact congrArg (fun s' => (Answer.refused error, [], s')) (s.refuse_forget error r)
    | ok s' =>
      have marked : others r [.registered ⟨key, s.table.next, deadline⟩] =
          [.registered ⟨key, s.table.next, deadline⟩] :=
        others_all (by simpa [Mark.registration] using stale.given.ne')
      simp only [Except.map, marked]
      rfl
  | resolve key | expire key =>
    have marks (exit : Exit) : others r (s.taken key exit) = s.taken key exit :=
      h.sound.others_kept stale (s.taken_subset key) exit
    simp only [Session.act, resolve, expire, h.sound.take_forget stale, marks]
    rfl
  | sweep now =>
    have due : s.table.overdue now ⊆ s.table.entries := List.filter_subset_self _
    have marks := h.sound.others_kept stale due .swept
    simp only [Session.act, h.sound.sweep_forget stale, marks]
    rfl
  | close =>
    have marks := h.sound.others_kept stale (List.Subset.refl _) .closed
    simp only [Session.act, h.sound.close_forget stale, marks]
    rfl
  | wait registration => exact s.act_wait_forget r registration
  | leave registration => exact h.sound.act_leave_forget stale registration
  | advance d =>
    rw [Session.act, Session.act, h.advance_forget stale]
  | startSweeper interval =>
    have turned := (h.sound.startSweeper interval).turn_forget ⟨stale.given, stale.slot⟩
    exact congrArg (Prod.mk Answer.none) turned
  | startCancelled interval tickFirst =>
    have started : (s.startSweeper interval).Stale r := ⟨stale.given, stale.slot⟩
    have stopped := (h.sound.startSweeper interval).stopSweeper_forget started tickFirst
    exact congrArg (Prod.mk Answer.none) stopped
  | stopSweeper tickFirst =>
    exact congrArg (Prod.mk Answer.none) (h.sound.stopSweeper_forget stale tickFirst)

theorem Quiet.perform_forget (h : Quiet s) (stale : s.Stale r) (op : Op) :
    (s.forget r).perform op =
      ((s.perform op).1, others r (s.perform op).2.1, (s.perform op).2.2.forget r) := by
  have acts := h.sound.act_moves op
  have finished := (acts.sound h.sound).finish_forget (acts.stale h.sound stale)
  simp only [Session.perform, h.act_forget stale op, finished, others_append]

def answers : Session → List Op → List Answer
  | _, [] => []
  | s, op :: rest => (s.perform op).1 :: answers (s.perform op).2.2 rest

theorem Quiet.run_forget (h : Quiet s) (stale : s.Stale r) (ops : List Op) :
    answers (s.forget r) ops = answers s ops ∧
      (s.forget r).run ops = (others r (s.run ops).1, (s.run ops).2.forget r) := by
  induction ops generalizing s with
  | nil => exact ⟨rfl, rfl⟩
  | cons op rest ih =>
    have performs := h.sound.perform_moves op
    obtain ⟨same, runs⟩ := ih (h.perform op) (performs.stale h.sound stale)
    simp only [answers, Session.run, h.perform_forget stale op, same, runs, others_append,
      and_self]

end Session

end RoundTrip.Pending
