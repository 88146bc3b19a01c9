import RoundTrip.Proofs.Pending.Move

/-!
Nothing that the pending table does depends on the numbers of its registrations. With the numbers
exchanged one to one it does the same, and its answers differ by the exchange.
-/

namespace RoundTrip

def gap (n m : Nat) : Nat := if m < n then m else m + 1

theorem gap_injective (n : Nat) : Function.Injective (gap n) := by
  intro a b same
  rw [gap, gap] at same
  split at same <;> split at same <;> omega

theorem gap_succ {n m : Nat} (above : n ≤ m) : gap n (m + 1) = gap n m + 1 := by
  rw [gap, gap, if_neg (by omega), if_neg (by omega)]

theorem gap_below {n m : Nat} (below : m < n) : gap n m = m := if_pos below

namespace Pending

def Entry.renumber (ρ : Nat → Nat) (e : Entry) : Entry :=
  { e with registration := ρ e.registration }

def Waiter.renumber (ρ : Nat → Nat) (w : Waiter) : Waiter :=
  { w with registration := ρ w.registration }

def Ending.renumber (ρ : Nat → Nat) (x : Ending) : Ending :=
  { x with waiter := x.waiter.renumber ρ }

@[simp] theorem Entry.renumber_id : Entry.renumber id = id := rfl

@[simp] theorem Waiter.renumber_id : Waiter.renumber id = id := rfl

@[simp] theorem Ending.renumber_id : Ending.renumber id = id := rfl

def Mark.renumber (ρ : Nat → Nat) : Mark → Mark
  | .registered e => .registered (e.renumber ρ)
  | .removed e exit => .removed (e.renumber ρ) exit
  | .ended x => .ended (x.renumber ρ)

def Table.renumber (ρ : Nat → Nat) (t : Table) : Table :=
  { t with entries := t.entries.map (Entry.renumber ρ), next := ρ t.next }

def Session.renumber (ρ : Nat → Nat) (s : Session) : Session :=
  { s with table := s.table.renumber ρ, waiters := s.waiters.map (Waiter.renumber ρ) }

variable {ρ : Nat → Nat}

namespace Table

theorem find?_renumber (t : Table) (key : Key) :
    (t.renumber ρ).find? key = (t.find? key).map (Entry.renumber ρ) := by
  rw [find?, renumber, List.find?_map]
  rfl

@[simp] theorem contains_renumber (t : Table) (key : Key) :
    (t.renumber ρ).contains key = t.contains key := by
  rw [contains, find?_renumber, Option.isSome_map, contains]

@[simp] theorem refusal?_renumber (t : Table) (now : Duration) (key : Key) (deadline : Duration) :
    (t.renumber ρ).refusal? now key deadline = t.refusal? now key deadline := by
  rw [refusal?, contains_renumber]
  rfl

theorem insert_renumber {t : Table} (fresh : ρ (t.next + 1) = ρ t.next + 1) (key : Key)
    (deadline : Duration) :
    (t.renumber ρ).insert key deadline = (t.insert key deadline).renumber ρ := by
  simp [insert, renumber, fresh, Entry.renumber]

theorem skip_renumber {t : Table} (fresh : ρ (t.next + 1) = ρ t.next + 1) :
    (t.renumber ρ).skip = t.skip.renumber ρ := by
  simp [skip, renumber, fresh]

theorem remove_renumber (t : Table) (key : Key) :
    (t.renumber ρ).remove key = (t.remove key).renumber ρ := by
  simp only [remove, renumber, List.filter_map]
  rfl

theorem removeOwn_renumber (inj : Function.Injective ρ) (t : Table) (key : Key)
    (registration : Nat) :
    (t.renumber ρ).removeOwn key (ρ registration) = (t.removeOwn key registration).renumber ρ := by
  simp only [removeOwn, renumber, List.filter_map, Function.comp_def, Entry.renumber, inj.eq_iff]

theorem overdue_renumber (t : Table) (now : Duration) :
    (t.renumber ρ).overdue now = (t.overdue now).map (Entry.renumber ρ) := by
  rw [overdue, renumber, List.filter_map]
  rfl

theorem sweep_renumber (t : Table) (now : Duration) :
    (t.renumber ρ).sweep now = (t.sweep now).renumber ρ := by
  simp only [sweep, renumber, List.filter_map]
  rfl

end Table

namespace Session

theorem register_renumber {s : Session} (fresh : ρ (s.table.next + 1) = ρ s.table.next + 1)
    (name : String) (key : Key) (deadline : Duration) :
    (s.renumber ρ).register name key deadline =
      (s.register name key deadline).map (renumber ρ) := by
  have refusal : (s.renumber ρ).table.refusal? (s.renumber ρ).now key deadline =
      s.table.refusal? s.now key deadline := s.table.refusal?_renumber ..
  rw [register, register, refusal]
  cases s.table.refusal? s.now key deadline with
  | some error => rfl
  | none =>
    simp only [renumber, Table.insert_renumber fresh, Except.map, List.map_append]
    rfl

theorem refuse_renumber {s : Session} (fresh : ρ (s.table.next + 1) = ρ s.table.next + 1)
    (error : ExecutionError) : (s.renumber ρ).refuse error = (s.refuse error).renumber ρ := by
  cases error with
  | timeout => rfl
  | collision | shuttingDown =>
    have skipped : (s.renumber ρ).table.skip = s.table.skip.renumber ρ :=
      Table.skip_renumber fresh
    simp only [refuse, skipped]
    rfl

theorem released_renumber (inj : Function.Injective ρ) (s : Session) (w : Waiter) (exit : Exit) :
    (s.renumber ρ).released (w.renumber ρ) exit = (s.released w exit).map (Mark.renumber ρ) := by
  simp only [released, renumber, Table.renumber, List.filter_map, List.map_map, Function.comp_def,
    Entry.renumber, Waiter.renumber, inj.eq_iff, Mark.renumber]

theorem ending?_renumber (s : Session) (w : Waiter) :
    (s.renumber ρ).ending? (w.renumber ρ) = s.ending? w := rfl

section

variable (inj : Function.Injective ρ)
include inj

theorem update_renumber (s : Session) (registration : Nat) {f : Waiter → Waiter}
    (same : ∀ w, f (w.renumber ρ) = (f w).renumber ρ) :
    (s.renumber ρ).update (ρ registration) f = (s.update registration f).renumber ρ := by
  rw [update, update, renumber, renumber]
  simp only [List.map_map, Session.mk.injEq, true_and, and_true]
  apply List.map_congr_left
  intro w _
  have number : (w.renumber ρ).registration = ρ w.registration := rfl
  rw [Function.comp_apply, Function.comp_apply, number]
  by_cases own : w.registration = registration
  · rw [if_pos own, if_pos (congrArg ρ own), same]
  · rw [if_neg own, if_neg (inj.ne own)]

theorem signal_renumber (s : Session) (slot : Slot) (e : Entry) :
    (s.renumber ρ).signal slot (e.renumber ρ) = (s.signal slot e).renumber ρ :=
  update_renumber inj s e.registration fun _ => rfl

theorem signalAll_renumber (s : Session) (slot : Slot) (es : List Entry) :
    (s.renumber ρ).signalAll slot (es.map (Entry.renumber ρ)) =
      (s.signalAll slot es).renumber ρ := by
  induction es generalizing s with
  | nil => rfl
  | cons e es ih =>
    have head : (s.renumber ρ).signalAll slot ((e :: es).map (Entry.renumber ρ)) =
        ((s.renumber ρ).signal slot (e.renumber ρ)).signalAll slot
          (es.map (Entry.renumber ρ)) := rfl
    rw [head, signal_renumber inj]
    exact ih _

theorem take_renumber (s : Session) (key : Key) (slot : Slot) :
    (s.renumber ρ).take key slot = ((s.take key slot).1, (s.take key slot).2.renumber ρ) := by
  have found : (s.renumber ρ).table.find? key = (s.table.find? key).map (Entry.renumber ρ) :=
    s.table.find?_renumber key
  rw [take, take, found]
  cases s.table.find? key with
  | none => rfl
  | some e =>
    have removed : ({ s.renumber ρ with table := (s.renumber ρ).table.remove key } : Session) =
        ({ s with table := s.table.remove key } : Session).renumber ρ :=
      congrArg (fun table => ({ s.renumber ρ with table } : Session)) (s.table.remove_renumber key)
    simp only [Option.map_some, removed, signal_renumber inj]

theorem sweep_renumber (s : Session) (now : Duration) :
    ((s.renumber ρ).sweep now).2 = (s.sweep now).2.renumber ρ := by
  have swept : ({ s.renumber ρ with table := (s.renumber ρ).table.sweep now } : Session) =
      ({ s with table := s.table.sweep now } : Session).renumber ρ :=
    congrArg (fun table => ({ s.renumber ρ with table } : Session)) (s.table.sweep_renumber now)
  have overdue : (s.renumber ρ).table.overdue now =
      (s.table.overdue now).map (Entry.renumber ρ) := s.table.overdue_renumber now
  rw [sweep, sweep, overdue, swept]
  exact signalAll_renumber inj _ _ _

theorem close_renumber (s : Session) : (s.renumber ρ).close.2 = s.close.2.renumber ρ :=
  signalAll_renumber inj { s with table := s.table.close } _ _

theorem leave_renumber (s : Session) (w : Waiter) :
    (s.renumber ρ).leave (w.renumber ρ) = (s.leave w).renumber ρ := by
  have removed : (s.renumber ρ).table.removeOwn (w.renumber ρ).key (w.renumber ρ).registration =
      (s.table.removeOwn w.key w.registration).renumber ρ :=
    Table.removeOwn_renumber inj s.table w.key w.registration
  rw [leave, removed, leave]
  simp only [renumber, List.filter_map, Function.comp_def, Waiter.renumber, ne_eq, inj.eq_iff]

theorem finishEach_renumber (s : Session) (ws : List Waiter) :
    (s.renumber ρ).finishEach (ws.map (Waiter.renumber ρ)) =
      ((s.finishEach ws).1.map (Mark.renumber ρ), (s.finishEach ws).2.renumber ρ) := by
  induction ws generalizing s with
  | nil => rfl
  | cons w rest ih =>
    rw [List.map_cons, finishEach, finishEach, ending?_renumber]
    cases s.ending? w with
    | none => exact ih s
    | some outcome =>
      simp only [leave_renumber inj, released_renumber inj, ih, List.map_append, List.map_cons]
      rfl

theorem settle_renumber (s : Session) :
    (s.renumber ρ).settle = (s.settle.1.map (Ending.renumber ρ), s.settle.2.renumber ρ) := by
  have endings (m : Mark) : (m.renumber ρ).ending? = m.ending?.map (Ending.renumber ρ) := by
    cases m <;> rfl
  rw [settle, settle, finish, finish]
  have finished := finishEach_renumber inj s s.waiters
  have waiters : (s.renumber ρ).waiters = s.waiters.map (Waiter.renumber ρ) := rfl
  rw [waiters, finished]
  simp only [List.filterMap_map, List.map_filterMap, Function.comp_def, endings]

theorem runSweeper_renumber (s : Session) :
    (s.renumber ρ).runSweeper = s.runSweeper.renumber ρ := by
  have sweeper : (s.renumber ρ).sweeper = s.sweeper := rfl
  have now : (s.renumber ρ).now = s.now := rfl
  rw [runSweeper, runSweeper, sweeper, now]
  cases s.sweeper with
  | none => rfl
  | some w =>
    simp only
    split
    next => rw [sweep_renumber inj]; rfl
    next => rfl

end

theorem timers_renumber (s : Session) : (s.renumber ρ).timers = s.timers := by
  simp only [timers, renumber, List.filter_map, List.map_map]
  rfl

theorem dueSweep_renumber (s : Session) :
    (s.renumber ρ).dueSweep = s.dueSweep.map (Entry.renumber ρ) := by
  have sweeper : (s.renumber ρ).sweeper = s.sweeper := rfl
  have now : (s.renumber ρ).now = s.now := rfl
  have overdue : (s.renumber ρ).table.overdue s.now =
      (s.table.overdue s.now).map (Entry.renumber ρ) := s.table.overdue_renumber _
  rw [dueSweep, dueSweep, sweeper, now, overdue]
  cases s.sweeper with
  | none => rfl
  | some w =>
    simp only
    split <;> rfl

theorem taken_renumber (s : Session) (key : Key) (exit : Exit) :
    (s.renumber ρ).taken key exit = (s.taken key exit).map (Mark.renumber ρ) := by
  have found : (s.renumber ρ).table.find? key = (s.table.find? key).map (Entry.renumber ρ) :=
    s.table.find?_renumber key
  rw [taken, taken, found]
  cases s.table.find? key <;> rfl

end Session

def Op.renumber (ρ : Nat → Nat) : Op → Op
  | .wait registration => .wait (ρ registration)
  | .leave registration => .leave (ρ registration)
  | op => op

namespace Session

variable (inj : Function.Injective ρ)
include inj

theorem finish_renumber (s : Session) :
    (s.renumber ρ).finish = (s.finish.1.map (Mark.renumber ρ), s.finish.2.renumber ρ) :=
  finishEach_renumber inj s s.waiters

theorem turn_renumber (s : Session) :
    (s.renumber ρ).turn = (s.turn.1.map (Mark.renumber ρ), s.turn.2.renumber ρ) := by
  rw [turn, turn, runSweeper_renumber inj, finish_renumber inj, dueSweep_renumber]
  simp only [List.map_append, List.map_map]
  rfl

theorem stopSweeper_renumber (s : Session) (tickFirst : Bool) :
    (s.renumber ρ).stopSweeper tickFirst =
      ((s.stopSweeper tickFirst).1.map (Mark.renumber ρ),
        (s.stopSweeper tickFirst).2.renumber ρ) := by
  cases tickFirst with
  | false => rfl
  | true =>
    simp only [stopSweeper, if_true, runSweeper_renumber inj, dueSweep_renumber, List.map_map]
    rfl

theorem advance_renumber (s : Session) (d : Duration) :
    machine.advance d (s.renumber ρ) =
      ((machine.advance d s).1.map (Mark.renumber ρ), (machine.advance d s).2.renumber ρ) :=
  Clock.Machine.advance_image (g := renumber ρ) (fun _ => rfl) (fun _ _ => rfl) timers_renumber
    (turn_renumber inj) d s

theorem waiter?_renumber (s : Session) (registration : Nat) :
    (s.renumber ρ).waiter? (ρ registration) =
      (s.waiter? registration).map (Waiter.renumber ρ) := by
  simp only [waiter?, renumber, List.find?_map, Function.comp_def, Waiter.renumber, inj.eq_iff]

theorem beginWait_renumber (s : Session) (w : Waiter) :
    (s.renumber ρ).beginWait (w.renumber ρ) = (s.beginWait w).renumber ρ :=
  update_renumber inj s w.registration fun _ => rfl

theorem act_renumber {s : Session} (fresh : ρ (s.table.next + 1) = ρ s.table.next + 1) (op : Op) :
    (s.renumber ρ).act (op.renumber ρ) =
      ((s.act op).1, (s.act op).2.1.map (Mark.renumber ρ), (s.act op).2.2.renumber ρ) := by
  cases op with
  | register name key deadline =>
    simp only [Op.renumber, act, register_renumber fresh]
    cases s.register name key deadline with
    | error error => simp only [Except.map, refuse_renumber fresh, List.map_nil]
    | ok s' => rfl
  | resolve key | expire key =>
    simp only [Op.renumber, act, resolve, expire, take_renumber inj, taken_renumber]
  | sweep now =>
    have overdue : (s.renumber ρ).table.overdue now =
        (s.table.overdue now).map (Entry.renumber ρ) := s.table.overdue_renumber now
    have count : ((s.renumber ρ).sweep now).1 = (s.sweep now).1 := by
      simp only [sweep, overdue, List.length_map]
    simp only [Op.renumber, act, sweep_renumber inj, count, overdue, List.map_map]
    rfl
  | close =>
    have entries : (s.renumber ρ).table.entries = s.table.entries.map (Entry.renumber ρ) := rfl
    have count : (s.renumber ρ).close.1 = s.close.1 := List.length_map _
    simp only [Op.renumber, act, close_renumber inj, count, entries, List.map_map]
    rfl
  | wait registration =>
    rw [Op.renumber, act, act, waiter?_renumber inj]
    cases s.waiter? registration with
    | none => rfl
    | some w => simp only [Option.map_some, beginWait_renumber inj, List.map_nil]
  | leave registration =>
    rw [Op.renumber, act, act, waiter?_renumber inj]
    cases s.waiter? registration with
    | none => rfl
    | some w => simp only [Option.map_some, leave_renumber inj, released_renumber inj]
  | advance d => simp only [Op.renumber, act, advance_renumber inj]
  | startSweeper interval =>
    have started :
        (s.renumber ρ).startSweeper interval = (s.startSweeper interval).renumber ρ := rfl
    simp only [Op.renumber, act, started, turn_renumber inj]
  | startCancelled interval tickFirst =>
    have started :
        (s.renumber ρ).startSweeper interval = (s.startSweeper interval).renumber ρ := rfl
    simp only [Op.renumber, act, started, stopSweeper_renumber inj]
  | stopSweeper tickFirst => simp only [Op.renumber, act, stopSweeper_renumber inj]

theorem perform_renumber {s : Session} (fresh : ρ (s.table.next + 1) = ρ s.table.next + 1)
    (op : Op) : (s.renumber ρ).perform (op.renumber ρ) =
      ((s.perform op).1, (s.perform op).2.1.map (Mark.renumber ρ),
        (s.perform op).2.2.renumber ρ) := by
  simp only [perform, act_renumber inj fresh, finish_renumber inj, List.map_append]

end Session

namespace Session

def numbered (s : Session) (n : Nat) : Session := { s with table := { s.table with next := n } }

variable {s : Session}

theorem Sound.renumber_congr (h : s.Sound) {ρ' : Nat → Nat}
    (agree : ∀ w ∈ s.waiters, ρ' w.registration = ρ w.registration) (n : Nat) :
    (s.renumber ρ').numbered n = (s.renumber ρ).numbered n := by
  have waiters : s.waiters.map (Waiter.renumber ρ') = s.waiters.map (Waiter.renumber ρ) := by
    refine List.map_congr_left fun w hw => ?_
    rw [Waiter.renumber, Waiter.renumber, agree w hw]
  have entries : s.table.entries.map (Entry.renumber ρ') =
      s.table.entries.map (Entry.renumber ρ) := by
    refine List.map_congr_left fun e he => ?_
    obtain ⟨w, hw, -, rfl⟩ := h.mem_entries.1 he
    rw [Entry.renumber, Entry.renumber, w.entry_registration, agree w hw]
  rw [numbered, renumber, Table.renumber, waiters, entries]
  rfl

theorem renumber_id (s : Session) : s.renumber id = s := by
  rw [renumber, Table.renumber, Entry.renumber_id, Waiter.renumber_id, List.map_id, List.map_id]
  rfl

theorem Sound.renumber_fixed (h : s.Sound) (fixed : ∀ x < s.table.next, ρ x = x) :
    s.renumber ρ = s.numbered (ρ s.table.next) := by
  calc s.renumber ρ = (s.renumber ρ).numbered (ρ s.table.next) := rfl
    _ = (s.renumber id).numbered (ρ s.table.next) :=
      h.renumber_congr (fun w hw => fixed _ (h.below w hw)) _
    _ = s.numbered (ρ s.table.next) := by rw [renumber_id]

end Session

end Pending

end RoundTrip
