import RoundTrip.Proofs.Clock
import RoundTrip.Proofs.Pending.Sound

/-!
The moves of a pending table, each with its marks in the journal. Every operation, the end of every
wait and every turn of the clock is a sequence of moves.
-/

namespace RoundTrip.Pending

def Exit.slot? : Exit → Option Slot
  | .resolved => some (.filled .delivered)
  | .closed => some (.filled .cancelled)
  | .expired | .swept => some .dropped
  | .timedOut | .left => none

theorem Exit.slot_ne_empty {exit : Exit} {slot : Slot} (h : exit.slot? = some slot) :
    slot ≠ .empty := by
  cases exit <;> simp [slot?] at h <;> subst h <;> decide

theorem Exit.outcome_of_slot {exit : Exit} {slot : Slot} (h : exit.slot? = some slot) :
    slot.outcome? = some exit.outcome := by
  cases exit <;> simp [slot?] at h <;> subst h <;> rfl

namespace Session

inductive Move : Session → List Mark → Session → Prop
  | register {s s' : Session} {name : String} {key : Key} {deadline : Duration} :
      s.register name key deadline = .ok s' →
      Move s [.registered ⟨key, s.table.next, deadline⟩] s'
  | skip {s : Session} : Move s [] { s with table := s.table.skip }
  | withdraw {s : Session} (p : Entry → Bool) {exit : Exit} {slot : Slot} :
      exit.slot? = some slot →
      Move s ((s.table.entries.filter p).map fun e => .removed e exit) (s.withdraw p slot)
  | shut {s : Session} : s.table.entries = [] → Move s [] { s with table := s.table.close }
  | wait {s : Session} (w : Waiter) : Move s [] (s.beginWait w)
  | leave {s : Session} {w : Waiter} : w ∈ s.waiters → Move s (s.released w .left) (s.leave w)
  | finish {s : Session} {w : Waiter} {outcome : Outcome} :
      w ∈ s.waiters → s.ending? w = some outcome →
      Move s (s.released w .timedOut ++ [.ended ⟨s.now, w, outcome⟩]) (s.leave w)
  | tick {s s' : Session} : s'.table = s.table → s'.waiters = s.waiters → Move s [] s'

inductive Moves : Session → List Mark → Session → Prop
  | refl (s : Session) : Moves s [] s
  | step {s t u : Session} {marks later : List Mark} :
      Move s marks t → Moves t later u → Moves s (marks ++ later) u

theorem Move.moves {s t : Session} {marks : List Mark} (h : Move s marks t) : Moves s marks t := by
  simpa using Moves.step h (.refl t)

theorem Moves.trans {s t u : Session} {a b : List Mark} (h : Moves s a t) (k : Moves t b u) :
    Moves s (a ++ b) u := by
  induction h with
  | refl => exact k
  | step move _ ih =>
    rw [List.append_assoc]
    exact .step move (ih k)

theorem Moves.composes : Clock.Machine.Composes Moves := ⟨.refl, .trans⟩

theorem Move.sound {s s' : Session} {marks : List Mark} (h : Move s marks s') (hs : s.Sound) :
    s'.Sound := by
  cases h with
  | register hr => exact hs.register hr
  | skip => exact hs.skip
  | withdraw p he => exact hs.withdraw p (Exit.slot_ne_empty he)
  | shut he =>
    have kept : ({ s with table := s.table.close } : Session).table.entries = s.table.entries :=
      he.symm
    constructor
    · rw [kept]; exact hs.entries
    · exact hs.ordered
    · exact hs.below
    · rw [kept]; exact hs.keys
    · intro _; rfl
  | wait w => exact hs.beginWait w
  | leave hw => exact hs.leave hw
  | finish hw _ => exact hs.leave hw
  | tick ht hw => exact hs.congr ht hw

theorem Moves.sound {s s' : Session} {marks : List Mark} (h : Moves s marks s') (hs : s.Sound) :
    s'.Sound := by
  induction h with
  | refl => exact hs
  | step move _ ih => exact ih (move.sound hs)

variable {s : Session}

theorem Sound.taken_eq (h : s.Sound) (key : Key) (exit : Exit) :
    s.taken key exit =
      (s.table.entries.filter fun e => e.key = key).map fun e => .removed e exit := by
  rw [taken]
  cases found : s.table.find? key with
  | none =>
    have nothing : s.table.entries.filter (fun e => e.key = key) = [] := by
      rw [List.filter_eq_nil_iff]
      simpa [Table.find?] using found
    rw [nothing]
    rfl
  | some e =>
    rw [h.find?_eq found]
    rfl

theorem Sound.take_moves (h : s.Sound) (key : Key) {exit : Exit} {slot : Slot}
    (he : exit.slot? = some slot) : Moves s (s.taken key exit) (s.take key slot).2 := by
  rw [h.take_eq, h.taken_eq]
  exact (Move.withdraw _ he).moves

theorem Sound.sweep_moves (h : s.Sound) (now : Duration) :
    Moves s ((s.table.overdue now).map fun e => .removed e .swept) (s.sweep now).2 := by
  rw [h.sweep_eq]
  exact (Move.withdraw _ rfl).moves

theorem Sound.close_moves (h : s.Sound) :
    Moves s (s.table.entries.map fun e => .removed e .closed) s.close.2 := by
  have all : Moves s ((s.table.entries.filter fun _ => true).map fun e => .removed e .closed)
      (s.withdraw (fun _ => true) (.filled .cancelled)) := (Move.withdraw _ rfl).moves
  rw [List.filter_true] at all
  rw [h.close_eq]
  have shut : Move (s.withdraw (fun _ => true) (.filled .cancelled)) [] _ :=
    .shut (by simp)
  simpa [Table.close] using all.trans shut.moves

theorem Sound.finishEach_moves (h : s.Sound) {ws : List Waiter} (hws : ∀ w ∈ ws, w ∈ s.waiters)
    (distinct : ws.Pairwise fun v w => v.registration ≠ w.registration) :
    Moves s (s.finishEach ws).1 (s.finishEach ws).2 := by
  induction ws generalizing s with
  | nil => exact .refl s
  | cons w rest ih =>
    rw [List.pairwise_cons] at distinct
    have hw : w ∈ s.waiters := hws w List.mem_cons_self
    rw [finishEach]
    split
    next => exact ih h (fun v hv => hws v (List.mem_cons_of_mem _ hv)) distinct.2
    next outcome hend =>
      have stay : ∀ v ∈ rest, v ∈ (s.leave w).waiters := by
        intro v hv
        have hv' : v ∈ s.waiters := hws v (List.mem_cons_of_mem _ hv)
        have hne : v.registration ≠ w.registration := (distinct.1 v hv).symm
        exact List.mem_filter.2 ⟨hv', by simpa using hne⟩
      have later := ih (h.leave hw) stay distinct.2
      simpa using (Move.finish hw hend).moves.trans later

theorem Sound.finish_moves (h : s.Sound) : Moves s s.finish.1 s.finish.2 :=
  h.finishEach_moves (fun _ hw => hw) (h.ordered.imp Nat.ne_of_lt)

theorem Sound.runSweeper_moves (h : s.Sound) :
    Moves s (s.dueSweep.map fun e => .removed e .swept) s.runSweeper := by
  rw [runSweeper, dueSweep]
  cases s.sweeper with
  | none => exact .refl s
  | some w =>
    simp only
    split
    next =>
      have rearmed : Move (s.sweep s.now).2 []
          { (s.sweep s.now).2 with sweeper := some ⟨w.period, w.next + w.period⟩ } :=
        .tick rfl rfl
      simpa using (h.sweep_moves s.now).trans rearmed.moves
    next => exact .refl s

theorem Sound.stopSweeper_moves (h : s.Sound) (tickFirst : Bool) :
    Moves s (s.stopSweeper tickFirst).1 (s.stopSweeper tickFirst).2 := by
  have gone {t : Session} : Move t [] { t with sweeper := none } := .tick rfl rfl
  cases tickFirst with
  | false => exact gone.moves
  | true => simpa [stopSweeper] using h.runSweeper_moves.trans gone.moves

theorem Sound.turn_moves (h : s.Sound) : Moves s s.turn.1 s.turn.2 := by
  have swept := h.runSweeper_moves
  exact swept.trans (swept.sound h).finish_moves

theorem Sound.advance_moves (h : s.Sound) (d : Duration) :
    Moves s (machine.advance d s).1 (machine.advance d s).2 := by
  refine (Clock.Machine.advance_closed Moves.composes (I := Sound) ?_ ?_ d s h).2
  · intro t s hs
    have moved : Move s [] { s with now := t } := .tick rfl rfl
    exact ⟨moved.sound hs, moved.moves⟩
  · intro s hs
    have moves := hs.turn_moves
    exact ⟨moves.sound hs, moves⟩

theorem Sound.tick_turn_moves (h : s.Sound) {t : Session} (ht : t.table = s.table)
    (hw : t.waiters = s.waiters) : Moves s t.turn.1 t.turn.2 := by
  simpa using (Move.tick ht hw).moves.trans (h.congr ht hw).turn_moves

theorem refuse_moves (s : Session) (error : ExecutionError) : Moves s [] (s.refuse error) := by
  cases error with
  | timeout key waited => exact .refl s
  | collision key => exact Move.skip.moves
  | shuttingDown => exact Move.skip.moves

theorem mem_of_waiter? {registration : Nat} {w : Waiter} (h : s.waiter? registration = some w) :
    w ∈ s.waiters :=
  List.mem_of_find?_eq_some h

theorem registration_of_waiter? {registration : Nat} {w : Waiter}
    (h : s.waiter? registration = some w) : w.registration = registration := by
  simpa using List.find?_some h

theorem Sound.act_moves (h : s.Sound) (op : Op) :
    Moves s (s.act op).2.1 (s.act op).2.2 := by
  cases op with
  | register name key deadline =>
    rw [act]
    split
    next error _ => exact refuse_moves s error
    next s' hr => exact (Move.register hr).moves
  | resolve key => exact h.take_moves key rfl
  | expire key => exact h.take_moves key rfl
  | sweep now => exact h.sweep_moves now
  | close => exact h.close_moves
  | wait registration =>
    rw [act]
    split
    next => exact .refl s
    next w _ => exact (Move.wait w).moves
  | leave registration =>
    rw [act]
    split
    next => exact .refl s
    next w hw => exact (Move.leave (mem_of_waiter? hw)).moves
  | advance d =>
    rw [act]
    exact h.advance_moves d
  | startSweeper interval =>
    rw [act]
    exact h.tick_turn_moves rfl rfl
  | startCancelled interval tickFirst =>
    have started : Move s [] (s.startSweeper interval) := .tick rfl rfl
    exact started.moves.trans ((started.sound h).stopSweeper_moves tickFirst)
  | stopSweeper tickFirst => exact h.stopSweeper_moves tickFirst

theorem Sound.perform_moves (h : s.Sound) (op : Op) :
    Moves s (s.perform op).2.1 (s.perform op).2.2 := by
  have acted := h.act_moves op
  exact acted.trans (acted.sound h).finish_moves

theorem Sound.run_moves (h : s.Sound) (ops : List Op) :
    Moves s (s.run ops).1 (s.run ops).2 := by
  induction ops generalizing s with
  | nil => exact .refl s
  | cons op rest ih =>
    have performed := h.perform_moves op
    exact performed.trans (ih (performed.sound h))

end Session

end RoundTrip.Pending
