import RoundTrip.Proofs.Pending.Reach
import RoundTrip.Proofs.Pending.Renumber
import RoundTrip.Proofs.Pending.Rest

/-!
The part of a pending table that is about one key. Whatever is done to the key or to all keys at
once does to the part what it does to the whole, and what is done to another key passes the part by.
-/

namespace RoundTrip.Pending

def Mark.key : Mark → Key
  | .registered e => e.key
  | .removed e _ => e.key
  | .ended x => x.waiter.key

def marksOf (key : Key) (marks : List Mark) : List Mark := marks.filter fun m => m.key = key

@[simp] theorem marksOf_nil (key : Key) : marksOf key [] = [] := rfl

@[simp] theorem marksOf_append (key : Key) (a b : List Mark) :
    marksOf key (a ++ b) = marksOf key a ++ marksOf key b :=
  List.filter_append _ _

@[simp] theorem marksOf_removed (key : Key) (es : List Entry) (exit : Exit) :
    marksOf key (es.map fun e => .removed e exit) =
      (es.filter fun e => e.key = key).map fun e => .removed e exit := by
  rw [marksOf, List.filter_map]
  rfl

def Op.isShared : Op → Bool
  | .sweep _ | .close | .advance _ | .startSweeper _ | .startCancelled _ _ | .stopSweeper _ => true
  | .register _ _ _ | .resolve _ | .expire _ | .wait _ | .leave _ => false

/-- The key that an operation is about, if it is about one. The wait of a registration is about the
key of its waiter. -/
def Session.subject? (s : Session) : Op → Option Key
  | .register _ key _ | .resolve key | .expire key => some key
  | .wait registration | .leave registration => (s.waiter? registration).map Waiter.key
  | .sweep _ | .close | .advance _ | .startSweeper _ | .startCancelled _ _ | .stopSweeper _ => none

def Session.concerns (s : Session) (key : Key) (op : Op) : Bool :=
  op.isShared || s.subject? op = some key

def Table.part (t : Table) (key : Key) : Table :=
  { t with entries := t.entries.filter fun e => e.key = key }

def Session.part (s : Session) (key : Key) : Session :=
  { s with table := s.table.part key, waiters := s.waiters.filter fun w => w.key = key }

variable {key : Key}

namespace Table

@[simp] theorem find?_part (t : Table) (key : Key) : (t.part key).find? key = t.find? key := by
  simp only [find?, part, List.find?_filter, decide_eq_true_eq, and_self]

@[simp] theorem contains_part (t : Table) (key : Key) :
    (t.part key).contains key = t.contains key := by
  rw [contains, find?_part, contains]

@[simp] theorem refusal?_part (t : Table) (now : Duration) (key : Key) (deadline : Duration) :
    (t.part key).refusal? now key deadline = t.refusal? now key deadline := by
  rw [refusal?, contains_part]
  rfl

theorem insert_part (t : Table) (key : Key) (deadline : Duration) :
    (t.part key).insert key deadline = (t.insert key deadline).part key := by
  simp [insert, part]

end Table

namespace Session

@[simp] theorem part_now (s : Session) : (s.part key).now = s.now := rfl

@[simp] theorem part_sweeper (s : Session) : (s.part key).sweeper = s.sweeper := rfl

@[simp] theorem part_table (s : Session) : (s.part key).table = s.table.part key := rfl

theorem mem_part {s : Session} {w : Waiter} :
    w ∈ (s.part key).waiters ↔ w ∈ s.waiters ∧ w.key = key := by
  simp [part]

theorem Sound.part {s : Session} (h : s.Sound) (key : Key) : (s.part key).Sound := by
  constructor
  case entries =>
    simp only [Session.part, Table.part, h.entries, List.filter_map, List.filter_filter]
    congr 1
    apply List.filter_congr
    intro w _
    exact Bool.and_comm _ _
  case ordered => exact h.ordered.filter _
  case below =>
    intro w hw
    exact h.below w (mem_part.1 hw).1
  case keys => exact h.keys.filter _
  case closed =>
    intro closed
    rw [part_table, Table.part, h.closed closed]
    rfl

theorem Quiet.part {s : Session} (h : Quiet s) (key : Key) : Quiet (s.part key) := by
  refine ⟨⟨h.sound.part key, h.sweeper⟩, ?_⟩
  intro w hw
  exact h.resting w (mem_part.1 hw).1

theorem update_part (s : Session) (registration : Nat) {f : Waiter → Waiter}
    (keeps : ∀ w, (f w).key = w.key) :
    (s.part key).update registration f = (s.update registration f).part key := by
  have kept (w : Waiter) : (if w.registration = registration then f w else w).key = w.key := by
    split
    · exact keeps w
    · rfl
  simp only [update, part, List.filter_map, Function.comp_def, kept]

theorem withdraw_part (s : Session) (p : Entry → Bool) (slot : Slot) :
    (s.part key).withdraw p slot = (s.withdraw p slot).part key := by
  have kept (w : Waiter) :
      (if w.slot = .empty ∧ p w.entry = true then { w with slot } else w).key = w.key := by
    split <;> rfl
  simp only [withdraw, part, Table.part, List.filter_map, List.filter_filter, Function.comp_def,
    kept, Bool.and_comm]

theorem update_nothing {s : Session} {registration : Nat}
    (absent : ∀ w ∈ s.waiters, w.registration ≠ registration) (f : Waiter → Waiter) :
    s.update registration f = s := by
  rw [update, map_if_never absent]

theorem leave_part (s : Session) (w : Waiter) : (s.part key).leave w = (s.leave w).part key := by
  simp only [leave, part, Table.removeOwn, Table.part, List.filter_filter, Bool.and_comm]

theorem leave_nothing {s : Session} (h : s.Sound) {w : Waiter}
    (absent : ∀ v ∈ s.waiters, v.registration ≠ w.registration) : s.leave w = s := by
  have entries : s.table.removeOwn w.key w.registration = s.table := by
    have kept : (s.table.entries.filter fun e =>
        ¬(e.key = w.key ∧ e.registration = w.registration)) = s.table.entries := by
      rw [List.filter_eq_self]
      intro e he
      obtain ⟨v, hv, -, rfl⟩ := h.mem_entries.1 he
      simpa using .inr (absent v hv)
    rw [Table.removeOwn, kept]
  have waiters : (s.waiters.filter fun v => v.registration ≠ w.registration) = s.waiters := by
    rw [List.filter_eq_self]
    intro v hv
    simpa using absent v hv
  rw [leave, entries, waiters]

theorem Sound.part_absent {s : Session} (h : s.Sound) {w : Waiter} (hw : w ∈ s.waiters)
    (apart : w.key ≠ key) : ∀ v ∈ (s.part key).waiters, v.registration ≠ w.registration := by
  intro v hv number
  obtain ⟨hv, own⟩ := mem_part.1 hv
  rw [h.waiter_unique hv hw number] at own
  exact apart own

theorem released_part (s : Session) {w : Waiter} (own : w.key = key) (exit : Exit) :
    (s.part key).released w exit = s.released w exit := by
  simp only [released, part_table, Table.part, List.filter_filter, ← own]
  congr 1
  apply List.filter_congr
  intro e _
  by_cases hk : e.key = w.key <;> simp [hk]

theorem released_key {s : Session} {w : Waiter} {exit : Exit} :
    ∀ m ∈ s.released w exit, m.key = w.key := by
  intro m hm
  obtain ⟨e, he, rfl⟩ := List.mem_map.1 hm
  have own := (List.mem_filter.1 he).2
  simp only [decide_eq_true_eq] at own
  exact own.1

theorem marksOf_all {marks : List Mark} (all : ∀ m ∈ marks, m.key = key) :
    marksOf key marks = marks := by
  rw [marksOf, List.filter_eq_self]
  simpa using all

theorem marksOf_none {marks : List Mark} (none_own : ∀ m ∈ marks, m.key ≠ key) :
    marksOf key marks = [] := by
  rw [marksOf, List.filter_eq_nil_iff]
  simpa using none_own

variable {s : Session}

theorem Sound.finishEach_part (h : s.Sound) {ws : List Waiter} (hws : ∀ w ∈ ws, w ∈ s.waiters)
    (distinct : ws.Pairwise fun v w => v.registration ≠ w.registration) (key : Key) :
    (s.part key).finishEach (ws.filter fun w => w.key = key) =
      (marksOf key (s.finishEach ws).1, (s.finishEach ws).2.part key) := by
  induction ws generalizing s with
  | nil => rfl
  | cons w rest ih =>
    rw [List.pairwise_cons] at distinct
    have hw : w ∈ s.waiters := hws w List.mem_cons_self
    have stay : ∀ v ∈ rest, v ∈ (s.leave w).waiters := by
      intro v hv
      have apart : v.registration ≠ w.registration := (distinct.1 v hv).symm
      exact List.mem_filter.2 ⟨hws v (List.mem_cons_of_mem _ hv), by simpa using apart⟩
    have same : (s.part key).ending? w = s.ending? w := rfl
    by_cases own : w.key = key
    · rw [List.filter_cons_of_pos (by simpa using own), finishEach, finishEach, same]
      cases s.ending? w with
      | none => exact ih h (fun v hv => hws v (List.mem_cons_of_mem _ hv)) distinct.2
      | some outcome =>
        have released : marksOf key (s.released w .timedOut) = s.released w .timedOut :=
          marksOf_all fun m hm => (released_key m hm).trans own
        have ended (later : List Mark) :
            marksOf key (.ended ⟨s.now, w, outcome⟩ :: later) =
              .ended ⟨s.now, w, outcome⟩ :: marksOf key later :=
          List.filter_cons_of_pos (decide_eq_true own)
        simp only [leave_part, ih (h.leave hw) stay distinct.2, released_part s own, marksOf_append,
          released, ended, part_now]
    · rw [List.filter_cons_of_neg (by simpa using own), finishEach]
      cases s.ending? w with
      | none => exact ih h (fun v hv => hws v (List.mem_cons_of_mem _ hv)) distinct.2
      | some outcome =>
        have released : marksOf key (s.released w .timedOut) = [] :=
          marksOf_none fun m hm => by rw [released_key m hm]; exact own
        have ended (later : List Mark) :
            marksOf key (.ended ⟨s.now, w, outcome⟩ :: later) = marksOf key later :=
          List.filter_cons_of_neg (mt of_decide_eq_true own)
        have passed : (s.leave w).part key = s.part key := by
          rw [← leave_part, leave_nothing (h.part key) (h.part_absent hw own)]
        have later := ih (h.leave hw) stay distinct.2
        rw [passed] at later
        simp only [later, marksOf_append, released, ended, List.nil_append]

theorem Sound.finish_part (h : s.Sound) (key : Key) :
    (s.part key).finish = (marksOf key s.finish.1, s.finish.2.part key) :=
  h.finishEach_part (fun _ hw => hw) (h.ordered.imp Nat.ne_of_lt) key

theorem overdue_part (t : Table) (now : Duration) (key : Key) :
    (t.part key).overdue now = (t.overdue now).filter fun e => e.key = key := by
  simp only [Table.overdue, Table.part, List.filter_filter, Bool.and_comm]

theorem Sound.sweep_part (h : s.Sound) (now : Duration) (key : Key) :
    ((s.part key).sweep now).2 = (s.sweep now).2.part key := by
  rw [(h.part key).sweep_eq, h.sweep_eq, withdraw_part]

theorem Sound.runSweeper_part (h : s.Sound) (key : Key) :
    (s.part key).runSweeper = s.runSweeper.part key := by
  rw [runSweeper, runSweeper, part_sweeper, part_now]
  cases s.sweeper with
  | none => rfl
  | some w =>
    simp only
    split
    next => rw [h.sweep_part]; rfl
    next => rfl

theorem dueSweep_part (s : Session) (key : Key) :
    (s.part key).dueSweep = s.dueSweep.filter fun e => e.key = key := by
  rw [dueSweep, dueSweep, part_sweeper, part_now, part_table, overdue_part]
  cases s.sweeper with
  | none => rfl
  | some w =>
    simp only
    split <;> rfl

theorem Sound.stopSweeper_part (h : s.Sound) (tickFirst : Bool) (key : Key) :
    (s.part key).stopSweeper tickFirst =
      (marksOf key (s.stopSweeper tickFirst).1, (s.stopSweeper tickFirst).2.part key) := by
  cases tickFirst with
  | false => rfl
  | true =>
    simp only [stopSweeper, if_true, h.runSweeper_part, dueSweep_part, marksOf_removed]
    rfl

theorem Sound.turn_part (h : s.Sound) (key : Key) :
    (s.part key).turn = (marksOf key s.turn.1, s.turn.2.part key) := by
  have swept := h.runSweeper_moves.sound h
  rw [turn, turn, h.runSweeper_part, swept.finish_part, dueSweep_part]
  simp only [marksOf_append, marksOf_removed]

theorem timers_part (s : Session) (key : Key) : (s.part key).timers ⊆ s.timers := by
  intro d hd
  rcases List.mem_append.1 hd with hd | hd
  · exact List.mem_append_left _ hd
  · obtain ⟨w, hw, rfl⟩ := List.mem_map.1 hd
    obtain ⟨hw, waits⟩ := List.mem_filter.1 hw
    exact waiter_timer (mem_part.1 hw).1 waits

theorem Quiet.advance_part (h : Quiet s) (d : Duration) (key : Key) :
    machine.advance d (s.part key) =
      (marksOf key (machine.advance d s).1, (machine.advance d s).2.part key) := by
  refine Clock.Machine.advance_part (I := Quiet) (A := fun _ => True) (g := fun s => s.part key)
    ?ahead ?pass ?fire ?idle (fun _ _ _ => rfl) (fun _ _ => rfl) (fun _ _ => rfl) ?keeps rfl
    (marksOf_append key) (fun _ => rfl) (fun _ _ => rfl) (fun s => timers_part s key) ?wake d s h
    fun _ _ => trivial
  case ahead =>
    intro s h
    exact h.timers_ahead
  case pass =>
    intro t s h _ ahead
    exact h.pass ahead
  case fire =>
    intro t s h _ due
    exact ⟨(h.due due).turn, turn_now _⟩
  case idle =>
    intro s h
    exact h.turn
  case keeps =>
    intro s h
    exact h.part key
  case wake =>
    intro t s h _ _ _
    have passed : ({ s with now := t } : Session).Sound := h.sound.congr rfl rfl
    exact passed.turn_part key

theorem Sound.waiter?_part (h : s.Sound) {registration : Nat} {w : Waiter}
    (found : s.waiter? registration = some w) (own : w.key = key) :
    (s.part key).waiter? registration = some w := by
  rw [← registration_of_waiter? found]
  exact (h.part key).waiter?_eq (mem_part.2 ⟨mem_of_waiter? found, own⟩)

theorem Sound.take_part (h : s.Sound) (key : Key) (slot : Slot) :
    (s.part key).take key slot = ((s.take key slot).1, (s.take key slot).2.part key) := by
  rw [(h.part key).take_eq, h.take_eq, withdraw_part, part_table, Table.contains_part]

theorem taken_part (s : Session) (key : Key) (exit : Exit) :
    (s.part key).taken key exit = s.taken key exit := by
  rw [taken, part_table, Table.find?_part, taken]

theorem taken_key {exit : Exit} : ∀ m ∈ s.taken key exit, m.key = key := by
  intro m hm
  obtain ⟨e, he, rfl⟩ := List.mem_map.1 hm
  have own : e.key = key := by simpa using List.find?_some (Option.mem_toList.1 he)
  exact own

theorem register_part (s : Session) (name : String) (key : Key) (deadline : Duration) :
    (s.part key).register name key deadline =
      (s.register name key deadline).map fun s' => s'.part key := by
  rw [register, register, part_table, part_now, Table.refusal?_part]
  cases s.table.refusal? s.now key deadline with
  | some error => rfl
  | none =>
    simp only [Except.map, Table.insert_part]
    simp [part, Table.part]

theorem refuse_part (s : Session) (error : ExecutionError) :
    (s.part key).refuse error = (s.refuse error).part key := by
  cases error <;> rfl

theorem beginWait_part (s : Session) (w : Waiter) :
    (s.part key).beginWait w = (s.beginWait w).part key :=
  s.update_part _ fun _ => rfl

theorem Sound.act_part (h : s.Sound) {op : Op} (own : s.subject? op = some key) :
    (s.part key).act op =
      ((s.act op).1, marksOf key (s.act op).2.1, (s.act op).2.2.part key) := by
  cases op with
  | register name k deadline =>
    obtain rfl := Option.some.inj own
    rw [act, act, register_part]
    cases registered : s.register name k deadline with
    | error error => exact congrArg (fun s' => (Answer.refused error, [], s')) (refuse_part s error)
    | ok s' =>
      have marked : marksOf k [.registered ⟨k, s.table.next, deadline⟩] =
          [.registered ⟨k, s.table.next, deadline⟩] := marksOf_all (by simp [Mark.key])
      simp only [Except.map, marked]
      rfl
  | resolve k | expire k =>
    obtain rfl := Option.some.inj own
    simp only [act, resolve, expire, h.take_part, taken_part, marksOf_all taken_key]
  | wait registration =>
    obtain ⟨w, found, key⟩ := Option.map_eq_some_iff.1 own
    simp only [act, found, h.waiter?_part found key, beginWait_part, marksOf_nil]
  | leave registration =>
    obtain ⟨w, found, rfl⟩ := Option.map_eq_some_iff.1 own
    simp only [act, found, h.waiter?_part found rfl, leave_part, released_part s rfl,
      marksOf_all released_key]
  | sweep | close | advance | startSweeper | startCancelled | stopSweeper => cases own

theorem Sound.close_part (h : s.Sound) (key : Key) : (s.part key).close.2 = s.close.2.part key := by
  rw [(h.part key).close_eq, h.close_eq, withdraw_part]
  rfl

theorem Quiet.act_part (h : Quiet s) {op : Op} (shared : op.isShared = true) (key : Key) :
    ((s.part key).act op).2 = (marksOf key (s.act op).2.1, (s.act op).2.2.part key) := by
  cases op with
  | sweep now =>
    simp only [Session.act, h.sound.sweep_part, part_table, overdue_part, marksOf_removed]
  | close =>
    simp only [Session.act, h.sound.close_part, marksOf_removed]
    rfl
  | advance d => exact h.advance_part d key
  | startSweeper interval => exact (h.sound.startSweeper interval).turn_part key
  | startCancelled interval tickFirst =>
    exact (h.sound.startSweeper interval).stopSweeper_part tickFirst key
  | stopSweeper tickFirst => exact h.sound.stopSweeper_part tickFirst key
  | register | resolve | expire | wait | leave => cases shared

theorem Sound.act_other (h : s.Sound) {op : Op} (apart : s.concerns key op = false) :
    marksOf key (s.act op).2.1 = [] ∧
      (s.act op).2.2.part key = (s.part key).numbered (s.act op).2.2.table.next := by
  have none_own : ∀ other, s.subject? op = some other → other ≠ key := by
    intro other subject
    simp only [concerns, Bool.or_eq_false_iff, decide_eq_false_iff_not, subject,
      Option.some.injEq] at apart
    exact apart.2
  cases op with
  | register name other deadline =>
    have other_key : other ≠ key := none_own other rfl
    rw [act]
    split
    next error _ => cases error <;> exact ⟨rfl, rfl⟩
    next s' registered =>
      obtain ⟨-, -, -, rfl⟩ := register_ok registered
      refine ⟨marksOf_none (by simpa [Mark.key] using other_key), ?_⟩
      simp [Session.part, Table.part, Table.insert, numbered, other_key]
  | resolve other | expire other =>
    have other_key : other ≠ key := none_own other rfl
    refine ⟨marksOf_none fun m hm => by rw [taken_key m hm]; exact other_key, ?_⟩
    simp only [act, resolve, expire, h.take_eq]
    rw [← withdraw_part, withdraw_nothing (h.part key)]
    · rfl
    · intro e he
      have own : e.key = key := by simpa using (List.mem_filter.1 he).2
      simpa [own] using other_key.symm
  | wait registration =>
    rw [act]
    split
    next => exact ⟨rfl, rfl⟩
    next w found =>
      have other_key : w.key ≠ key := none_own w.key (by rw [subject?, found]; rfl)
      refine ⟨rfl, ?_⟩
      rw [← beginWait_part]
      exact update_nothing (h.part_absent (mem_of_waiter? found) other_key) _
  | leave registration =>
    rw [act]
    split
    next => exact ⟨rfl, rfl⟩
    next w found =>
      have other_key : w.key ≠ key := none_own w.key (by rw [subject?, found]; rfl)
      refine ⟨marksOf_none fun m hm => by rw [released_key m hm]; exact other_key, ?_⟩
      rw [← leave_part]
      exact leave_nothing (h.part key) (h.part_absent (mem_of_waiter? found) other_key)
  | sweep | close | advance | startSweeper | startCancelled | stopSweeper => cases apart

theorem Sound.perform_part (h : s.Sound) {op : Op} (own : s.subject? op = some key) :
    (s.part key).perform op =
      ((s.perform op).1, marksOf key (s.perform op).2.1, (s.perform op).2.2.part key) := by
  have acted := (h.act_moves op).sound h
  simp only [perform, h.act_part own, acted.finish_part, marksOf_append]

theorem Quiet.perform_part (h : Quiet s) {op : Op} (shared : op.isShared = true) (key : Key) :
    ((s.part key).perform op).2 =
      (marksOf key (s.perform op).2.1, (s.perform op).2.2.part key) := by
  have acted := (h.sound.act_moves op).sound h.sound
  have part := h.act_part shared key
  simp only [Session.perform, part, acted.finish_part, marksOf_append]

theorem Quiet.perform_other (h : Quiet s) {op : Op} (apart : s.concerns key op = false) :
    marksOf key (s.perform op).2.1 = [] ∧
      (s.perform op).2.2.part key = (s.part key).numbered (s.perform op).2.2.table.next := by
  have acted := (h.sound.act_moves op).sound h.sound
  obtain ⟨unmarked, same⟩ := h.sound.act_other apart
  have rests : ((s.act op).2.2.part key).finish = ([], (s.act op).2.2.part key) := by
    rw [same]
    exact finishEach_nothing (h.part key).resting
  rw [acted.finish_part] at rests
  obtain ⟨unended, rests⟩ := Prod.mk.inj rests
  have next : (s.perform op).2.2.table.next = (s.act op).2.2.table.next :=
    congrArg (fun s => s.table.next) rests
  rw [next]
  refine ⟨?_, rests.trans same⟩
  simp only [Session.perform, marksOf_append, unmarked]
  exact unended

end Session

end RoundTrip.Pending
