import RoundTrip.Proofs.Pending.Forget
import RoundTrip.Proofs.Pending.Timeline

/-!
Registrations that are refused. One of three causes speaks, and afterwards everything is as if
nobody had asked. At most a number is gone, so that later registrations bear other numbers.
-/

namespace RoundTrip.Pending

def renote (ρ : Nat → Nat) (note : Duration × Mark) : Duration × Mark := (note.1, note.2.renumber ρ)

namespace Session

variable {ρ : Nat → Nat} {s t : Session} {op : Op}

def Onward (ρ : Nat → Nat) (n : Nat) : Prop := ∀ m, n ≤ m → ρ (m + 1) = ρ m + 1

theorem Onward.mono {n m : Nat} (h : Onward ρ n) (le : n ≤ m) : Onward ρ m :=
  fun k above => h k (le.trans above)

theorem Onward.step {n : Nat} (h : Onward ρ n) : ρ (n + 1) = ρ n + 1 := h n le_rfl

theorem onward_gap (n : Nat) : Onward (gap n) n := fun _ above => gap_succ above

theorem map_renote (ρ : Nat → Nat) (now : Nat) (marks : List Mark) :
    (marks.map (Mark.renumber ρ)).map (Prod.mk now) = (marks.map (Prod.mk now)).map (renote ρ) := by
  simp only [List.map_map]
  rfl

theorem timed_of_still (still : ∀ d, op ≠ .advance d) (s : Session) :
    s.timed op = (s.perform op).2.1.map (Prod.mk s.now) := by
  cases op with
  | advance d => exact absurd rfl (still d)
  | _ => rfl

theorem renumber_still (still : ∀ d, op ≠ .advance d) (d : Duration) :
    op.renumber ρ ≠ .advance d := by
  cases op with
  | advance d => exact absurd rfl (still d)
  | _ => exact nofun

section

variable (inj : Function.Injective ρ)
include inj

theorem stamped_renumber (s : Session) (d : Duration) :
    machine.stamped.advance d (s.renumber ρ) =
      ((machine.stamped.advance d s).1.map (renote ρ),
        (machine.stamped.advance d s).2.renumber ρ) := by
  refine Clock.Machine.advance_image (m := machine.stamped) (g := renumber ρ) (fun _ => rfl)
    (fun _ _ => rfl) timers_renumber ?_ d s
  intro s
  have turned : machine.wake (s.renumber ρ) = _ := turn_renumber inj s
  rw [Clock.Machine.stamped]
  simp only [turned, map_renote]
  rfl

theorem timed_renumber (onward : Onward ρ s.table.next) (op : Op) :
    (s.renumber ρ).timed (op.renumber ρ) = (s.timed op).map (renote ρ) := by
  by_cases still : ∀ d, op ≠ .advance d
  · rw [timed_of_still still, timed_of_still (renumber_still still),
      perform_renumber inj onward.step, ← map_renote]
    rfl
  · simp only [not_forall, not_not] at still
    obtain ⟨d, rfl⟩ := still
    simp only [Op.renumber, timed, stamped_renumber inj, finish_renumber inj, List.map_append,
      map_renote]
    rfl

theorem Sound.run_renumber (h : s.Sound) (onward : Onward ρ s.table.next) (ops : List Op) :
    answers (s.renumber ρ) (ops.map (Op.renumber ρ)) = answers s ops ∧
      (s.renumber ρ).timeline (ops.map (Op.renumber ρ)) = (s.timeline ops).map (renote ρ) ∧
      ((s.renumber ρ).run (ops.map (Op.renumber ρ))).2 = (s.run ops).2.renumber ρ := by
  induction ops generalizing s with
  | nil => exact ⟨rfl, rfl, rfl⟩
  | cons op rest ih =>
    have performs := h.perform_moves op
    have performed := perform_renumber inj onward.step op
    have timed := timed_renumber inj onward op
    obtain ⟨answered, noted, left⟩ :=
      ih (performs.sound h) (onward.mono (performs.numbers h).1)
    simp only [List.map_cons, answers, timeline, run_cons, performed, timed, answered, noted,
      left, List.map_append, and_self]

theorem Leads.renumber (led : Leads s t) (h : s.Sound) (onward : Onward ρ s.table.next) :
    Leads (s.renumber ρ) (t.renumber ρ) := by
  induction led with
  | refl s => exact .refl _
  | act op _ ih =>
    have acts := h.act_moves op
    have acted := act_renumber inj onward.step op
    have later := ih (acts.sound h) (onward.mono (acts.numbers h).1)
    refine .act (op.renumber ρ) ?_
    rw [acted]
    exact later
  | @finish s t w outcome hw ends _ ih =>
    have finishes := (Move.finish hw ends).moves
    have later := ih (finishes.sound h) (onward.mono (finishes.numbers h).1)
    rw [← leave_renumber inj] at later
    exact .finish (List.mem_map_of_mem hw) ends later
  | @sweep s t _ ih =>
    have sweeps := h.runSweeper_moves
    have later := ih (sweeps.sound h) (onward.mono (sweeps.numbers h).1)
    rw [← runSweeper_renumber inj] at later
    exact .sweep later
  | pass now le _ ih => exact .pass now le (ih (h.congr rfl rfl) onward)

end

/-- `t` is `s` to everyone who looks, now and later; only the registrations to come may bear other
numbers. -/
structure Unmoved (s t : Session) : Prop where
  entries : t.table.entries = s.table.entries
  closed : t.table.closed = s.table.closed
  waiters : t.waiters = s.waiters
  now : t.now = s.now
  sweeper : t.sweeper = s.sweeper
  later : ∃ ρ : Nat → Nat, Function.Injective ρ ∧
    (∀ w ∈ s.waiters, ρ w.registration = w.registration) ∧
    (∀ after, answers t (after.map (Op.renumber ρ)) = answers s after ∧
      t.timeline (after.map (Op.renumber ρ)) = (s.timeline after).map (renote ρ) ∧
      (t.run (after.map (Op.renumber ρ))).2 = (s.run after).2.renumber ρ) ∧
    ∀ u, Leads s u → Leads t (u.renumber ρ)

structure Adds (s t : Session) (w : Waiter) : Prop where
  entries : t.table.entries = s.table.entries ++ [w.entry]
  waiters : t.waiters = s.waiters ++ [w]
  number : ∀ v ∈ s.waiters, v.registration ≠ w.registration
  key : ∀ e ∈ s.table.entries, e.key ≠ w.key
  closed : t.table.closed = s.table.closed
  now : t.now = s.now
  sweeper : t.sweeper = s.sweeper

theorem Sound.unmoved (h : s.Sound) (inj : Function.Injective ρ) (onward : Onward ρ s.table.next)
    (fixed : ∀ n < s.table.next, ρ n = n) : Unmoved s (s.numbered (ρ s.table.next)) := by
  refine ⟨rfl, rfl, rfl, rfl, rfl, ρ, inj, fun w hw => fixed _ (h.below w hw), ?_, ?_⟩
  · rw [← h.renumber_fixed fixed]
    exact h.run_renumber inj onward
  · rw [← h.renumber_fixed fixed]
    exact fun u led => led.renumber inj h onward

theorem Sound.refuse_unmoved (h : s.Sound) (error : ExecutionError) :
    Unmoved s (s.refuse error) := by
  have skipped : Unmoved s { s with table := s.table.skip } := by
    have gone : gap s.table.next s.table.next = s.table.next + 1 := if_neg (Nat.lt_irrefl _)
    have unmoved := h.unmoved (gap_injective s.table.next) (onward_gap _) fun _ => gap_below
    rw [gone] at unmoved
    exact unmoved
  cases error with
  | timeout => exact h.unmoved Function.injective_id (fun _ _ => rfl) fun _ _ => rfl
  | collision => exact skipped
  | shuttingDown => exact skipped

/-- How a registration is answered, and what is different afterwards. -/
structure Answered (s : Session) (name : String) (key : Key) (deadline : Duration) : Prop where
  late : deadline ≤ s.now → s.register name key deadline = .error (.timeout key 0)
  closed : s.now < deadline → s.table.closed = true →
    s.register name key deadline = .error .shuttingDown
  taken : s.now < deadline → s.table.closed = false → s.table.contains key = true →
    s.register name key deadline = .error (.collision key)
  refused : ∀ error, s.register name key deadline = .error error →
    (s.act (.register name key deadline)).2.1 = [] ∧
      Unmoved s (s.act (.register name key deadline)).2.2
  accepted : s.now < deadline → s.table.closed = false → s.table.contains key = false →
    ∃ t, s.register name key deadline = .ok t ∧
      (s.act (.register name key deadline)).2.2 = t ∧
      Adds s t ⟨name, key, s.table.next, deadline, .empty, false⟩

theorem Sound.adds (h : s.Sound) {name : String} {key : Key} {deadline : Duration}
    (registered : s.register name key deadline = .ok t) :
    Adds s t ⟨name, key, s.table.next, deadline, .empty, false⟩ := by
  obtain ⟨-, -, free, rfl⟩ := register_ok registered
  have others : ∀ e ∈ s.table.entries, e.key ≠ key := by
    simpa [Table.contains, Table.find?] using free
  exact ⟨rfl, rfl, fun v hv => (h.below v hv).ne, others, rfl, rfl, rfl⟩

theorem registration_answered (led : Leads {} s) (name : String) (key : Key)
    (deadline : Duration) : Answered s name key deadline := by
  obtain ⟨marks, moves⟩ := led.moves .empty
  have sound := moves.sound .empty
  constructor
  case late =>
    intro late
    rw [register, Table.refusal?, if_pos late]
  case closed =>
    intro ahead closed
    rw [register, Table.refusal?, if_neg (Nat.not_le_of_lt ahead), if_pos closed]
  case taken =>
    intro ahead opened taken
    rw [register, Table.refusal?, if_neg (Nat.not_le_of_lt ahead), opened,
      if_neg Bool.false_ne_true, if_pos taken]
  case refused =>
    intro error refused
    rw [act, refused]
    exact ⟨rfl, sound.refuse_unmoved error⟩
  case accepted =>
    intro ahead opened free
    obtain ⟨t, registered⟩ := register_of_free ahead opened free name
    refine ⟨t, registered, ?_, sound.adds registered⟩
    rw [act, registered]

def pinged : Session :=
  { table := { entries := [⟨.ping, 0, 7⟩], next := 1 }
    waiters := [⟨"a", .ping, 0, 7, .empty, true⟩] }

theorem registration_pinged : Leads {} pinged ∧ Answered pinged "b" .ping 9 := by
  have led : Leads {} pinged := .act (.register "a" .ping 7) (.act (.wait 0) (.refl _))
  exact ⟨led, registration_answered led "b" .ping 9⟩

/-- The number of a registration that was refused is gone. -/
example :
    (run {} [.register "a" .ping 7, .register "b" .ping 9, .register "c" .scheduler 9]).2.table =
      { entries := [⟨.ping, 0, 7⟩, ⟨.scheduler, 2, 9⟩], next := 3 } := by
  decide

end Session

end RoundTrip.Pending
