import RoundTrip.Proofs.Prober.Account
import RoundTrip.Proofs.Prober.Rest
import RoundTrip.Proofs.Prober.Steps

namespace RoundTrip

namespace Journal

/-- The calls that are running and whose entry nobody took, neither a delivery nor a removal by
hand. -/
def outstanding (j : List Mark) : List Ticket :=
  (running j).filter fun t => t.entry ∉ claims j ∧ t.entry ∉ expiries j

end Journal

namespace Prober

open Journal

/-- The table of the prober that the run `ss` leads to. -/
structure Custody (p : Prober) (ss : List Step) : Prop where
  inFlight : (p.steps ss).2.tickets = running (p.journal ss)
  /-- Same key, same registration, same deadline, one entry for each call. -/
  entries : (p.steps ss).2.session.table.entries = (outstanding (p.journal ss)).map Ticket.entry
  distinct : ((p.steps ss).2.session.table.entries.map Pending.Entry.registration).Nodup
  keys : ((p.steps ss).2.session.table.entries.map Pending.Entry.key).Nodup
  /-- Without removals by hand, a call that is running has lost its entry to a delivery or not at
  all. -/
  resolved : (∀ key, .expire key ∉ ss) →
    outstanding (p.journal ss) =
      (running (p.journal ss)).filter fun t => t.entry ∉ claims (p.journal ss)
  /-- A call that has ended left nothing behind. -/
  ended : ∀ now t v, .ended now t v ∈ p.journal ss →
    ∀ e ∈ (p.steps ss).2.session.table.entries, e.registration ≠ t.registration
  /-- Nor did one whose caller has gone away while it was running. -/
  dropped : ∀ before name after t, ss = before ++ .cancel name :: after →
    (running (p.journal before)).find? (fun u => u.name = name) = some t →
      p.during before (.cancel name) = [.dropped (p.steps before).2.now t] ∧
        ∀ e ∈ (p.steps ss).2.session.table.entries, e.registration ≠ t.registration
  empty : running (p.journal ss) = [] → (p.steps ss).2.session.table.entries = []

variable {j k : List Mark} {p q : Prober}

theorem Move.unexpired (m : Move p k q) : expiries k = [] := by
  cases m with
  | note idle =>
    have silent := Mark.silent_of_idle idle
    simp [expiries, silent.expired]
  | _ => rfl

theorem Course.unexpired (c : Course False p k q) : expiries k = [] := by
  induction c with
  | refl => rfl
  | move m _ ih => rw [expiries_append, m.unexpired, ih, List.append_nil]
  | shift m _ ih =>
    rw [expiries_append, ih, List.append_nil]
    cases m with
    | expire byHand => exact byHand.elim
    | _ => rfl

theorem Account.slot_empty_iff (h : Account j p) (quiet : Quiet p) {w : Pending.Waiter}
    (hw : w ∈ p.session.waiters) :
    w.slot = .empty ↔ w.entry ∉ claims j ∧ w.entry ∉ expiries j := by
  have told := h.told w hw
  rw [Told] at told
  split at told
  next hs => exact ⟨fun _ => told, fun _ => hs⟩
  next hs => simp [hs, told]
  next =>
    -- the table is closed only once nobody waits
    have nobody := h.sound.waiters_nil (quiet.calm (h.down.2 told.2)).1
    rw [nobody] at hw
    cases hw
  next hs =>
    obtain ⟨f, hf, seat⟩ := h.sound.flight_of_waiter hw
    have deadline : f.deadline = w.deadline := congrArg (fun s => s.entry.deadline) seat
    have ahead := quiet.timers_ahead _ (quiet.flight_deadline hf)
    rw [deadline] at ahead
    rcases told.2 with expired | due
    · simp [hs, expired]
    · exact absurd due (Nat.not_le_of_lt ahead)

theorem Sound.waiter_entries (h : p.Sound) :
    p.session.waiters.map Pending.Waiter.entry = p.tickets.map Ticket.entry := by
  have entries := congrArg (List.map Seat.entry) h.seats
  rw [List.map_map, List.map_map] at entries
  rw [Prober.tickets, List.map_map]
  exact entries.symm

theorem Account.entries (h : Account j p) (quiet : Quiet p) :
    p.session.table.entries = (outstanding j).map Ticket.entry := by
  let untaken (e : Pending.Entry) : Bool := e ∉ claims j ∧ e ∉ expiries j
  calc p.session.table.entries
      = (p.session.waiters.filter fun w => w.slot = .empty).map Pending.Waiter.entry :=
        h.sound.session.entries
    _ = (p.session.waiters.filter fun w => untaken w.entry).map Pending.Waiter.entry := by
        congr 1
        apply List.filter_congr
        intro w hw
        exact decide_eq_decide.2 (h.slot_empty_iff quiet hw)
    _ = (p.session.waiters.map Pending.Waiter.entry).filter untaken := by
        rw [List.filter_map]
        rfl
    _ = (p.tickets.map Ticket.entry).filter untaken := by rw [h.sound.waiter_entries]
    _ = (p.tickets.filter fun t => untaken t.entry).map Ticket.entry := List.filter_map
    _ = (outstanding j).map Ticket.entry := by rw [h.tickets, outstanding]

theorem Account.closed_gone (h : Account j p) (quiet : Quiet p) {n : Nat} (gone : n ∈ closed j) :
    ∀ e ∈ p.session.table.entries, e.registration ≠ n := by
  rintro e he rfl
  rw [h.entries quiet] at he
  obtain ⟨t, ht, rfl⟩ := List.mem_map.1 he
  have runs := List.mem_of_mem_filter ht
  have open_ := of_decide_eq_true (List.mem_filter.1 runs).2
  exact open_ gone

theorem Quiet.release (h : Quiet p) {f : Flight} (hf : f ∈ p.flights) : Quiet (p.release f) := by
  have dropped := (Move.drop hf).moves
  have ready : Ready (p.release f) := h.toReady.moves dropped (by
    rw [release_flights]
    exact List.filter_subset_self _)
  refine ⟨ready, (dropped.frame h.sound).calm h.calm, ?_⟩
  obtain ⟨w, -, -, released⟩ := h.sound.release_eq hf
  rw [released]
  intro v hv
  exact h.resting v (List.mem_of_mem_filter hv)

theorem Quiet.cancel (h : Quiet p) {name : String} {t : Ticket}
    (found : p.tickets.find? (fun u => u.name = name) = some t) :
    (p.perform (.cancel name)).2.1 = [.dropped p.now t] := by
  rw [tickets, List.find?_map] at found
  obtain ⟨f, first, rfl⟩ := Option.map_eq_some_iff.1 found
  have hf : f ∈ p.flights := List.mem_of_find?_eq_some first
  have first : (p.flights.find? fun f => f.name = name) = some f := first
  rw [Prober.perform, Prober.act, Prober.cancel, first]
  simp only [(h.release hf).settle, List.append_nil]

theorem table_holds_outstanding {config : Config} {collaborators : Collaborators}
    (hs : start config collaborators = .ok p) (ss : List Step) : Custody p ss := by
  have reached (ss : List Step) : Account (p.journal ss) (p.steps ss).2 ∧ Quiet (p.steps ss).2 := by
    obtain ⟨(course : Course True p _ _), quiet⟩ := (Quiet.start hs).steps fun _ _ => trivial
    exact ⟨course.account (account_start hs), quiet⟩
  obtain ⟨account, quiet⟩ := reached ss
  have entries := account.entries quiet
  constructor
  case inFlight => exact account.tickets
  case entries => exact entries
  case distinct =>
    have ordered := account.sound.session.entries_ordered
    exact List.pairwise_map.2 (ordered.imp Nat.ne_of_lt)
  case keys => exact List.pairwise_map.2 account.sound.session.keys
  case resolved =>
    intro none_by_hand
    -- the same run, but as one in which no removal by hand can occur
    obtain ⟨(course : Course False p _ _), -⟩ := (Quiet.start hs).steps none_by_hand
    rw [outstanding, course.unexpired]
    simp
  case ended =>
    intro now t v hm
    exact account.closed_gone quiet (List.mem_filterMap.2 ⟨_, hm, rfl⟩)
  case dropped =>
    rintro before name after t rfl found
    obtain ⟨account', quiet'⟩ := reached before
    rw [← account'.tickets] at found
    have noted : p.during before (.cancel name) = [.dropped (p.steps before).2.now t] :=
      quiet'.cancel found
    refine ⟨noted, account.closed_gone quiet (List.mem_filterMap.2
      ⟨.dropped (p.steps before).2.now t, ?_, rfl⟩)⟩
    rw [journal_append, noted]
    exact List.mem_append_left _ (List.mem_append_right _ List.mem_cons_self)
  case empty =>
    intro nobody
    rw [entries, outstanding, nobody]
    rfl

def alone : Prober :=
  { config := {}
    collaborators := fun _ => none
    liveness := { stale := Config.stale {} } }

def collidingRun : List Step :=
  [.probe "a" (.bare "1" Kind.scheduler.name "caller") 0,
    .probe "b" (.bare "2" Kind.scheduler.name "caller") 1,
    .advance Duration.second]

/-- The entry goes as the caller of the first probe does. -/
theorem custody_colliding :
    Custody alone collidingRun ∧ Custody alone (collidingRun ++ [.cancel "a"]) ∧
      (alone.steps collidingRun).2.session.table.entries =
        [⟨.scheduler, 0, 2 * Duration.minute⟩] ∧
      alone.during collidingRun (.cancel "a") =
        [.dropped Duration.second ⟨"a", .direct, .scheduler, 0, 2 * Duration.minute, 0⟩] ∧
      (alone.steps (collidingRun ++ [.cancel "a"])).2.session.table.entries = [] := by
  have started : start {} alone.collaborators = .ok alone := rfl
  have gone := table_holds_outstanding started (collidingRun ++ [.cancel "a"])
  have now : (alone.steps collidingRun).2.now = Duration.second := by decide +kernel
  obtain ⟨noted, -⟩ := gone.dropped collidingRun "a" []
    ⟨"a", .direct, .scheduler, 0, 2 * Duration.minute, 0⟩ rfl (by decide +kernel)
  rw [now] at noted
  exact ⟨table_holds_outstanding started collidingRun, gone, by decide +kernel, noted,
    gone.empty (by decide +kernel)⟩

end Prober

end RoundTrip
