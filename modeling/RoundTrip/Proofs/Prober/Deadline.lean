import RoundTrip.Proofs.Prober.Acknowledgement

namespace RoundTrip

def Mark.timedOut? : Mark → Option (Duration × Ticket × Nat)
  | .ended now t (.error (.execution (.timeout _ waited))) => some (now, t, waited)
  | _ => none

namespace Journal

def timeouts (j : List Mark) : List (Duration × Ticket × Nat) := j.filterMap Mark.timedOut?

@[simp] theorem timeouts_append (j k : List Mark) : timeouts (j ++ k) = timeouts j ++ timeouts k :=
  List.filterMap_append

def Lapsed (j : List Mark) : Prop :=
  ∀ now t waited, (now, t, waited) ∈ timeouts j → waited = (now - t.started).toMillis ∧
    (t.entry ∈ expiries j ∨ t.deadline.tick ≤ now)

variable {j k : List Mark}

theorem Lapsed.append (h : Lapsed j) (later : ∀ now t waited, (now, t, waited) ∈ timeouts k →
    waited = (now - t.started).toMillis ∧ (t.entry ∈ expiries j ∨ t.deadline.tick ≤ now)) :
    Lapsed (j ++ k) := by
  have either : ∀ now t waited, (now, t, waited) ∈ timeouts (j ++ k) →
      waited = (now - t.started).toMillis ∧ (t.entry ∈ expiries j ∨ t.deadline.tick ≤ now) := by
    intro now t waited hx
    rw [timeouts_append] at hx
    rcases List.mem_append.1 hx with hx | hx
    · exact h now t waited hx
    · exact later now t waited hx
  intro now t waited hx
  obtain ⟨told, due⟩ := either now t waited hx
  refine ⟨told, due.imp_left ?_⟩
  rw [expiries_append]
  exact List.mem_append_left _

theorem Lapsed.quiet (h : Lapsed j) (none_timed_out : timeouts k = []) : Lapsed (j ++ k) := by
  apply h.append
  intro now t waited hx
  rw [none_timed_out] at hx
  cases hx

end Journal

theorem Pending.Table.refused_ahead {t : Pending.Table} {now deadline : Duration} {key : Key}
    {error : ExecutionError} (ahead : now < deadline)
    (refused : t.refusal? now key deadline = some error) :
    error ∈ [ExecutionError.collision key, .shuttingDown] := by
  rw [refusal?, if_neg (Nat.not_le_of_lt ahead)] at refused
  split at refused
  next =>
    cases refused
    simp
  next =>
    split at refused
    next =>
      cases refused
      simp
    next => cases refused

namespace Prober

open Journal

variable {config : Config} {collaborators : Collaborators} {j k past : List Mark} {p q : Prober}

theorem Account.expired (h : Account j p) {w : Pending.Waiter} (hw : w ∈ p.session.waiters)
    (ends : p.session.ending? w = some .expired) :
    w.entry ∈ expiries j ∨ w.deadline.tick ≤ p.session.now := by
  have told := h.told w hw
  rw [Told] at told
  rw [Pending.Session.ending?] at ends
  split at ends
  next => cases ends
  next =>
    split at told
    next hs =>
      rw [hs] at ends
      simp only [Pending.Slot.outcome?] at ends
      split at ends
      next due => exact .inr due
      next => cases ends
    next hs =>
      rw [hs] at ends
      cases ends
    next hs =>
      rw [hs] at ends
      cases ends
    next => exact told.2

theorem Move.lapsed (m : Move p k q) (h : Account j p) (lapsed : Lapsed j) : Lapsed (j ++ k) := by
  cases m with
  | @note m idle =>
    apply lapsed.quiet
    cases m <;> first | rfl | cases idle
  | @finish f w outcome hf hw hr ends =>
    cases outcome with
    | delivered | cancelled => exact lapsed.quiet rfl
    | expired =>
      apply lapsed.append
      intro now t waited hx
      cases List.mem_singleton.1 hx
      have own : w.entry = f.entry := h.sound.own_waiter hf hw hr
      have deadline : w.deadline = f.deadline := congrArg Pending.Entry.deadline own
      refine ⟨rfl, ?_⟩
      rcases h.expired hw ends with taken | due
      · rw [own] at taken
        exact .inl taken
      · rw [deadline] at due
        exact .inr due
  | _ => exact lapsed.quiet rfl

theorem Shift.lapsed {byHand : Prop} (m : Shift byHand p k q) (lapsed : Lapsed j) :
    Lapsed (j ++ k) := by
  cases m <;> exact lapsed.quiet rfl

theorem Course.lapsed {byHand : Prop} (c : Course byHand p k q) (h : Account j p)
    (lapsed : Lapsed j) : Lapsed (j ++ k) := by
  induction c generalizing j with
  | refl => simpa using lapsed
  | move m _ ih =>
    rw [← List.append_assoc]
    exact ih (m.account h) (m.lapsed h lapsed)
  | shift m _ ih =>
    rw [← List.append_assoc]
    exact ih (m.account h) (m.lapsed lapsed)

/-- How the deadline bounds the call that is registered as `t` and waits for `wait`. -/
structure Bounded (j : List Mark) (now : Duration) (t : Ticket) (wait : Duration) : Prop where
  /-- Whatever its collaborator does, the call is not in flight any more when its time is over. -/
  returned : (t.started + wait).tick ≤ now → t ∉ running j
  ended : ∀ instant v, .ended instant t v ∈ j → instant ≤ (t.started + wait).tick
  timedOut : ∀ instant waited, (instant, t, waited) ∈ timeouts j → t.entry ∉ expiries j →
    t.started + wait ≤ instant ∧ instant = (t.started + wait).tick
  /-- A call that began with a millisecond says that it waited for `wait`, rounded up. -/
  told : Duration.millisecond ∣ t.started →
    ∀ instant waited, (instant, t, waited) ∈ timeouts j → t.entry ∉ expiries j →
      waited = wait.ceilMillis

theorem passed_millis {started wait : Duration} (whole : Duration.millisecond ∣ started) :
    ((started + wait).tick - started).toMillis = wait.ceilMillis := by
  obtain ⟨ms, rfl⟩ := whole
  have began : Duration.millisecond * ms = Duration.ofMillis ms := Nat.mul_comm _ _
  rw [began, Duration.tick, Duration.ceilMillis_ofMillis_add, Duration.ofMillis,
    Duration.ofMillis, ← Nat.sub_mul, Nat.add_sub_cancel_left]
  exact Duration.toMillis_ofMillis _

theorem ended_of_timeout {now : Duration} {waited : Nat} {t : Ticket}
    (hx : (now, t, waited) ∈ timeouts j) : ∃ v, .ended now t v ∈ j := by
  obtain ⟨m, hm, timedOut⟩ := List.mem_filterMap.1 hx
  rw [Mark.timedOut?.eq_def] at timedOut
  split at timedOut
  next =>
    cases timedOut
    exact ⟨_, hm⟩
  next => cases timedOut

theorem Reached.bounded (h : Reached config collaborators j p) (lapsed : Lapsed j) {t : Ticket}
    (ht : t ∈ registered j) {wait : Duration} (deadline : t.deadline = t.started + wait) :
    Bounded j p.now t wait := by
  have ended : ∀ instant v, .ended instant t v ∈ j → instant ≤ t.deadline.tick := by
    intro instant v hm
    obtain ⟨past, rest, rfl⟩ := List.append_of_mem hm
    exact h.account.coherent.fits.2.1
  have timedOut : ∀ instant waited, (instant, t, waited) ∈ timeouts j → t.entry ∉ expiries j →
      instant = t.deadline.tick ∧ waited = (instant - t.started).toMillis := by
    intro instant waited hx kept
    obtain ⟨v, hm⟩ := ended_of_timeout hx
    obtain ⟨told, due⟩ := lapsed instant t waited hx
    exact ⟨Nat.le_antisymm (ended instant v hm) (due.resolve_left kept), told⟩
  rw [deadline] at ended timedOut
  constructor
  case returned =>
    intro late runs
    rw [← deadline] at late
    have closed := h.account.returned h.quiet ht late
    exact of_decide_eq_true (List.mem_filter.1 runs).2 closed
  case ended => exact ended
  case timedOut =>
    intro instant waited hx kept
    obtain ⟨rfl, -⟩ := timedOut instant waited hx kept
    exact ⟨Duration.le_tick _, rfl⟩
  case told =>
    intro whole instant waited hx kept
    obtain ⟨rfl, rfl⟩ := timedOut instant waited hx kept
    exact passed_millis whole

variable {r : ProbeRequest} {s : Step} {a : Admission}

theorem perform_probe (request : s.request? = some r) (p : Prober) :
    (p.perform s).2.1 = (p.probe r.name r.surface r.event r.nonce).1 ++
      (p.probe r.name r.surface r.event r.nonce).2.settle.1 := by
  rw [perform, act_request request]

theorem Quiet.perform_refused (h : Quiet p) (request : s.request? = some r)
    (admitted : Admission.ofEvent p.config.policy p.config.pods r.nonce r.event = .ok a)
    {error : ExecutionError} (refused : p.session.table.refusal? p.session.now a.key
      (p.session.now + a.wait) = some error) :
    (p.perform s).2.1 = [.refused p.now r.name r.surface (.execution error)] := by
  let q : Prober := { p with session := p.session.refuse error }
  have probed : p.probe r.name r.surface r.event r.nonce =
      ([.refused p.now r.name r.surface (.execution error)], q) := by
    rw [Prober.probe, admitted]
    exact register_refused refused r.name r.surface r.nonce _
  have rests : q.settle = ([], q) := (h.refuse error).settle
  rw [perform_probe request, probed, rests, List.append_nil]

theorem register_taken {key : Key} {deadline : Duration}
    (free : p.session.table.refusal? p.session.now key deadline = none) (name : String)
    (surface : Surface) (nonce : Nonce) (effect : Option Effect) :
    ∃ rest, (p.register name surface key deadline nonce effect).1 = .registered p.now
      ⟨name, surface, key, p.session.table.next, deadline, p.now⟩ :: rest := by
  rw [register, Pending.Session.register, free]
  exact ⟨_, rfl⟩

theorem perform_registered (request : s.request? = some r)
    (admitted : Admission.ofEvent p.config.policy p.config.pods r.nonce r.event = .ok a)
    (free : p.session.table.refusal? p.session.now a.key (p.session.now + a.wait) = none) :
    ∃ rest, (p.perform s).2.1 = .registered p.now ⟨r.name, r.surface, a.key, p.session.table.next,
      p.session.now + a.wait, p.now⟩ :: rest := by
  obtain ⟨rest, registers⟩ := register_taken free r.name r.surface r.nonce (a.probe.effect? r.event)
  have probed : (p.probe r.name r.surface r.event r.nonce).1 = .registered p.now ⟨r.name, r.surface,
      a.key, p.session.table.next, p.session.now + a.wait, p.now⟩ :: rest := by
    rw [Prober.probe, admitted]
    exact registers
  rw [perform_probe request, probed]
  exact ⟨_, rfl⟩

/-- What becomes of a request that is admitted with `a`: without time to wait it ends at once, and
otherwise it is turned away or its call is bounded by the deadline. -/
structure OnTime (p : Prober) (before : List Step) (s : Step) (after : List Step)
    (r : ProbeRequest) (a : Admission) : Prop where
  zero : a.wait = 0 → p.during before s =
    [.refused (p.steps before).2.now r.name r.surface (.execution (.timeout a.key 0))]
  bounded : 0 < a.wait →
    (∃ error ∈ [ExecutionError.collision a.key, .shuttingDown], p.during before s =
      [.refused (p.steps before).2.now r.name r.surface (.execution error)]) ∨
    ∃ t rest, p.during before s = .registered (p.steps before).2.now t :: rest ∧
      t.name = r.name ∧ t.key = a.key ∧ t.started = (p.steps before).2.now ∧
      Bounded (p.journal (before ++ s :: after)) (p.steps (before ++ s :: after)).2.now t a.wait

def podRequest : ProbeRequest :=
  ⟨"a", .direct, .bare "1" (Kind.name (.pods .create)) "caller", 0⟩

def sweptHanging : List Step := [.run, .advance (7 * Duration.millisecond)]

end Prober

end RoundTrip
