import RoundTrip.Proofs.Prober.Invisible
import RoundTrip.Proofs.Prober.Signal

namespace RoundTrip

namespace Journal

/-- A delivery of an event with the key of the call found the call's own entry in the table, no
later than the tick at which its deadline fires. -/
def DeliveredTo (j : List Mark) (t : Ticket) : Prop :=
  ∃ now e byCollaborator, .delivered now e true (some t.entry) byCollaborator ∈ j ∧
    Delivered.key? e = some t.key ∧ now ≤ t.deadline.tick

/-- The call was registered before the shutdown signal fired, if it fired at all. -/
def Early (j : List Mark) (t : Ticket) : Prop :=
  ∃ before now after, j = before ++ .registered now t :: after ∧ ¬ ShutDown before

variable {j : List Mark}

theorem Coherent.claimed_iff (h : Coherent [] j) (t : Ticket) :
    t.entry ∈ claims j ↔ DeliveredTo j t := by
  constructor
  · intro claimed
    obtain ⟨m, hm, hclaim⟩ := List.mem_filterMap.1 claimed
    obtain ⟨past, rest, rfl⟩ := List.append_of_mem hm
    cases m with
    | delivered now e resolved claim byCollaborator =>
      obtain rfl : claim = some t.entry := hclaim
      obtain ⟨rfl, known⟩ := h.fits
      obtain ⟨hkey, -, timely, -⟩ := known _ rfl
      exact ⟨now, e, byCollaborator, hm, hkey, timely⟩
    | _ => cases hclaim
  · rintro ⟨now, e, byCollaborator, hm, -, -⟩
    exact List.mem_filterMap.2 ⟨_, hm, rfl⟩

theorem Coherent.past {past rest : List Mark} (h : Coherent [] (past ++ rest)) :
    Coherent [] past :=
  (coherent_append.1 h).1

theorem Coherent.claimed_before {past rest : List Mark} (h : Coherent [] (past ++ rest))
    {t : Ticket} (ended : t.registration ∈ closed past)
    (claimed : t.entry ∈ claims (past ++ rest)) : t.entry ∈ claims past := by
  rw [claims_append] at claimed
  rcases List.mem_append.1 claimed with before | after
  · exact before
  · obtain ⟨m, hm, hclaim⟩ := List.mem_filterMap.1 after
    obtain ⟨a, b, rfl⟩ := List.append_of_mem hm
    rw [← List.append_assoc] at h
    have single : t.entry ∈ claims [m] :=
      List.mem_filterMap.2 ⟨m, List.mem_singleton_self m, hclaim⟩
    obtain ⟨-, u, hu, entry⟩ := h.fits.claimed single
    have number : u.registration = t.registration := congrArg Pending.Entry.registration entry
    have open_ := (List.mem_filter.1 hu).2
    rw [number, closed_append] at open_
    simp [ended] at open_

theorem Coherent.claimed_ticket (h : Coherent [] j) {e : Pending.Entry} (he : e ∈ claims j) :
    ∃ t ∈ registered j, t.entry = e := by
  obtain ⟨m, hm, hclaim⟩ := List.mem_filterMap.1 he
  obtain ⟨past, rest, rfl⟩ := List.append_of_mem hm
  have single : e ∈ claims [m] := List.mem_filterMap.2 ⟨m, List.mem_singleton_self m, hclaim⟩
  obtain ⟨-, t, ht, entry⟩ := h.fits.claimed single
  refine ⟨t, ?_, entry⟩
  rw [registered_append]
  exact List.mem_append_left _ (running_subset ht)

end Journal

namespace Prober

open Journal

/-- What a request comes to as it arrives: it is refused, its task panics, or it gets one
registration. -/
inductive Arrival (config : Config) (now : Duration) (r : ProbeRequest) (marks : List Mark) : Prop
  | refused (error : ProbeError) : marks = [.refused now r.name r.surface error] →
      Arrival config now r marks
  | panicked : marks = [.panicked now r.name] → Arrival config now r marks
  | registered {a : Admission} (registration : Nat) {rest : List Mark} :
      Admission.ofEvent config.policy config.pods r.nonce r.event = .ok a →
        marks = .registered now ⟨r.name, r.surface, a.key, registration, now + a.wait, now⟩ ::
          rest → registered rest = [] → Arrival config now r marks

/-- What the journal of a run says of its calls, and that it is what the run showed. -/
structure Agreement (config : Config) (p : Prober) (ss : List Step) : Prop where
  shown : (p.steps ss).1.flatMap Shown.happenings = (p.journal ss).filterMap Mark.happening?
  arrival : ∀ before s after r, ss = before ++ s :: after → s.request? = some r →
    Arrival config (p.steps before).2.now r (p.during before s)
  others : ∀ before s after, ss = before ++ s :: after → s.request? = none →
    registered (p.during before s) = []
  /-- A call returns well only if it was delivered to in time and its trigger did not fail. -/
  earned : ∀ past now t v rest, p.journal ss = past ++ .ended now t v :: rest →
    t ∈ running past ∧ now ≤ t.deadline.tick ∧
      (v = .ok () → DeliveredTo past t ∧ t.registration ∉ failed past)
  /-- It does so exactly if the prober was not shut down before either. A call that comes when the
  signal has fired by itself may still see its delivery first. -/
  verdict : ∀ past now t v rest, p.journal ss = past ++ .ended now t v :: rest → Early past t →
    (v = .ok () ↔ DeliveredTo past t ∧ t.registration ∉ failed past ∧ ¬ ShutDown past)
  /-- A delivery that returns true found the entry of one call that was running. -/
  matched : ∀ past now e resolved claim byCollaborator rest,
    p.journal ss = past ++ .delivered now e resolved claim byCollaborator :: rest →
      resolved = claim.isSome ∧ ∀ entry ∈ claim, Delivered.key? e = some entry.key ∧
        now ≤ entry.deadline.tick ∧ ∃ t ∈ running past, t.entry = entry
  distinct : ((registered (p.journal ss)).map Ticket.registration).Nodup
  once : ((claims (p.journal ss)).map Pending.Entry.registration).Nodup
  /-- Every call has returned by the tick of its deadline, unless its caller went away. -/
  returned : ∀ t ∈ registered (p.journal ss), t.deadline.tick ≤ (p.steps ss).2.now →
    (∃ now v, .ended now t v ∈ p.journal ss) ∨ ∃ now, .dropped now t ∈ p.journal ss
  /-- A call that was delivered to returns well, even if the deadline has to cut its trigger off. -/
  acknowledged : ∀ t ∈ registered (p.journal ss), DeliveredTo (p.journal ss) t →
    t.registration ∉ failed (p.journal ss) → ¬ ShutDown (p.journal ss) →
      (∀ now, .dropped now t ∉ p.journal ss) → t.deadline.tick ≤ (p.steps ss).2.now →
        ∃ now ≤ t.deadline.tick, .ended now t (.ok ()) ∈ p.journal ss

theorem shown_steps (p : Prober) (ss : List Step) :
    (p.steps ss).1.flatMap Shown.happenings = (p.journal ss).filterMap Mark.happening? := by
  induction ss generalizing p with
  | nil => rfl
  | cons s rest ih =>
    rw [journal, List.filterMap_append, ← ih]
    rfl

variable {config : Config} {collaborators : Collaborators} {j past : List Mark} {p : Prober}
  {s : Step} {r : ProbeRequest}

theorem unregistered : Closed fun _ marks _ => registered marks = [] := by
  constructor
  case composes =>
    refine ⟨fun _ => rfl, fun first second => ?_⟩
    rw [registered_append, first, second, List.append_nil]
  case session | flights | unattended => exact fun _ _ => rfl
  case note =>
    intro p m note
    cases m with
    | registered => cases note
    | _ => rfl
  case deliver => exact fun _ _ _ => rfl

theorem perform_unregistered (other : s.request? = none) (p : Prober) :
    registered (p.perform s).2.1 = [] := by
  refine unregistered.perform s ?control ?calls ?enters p
  case control => exact fun _ => ⟨fun _ => rfl, fun _ => rfl⟩
  case calls => intros; rfl
  case enters => simp [other]

theorem Reached.arrival (h : Reached config collaborators past p) (request : s.request? = some r) :
    Arrival config p.now r (p.perform s).2.1 := by
  have acted := act_request request p
  rw [probe, h.equipped.config] at acted
  split at acted
  next error _ => exact .refused _ (by rw [perform_of_act acted h.quiet])
  next _ => exact .panicked (by rw [perform_of_act acted h.quiet])
  next a admitted =>
    rw [register] at acted
    split at acted
    next error _ =>
      exact .refused _ (by rw [perform_of_act acted (h.quiet.refuse error)])
    next session _ =>
      let t : Ticket :=
        ⟨r.name, r.surface, a.key, p.session.table.next, p.now + a.wait, p.now⟩
      let f : Flight := ⟨t, r.nonce, .registered⟩
      let p₁ : Prober := { p with session, flights := p.flights ++ [f] }
      let launched := p₁.launch f (a.probe.effect? r.event)
      have entered : p.act s = (.none, .registered p.now t :: launched.1, launched.2) := acted
      have marks : (p.perform s).2.1 =
          .registered p.now t :: (launched.1 ++ launched.2.settle.1) := by
        rw [Prober.perform, entered]
        rfl
      refine .registered p.session.table.next admitted marks ?_
      rw [registered_append, unregistered.settle, List.append_nil]
      exact unregistered.launch (fun _ _ _ _ _ => rfl) p₁ f _

theorem Account.ticket_unique (h : Account j p) {t u : Ticket} (ht : t ∈ registered j)
    (hu : u ∈ registered j) (hr : t.registration = u.registration) : t = u := by
  have distinct : ((registered j).map Ticket.registration).Nodup :=
    List.pairwise_map.2 (h.ordered.imp Nat.ne_of_lt)
  exact List.inj_on_of_nodup_map distinct ht hu hr

theorem Account.closed_ticket (h : Account j p) {t : Ticket} (ht : t ∈ registered j)
    (gone : t.registration ∈ closed j) :
    (∃ now v, .ended now t v ∈ j) ∨ ∃ now, .dropped now t ∈ j := by
  obtain ⟨m, hm, hclosed⟩ := List.mem_filterMap.1 gone
  have coherent := h.coherent
  obtain ⟨past, rest, rfl⟩ := List.append_of_mem hm
  have earlier {u : Ticket} (hu : u ∈ running past) (hr : u.registration = t.registration) :
      u = t := by
    refine h.ticket_unique ?_ ht hr
    rw [registered_append]
    exact List.mem_append_left _ (running_subset hu)
  cases m with
  | ended now u v =>
    obtain rfl := earlier coherent.fits.1 (Option.some.inj hclosed)
    exact .inl ⟨now, v, hm⟩
  | dropped now u =>
    obtain rfl := earlier coherent.fits (Option.some.inj hclosed)
    exact .inr ⟨now, hm⟩
  | _ => cases hclosed

theorem Account.returned (h : Account j p) (quiet : Quiet p) {t : Ticket} (ht : t ∈ registered j)
    (late : t.deadline.tick ≤ p.now) : t.registration ∈ closed j := by
  by_contra open_
  have runs : t ∈ running j := List.mem_filter.2 ⟨ht, by simpa using open_⟩
  rw [← h.tickets] at runs
  obtain ⟨f, hf, rfl⟩ := List.mem_map.1 runs
  exact Nat.not_le_of_lt (quiet.timers_ahead _ (quiet.flight_deadline hf)) late

theorem Account.claims_numbers (h : Account j p) :
    ((claims j).map Pending.Entry.registration).Nodup := by
  refine List.Nodup.map_on ?_ h.coherent.claims_fresh.1
  intro d hd e he hr
  obtain ⟨t, ht, rfl⟩ := h.coherent.claimed_ticket hd
  obtain ⟨u, hu, rfl⟩ := h.coherent.claimed_ticket he
  rw [h.ticket_unique ht hu hr]

theorem Reached.up_of_running (h : Reached config collaborators past p) {u : List Mark}
    {t : Ticket} (runs : t ∈ running (past ++ u)) (early : Early (past ++ u) t) :
    ¬ ShutDown past := by
  intro down
  have nobody : running past = [] := by
    rw [← h.account.tickets, tickets, (h.quiet.calm (h.account.down.2 down)).1, List.map_nil]
  obtain ⟨before, now, after, whole, up⟩ := early
  have made : t ∈ registered past := by
    rcases List.append_eq_append_iff.1 whole with ⟨a, split, -⟩ | ⟨a, split, rest⟩
    · rw [split, shutDown_append] at up
      exact absurd (.inl down) up
    · cases a with
      | nil =>
        rw [List.append_nil] at split
        exact absurd (split ▸ down) up
      | cons m a =>
        obtain ⟨rfl, -⟩ := List.cons.inj rest
        rw [split, registered_append]
        exact List.mem_append_right _ List.mem_cons_self
  have ended : t.registration ∈ closed past := by
    by_contra open_
    have still : t ∈ running past := List.mem_filter.2 ⟨made, decide_eq_true open_⟩
    rw [nobody] at still
    cases still
  have open_ := of_decide_eq_true (List.mem_filter.1 runs).2
  rw [closed_append] at open_
  exact open_ (List.mem_append_left _ ended)

theorem Account.acknowledged (h : Account j p) (quiet : Quiet p)
    {t : Ticket} (ht : t ∈ registered j) (delivered : DeliveredTo j t)
    (unfailed : t.registration ∉ failed j) (up : ¬ ShutDown j)
    (kept : ∀ now, .dropped now t ∉ j) (late : t.deadline.tick ≤ p.now) :
    ∃ now ≤ t.deadline.tick, .ended now t (.ok ()) ∈ j := by
  rcases h.closed_ticket ht (h.returned quiet ht late) with ⟨now, v, hm⟩ | ⟨now, hm⟩
  · have claimed := (h.coherent.claimed_iff t).2 delivered
    obtain ⟨past, rest, rfl⟩ := List.append_of_mem hm
    obtain ⟨-, timely, -, decided⟩ := h.coherent.fits
    -- A closed call is not claimed any more, so the claim came before the end.
    have before : t.entry ∈ claims past := by
      have whole := h.coherent
      rw [← List.singleton_append, ← List.append_assoc] at whole claimed
      have ended : t.registration ∈ closed (past ++ [.ended now t v]) := by
        rw [closed_append]
        exact List.mem_append_right _ List.mem_cons_self
      have early := whole.claimed_before ended claimed
      rwa [claims_concat rfl] at early
    have acknowledged : Acknowledged past t := by
      refine ⟨before, ?_, ?_⟩
      · intro hf
        apply unfailed
        rw [failed_append]
        exact List.mem_append_left _ hf
      · intro down
        exact up ((shutDown_append _).2 (.inl down))
    obtain rfl := decided acknowledged
    exact ⟨now, timely, hm⟩
  · exact absurd hm (kept now)

theorem acknowledged_iff_delivered (hs : start config collaborators = .ok p) (ss : List Step) :
    Agreement config p ss := by
  have reached (before : List Step) :
      Reached config collaborators (p.journal before) (p.steps before).2 :=
    (Reached.start hs).steps before
  have account := (reached ss).account
  have quiet := (reached ss).quiet
  constructor
  case shown => exact shown_steps p ss
  case arrival => exact fun before s after r _ request => (reached before).arrival request
  case others => exact fun before s after _ other => perform_unregistered other _
  case earned =>
    intro past now t v rest hj
    rw [hj] at account
    obtain ⟨runs, timely, earned, -⟩ := account.coherent.fits
    rw [account.coherent.past.claimed_iff t] at earned
    exact ⟨runs, timely, earned⟩
  case verdict =>
    intro past now t v rest hj early
    rw [hj] at account
    obtain ⟨runs, -, earned, decided⟩ := account.coherent.fits
    rw [← account.coherent.past.claimed_iff t]
    constructor
    · rintro rfl
      obtain ⟨claimed, unfailed⟩ := earned rfl
      refine ⟨claimed, unfailed, ?_⟩
      intro down
      obtain ⟨before, s, after, u, w, -, marks, rfl⟩ := journal_cut hj
      rcases (shutDown_append u).1 down with past | now
      · exact (reached before).up_of_running runs early past
      · cases (reached before).quiet.ended_signalled marks now
    · rintro ⟨claimed, unfailed, up⟩
      exact decided ⟨claimed, unfailed, up⟩
  case matched =>
    intro past now e resolved claim byCollaborator rest hj
    rw [hj] at account
    obtain ⟨flag, known⟩ := account.coherent.fits
    refine ⟨flag, ?_⟩
    intro entry found
    obtain ⟨hkey, -, timely, runs⟩ := known entry found
    exact ⟨hkey, timely, runs⟩
  case distinct => exact List.pairwise_map.2 (account.ordered.imp Nat.ne_of_lt)
  case once => exact account.claims_numbers
  case returned =>
    intro t ht late
    exact account.closed_ticket ht (account.returned quiet ht late)
  case acknowledged =>
    intro t ht delivered unfailed up kept late
    exact account.acknowledged quiet ht delivered unfailed up kept late

def hanging : Prober :=
  { config := {}
    collaborators := fun _ => some [{ delay := none }]
    liveness := { stale := Config.stale {} } }

def creation (id : String) : Event := .bare id (Kind.name (.pods .create)) "caller"

def creationReport : Event := .bare "2" (Delivered.Report.name (.pod .create)) "cluster"

def hangingRun : List Step :=
  [.probe "a" (creation "1") 0, .deliver creationReport, .advance (2 * Duration.minute)]

theorem agreement_hanging :
    Agreement {} hanging hangingRun ∧
      endings (hanging.journal hangingRun) =
        [(2 * Duration.minute, ⟨"a", .direct, .pods .create, 0, 2 * Duration.minute, 0⟩,
          .ok ())] := by
  have started : start {} hanging.collaborators = .ok hanging := rfl
  exact ⟨acknowledged_iff_delivered started hangingRun, by decide +kernel⟩

/-- The deadline is at 1.2 ms and its tick at 2 ms, and the delivery comes between them. -/
def betweenRun : List Step :=
  [.probe "a" ((creation "1").setExtension "timeout" "1200us") 0,
    .advance (1500 * Duration.microsecond), .deliver creationReport, .advance Duration.millisecond]

/-- Until the tick of its deadline, a call whose time is up is still acknowledged. -/
theorem not_every_ack_in_time :
    ¬ ∀ (config : Config) (collaborators : Collaborators) (p : Prober) (ss : List Step),
      start config collaborators = .ok p → ∀ now t, (now, t, .ok ()) ∈ endings (p.journal ss) →
        ∃ x ∈ deliveries (p.journal ss), Delivered.key? x.2 = some t.key ∧ x.1 < t.deadline := by
  intro claim
  have acknowledged : endings (hanging.journal betweenRun) = [(2 * Duration.millisecond,
      ⟨"a", .direct, .pods .create, 0, 1200 * Duration.microsecond, 0⟩, .ok ())] := by
    decide +kernel
  have delivered : (deliveries (hanging.journal betweenRun)).map Prod.fst =
      [1500 * Duration.microsecond] := by decide +kernel
  obtain ⟨x, hx, -, early⟩ := claim {} hanging.collaborators hanging betweenRun rfl _ _
    (by rw [acknowledged]; exact List.mem_cons_self)
  have at_ : x.1 ∈ (deliveries (hanging.journal betweenRun)).map Prod.fst :=
    List.mem_map_of_mem hx
  rw [delivered, List.mem_singleton] at at_
  rw [at_] at early
  exact absurd early (by decide)

end Prober

end RoundTrip
