import RoundTrip.Proofs.Liveness
import RoundTrip.Proofs.Prober.Invisible

namespace RoundTrip

def Mark.success? : Mark → Option Duration
  | .delivered now _ true _ _ => some now
  | _ => none

namespace Journal

def successes (j : List Mark) : List Duration := j.filterMap Mark.success?

@[simp] theorem successes_append (j k : List Mark) :
    successes (j ++ k) = successes j ++ successes k := List.filterMap_append

/-- When a round trip last succeeded; the beginning counts as a success. -/
def latest (j : List Mark) : Duration := (successes j).getLast?.getD 0

end Journal

namespace Liveness

def recordAll (l : Liveness) (times : List Duration) : Liveness := times.foldl record l

theorem le_recordAll (l : Liveness) (times : List Duration) :
    l.lastMillis ≤ (l.recordAll times).lastMillis := by
  induction times generalizing l with
  | nil => exact Nat.le_refl _
  | cons now rest ih => exact Nat.le_trans (Nat.le_max_left _ _) (ih (l.record now))

theorem recordAll_eq {l : Liveness} {times : List Duration} (ordered : times.Pairwise (· ≤ ·))
    (later : ∀ now ∈ times, l.lastMillis ≤ now.toMillis) :
    l.recordAll times =
      { l with lastMillis := (times.getLast?.map Duration.toMillis).getD l.lastMillis } := by
  induction times generalizing l with
  | nil => rfl
  | cons now rest ih =>
    rw [List.pairwise_cons] at ordered
    have recorded : l.record now = { l with lastMillis := now.toMillis } := by
      rw [record, max_eq_right (later now List.mem_cons_self)]
    have first : l.recordAll (now :: rest) =
        { l with lastMillis := now.toMillis }.recordAll rest := by
      rw [← recorded]
      rfl
    rw [first, ih ordered.2 fun t ht => Watch.toMillis_mono (ordered.1 t ht), List.getLast?_cons]
    cases rest.getLast? <;> rfl

end Liveness

namespace Prober

open Journal

variable {config : Config} {collaborators : Collaborators} {p q r : Prober} {a b : List Mark}

def Recorded (p : Prober) (marks : List Mark) (q : Prober) : Prop :=
  q.liveness = p.liveness.recordAll (successes marks)

theorem Recorded.trans (h : Recorded p a q) (k : Recorded q b r) : Recorded p (a ++ b) r := by
  rw [Recorded, k, h, successes_append]
  exact List.foldl_append.symm

theorem deliver_recorded (p : Prober) (e : Event) (byCollaborator : Bool) :
    Recorded p [p.delivery e byCollaborator] (p.deliver e).2 := by
  have kept : (p.deliver e).2.liveness =
      if (p.deliver e).1 then p.liveness.record p.session.now else p.liveness := by
    rw [deliver]
    split <;> rfl
  rw [Recorded, kept, delivery]
  cases (p.deliver e).1 with
  | true => exact if_pos rfl
  | false => exact if_neg Bool.false_ne_true

theorem Recorded.closed : Closed Recorded := by
  constructor
  case composes => exact ⟨fun _ => rfl, .trans⟩
  case session => exact fun _ _ => rfl
  case flights => exact fun _ _ => rfl
  case unattended => exact fun _ _ => rfl
  case note =>
    intro p m note
    have silent : m.success? = none := by
      cases m with
      | registered | called | delivered | shutDown => cases note
      | _ => rfl
    rw [Recorded, successes, List.filterMap_cons_none silent]
    rfl
  case deliver => exact deliver_recorded

theorem steps_recorded (p : Prober) (ss : List Step) : Recorded p (p.journal ss) (p.steps ss).2 :=
  Recorded.closed.steps ⟨fun _ => rfl, fun _ => rfl⟩ (fun _ _ _ _ _ => rfl) (fun _ _ => rfl) p ss

structure Chronicle (p : Prober) (marks : List Mark) (q : Prober) : Prop where
  later : p.now ≤ q.now
  within : ∀ now ∈ successes marks, p.now ≤ now ∧ now ≤ q.now
  ordered : (successes marks).Pairwise (· ≤ ·)

theorem Chronicle.trans (h : Chronicle p a q) (k : Chronicle q b r) : Chronicle p (a ++ b) r := by
  refine ⟨Nat.le_trans h.later k.later, ?_, ?_⟩
  · intro now hnow
    rw [successes_append] at hnow
    rcases List.mem_append.1 hnow with hnow | hnow
    · obtain ⟨early, late⟩ := h.within now hnow
      exact ⟨early, Nat.le_trans late k.later⟩
    · obtain ⟨early, late⟩ := k.within now hnow
      exact ⟨Nat.le_trans h.later early, late⟩
  · rw [successes_append, List.pairwise_append]
    refine ⟨h.ordered, k.ordered, ?_⟩
    intro s hs t ht
    exact Nat.le_trans (h.within s hs).2 (k.within t ht).1

theorem Chronicle.unsuccessful (later : p.now ≤ q.now) (none_resolved : successes a = []) :
    Chronicle p a q := by
  refine ⟨later, ?_, ?_⟩ <;> simp [none_resolved]

theorem Move.chronicle (m : Move p a q) (h : p.Sound) : Chronicle p a q := by
  have now : p.now = q.now := (m.frame h).now.symm
  cases m with
  | deliver =>
    refine ⟨now.le, ?_, List.pairwise_singleton _ _⟩
    intro t ht
    obtain rfl := List.mem_singleton.1 ht
    exact ⟨Nat.le_refl _, now.le⟩
  | @note m idle =>
    have silent : m.success? = none := by
      cases m with
      | delivered now e resolved claim byCollaborator =>
        cases resolved with
        | false => rfl
        | true => cases idle
      | _ => rfl
    exact .unsuccessful now.le (List.filterMap_cons_none silent)
  | keep | skip | hold | sweep | wait | fail | finish | ground | drop =>
    exact .unsuccessful now.le rfl

theorem Shift.chronicle {byHand : Prop} (m : Shift byHand p a q) (h : p.Sound) :
    Chronicle p a q := by
  cases m with
  | enter _ hr =>
    obtain ⟨-, -, -, rfl⟩ := Pending.Session.register_ok hr
    exact .unsuccessful (Nat.le_refl _) rfl
  | tick later => exact .unsuccessful later rfl
  | rearm | signal => exact .unsuccessful (Nat.le_refl _) rfl
  | expire =>
    rw [Pending.Session.expire, h.session.take_eq]
    exact .unsuccessful (Nat.le_refl _) rfl
  | close =>
    rw [Prober.close, h.session.close_eq]
    exact .unsuccessful (Nat.le_refl _) rfl

theorem Course.chronicle {byHand : Prop} (c : Course byHand p a q) (h : p.Sound) :
    Chronicle p a q := by
  induction c with
  | refl => exact .unsuccessful (Nat.le_refl _) rfl
  | move m _ ih => exact (m.chronicle h).trans (ih (m.sound h))
  | shift m _ ih => exact (m.chronicle h).trans (ih (m.sound h))

theorem Quiet.chronicle (h : Quiet p) (ss : List Step) :
    Chronicle p (p.journal ss) (p.steps ss).2 := by
  obtain ⟨(course : Course True p _ _), -⟩ := h.steps fun _ _ => trivial
  exact course.chronicle h.sound

theorem Chronicle.latest (h : Chronicle p a q) :
    latest a ≤ q.now ∧ ∀ now ∈ successes a, now ≤ latest a := by
  rw [Journal.latest]
  cases last : (successes a).getLast? with
  | none =>
    rw [List.getLast?_eq_none_iff.1 last]
    simp
  | some t =>
    obtain ⟨earlier, split⟩ := List.getLast?_eq_some_iff.1 last
    have ordered := h.ordered
    rw [split, List.pairwise_append] at ordered
    constructor
    · exact (h.within t (List.mem_of_getLast? last)).2
    · intro now hnow
      rw [split] at hnow
      rcases List.mem_append.1 hnow with hnow | hnow
      · exact ordered.2.2 now hnow t List.mem_cons_self
      · exact (List.mem_singleton.1 hnow).le

theorem latest_mem (j : List Mark) : latest j ∈ 0 :: successes j := by
  rw [latest]
  cases last : (successes j).getLast? with
  | none => exact List.mem_cons_self
  | some t => exact List.mem_cons_of_mem _ (List.mem_of_getLast? last)

theorem latest_append {k : List Mark} (none_resolved : successes k = []) (j : List Mark) :
    latest (j ++ k) = latest j := by
  rw [latest, successes_append, none_resolved, List.append_nil, latest]

theorem steps_liveness (hs : start config collaborators = .ok p) (ss : List Step) :
    (p.steps ss).2.liveness = ⟨config.stale, (latest (p.journal ss)).toMillis⟩ := by
  have chronicle := (Quiet.start hs).chronicle ss
  have recorded : (p.steps ss).2.liveness = p.liveness.recordAll (successes (p.journal ss)) :=
    steps_recorded p ss
  obtain rfl := start_eq hs
  rw [recorded, Liveness.recordAll_eq chronicle.ordered fun _ _ => Nat.zero_le _, latest]
  cases (successes _).getLast? with
  | none => exact congrArg (Liveness.mk _) (Nat.zero_div _).symm
  | some t => rfl

theorem unsuccessful_of_undelivered {j : List Mark} (nothing : deliveries j = []) :
    successes j = [] := by
  rw [successes, List.filterMap_eq_nil_iff]
  intro m hm
  have undelivered := List.filterMap_eq_nil_iff.1 nothing m hm
  cases m with
  | delivered => cases undelivered
  | _ => rfl

theorem during_delivery {s : Step} {e : Event} (event : s.event? = some e) (p : Prober)
    (before : List Step) : successes (p.during before s) =
      if ((p.steps before).2.deliver e).1 then [(p.steps before).2.now] else [] := by
  let q := (p.steps before).2
  have settled : successes (q.deliver e).2.settle.1 = [] :=
    unsuccessful_of_undelivered (deliveries_settle _)
  rw [during, perform_delivery event, delivery]
  cases (q.deliver e).1 with
  | true => exact congrArg (List.cons q.now) settled
  | false => exact settled

/-- What the prober reports after the steps `before`, and what the steps `after` make of it. -/
structure Freshness (config : Config) (p : Prober) (before after : List Step) : Prop where
  reported : ∀ age, age = Duration.ofMillis
      ((p.steps before).2.now.toMillis - (latest (p.journal before)).toMillis) →
    (p.steps before).2.health = ⟨age ≤ config.stale, age, config.stale⟩
  /-- Where time goes by in milliseconds, the age is exact. -/
  exact : Duration.millisecond ∣ latest (p.journal before) →
    Duration.millisecond ∣ (p.steps before).2.now →
      (p.steps before).2.health.since = (p.steps before).2.now - latest (p.journal before)
  shown : (p.steps (before ++ .health :: after)).1[before.length]? =
    some ⟨.health (p.steps before).2.health, []⟩
  /-- A delivery is a success exactly if the prober says so. -/
  told : ∀ s e, s.event? = some e → successes (p.during before s) =
    if ((p.steps before).2.deliver e).1 then [(p.steps before).2.now] else []
  last : latest (p.journal before) ∈ 0 :: successes (p.journal before) ∧
    (∀ now ∈ successes (p.journal before), now ≤ latest (p.journal before)) ∧
      latest (p.journal before) ≤ (p.steps before).2.now
  /-- Until a delivery resolves a registration, the age grows as time passes. -/
  aging : successes ((p.steps before).2.journal after) = [] →
    (p.steps (before ++ after)).2.health.since = (p.steps before).2.health.since +
      Duration.ofMillis
        ((p.steps (before ++ after)).2.now.toMillis - (p.steps before).2.now.toMillis)
  kept : (p.steps before).2.liveness.lastMillis ≤ (p.steps (before ++ after)).2.liveness.lastMillis

theorem health_follows_deliveries (hs : start config collaborators = .ok p)
    (before after : List Step) : Freshness config p before after := by
  have quiet : Quiet (p.steps before).2 := ((Reached.start hs).steps before).quiet
  have chronicle : Chronicle p (p.journal before) (p.steps before).2 :=
    (Quiet.start hs).chronicle before
  have whole : (p.steps (before ++ after)).2 = ((p.steps before).2.steps after).2 := by
    rw [steps_append]
  have since (ss : List Step) : (p.steps ss).2.health.since =
      Duration.ofMillis ((p.steps ss).2.now.toMillis - (latest (p.journal ss)).toMillis) := by
    rw [health, Liveness.status, Liveness.since, steps_liveness hs]
  obtain ⟨passed, last⟩ := chronicle.latest
  constructor
  case reported =>
    rintro age rfl
    rw [← since, health, Liveness.status, steps_liveness hs]
  case exact =>
    intro latest now
    rw [since, Liveness.Watch.floors_whole latest now]
  case shown =>
    have asked : (p.steps before).2.step .health =
        (⟨.health (p.steps before).2.health, []⟩, (p.steps before).2) :=
      step_of_act rfl quiet
    rw [steps_at, asked]
  case told => exact fun s e event => during_delivery event p before
  case last => exact ⟨latest_mem _, last, passed⟩
  case aging =>
    intro none_resolved
    have later := (quiet.chronicle after).later
    have same : latest (p.journal (before ++ after)) = latest (p.journal before) := by
      rw [journal_split, latest_append none_resolved]
    rw [since, since, same, whole, Duration.ofMillis, Duration.ofMillis, Duration.ofMillis,
      ← Nat.add_mul]
    have early := Liveness.Watch.toMillis_mono passed
    have late := Liveness.Watch.toMillis_mono later
    congr 1
    omega
  case kept =>
    have recorded : Recorded (p.steps before).2 _ _ := steps_recorded (p.steps before).2 after
    rw [whole, recorded]
    exact Liveness.le_recordAll _ _

def agingRun : List Step :=
  [tickRequest "a" "1" 0, .advance Duration.second, tickDelivery, tickRequest "b" "2" 1,
    .advance (2 * Duration.minute)]

def failingRun : List Step :=
  [tickRequest "c" "3" 2, .deliver strayTick, .shutdown, .advance (200 * Duration.second)]

theorem freshness_aging : Freshness {} alone agingRun failingRun := by
  have started : start {} alone.collaborators = .ok alone := rfl
  exact health_follows_deliveries started agingRun failingRun

example : (alone.steps agingRun).2.health = ⟨true, 2 * Duration.minute, 5 * Duration.minute⟩ ∧
    (alone.steps (agingRun ++ failingRun)).2.health =
      ⟨false, 320 * Duration.second, 5 * Duration.minute⟩ := by
  decide +kernel

end Prober

end RoundTrip
