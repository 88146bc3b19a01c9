import RoundTrip.Proofs.Prober.Reached

namespace RoundTrip

def Mark.ending? : Mark → Option (Duration × Ticket × Verdict)
  | .ended now t v => some (now, t, v)
  | _ => none

def Journal.endings (j : List Mark) : List (Duration × Ticket × Verdict) :=
  j.filterMap Mark.ending?

@[simp] theorem Journal.endings_append (j k : List Mark) :
    endings (j ++ k) = endings j ++ endings k :=
  List.filterMap_append

namespace Prober

open Journal

variable {p q : Prober} {s : Step}

theorem grounding_release {f g : Flight} (apart : g.registration ≠ f.registration) :
    (p.release f).grounding g = p.grounding g := by
  have now : (p.release f).now = p.now := release_now p f
  have session : (p.release f).session = (p.leave f).session := rfl
  have finished :
      ((p.release f).session.waiter? g.registration).bind (p.release f).session.ending? =
        (p.session.waiter? g.registration).bind p.session.ending? := by
    rw [session, leave]
    cases found : p.session.waiter? f.registration with
    | none => rfl
    | some w =>
      have number : w.registration = f.registration := by simpa using List.find?_some found
      have kept : (p.session.leave w).waiter? g.registration =
          p.session.waiter? g.registration := by
        rw [Pending.Session.waiter?, Pending.Session.leave, List.find?_filter]
        refine congrArg (List.find? · p.session.waiters) (funext fun v => ?_)
        by_cases own : v.registration = g.registration <;> simp [own, number, apart]
      simp only [kept]
      rfl
  rw [grounding, grounding, finished, now]

theorem groundAll_marks {fs : List Flight}
    (distinct : fs.Pairwise fun f g => f.registration ≠ g.registration) :
    (p.groundAll fs).1 = fs.map fun f => .ended p.now f.toTicket (p.grounding f) := by
  induction fs generalizing p with
  | nil => rfl
  | cons f rest ih =>
    rw [List.pairwise_cons] at distinct
    have later := ih (p := p.release f) distinct.2
    rw [groundAll, List.map_cons]
    simp only [abandon, later, release_now, List.singleton_append, List.cons.injEq, true_and]
    apply List.map_congr_left
    intro g hg
    rw [grounding_release (distinct.1 g hg).symm]

theorem Sound.settle_endings (h : p.Sound) (down : p.shutDown = true) :
    endings p.settle.1 = p.flights.map fun f => (p.now, f.toTicket, p.grounding f) := by
  have retired : endings p.grounded.retire.1 = [] := by
    rw [retire]
    split <;> rfl
  have grounded := groundAll_marks (p := p) (h.flights_ordered.imp Nat.ne_of_lt)
  rw [settle_down down, endings_append, retired, List.append_nil, grounded, endings,
    List.filterMap_map]
  exact congrFun List.filterMap_eq_map p.flights

/-- No wait has ended, unless because the table was closed. -/
def Doomed (p : Prober) : Prop :=
  ∀ w ∈ p.session.waiters, ∀ outcome, p.session.ending? w = some outcome → outcome = .cancelled

theorem Doomed.grounding (h : Doomed p) (f : Flight) :
    p.grounding f = .error (.execution .shuttingDown) := by
  rw [Prober.grounding]
  cases finished : (p.session.waiter? f.registration).bind p.session.ending? with
  | none => rfl
  | some outcome =>
    obtain ⟨w, found, ends⟩ := Option.bind_eq_some_iff.1 finished
    obtain rfl := h w (List.mem_of_find?_eq_some found) outcome ends
    simp only
    split <;> rfl

theorem Doomed.settle (h : Doomed p) (sound : p.Sound) (down : p.shutDown = true) :
    endings p.settle.1 =
      p.tickets.map fun t => (p.now, t, .error (.execution .shuttingDown)) := by
  rw [sound.settle_endings down, tickets, List.map_map]
  apply List.map_congr_left
  intro f _
  rw [h.grounding]
  rfl

theorem Quiet.doomed (h : Quiet p) : Doomed p := by
  intro w hw outcome ends
  rw [h.resting w hw] at ends
  cases ends

theorem Doomed.close (h : Doomed p) (sound : p.Sound) : Doomed p.close.2 := by
  rw [Prober.close, sound.session.close_eq]
  intro w hw outcome ends
  obtain ⟨v, hv, rfl⟩ := List.mem_map.1 hw
  split at ends
  next held =>
    rw [Pending.Session.ending?] at ends
    split at ends
    next => cases ends
    next => exact (Option.some.inj ends).symm
  next => exact h v hv outcome ends

inductive Fires (p : Prober) : Step → Prop
  | signal : Fires p .signalShutdown
  | shutdown : Fires p .shutdown
  | stopped : p.maintained = true → Fires p .stopRun
  | late : p.shutDown = true → Fires p .run

theorem Fires.act (h : Fires p s) :
    p.act s = (.none, p.signalShutdown) ∨ p.act s = (.none, p.shutdown) := by
  cases h with
  | signal => exact .inl rfl
  | shutdown => exact .inr rfl
  | stopped attended => exact .inr (by rw [Prober.act, if_pos attended])
  | late down => exact .inr (by rw [Prober.act, run, if_pos down])

theorem close_now (p : Prober) : p.close.2.now = p.now := Pending.Session.signalAll_now _ _ _

theorem close_table (p : Prober) : p.close.2.session.table = p.session.table.close :=
  Pending.Session.signalAll_table _ _ _

theorem close_sweeper (p : Prober) : p.close.2.session.sweeper = p.session.sweeper :=
  Pending.Session.signalAll_sweeper _ _ _

theorem Quiet.signalled_doomed (h : Quiet p) : Doomed p.signalShutdown.2 := h.doomed

theorem Quiet.fired (h : Quiet p) (fires : Fires p s) : ShutDown (p.perform s).2.1 ∧
    endings (p.perform s).2.1 =
      p.tickets.map fun t => (p.now, t, .error (.execution .shuttingDown)) := by
  obtain ⟨(_ : Course True p _ _), ready⟩ := h.toReady.signalShutdown
  rcases fires.act with acted | acted <;> rw [Prober.perform, acted]
  · have settled := h.signalled_doomed.settle ready.sound rfl
    exact ⟨⟨_, List.mem_cons_self, rfl⟩, settled⟩
  · have doomed := h.signalled_doomed.close ready.sound
    have settled := doomed.settle ready.close.sound rfl
    rw [show p.signalShutdown.2.close.2.now = p.now from close_now _] at settled
    exact ⟨⟨_, List.mem_cons_self, rfl⟩, settled⟩

theorem unsignalled : Closed fun _ marks _ => ¬ ShutDown marks := by
  constructor
  case composes =>
    refine ⟨fun _ => by simp [ShutDown], fun first second => ?_⟩
    rw [shutDown_append]
    exact not_or_intro first second
  case session | flights | unattended => exact fun _ _ => by simp [ShutDown]
  case note =>
    rintro p m note ⟨m', here, fired⟩
    obtain rfl := List.mem_singleton.1 here
    cases m' <;> cases fired
    cases note
  case deliver => exact fun p e byCollaborator => by simp [ShutDown, delivery, Mark.isShutDown]

theorem perform_unsignalled (spared : ¬ Fires p s) : ¬ ShutDown (p.perform s).2.1 := by
  have marks : (p.perform s).2.1 = (p.act s).2.1 ++ (p.act s).2.2.settle.1 := rfl
  rw [marks, shutDown_append]
  refine not_or_intro ?_ (unsignalled.settle _)
  cases control : s.isControl with
  | false =>
    refine unsignalled.act s ?control ?calls ?enters p
    case control =>
      rw [control]
      nofun
    case calls | enters =>
      intros
      simp [ShutDown, Mark.isShutDown]
  | true =>
    cases s with
    | shutdown => exact absurd .shutdown spared
    | signalShutdown => exact absurd .signal spared
    | stopRun =>
      have unattended : ¬ p.maintained = true := fun attended => spared (.stopped attended)
      rw [act, if_neg unattended]
      simp [ShutDown]
    | run =>
      have up : ¬ p.shutDown = true := fun down => spared (.late down)
      have same : p.act .run = (.none, p.maintain.wake) := by
        rw [act, run_up (Bool.not_eq_true _ ▸ up)]
      rw [same]
      exact unsignalled.wake p.maintain
    | _ => cases control

theorem Quiet.ended_signalled (h : Quiet p) {u v : List Mark} {now : Duration} {t : Ticket}
    {verdict : Verdict} (marks : (p.perform s).2.1 = u ++ .ended now t verdict :: v)
    (down : ShutDown u) : verdict = .error (.execution .shuttingDown) := by
  by_cases fires : Fires p s
  · have ended := (h.fired fires).2
    have among : (now, t, verdict) ∈ endings (p.perform s).2.1 := by
      rw [marks, endings_append]
      exact List.mem_append_right _ List.mem_cons_self
    rw [ended] at among
    obtain ⟨_, -, same⟩ := List.mem_map.1 among
    exact (congrArg (fun x => x.2.2) same).symm
  · refine absurd ?_ (perform_unsignalled fires)
    rw [marks, shutDown_append]
    exact .inl down

end Prober

end RoundTrip
