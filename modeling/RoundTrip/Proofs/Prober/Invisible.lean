import RoundTrip.Proofs.Prober.Reached
import RoundTrip.Proofs.Prober.Renumber

namespace RoundTrip

namespace Prober

open Journal

variable {config : Config} {collaborators : Collaborators} {past : List Mark} {p : Prober}
  {r : ProbeRequest} {s : Step}

def skipped (p : Prober) : Prober :=
  { p with session := { p.session with table := p.session.table.skip } }

theorem Sound.flight_below (h : p.Sound) {f : Flight} (hf : f ∈ p.flights) :
    f.registration < p.session.table.next := by
  obtain ⟨w, hw, seat⟩ := h.waiter_of_flight hf
  have number : w.registration = f.registration := congrArg (fun s => s.entry.registration) seat
  rw [← number]
  exact h.session.below w hw

theorem Sound.renumber_gap (h : p.Sound) :
    p.renumber (gap p.session.table.next) = p.skipped := by
  have flights : p.flights.map (Flight.renumber (gap p.session.table.next)) = p.flights := by
    refine Eq.trans (List.map_congr_left fun f hf => ?_) (List.map_id _)
    rw [Flight.renumber, Ticket.renumber, gap_below (h.flight_below hf)]
    rfl
  have session : p.session.renumber (gap p.session.table.next) =
      p.session.numbered (gap p.session.table.next p.session.table.next) :=
    h.session.renumber_fixed fun _ => gap_below
  have next : gap p.session.table.next p.session.table.next = p.session.table.next + 1 :=
    if_neg (Nat.lt_irrefl _)
  rw [renumber, flights, session, next]
  rfl

theorem Quiet.skipped (h : Quiet p) : Quiet p.skipped :=
  ⟨⟨⟨h.sound.session.skip, h.sound.seats, h.sound.timely⟩, h.sweeper, h.flights⟩, h.calm,
    h.resting⟩

theorem perform_of_act {answer : Answer} {marks : List Mark} {q : Prober}
    (acted : p.act s = (answer, marks, q)) (quiet : Quiet q) :
    p.perform s = (answer, marks, q) := by
  rw [perform, acted]
  simp only [quiet.settle, List.append_nil]

theorem step_of_act {answer : Answer} {marks : List Mark} {q : Prober}
    (acted : p.act s = (answer, marks, q)) (quiet : Quiet q) :
    p.step s = (⟨answer, marks.filterMap Mark.happening?⟩, q) := by
  rw [step, perform_of_act acted quiet]

theorem refuse_eq (p : Prober) (error : ExecutionError) :
    { p with session := p.session.refuse error } = p ∨
      { p with session := p.session.refuse error } = p.skipped := by
  cases error with
  | timeout => exact .inl rfl
  | collision | shuttingDown => exact .inr rfl

theorem Quiet.refuse (h : Quiet p) (error : ExecutionError) :
    Quiet { p with session := p.session.refuse error } := by
  cases error with
  | timeout => exact h
  | collision | shuttingDown => exact h.skipped

theorem register_refused {key : Key} {deadline : Duration} {error : ExecutionError}
    (refused : p.session.table.refusal? p.session.now key deadline = some error) (name : String)
    (surface : Surface) (nonce : Nonce) (effect : Option Effect) :
    p.register name surface key deadline nonce effect =
      ([.refused p.now name surface (.execution error)],
        { p with session := p.session.refuse error }) := by
  rw [register, Pending.Session.register, refused]

theorem enter_down (sound : p.Sound) (calm : p.Calm) (down : p.shutDown = true)
    {session : Pending.Session} {t : Ticket}
    (registered : p.session.register t.name t.key t.deadline = .ok session)
    (number : t.registration = p.session.table.next) {nonce : Nonce}
    (unlucky : nonce.callFirst = false) (effect : Option Effect) :
    p.enter session t nonce effect =
      ([.registered p.now t, .ended p.now t (.error (.execution .shuttingDown))], p.skipped) := by
  have flights := (calm down).1
  have waiters := sound.waiters_nil flights
  have entries : p.session.table.entries = [] := by
    rw [sound.session.entries, waiters]
    rfl
  obtain ⟨-, -, -, rfl⟩ := Pending.Session.register_ok registered
  let session : Pending.Session := { p.session with
    table := p.session.table.insert t.key t.deadline
    waiters := p.session.waiters ++
      [⟨t.name, t.key, p.session.table.next, t.deadline, .empty, false⟩] }
  let f : Flight := ⟨t, nonce, .registered⟩
  let p₁ : Prober := { p with session, flights := p.flights ++ [f] }
  have released : p₁.release f = p.skipped := by
    simp [p₁, f, session, release, leave, dropFlight, Pending.Session.waiter?,
      Pending.Session.leave, Pending.Table.removeOwn, Pending.Table.insert, Pending.Table.skip,
      skipped, flights, waiters, entries, number]
  have launched : p₁.launch f effect =
      ([.ended p.now t (.error (.execution .shuttingDown))], p₁.release f) := by
    rw [launch.eq_def]
    simp only [p₁, f, down, unlucky, Bool.not_true, Bool.false_eq_true, if_false]
    rfl
  rw [released] at launched
  rw [enter, launched]

theorem Reached.probe_refused (h : Reached config collaborators past p)
    (refused : Refused config past r) :
    ∃ marks q, p.probe r.name r.surface r.event r.nonce = (marks, q) ∧
      (∀ happening ∈ marks.filterMap Mark.happening?, ∃ error,
        happening = .ended p.now r.name (r.surface.reply (.error error))) ∧
        (q = p ∨ q = p.skipped) := by
  have answer {error : ProbeError} {happening : Happening}
      (here : happening ∈ [Happening.ended p.now r.name (r.surface.reply (.error error))]) :
      ∃ error, happening = .ended p.now r.name (r.surface.reply (.error error)) :=
    ⟨error, List.mem_singleton.1 here⟩
  rw [probe]
  split
  next error _ => exact ⟨_, _, rfl, fun _ => answer, .inl rfl⟩
  next _ => exact ⟨_, _, rfl, fun _ none => (List.not_mem_nil none).elim, .inl rfl⟩
  next a admitted =>
    rw [register]
    split
    next error _ => exact ⟨_, _, rfl, fun _ => answer, refuse_eq p error⟩
    next session registered =>
      obtain ⟨ahead, opened, free, -⟩ := Pending.Session.register_ok registered
      rw [h.equipped.config] at admitted
      rcases refused a admitted with zero | shut | ⟨down, unlucky⟩ | taken
      · rw [zero, Nat.add_zero] at ahead
        exact absurd ahead (Nat.lt_irrefl _)
      · rw [h.sealed_iff.2 shut] at opened
        cases opened
      · have down := h.account.down.2 down
        rw [enter_down h.quiet.sound h.quiet.calm down registered rfl unlucky]
        exact ⟨_, _, rfl, fun _ => answer, .inr rfl⟩
      · rw [(h.contains_iff a.key).2 taken] at free
        cases free

theorem Reached.step_refused (h : Reached config collaborators past p)
    (request : s.request? = some r) (refused : Refused config past r) :
    ∃ shown q, p.step s = (shown, q) ∧
      (∀ happening ∈ shown.happenings, ∃ error,
        happening = .ended p.now r.name (r.surface.reply (.error error))) ∧
      (q = p ∨ q = p.skipped) := by
  obtain ⟨marks, q, probed, shown, same⟩ := h.probe_refused refused
  have acted : p.act s = (.none, marks, q) := by rw [act_request request, probed]
  have quiet : Quiet q := by
    rcases same with rfl | rfl
    · exact h.quiet
    · exact h.quiet.skipped
  exact ⟨_, q, step_of_act acted quiet, shown, same⟩

theorem deliver_unmatched {e : Event} (unmatched : (p.deliver e).1 = false) :
    (p.deliver e).2 = p := by
  rw [deliver] at unmatched ⊢
  split
  next => rfl
  next key hkey =>
    simp only [hkey] at unmatched
    have nothing : p.session.resolve key = (false, p.session) := by
      rw [Pending.Session.resolve, Pending.Session.take] at unmatched ⊢
      split
      next => rfl
      next found => simp [found] at unmatched
    simp only [nothing]
    rfl

theorem Reached.step_unmatched (h : Reached config collaborators past p) {e : Event}
    (event : s.event? = some e) (unmatched : (p.deliver e).1 = false) :
    ∃ answer, p.step s = (⟨answer, []⟩, p) := by
  have acted : p.act s = ((p.act s).1, [p.delivery e false], p) := by
    rw [← Prod.eta (p.act s), act_delivery event, deliver_unmatched unmatched]
  exact ⟨_, step_of_act acted h.quiet⟩

theorem deliverAll_append (p : Prober) (es ds : List Event) :
    p.deliverAll (es ++ ds) = ((p.deliverAll es).1 ++ ((p.deliverAll es).2.deliverAll ds).1,
      ((p.deliverAll es).2.deliverAll ds).2) := by
  induction es generalizing p with
  | nil => rfl
  | cons e es ih =>
    have first : p.deliverAll (e :: es ++ ds) = (p.delivery e true ::
        ((p.deliver e).2.deliverAll (es ++ ds)).1, ((p.deliver e).2.deliverAll (es ++ ds)).2) := rfl
    rw [first, ih]
    rfl

theorem deliverAll_length (p : Prober) (es : List Event) :
    (p.deliverAll es).1.length = es.length := by
  induction es generalizing p with
  | nil => rfl
  | cons e es ih => exact congrArg (· + 1) (ih _)

theorem answer_unmatched {f : Flight} {effect : Effect} {conduct : Conduct}
    {earlier later : List Event} {e : Event}
    (delivers : conduct.deliveries p.topics effect = earlier ++ e :: later)
    (unmatched : ((p.deliverAll earlier).2.deliver e).1 = false) :
    p.answer f effect { conduct with deliveries := fun _ _ => earlier ++ later } =
      ((p.answer f effect conduct).1.eraseIdx earlier.length, (p.answer f effect conduct).2) := by
  let q := (p.deliverAll earlier).2
  have whole : p.deliverAll (earlier ++ e :: later) =
      ((p.deliverAll earlier).1 ++ q.delivery e true :: (q.deliverAll later).1,
        (q.deliverAll later).2) := by
    have first : q.deliverAll (e :: later) = (q.delivery e true ::
        ((q.deliver e).2.deliverAll later).1, ((q.deliver e).2.deliverAll later).2) := rfl
    rw [deliverAll_append, first, deliver_unmatched unmatched]
  have without (marks : List Mark) :
      ((p.deliverAll earlier).1 ++ q.delivery e true :: marks).eraseIdx earlier.length =
        (p.deliverAll earlier).1 ++ marks := by
    rw [← deliverAll_length p earlier, List.eraseIdx_append_of_length_le (Nat.le_refl _),
      Nat.sub_self, List.eraseIdx_cons_zero]
  rw [answer, answer, delivers]
  simp only [whole, deliverAll_append p earlier later]
  cases conduct.failure with
  | none =>
    simp only [List.append_assoc, List.cons_append, without]
    rfl
  | some error =>
    simp only [List.append_assoc, List.cons_append, without]
    rfl

theorem steps_renumber {ρ : Nat → Nat} (inj : Function.Injective ρ) (quiet : Quiet p)
    (fresh : ∀ n, p.session.table.next ≤ n → ρ (n + 1) = ρ n + 1) (ss : List Step) :
    (p.renumber ρ).steps ss = ((p.steps ss).1, (p.steps ss).2.renumber ρ) := by
  induction ss generalizing p with
  | nil => rfl
  | cons s rest ih =>
    obtain ⟨(course : Course True p _ _), later⟩ := quiet.perform (s := s) fun _ _ => trivial
    have grown : p.session.table.next ≤ (p.step s).2.session.table.next :=
      course.next_le quiet.sound
    have rest := ih later fun n hn => fresh n (Nat.le_trans grown hn)
    rw [steps, steps, step_renumber inj (fresh _ (Nat.le_refl _))]
    exact congrArg (fun out : List Shown × Prober => ((p.step s).1 :: out.1, out.2)) rest

theorem Quiet.steps_skipped (quiet : Quiet p) (ss : List Step) :
    (p.skipped.steps ss).1 = (p.steps ss).1 ∧
      (p.skipped.steps ss).2.health = (p.steps ss).2.health := by
  have same := steps_renumber (gap_injective p.session.table.next) quiet
    (fun _ above => gap_succ above) ss
  rw [quiet.sound.renumber_gap] at same
  rw [same]
  exact ⟨rfl, rfl⟩

/-- The step after `before` is a request that is refused or a delivery that matches nothing. -/
inductive Unnoticed (config : Config) (p : Prober) (before : List Step) (s : Step) : Prop
  | refused {r : ProbeRequest} :
      s.request? = some r → Refused config (p.journal before) r → Unnoticed config p before s
  | unmatched {e : Event} :
      s.event? = some e → ((p.steps before).2.deliver e).1 = false → Unnoticed config p before s

/-- The run `before ++ s :: after` without the step `s`. -/
structure Invisible (p : Prober) (before : List Step) (s : Step) (after : List Step) : Prop where
  others : (p.steps (before ++ after)).1 = (p.steps (before ++ s :: after)).1.eraseIdx before.length
  /-- The step itself shows nothing but its own result. -/
  own : ∃ shown, (p.steps (before ++ s :: after)).1[before.length]? = some shown ∧
    ∀ happening ∈ shown.happenings, ∃ r now reply, s.request? = some r ∧
      happening = .ended now r.name reply
  health : (p.steps (before ++ after)).2.health = (p.steps (before ++ s :: after)).2.health

theorem Invisible.of_step {before after : List Step} {shown : Shown} {q : Prober}
    (quiet : Quiet (p.steps before).2) (step : (p.steps before).2.step s = (shown, q))
    (same : q = (p.steps before).2 ∨ q = (p.steps before).2.skipped)
    (own : ∀ happening ∈ shown.happenings, ∃ r now reply, s.request? = some r ∧
      happening = .ended now r.name reply) : Invisible p before s after := by
  have later : (q.steps after).1 = ((p.steps before).2.steps after).1 ∧
      (q.steps after).2.health = ((p.steps before).2.steps after).2.health := by
    rcases same with rfl | rfl
    · exact ⟨rfl, rfl⟩
    · exact quiet.steps_skipped after
  have split : (p.steps before).2.steps (s :: after) =
      (shown :: (q.steps after).1, (q.steps after).2) := by
    rw [steps, step]
  have length := steps_length p before
  constructor
  case others =>
    rw [steps_append, steps_append, split, later.1, ← length,
      List.eraseIdx_append_of_length_le (Nat.le_refl _), Nat.sub_self, List.eraseIdx_cons_zero]
  case own =>
    refine ⟨shown, ?_, own⟩
    rw [steps_append, split, ← length, List.getElem?_append_right (Nat.le_refl _), Nat.sub_self]
    rfl
  case health => rw [steps_append, steps_append, split, later.2]

/-- A run without a refused request or an unmatched delivery is the same run. If a collaborator
makes the delivery, its answer without it leaves the same prober. -/
theorem unnoticed_invisible (hs : start config collaborators = .ok p) :
    (∀ before s after, Unnoticed config p before s → Invisible p before s after) ∧
      ∀ (q : Prober) f effect conduct earlier e later,
        conduct.deliveries q.topics effect = earlier ++ e :: later →
          ((q.deliverAll earlier).2.deliver e).1 = false →
            q.answer f effect { conduct with deliveries := fun _ _ => earlier ++ later } =
              ((q.answer f effect conduct).1.eraseIdx earlier.length,
                (q.answer f effect conduct).2) := by
  constructor
  · intro before s after unnoticed
    have reached : Reached config collaborators (p.journal before) (p.steps before).2 :=
      (Reached.start hs).steps before
    cases unnoticed with
    | refused request refused =>
      obtain ⟨shown, q, stepped, own, same⟩ := reached.step_refused request refused
      refine .of_step reached.quiet stepped same ?_
      intro happening here
      obtain ⟨error, ended⟩ := own happening here
      exact ⟨_, _, _, request, ended⟩
    | unmatched event unmatched =>
      obtain ⟨answer, stepped⟩ := reached.step_unmatched event unmatched
      refine .of_step reached.quiet stepped (.inl rfl) ?_
      intro happening here
      cases here
  · intro q f effect conduct earlier e later delivers unmatched
    exact answer_unmatched delivers unmatched

def tickRequest (name id : String) (nonce : Nonce) : Step :=
  .probe name (.bare id Kind.scheduler.name "caller") nonce

def tickDelivery : Step := .deliver (.bare "9" (Delivered.Report.name .executed) "cluster")

def strayTick : Event := .bare "9" (Delivered.Report.name .tick) "cluster"

def straying : Conduct := { deliveries := fun _ _ => [strayTick] }

def tickFlight : Flight := ⟨⟨"a", .direct, .scheduler, 0, 2 * Duration.minute, 0⟩, 0, .waiting⟩

/-- A request for a key that another one still waits for, a tick that nobody waits for, and the same
tick delivered by a collaborator. -/
theorem collision_invisible :
    Invisible alone [tickRequest "a" "1" 0] (tickRequest "b" "2" 1)
        [.advance (2 * Duration.minute), tickRequest "c" "3" 2] ∧
      Invisible alone [tickRequest "a" "1" 0] (.deliver strayTick)
        [.health, .advance (2 * Duration.minute)] ∧
        alone.answer tickFlight (.createTopic "t") { straying with deliveries := fun _ _ => [] } =
          ((alone.answer tickFlight (.createTopic "t") straying).1.eraseIdx 0,
            (alone.answer tickFlight (.createTopic "t") straying).2) := by
  have started : start {} alone.collaborators = .ok alone := rfl
  obtain ⟨invisible, answers⟩ := unnoticed_invisible started
  have refused : Unnoticed {} alone [tickRequest "a" "1" 0] (tickRequest "b" "2" 1) := by
    refine .refused rfl ?_
    intro a admitted
    cases admitted
    right
    right
    right
    exact ⟨tickFlight.toTicket, by decide +kernel, rfl⟩
  have unmatched : Unnoticed {} alone [tickRequest "a" "1" 0] (.deliver strayTick) :=
    .unmatched rfl (by decide +kernel)
  refine ⟨invisible _ _ _ refused, invisible _ _ _ unmatched, ?_⟩
  exact answers alone tickFlight (.createTopic "t") straying [] strayTick [] rfl (by decide +kernel)

end Prober

end RoundTrip
