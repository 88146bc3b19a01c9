import RoundTrip.Proofs.Pending.Rest
import RoundTrip.Proofs.Prober.Course

/-!
A prober at rest: every timer is ahead, and nobody who waits has anything to wait for any more. A
step may disturb it, but what is due at the present instant happens before the step is over.
-/

namespace RoundTrip

def Flight.Ahead (now : Duration) (f : Flight) : Prop :=
  match f.phase with
  | .registered => False
  | .calling _ _ due => now < f.deadline.tick ∧ ∀ d ∈ due, now < d
  | .waiting => True

def Flight.Answers (now : Duration) (f : Flight) : Prop :=
  ∃ effect conduct due, f.phase = .calling effect conduct (some due) ∧ due ≤ now ∧
    (now < f.deadline.tick ∨ f.nonce.answerFirst = true)

def Flight.Overruns (now : Duration) (f : Flight) : Prop :=
  ∃ effect conduct due, f.phase = .calling effect conduct due ∧ f.deadline.tick ≤ now

namespace Prober

/-- Nothing is due, unless a wait can end. -/
structure Ready (p : Prober) : Prop where
  sound : p.Sound
  sweeper : ∀ w ∈ p.session.sweeper,
    Duration.millisecond ≤ w.period ∧ p.now < w.next.tick
  flights : ∀ f ∈ p.flights, f.Ahead p.now

structure Quiet (p : Prober) : Prop extends Ready p where
  calm : p.Calm
  resting : ∀ w ∈ p.session.waiters, p.session.ending? w = none

/-- Whatever is due is due at the present instant. -/
structure Due (p : Prober) : Prop where
  sound : p.Sound
  calm : p.Calm
  sweeper : ∀ w ∈ p.session.sweeper,
    Duration.millisecond ≤ w.period ∧ p.now ≤ w.next.tick
  launched : ∀ f ∈ p.flights, f.phase ≠ .registered

/-- Nothing is due but answers, the end of calls at their deadline and waits that can end. -/
structure Primed (p : Prober) : Prop where
  sound : p.Sound
  calm : p.Calm
  sweeper : ∀ w ∈ p.session.sweeper,
    Duration.millisecond ≤ w.period ∧ p.now < w.next.tick
  launched : ∀ f ∈ p.flights, f.phase ≠ .registered

def endCalls (p : Prober) : List Mark × Prober :=
  let (answered, p) := p.answerDue p.flights
  let (brokenOff, p) := p.breakOff p.flights
  (answered ++ brokenOff, p)

def endAll (p : Prober) : List Mark × Prober :=
  (p.endCalls.1 ++ p.endCalls.2.settle.1, p.endCalls.2.settle.2)

variable {byHand : Prop} {p : Prober}

theorem land_session (p : Prober) (es : List Pending.Ending) :
    (p.land es).2.session = p.session := by
  induction es generalizing p with
  | nil => rfl
  | cons e rest ih =>
    rw [land]
    split
    · exact ih p
    · exact ih _

theorem land_flights (p : Prober) (es : List Pending.Ending) :
    (p.land es).2.flights ⊆ p.flights := by
  induction es generalizing p with
  | nil => exact List.Subset.refl _
  | cons e rest ih =>
    rw [land]
    split
    · exact ih p
    · exact List.Subset.trans (ih _) (List.filter_subset_self _)

theorem Ready.session (h : Ready p) : Pending.Session.Ready p.session :=
  ⟨h.sound.session, h.sweeper⟩

theorem Quiet.session (h : Quiet p) : Pending.Session.Quiet p.session :=
  ⟨h.toReady.session, h.resting⟩

theorem Ready.moves {q : Prober} {marks : List Mark} (h : Ready p) (m : Moves p marks q)
    (flights : q.flights ⊆ p.flights) : Ready q := by
  have frame := m.frame h.sound
  constructor
  case sound => exact m.sound h.sound
  case sweeper => rw [frame.sweeper, frame.now]; exact h.sweeper
  case flights =>
    intro f hf
    rw [frame.now]
    exact h.flights f (flights hf)

theorem Ready.close (h : Ready p) : Ready p.close.2 := by
  refine ⟨h.sound.close, ?_, ?_⟩
  all_goals rw [Prober.close, h.sound.session.close_eq]
  · exact h.sweeper
  · exact h.flights

theorem mem_of_release {f g : Flight} (hg : g ∈ (p.release f).flights) :
    g ∈ p.flights ∧ g.registration ≠ f.registration := by
  rw [release_flights] at hg
  obtain ⟨old, apart⟩ := List.mem_filter.1 hg
  exact ⟨old, by simpa using apart⟩

theorem mem_of_groundAll {fs : List Flight} {g : Flight}
    (hg : g ∈ (p.groundAll fs).2.flights) :
    g ∈ p.flights ∧ ∀ f ∈ fs, g.registration ≠ f.registration := by
  induction fs generalizing p with
  | nil => exact ⟨hg, fun f hf => by cases hf⟩
  | cons f rest ih =>
    obtain ⟨kept, apart⟩ := ih hg
    obtain ⟨old, apart'⟩ := mem_of_release kept
    refine ⟨old, ?_⟩
    intro f' hf'
    rcases List.mem_cons.1 hf' with rfl | hf'
    · exact apart'
    · exact apart f' hf'

theorem grounded_flights (p : Prober) : p.grounded.flights = [] := by
  rw [List.eq_nil_iff_forall_not_mem]
  intro g hg
  obtain ⟨old, apart⟩ := mem_of_groundAll hg
  exact apart g old rfl

theorem Ready.grounded (h : Ready p) (down : p.shutDown = true) : Ready p.grounded := by
  refine h.moves (h.sound.grounded_moves down) ?_
  rw [grounded_flights]
  exact List.nil_subset _

theorem Ready.calmed (h : Ready p) (empty : p.flights = []) (unattended : p.maintained = false) :
    Quiet p := by
  refine ⟨h, fun _ => ⟨empty, unattended⟩, ?_⟩
  rw [h.sound.waiters_nil empty]
  nofun

theorem Ready.settle (h : Ready p) : Quiet p.settle.2 := by
  cases down : p.shutDown with
  | true =>
    have ready := h.grounded down
    have empty := p.grounded_flights
    cases attended : p.maintained with
    | true =>
      rw [settle_maintained down attended]
      exact ready.close.calmed empty rfl
    | false =>
      rw [settle_unmaintained down attended]
      exact ready.calmed empty (p.grounded_maintained.trans attended)
  | false =>
    have moves := h.sound.settle_moves down
    have frame := moves.frame h.sound
    have eq : p.settle = p.landEach p.session.waiters := settle_up down
    have flights : p.settle.2.flights ⊆ p.flights := by
      rw [eq]
      exact land_flights { p with session := p.session.finish.2 } _
    refine ⟨h.moves moves flights, ?calm, ?resting⟩
    case calm =>
      intro late
      rw [frame.shutDown, down] at late
      cases late
    case resting =>
      have session : p.settle.2.session = p.session.finish.2 := by
        rw [eq]
        exact land_session _ _
      rw [session]
      exact h.session.finish.resting

theorem mem_of_beginWait {f g : Flight} (hg : g ∈ (p.beginWait f).flights) :
    g.registration = f.registration ∧ g.phase = .waiting ∨
      g ∈ p.flights ∧ g.registration ≠ f.registration := by
  obtain ⟨g₀, hg₀, rfl⟩ := List.mem_map.1 hg
  split
  next own => exact .inl ⟨own, rfl⟩
  next apart => exact .inr ⟨hg₀, apart⟩

theorem mem_of_answer {f g : Flight} {effect : Effect} {conduct : Conduct}
    (hg : g ∈ (p.answer f effect conduct).2.flights) :
    g.registration = f.registration ∧ g.phase = .waiting ∨
      g ∈ p.flights ∧ g.registration ≠ f.registration := by
  have kept := deliverAll_flights p (conduct.deliveries p.topics effect)
  rw [answer] at hg
  cases hc : conduct.failure with
  | none =>
    rw [hc] at hg
    rw [← kept]
    exact mem_of_beginWait hg
  | some error =>
    rw [hc] at hg
    rw [← kept]
    exact .inr (mem_of_release hg)

theorem deliver_now (p : Prober) (e : Event) : (p.deliver e).2.now = p.now := by
  rw [deliver]
  split
  next => rfl
  next key _ =>
    simp only [now, Pending.Session.resolve, Pending.Session.take]
    split <;> rfl

theorem deliverAll_now (p : Prober) (es : List Event) : (p.deliverAll es).2.now = p.now := by
  induction es generalizing p with
  | nil => rfl
  | cons e es ih => exact (ih _).trans (deliver_now p e)

theorem release_now (p : Prober) (f : Flight) : (p.release f).now = p.now := by
  rw [release, leave]
  split <;> rfl

theorem answer_now (p : Prober) (f : Flight) (effect : Effect) (conduct : Conduct) :
    (p.answer f effect conduct).2.now = p.now := by
  have delivered := deliverAll_now p (conduct.deliveries p.topics effect)
  rw [answer]
  cases conduct.failure with
  | none => exact delivered
  | some error => exact (release_now _ _).trans delivered

/-- A flight after all of `fs` that `due` holds of have been seen to: it waits, or it is none of
them. -/
def Spared (p : Prober) (due : Flight → Prop) (fs : List Flight) (g : Flight) : Prop :=
  g.phase = .waiting ∨ g ∈ p.flights ∧ ∀ f ∈ fs, due f → g.registration ≠ f.registration

theorem Spared.skip {due : Flight → Prop} {fs : List Flight} {f g : Flight}
    (h : Spared p due fs g) (early : ¬ due f) : Spared p due (f :: fs) g := by
  rcases h with waits | ⟨old, apart⟩
  · exact .inl waits
  · right
    refine ⟨old, ?_⟩
    intro f' hf'
    rcases List.mem_cons.1 hf' with rfl | hf'
    · intro hdue
      exact absurd hdue early
    · exact apart f' hf'

theorem Spared.see {p' : Prober} {due : Flight → Prop} {fs : List Flight} {f g : Flight}
    (h : Spared p' due fs g)
    (seen : g ∈ p'.flights → g.phase = .waiting ∨ g ∈ p.flights ∧ g.registration ≠ f.registration) :
    Spared p due (f :: fs) g := by
  rcases h with waits | ⟨kept, apart⟩
  · exact .inl waits
  rcases seen kept with waits | ⟨old, apart'⟩
  · exact .inl waits
  · right
    refine ⟨old, ?_⟩
    intro f' hf' hdue
    rcases List.mem_cons.1 hf' with rfl | hf'
    · exact apart'
    · exact apart f' hf' hdue

theorem mem_of_answerDue {now : Duration} (hnow : p.now = now) {fs : List Flight} {g : Flight}
    (hg : g ∈ (p.answerDue fs).2.flights) : Spared p (Flight.Answers now) fs g := by
  induction fs generalizing p with
  | nil => exact .inr ⟨hg, fun f hf => by cases hf⟩
  | cons f rest ih =>
    rw [answerDue.eq_def] at hg
    simp only at hg
    split at hg
    next effect conduct due hphase =>
      split at hg
      next =>
        exact (ih ((answer_now _ _ _ _).trans hnow) hg).see fun hg =>
          (mem_of_answer hg).imp_left And.right
      next early =>
        refine (ih hnow hg).skip ?_
        rintro ⟨_, _, due', hphase', hdue⟩
        rw [hphase] at hphase'
        cases hphase'
        exact early (hnow ▸ hdue)
    next never =>
      refine (ih hnow hg).skip ?_
      rintro ⟨effect, conduct, due, hphase, _⟩
      exact never effect conduct due hphase

theorem mem_of_breakOff {now : Duration} (hnow : p.now = now)
    {fs : List Flight} {g : Flight} (hg : g ∈ (p.breakOff fs).2.flights) :
    Spared p (Flight.Overruns now) fs g := by
  induction fs generalizing p with
  | nil => exact .inr ⟨hg, fun f hf => by cases hf⟩
  | cons f rest ih =>
    rw [breakOff.eq_def] at hg
    simp only at hg
    split at hg
    next effect conduct due hphase =>
      split at hg
      next =>
        have now' : (p.beginWait f).now = now := hnow
        exact (ih now' hg).see fun hg => (mem_of_beginWait hg).imp_left And.right
      next early =>
        refine (ih hnow hg).skip ?_
        rintro ⟨_, _, _, _, hdue⟩
        exact early (hnow ▸ hdue)
    next never =>
      refine (ih hnow hg).skip ?_
      rintro ⟨effect, conduct, due, hphase, _⟩
      exact never effect conduct due hphase

theorem spared_all {due : Flight → Prop} {g : Flight} (h : Spared p due p.flights g) :
    g.phase = .waiting ∨ g ∈ p.flights ∧ ¬ due g := by
  rcases h with waits | ⟨old, apart⟩
  · exact .inl waits
  · exact .inr ⟨old, fun hdue => apart g old hdue rfl⟩

theorem Due.runSweeper_course (h : Due p) :
    Course byHand p [] { p with session := p.session.runSweeper } := by
  rw [Pending.Session.runSweeper]
  split
  next => exact .refl p
  next w runs =>
    split
    next due =>
      have now : w.next.tick = p.now := Nat.le_antisymm due (h.sweeper w runs).2
      have whole : p.now.tick = p.now := by rw [← now, Duration.tick_tick]
      exact .move (.sweep whole)
        (Shift.rearm (some ⟨w.period, w.next + w.period⟩) p.maintained).course
    next => exact .refl p

theorem Due.runSweeper_ahead (h : Due p) : ∀ w ∈ p.session.runSweeper.sweeper,
    Duration.millisecond ≤ w.period ∧ p.now < w.next.tick := by
  have due : Pending.Session.Due p.session := ⟨h.sound.session, h.sweeper⟩
  have ahead := due.runSweeper.sweeper
  rwa [Pending.Session.runSweeper_now] at ahead

theorem Due.primed (h : Due p) : Primed { p with session := p.session.runSweeper } := by
  have swept : Course True p [] { p with session := p.session.runSweeper } := h.runSweeper_course
  have now : ({ p with session := p.session.runSweeper } : Prober).now = p.now :=
    Pending.Session.runSweeper_now p.session
  refine ⟨swept.sound h.sound, h.calm, ?_, h.launched⟩
  rw [now]
  exact h.runSweeper_ahead

theorem Primed.endCalls (h : Primed p) :
    Moves p p.endCalls.1 p.endCalls.2 ∧ Ready p.endCalls.2 := by
  let p₂ := (p.answerDue p.flights).2
  have answered : Moves p (p.answerDue p.flights).1 p₂ :=
    answerDue_moves (fun _ hf => hf) (h.sound.flights_ordered.imp Nat.ne_of_lt)
  have sound₂ : p₂.Sound := answered.sound h.sound
  have brokenOff : Moves p₂ (p₂.breakOff p₂.flights).1 p.endCalls.2 :=
    breakOff_moves (fun _ hf => hf) (sound₂.flights_ordered.imp Nat.ne_of_lt)
  have frame₂ := answered.frame h.sound
  have frame := frame₂.trans (brokenOff.frame sound₂)
  refine ⟨answered.trans brokenOff, ?_⟩
  -- Answers come before calls are broken off: what an answer leaves calling, the deadline still
  -- cuts off, and nothing is due any more but waits that can end.
  constructor
  case sound => exact brokenOff.sound sound₂
  case sweeper =>
    rw [frame.sweeper, frame.now]
    exact h.sweeper
  case flights =>
    intro g hg
    rw [frame.now, Flight.Ahead]
    rcases spared_all (mem_of_breakOff rfl hg) with waits | ⟨hg₂, inTime⟩
    · rw [waits]
      trivial
    rcases spared_all (mem_of_answerDue rfl hg₂) with waits | ⟨hg₁, early⟩
    · rw [waits]
      trivial
    split
    next unlaunched => exact h.launched g hg₁ unlaunched
    next effect conduct due hphase =>
      have ahead : p.now < g.deadline.tick := by
        rw [← frame₂.now]
        exact Nat.lt_of_not_le fun late => inTime ⟨effect, conduct, due, hphase, late⟩
      refine ⟨ahead, ?_⟩
      intro d hd
      obtain rfl := Option.mem_def.1 hd
      exact Nat.lt_of_not_le fun hle => early ⟨effect, conduct, d, hphase, hle, .inl ahead⟩
    next => trivial

theorem Primed.endAll (h : Primed p) : Moves p p.endAll.1 p.endAll.2 ∧ Quiet p.endAll.2 := by
  obtain ⟨ended, ready⟩ := h.endCalls
  have settled : Moves p.endCalls.2 p.endCalls.2.settle.1 p.endCalls.2.settle.2 := by
    cases down : p.endCalls.2.shutDown with
    | true =>
      rw [((ended.frame h.sound).calm h.calm).settle down]
      exact .refl _
    | false => exact ready.sound.settle_moves down
  exact ⟨ended.trans settled, ready.settle⟩

theorem wake_eq (p : Prober) :
    p.wake = ({ p with session := p.session.runSweeper } : Prober).endAll := rfl

theorem Due.wake (h : Due p) :
    Course byHand p p.wake.1 p.wake.2 ∧ Quiet p.wake.2 ∧ p.wake.2.now = p.now := by
  obtain ⟨moves, quiet⟩ := h.primed.endAll
  have woken : Course byHand p ([] ++ p.wake.1) p.wake.2 :=
    h.runSweeper_course.trans moves.course
  have now := (moves.frame h.primed.sound).now
  exact ⟨woken, quiet, now.trans (Pending.Session.runSweeper_now p.session)⟩

theorem Quiet.settle (h : Quiet p) : p.settle = ([], p) := by
  have each (ws : List Pending.Waiter) (resting : ∀ w ∈ ws, p.session.ending? w = none) :
      p.landEach ws = ([], p) := by
    induction ws with
    | nil => rfl
    | cons w rest ih =>
      rw [landEach_stays (resting w List.mem_cons_self)]
      exact ih fun v hv => resting v (List.mem_cons_of_mem _ hv)
  cases down : p.shutDown with
  | true => exact h.calm.settle down
  | false =>
    rw [settle_up down]
    exact each _ h.resting

theorem answerDue_ahead {fs : List Flight} (ahead : ∀ f ∈ fs, f.Ahead p.now) :
    p.answerDue fs = ([], p) := by
  induction fs with
  | nil => rfl
  | cons f rest ih =>
    have later := ih fun g hg => ahead g (List.mem_cons_of_mem _ hg)
    have first := ahead f List.mem_cons_self
    rw [Flight.Ahead] at first
    rw [answerDue.eq_def]
    simp only
    split
    next effect conduct due calls =>
      rw [calls] at first
      rw [if_neg fun answers => Nat.not_le_of_lt (first.2 due rfl) answers.1, later]
    next => exact later

theorem breakOff_ahead {fs : List Flight} (ahead : ∀ f ∈ fs, f.Ahead p.now) :
    p.breakOff fs = ([], p) := by
  induction fs with
  | nil => rfl
  | cons f rest ih =>
    have later := ih fun g hg => ahead g (List.mem_cons_of_mem _ hg)
    have first := ahead f List.mem_cons_self
    rw [Flight.Ahead] at first
    rw [breakOff.eq_def]
    simp only
    split
    next effect conduct due calls =>
      rw [calls] at first
      rw [if_neg (Nat.not_le_of_lt first.1), later]
    next => exact later

theorem Quiet.wake (h : Quiet p) : p.wake = ([], p) := by
  have early : p.session.runSweeper = p.session :=
    Pending.Session.runSweeper_early h.session.early
  have ended : p.endCalls = ([], p) := by
    rw [Prober.endCalls, answerDue_ahead h.flights]
    simp only [breakOff_ahead h.flights, List.append_nil]
  rw [wake_eq, early, Prober.endAll, ended]
  simp only [h.settle, List.append_nil]

theorem session_timer {d : Duration} (hd : d ∈ p.session.timers) : d ∈ machine.timers p :=
  List.mem_append_left _ hd

theorem flight_timer {f : Flight} (hf : f ∈ p.flights) {d : Duration} (hd : d ∈ f.timers) :
    d ∈ machine.timers p :=
  List.mem_append_right _ (List.mem_flatMap.2 ⟨f, hf, hd⟩)

theorem Quiet.flight_deadline (h : Quiet p) {f : Flight} (hf : f ∈ p.flights) :
    f.deadline.tick ∈ machine.timers p := by
  have ahead := h.flights f hf
  rw [Flight.Ahead] at ahead
  cases hphase : f.phase with
  | registered =>
    rw [hphase] at ahead
    cases ahead
  | calling effect conduct due =>
    apply flight_timer hf
    rw [Flight.timers, hphase]
    exact List.mem_cons_self
  | waiting =>
    obtain ⟨w, hw, hseat⟩ := h.sound.waiter_of_flight hf
    have waits : w.waiting = true := by
      have := congrArg Seat.waiting hseat
      rwa [Flight.seat, hphase] at this
    have deadline : w.deadline = f.deadline := congrArg (fun s => s.entry.deadline) hseat
    rw [← deadline]
    exact session_timer (Pending.Session.waiter_timer hw waits)

theorem Quiet.timers_ahead (h : Quiet p) : ∀ d ∈ machine.timers p, p.now < d := by
  intro d hd
  rcases List.mem_append.1 hd with hd | hd
  · exact h.session.timers_ahead d hd
  · obtain ⟨f, hf, hd⟩ := List.mem_flatMap.1 hd
    have ahead := h.flights f hf
    rw [Flight.Ahead] at ahead
    rw [Flight.timers] at hd
    split at hd
    next effect conduct due hphase =>
      rw [hphase] at ahead
      obtain ⟨deadline, answer⟩ := ahead
      rcases List.mem_cons.1 hd with rfl | hd
      · exact deadline
      · exact answer d (Option.mem_toList.1 hd)
    all_goals cases hd

theorem Quiet.launched (h : Quiet p) : ∀ f ∈ p.flights, f.phase ≠ .registered := by
  intro f hf hphase
  have ahead := h.flights f hf
  rw [Flight.Ahead, hphase] at ahead
  exact ahead

theorem Quiet.tick (h : Quiet p) {t : Duration} (later : p.now ≤ t)
    (due : ∀ d ∈ machine.timers p, t ≤ d) :
    Shift byHand p [] (machine.setNow t p) :=
  .tick later fun _ hf => due _ (h.flight_deadline hf)

theorem Quiet.due (h : Quiet p) {t : Duration} (later : p.now ≤ t)
    (due : ∀ d ∈ machine.timers p, t ≤ d) : Due (machine.setNow t p) := by
  constructor
  case sound =>
    have ticked : Shift True p [] (machine.setNow t p) := h.tick later due
    exact ticked.sound h.sound
  case calm => exact h.calm
  case sweeper => exact (h.session.due fun d hd => due d (session_timer hd)).sweeper
  case launched => exact h.launched

theorem Quiet.pass (h : Quiet p) {t : Duration} (later : p.now ≤ t)
    (ahead : ∀ d ∈ machine.timers p, t < d) : Quiet (machine.setNow t p) := by
  have due := h.due later fun d hd => (ahead d hd).le
  have passed := h.session.pass fun d hd => ahead d (session_timer hd)
  refine ⟨⟨due.sound, passed.sweeper, ?flights⟩, due.calm, passed.resting⟩
  case flights =>
    intro f hf
    rw [Flight.Ahead]
    split
    next unlaunched => exact due.launched f hf unlaunched
    next effect conduct due hphase =>
      have set : ∀ d ∈ f.timers, t < d := fun d hd =>
        ahead d (flight_timer (p := p) hf hd)
      rw [Flight.timers, hphase] at set
      refine ⟨set _ List.mem_cons_self, ?_⟩
      intro d hd
      exact set d (List.mem_cons_of_mem _ (Option.mem_toList.2 hd))
    next => trivial

theorem Quiet.advance (h : Quiet p) (d : Duration) :
    Quiet (machine.advance d p).2 ∧ (machine.advance d p).2.now = p.now + d ∧
      Course byHand p (machine.advance d p).1 (machine.advance d p).2 := by
  refine Clock.Machine.advance_ahead Course.composes (I := Quiet) ?ahead ?pass ?fire d p h
  case ahead =>
    intro p h
    exact h.timers_ahead
  case pass =>
    intro t p h later ahead
    have ticked : Shift byHand p [] (machine.setNow t p) :=
      h.tick later fun d hd => (ahead d hd).le
    exact ⟨h.pass later ahead, rfl, ticked.course⟩
  case fire =>
    intro t p h later due
    obtain ⟨woken, quiet, now⟩ := (h.due later due).wake
    have course := (h.tick later due).course.trans woken
    rw [List.nil_append] at course
    exact ⟨quiet, now, course⟩

end Prober

end RoundTrip
