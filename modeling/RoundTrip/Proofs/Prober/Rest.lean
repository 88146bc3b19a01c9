import RoundTrip.Proofs.Prober.Quiet

namespace RoundTrip.Prober

variable {byHand : Prop} {p : Prober}

theorem Ready.deliver (h : Ready p) (e : Event) : Ready (p.deliver e).2 := by
  refine h.moves (deliver_moves p e false) ?_
  rw [deliver_flights]
  exact List.Subset.refl _

def Called (p : Prober) (f g : Flight) : Prop :=
  ∃ effect conduct due, g = { f with phase := .calling effect conduct due } ∧ ∀ d ∈ due, p.now < d

theorem mem_of_trigger (h : p.Sound) {f g : Flight} (hf : f ∈ p.flights) {effect : Effect}
    (hg : g ∈ (p.trigger f effect).2.flights) :
    g.registration = f.registration ∧ (g.phase = .waiting ∨ Called p f g) ∨
      g ∈ p.flights ∧ g.registration ≠ f.registration := by
  rw [trigger] at hg
  split at hg
  next => exact .inr (mem_of_release hg)
  next script _ =>
    simp only at hg
    split at hg
    next => exact (mem_of_answer hg).imp_left fun own => ⟨own.1, .inl own.2⟩
    next later =>
      obtain ⟨g₀, hg₀, rfl⟩ := List.mem_map.1 hg
      split
      next same =>
        obtain rfl := h.flight_unique hg₀ hf same
        refine .inl ⟨rfl, .inr ⟨effect, (Conduct.next script).1, _, rfl, ?_⟩⟩
        intro d hd
        obtain ⟨n, hn, rfl⟩ := Option.map_eq_some_iff.1 hd
        have positive : n ≠ 0 := fun zero => later (zero ▸ hn)
        exact Nat.lt_add_of_pos_right (Nat.pos_of_ne_zero positive)
      next apart => exact .inr ⟨hg₀, apart⟩

theorem mem_of_depart (h : p.Sound) {f g : Flight} (hf : f ∈ p.flights) {effect : Option Effect}
    (hg : g ∈ (p.depart f effect).2.flights) :
    g.registration = f.registration ∧ (g.phase = .waiting ∨ Called p f g) ∨
      g ∈ p.flights ∧ g.registration ≠ f.registration := by
  cases effect with
  | none => exact (mem_of_beginWait hg).imp_left fun own => ⟨own.1, .inl own.2⟩
  | some effect => exact mem_of_trigger h hf hg

theorem mem_of_launch (h : p.Sound) {f g : Flight} (hf : f ∈ p.flights) {effect : Option Effect}
    (hg : g ∈ (p.launch f effect).2.flights) :
    p.shutDown = false ∧ (g.phase = .waiting ∨ Called p f g) ∨
      g ∈ p.flights ∧ g.registration ≠ f.registration := by
  rw [launch.eq_def] at hg
  cases down : p.shutDown with
  | false =>
    rw [down] at hg
    exact (mem_of_depart h hf hg).imp_left fun own => ⟨rfl, own.2⟩
  | true =>
    simp only [down, Bool.not_true, Bool.false_eq_true, if_false] at hg
    right
    split at hg
    next =>
      obtain ⟨departed, apart⟩ := mem_of_groundAll hg
      rcases mem_of_depart h hf departed with own | other
      · exact absurd rfl (apart g (List.mem_filter.2 ⟨departed, decide_eq_true own.1⟩))
      · exact other
    next => exact mem_of_release hg

theorem Sound.enter_course (h : p.Sound) {t : Ticket} {session : Pending.Session}
    (hr : p.session.register t.name t.key t.deadline = .ok session)
    (number : t.registration = p.session.table.next) (nonce : Nonce) (effect : Option Effect) :
    Course byHand p (p.enter session t nonce effect).1 (p.enter session t nonce effect).2 := by
  have entered : Shift byHand p [.registered p.now t] _ := .enter nonce hr number
  have hf : ⟨t, nonce, .registered⟩ ∈ p.flights ++ [(⟨t, nonce, .registered⟩ : Flight)] :=
    List.mem_append_right _ List.mem_cons_self
  exact .shift entered (launch_moves (entered.sound h) hf rfl effect).course

theorem Ready.enter (h : Ready p) {t : Ticket} {session : Pending.Session}
    (hr : p.session.register t.name t.key t.deadline = .ok session)
    (number : t.registration = p.session.table.next) (nonce : Nonce) (effect : Option Effect) :
    Ready (p.enter session t nonce effect).2 := by
  let f : Flight := ⟨t, nonce, .registered⟩
  let p₁ : Prober := { p with session, flights := p.flights ++ [f] }
  have launched_eq : (p.enter session t nonce effect).2 = (p₁.launch f effect).2 := rfl
  have sound : p₁.Sound := h.sound.enter hr number nonce
  have hf : f ∈ p₁.flights := List.mem_append_right _ List.mem_cons_self
  have launched := launch_moves sound hf rfl effect
  have frame := launched.frame sound
  obtain ⟨ahead, -, -, registered⟩ := Pending.Session.register_ok hr
  have now : p₁.now = p.now := by
    show session.now = p.session.now
    rw [registered]
  have sweeper : p₁.session.sweeper = p.session.sweeper := by
    show session.sweeper = p.session.sweeper
    rw [registered]
  have deadline : p.now < t.deadline.tick := Nat.lt_of_lt_of_le ahead t.deadline.le_tick
  have other : ∀ g ∈ p₁.flights, g.registration ≠ t.registration → g ∈ p.flights := by
    intro g hg apart
    rcases List.mem_append.1 hg with hg | hg
    · exact hg
    · rw [List.mem_singleton.1 hg] at apart
      exact absurd rfl apart
  rw [launched_eq]
  constructor
  case sound => exact launched.sound sound
  case sweeper =>
    rw [frame.sweeper, sweeper, frame.now, now]
    exact h.sweeper
  case flights =>
    intro g hg
    rw [frame.now, now]
    rcases mem_of_launch sound hf hg with
      ⟨-, waits | ⟨effect, conduct, due, rfl, later⟩⟩ | ⟨hg, apart⟩
    · rw [Flight.Ahead, waits]
      trivial
    · exact ⟨deadline, now ▸ later⟩
    · exact h.flights g (other g hg apart)

theorem Ready.register (h : Ready p) (name : String) (surface : Surface) (key : Key)
    (deadline : Duration) (nonce : Nonce) (effect : Option Effect) :
    Course byHand p (p.register name surface key deadline nonce effect).1
        (p.register name surface key deadline nonce effect).2 ∧
      Ready (p.register name surface key deadline nonce effect).2 := by
  rw [Prober.register]
  split
  next error _ =>
    have refused : Moves p [.refused p.now name surface (.execution error)]
        { p with session := p.session.refuse error } := .step (.note rfl) (refuse_moves p error)
    exact ⟨refused.course, h.moves refused (List.Subset.refl _)⟩
  next session hr =>
    exact ⟨h.sound.enter_course hr rfl nonce effect, h.enter hr rfl nonce effect⟩

theorem Ready.probe (h : Ready p) (name : String) (surface : Surface) (e : Event) (nonce : Nonce) :
    Course byHand p (p.probe name surface e nonce).1 (p.probe name surface e nonce).2 ∧
      Ready (p.probe name surface e nonce).2 := by
  rw [Prober.probe]
  split
  next error _ =>
    have refused : Move p [.refused p.now name surface (.validation error)] p := .note rfl
    exact ⟨refused.moves.course, h⟩
  next _ =>
    have panicked : Move p [.panicked p.now name] p := .note rfl
    exact ⟨panicked.moves.course, h⟩
  next a _ => exact h.register name surface a.key _ nonce _

theorem Ready.signalShutdown (h : Ready p) :
    Course byHand p p.signalShutdown.1 p.signalShutdown.2 ∧ Ready p.signalShutdown.2 := by
  let p₁ : Prober := { p with session := { p.session with sweeper := none } }
  have stopped : Shift byHand p [] p₁ := .rearm none p.maintained
  have signalled : Shift byHand p₁ [.shutDown p.now] p.signalShutdown.2 := .signal
  have sound := signalled.sound (stopped.sound h.sound)
  exact ⟨stopped.course.trans signalled.course, ⟨sound, nofun, h.flights⟩⟩

theorem Ready.shutdown (h : Ready p) :
    Course byHand p p.shutdown.1 p.shutdown.2 ∧ Ready p.shutdown.2 := by
  obtain ⟨(signalled : Course byHand p _ _), ready⟩ := h.signalShutdown
  have closed : Shift byHand p.signalShutdown.2 p.signalShutdown.2.close.1 p.shutdown.2 :=
    .close rfl
  exact ⟨signalled.trans closed.course, ready.close⟩

def maintain (p : Prober) : Prober :=
  { p with maintained := true, session := p.session.startSweeper p.config.sweep }

theorem Quiet.maintain (h : Quiet p) (up : p.shutDown = false) :
    Course byHand p [] p.maintain ∧ Due p.maintain := by
  have started : Shift byHand p [] p.maintain := .rearm _ true
  refine ⟨started.course, started.sound h.sound, ?calm, ?sweeper, h.launched⟩
  case calm =>
    intro down
    rw [Prober.maintain, up] at down
    cases down
  case sweeper =>
    intro w hw
    obtain rfl := Option.some.inj hw
    exact ⟨Nat.le_max_right _ _, Duration.le_tick _⟩

theorem run_up (up : p.shutDown = false) : p.run = p.maintain.wake := by
  have up' : ¬ p.shutDown = true := by simp [up]
  rw [run, if_neg up', maintain]

theorem Quiet.run (h : Quiet p) : Course byHand p p.run.1 p.run.2 ∧ Ready p.run.2 := by
  cases down : p.shutDown with
  | true =>
    rw [Prober.run, if_pos down]
    exact h.shutdown
  | false =>
    obtain ⟨course, due⟩ := h.maintain down
    obtain ⟨woken, quiet, -⟩ := due.wake
    rw [run_up down]
    exact ⟨course.trans woken, quiet.toReady⟩

theorem Ready.cancel (h : Ready p) (name : String) :
    Course byHand p (p.cancel name).1 (p.cancel name).2 ∧ Ready (p.cancel name).2 := by
  rw [Prober.cancel]
  split
  next => exact ⟨.refl p, h⟩
  next f found =>
    have hf : f ∈ p.flights := List.mem_of_find?_eq_some found
    have dropped := (Move.drop hf).moves
    refine ⟨dropped.course, h.moves dropped ?_⟩
    rw [release_flights]
    exact List.filter_subset_self _

theorem Ready.expire (h : Ready p) (hand : byHand) (key : Key) :
    Course byHand p [.expired p.now (p.session.table.find? key)] (p.expire key).2 ∧
      Ready (p.expire key).2 := by
  cases found : p.session.table.find? key with
  | none =>
    have nothing : (p.expire key).2 = p := by
      rw [Prober.expire, Pending.Session.expire, Pending.Session.take, found]
    have noted : Move p [.expired p.now none] p := .note rfl
    rw [nothing]
    exact ⟨noted.moves.course, h⟩
  | some entry =>
    have removed : Shift byHand p [.expired p.now (some entry)] (p.expire key).2 :=
      .expire hand found
    have sound := removed.sound h.sound
    refine ⟨removed.course, ⟨sound, ?_, ?_⟩⟩
    all_goals rw [Prober.expire, Pending.Session.expire, h.sound.session.take_eq]
    · exact h.sweeper
    · exact h.flights

theorem Ready.handOver (h : Ready p) (e : Event) :
    Course byHand p [p.delivery e false] (p.deliver e).2 ∧ Ready (p.deliver e).2 :=
  ⟨(deliver_moves p e false).course, h.deliver e⟩

theorem Ready.still (h : Ready p) : Course byHand p [] p ∧ Ready p := ⟨.refl p, h⟩

theorem Ready.reject (h : Ready p) (name : String) (reply : Reply) :
    Course byHand p [.rejected p.now name reply] p ∧ Ready p :=
  ⟨(Move.note rfl).moves.course, h⟩

theorem Ready.receive (h : Ready p) (r : HttpRequest) :
    Course byHand p (p.httpReceive r).2.1 (p.httpReceive r).2.2 ∧ Ready (p.httpReceive r).2.2 := by
  rw [httpReceive]
  split
  next => exact h.still
  next =>
    rw [Prober.receive]
    split
    next => exact h.still
    next =>
      split
      next => exact h.still
      next e _ => exact h.handOver e

/-- The step neither asks for the clock nor begins maintenance. -/
def Step.isPrompt : Step → Bool
  | .advance _ | .run => false
  | _ => true

theorem Ready.act (h : Ready p) {s : Step} (prompt : s.isPrompt = true)
    (hand : ∀ key, s = .expire key → byHand) :
    Course byHand p (p.act s).2.1 (p.act s).2.2 ∧ Ready (p.act s).2.2 := by
  cases s with
  | probe name e nonce => exact h.probe name .direct e nonce
  | httpProbe name r nonce =>
    rw [Prober.act, httpProbe]
    split
    next => exact h.reject name _
    next =>
      split
      next => exact h.reject name _
      next e _ => exact h.probe name .http e nonce
  | grpcProbe name body nonce =>
    rw [Prober.act, grpcProbe]
    split
    next => exact h.reject name _
    next e _ => exact h.probe name .grpc e nonce
  | deliver e => exact h.handOver e
  | httpReceive r => exact h.receive r
  | grpcDeliver body =>
    rw [Prober.act, grpcDeliver]
    split
    next => exact h.still
    next e _ => exact h.handOver e
  | health => exact h.still
  | grpcHealth => exact h.still
  | contains key => exact h.still
  | expire key => exact h.expire (hand key rfl) key
  | cancel name => exact h.cancel name
  | shutdown => exact h.shutdown
  | stopRun =>
    rw [Prober.act]
    split
    next => exact h.shutdown
    next => exact h.still
  | signalShutdown => exact h.signalShutdown
  | advance | run => cases prompt

theorem Quiet.act (h : Quiet p) {s : Step} (hand : ∀ key, s = .expire key → byHand) :
    Course byHand p (p.act s).2.1 (p.act s).2.2 ∧ Ready (p.act s).2.2 := by
  cases prompt : s.isPrompt with
  | true => exact h.toReady.act prompt hand
  | false =>
    cases s with
    | advance d =>
      obtain ⟨quiet, -, course⟩ := h.advance d
      exact ⟨course, quiet.toReady⟩
    | run => exact h.run
    | _ => cases prompt

theorem Quiet.perform (h : Quiet p) {s : Step} (hand : ∀ key, s = .expire key → byHand) :
    Course byHand p (p.perform s).2.1 (p.perform s).2.2 ∧ Quiet (p.perform s).2.2 := by
  obtain ⟨acted, ready⟩ := h.act hand
  exact ⟨acted.trans ready.sound.settle_course, ready.settle⟩

theorem Quiet.steps (h : Quiet p) {ss : List Step} (hand : ∀ key, .expire key ∈ ss → byHand) :
    Course byHand p (p.journal ss) (p.steps ss).2 ∧ Quiet (p.steps ss).2 := by
  induction ss generalizing p with
  | nil => exact ⟨.refl p, h⟩
  | cons s rest ih =>
    obtain ⟨performed, quiet⟩ := h.perform fun key hs => hand key (hs ▸ List.mem_cons_self)
    obtain ⟨later, quiet'⟩ := ih quiet fun key hs => hand key (List.mem_cons_of_mem _ hs)
    exact ⟨performed.trans later, quiet'⟩

theorem Quiet.start {config : Config} {collaborators : Collaborators}
    (hs : start config collaborators = .ok p) : Quiet p := by
  rw [Prober.start] at hs
  split at hs
  next => cases hs
  next =>
    obtain rfl := Except.ok.inj hs
    refine ⟨⟨⟨Pending.Session.Sound.empty, rfl, ?timely⟩, ?sweeper, ?flights⟩, nofun, ?resting⟩
    all_goals simp

end RoundTrip.Prober
