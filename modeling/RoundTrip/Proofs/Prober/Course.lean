import RoundTrip.Proofs.Prober.Move

namespace RoundTrip.Prober

theorem deliver_flights (p : Prober) (e : Event) : (p.deliver e).2.flights = p.flights := by
  rw [deliver]
  split <;> rfl

theorem deliverAll_flights (p : Prober) (es : List Event) :
    (p.deliverAll es).2.flights = p.flights := by
  induction es generalizing p with
  | nil => rfl
  | cons e es ih => exact (ih _).trans (deliver_flights p e)

theorem deliver_unclaimed {p : Prober} {e : Event} (none_found : p.claim? e = none) :
    (p.deliver e).1 = false ∧ Same p (p.deliver e).2 := by
  rw [claim?] at none_found
  rw [deliver]
  split
  next => exact ⟨rfl, rfl, rfl, rfl, rfl⟩
  next key hkey =>
    rw [hkey, Option.bind_some] at none_found
    have nothing : p.session.resolve key = (false, p.session) := by
      rw [Pending.Session.resolve, Pending.Session.take, none_found]
    rw [nothing]
    exact ⟨rfl, rfl, rfl, rfl, rfl⟩

theorem deliver_claimed {p : Prober} {e : Event} {entry : Pending.Entry}
    (found : p.claim? e = some entry) :
    (p.deliver e).1 = true ∧ ∃ key, Delivered.key? e = some key ∧
      p.session.table.find? key = some entry ∧
      Same { p with session := (p.session.resolve key).2 } (p.deliver e).2 := by
  obtain ⟨key, hkey, hfind⟩ := Option.bind_eq_some_iff.1 found
  have removed : (p.session.resolve key).1 = true := by
    rw [Pending.Session.resolve, Pending.Session.take, hfind]
  rw [deliver, hkey]
  exact ⟨removed, key, rfl, hfind, rfl, rfl, rfl, rfl⟩

section

variable {p : Prober}

theorem deliver_moves (p : Prober) (e : Event) (byCollaborator : Bool) :
    Moves p [p.delivery e byCollaborator] (p.deliver e).2 := by
  rw [delivery]
  cases found : p.claim? e with
  | none =>
    obtain ⟨flag, same⟩ := deliver_unclaimed found
    rw [flag]
    exact .step (.note rfl) (Move.keep same).moves
  | some entry =>
    obtain ⟨flag, key, hkey, hfind, same⟩ := deliver_claimed found
    rw [flag]
    exact .step (.deliver byCollaborator hkey hfind) (Move.keep same).moves

theorem refuse_moves (p : Prober) (error : ExecutionError) :
    Moves p [] { p with session := p.session.refuse error } := by
  cases error with
  | timeout key waited => exact .refl p
  | collision key => exact Move.skip.moves
  | shuttingDown => exact Move.skip.moves

theorem deliverAll_moves (p : Prober) (es : List Event) :
    Moves p (p.deliverAll es).1 (p.deliverAll es).2 := by
  induction es generalizing p with
  | nil => exact .refl p
  | cons e es ih => exact (deliver_moves p e true).trans (ih _)

theorem abandon_fail {f : Flight} (hf : f ∈ p.flights) (error : TriggerError) :
    Moves p (.answered p.now f.registration (some error) ::
      (p.abandon f (.error (.trigger error))).1) (p.abandon f (.error (.trigger error))).2 :=
  (Move.fail error hf).moves

theorem answer_moves {f : Flight} (hf : f ∈ p.flights) (effect : Effect) (conduct : Conduct) :
    Moves p (p.answer f effect conduct).1 (p.answer f effect conduct).2 := by
  have delivered := deliverAll_moves p (conduct.deliveries p.topics effect)
  have still : f ∈ (p.deliverAll (conduct.deliveries p.topics effect)).2.flights := by
    rw [deliverAll_flights]
    exact hf
  rw [answer]
  cases conduct.failure with
  | none =>
    refine delivered.trans ?_
    exact .step (.note rfl) (Move.wait still).moves
  | some error =>
    simp only [List.append_assoc]
    exact delivered.trans (abandon_fail still error)

theorem trigger_moves {f : Flight} (hf : f ∈ p.flights) (fresh : f.phase.isWaiting = false)
    (effect : Effect) : Moves p (p.trigger f effect).1 (p.trigger f effect).2 := by
  rw [trigger]
  split
  next => exact abandon_fail hf _
  next script _ =>
    let p₁ : Prober := { p with
      collaborators := p.collaborators.set effect.collaborator (Conduct.next script).2
      topics := p.topics ++ effect.createdTopic?.toList }
    have same : Same p p₁ := ⟨rfl, rfl, rfl, rfl⟩
    have set : Moves p [] p₁ := (Move.keep same).moves
    have called : Moves p₁ [.called p₁.now f.registration effect] p₁ := (Move.note rfl).moves
    simp only
    split
    next =>
      have answered := answer_moves (p := p₁) hf effect (Conduct.next script).1
      exact set.trans (called.trans answered)
    next =>
      let conduct := (Conduct.next script).1
      have held : Move p₁ [] (p₁.setPhase f
          (.calling effect conduct (conduct.delay.map (p₁.now + ·)))) := .hold hf fresh rfl
      exact set.trans (called.trans held.moves)

theorem depart_moves {f : Flight} (hf : f ∈ p.flights) (fresh : f.phase.isWaiting = false)
    (effect : Option Effect) : Moves p (p.depart f effect).1 (p.depart f effect).2 := by
  cases effect with
  | none => exact (Move.wait hf).moves
  | some effect => exact trigger_moves hf fresh effect

theorem mem_beginWait {f g : Flight} (hg : g ∈ p.flights) (hr : f.registration ≠ g.registration) :
    g ∈ (p.beginWait f).flights :=
  List.mem_map.2 ⟨g, hg, if_neg (Ne.symm hr)⟩

theorem leave_flights (p : Prober) (f : Flight) : (p.leave f).flights = p.flights := by
  rw [leave]
  split <;> rfl

theorem release_flights (p : Prober) (f : Flight) :
    (p.release f).flights = p.flights.filter fun g => g.registration ≠ f.registration := by
  rw [release, dropFlight, leave_flights]

theorem mem_release {f g : Flight} (hg : g ∈ p.flights) (hr : f.registration ≠ g.registration) :
    g ∈ (p.release f).flights := by
  rw [release_flights]
  exact List.mem_filter.2 ⟨hg, by simpa using Ne.symm hr⟩

theorem mem_answer {f g : Flight} (hg : g ∈ p.flights) (hr : f.registration ≠ g.registration)
    (effect : Effect) (conduct : Conduct) : g ∈ (p.answer f effect conduct).2.flights := by
  have still : g ∈ (p.deliverAll (conduct.deliveries p.topics effect)).2.flights := by
    rw [deliverAll_flights]
    exact hg
  rw [answer]
  cases conduct.failure with
  | none => exact mem_beginWait still hr
  | some error => exact mem_release still hr

theorem answerDue_moves {fs : List Flight} (hfs : ∀ f ∈ fs, f ∈ p.flights)
    (distinct : fs.Pairwise fun f g => f.registration ≠ g.registration) :
    Moves p (p.answerDue fs).1 (p.answerDue fs).2 := by
  induction fs generalizing p with
  | nil => exact .refl p
  | cons f rest ih =>
    rw [List.pairwise_cons] at distinct
    have hf : f ∈ p.flights := hfs f List.mem_cons_self
    have hrest : ∀ g ∈ rest, g ∈ p.flights := fun g hg => hfs g (List.mem_cons_of_mem _ hg)
    rw [answerDue.eq_def]
    simp only
    split
    next effect conduct due _ =>
      split
      next =>
        have still : ∀ g ∈ rest, g ∈ (p.answer f effect conduct).2.flights :=
          fun g hg => mem_answer (hrest g hg) (distinct.1 g hg) effect conduct
        exact (answer_moves hf effect conduct).trans (ih still distinct.2)
      next => exact ih hrest distinct.2
    next => exact ih hrest distinct.2

theorem breakOff_moves {fs : List Flight} (hfs : ∀ f ∈ fs, f ∈ p.flights)
    (distinct : fs.Pairwise fun f g => f.registration ≠ g.registration) :
    Moves p (p.breakOff fs).1 (p.breakOff fs).2 := by
  induction fs generalizing p with
  | nil => exact .refl p
  | cons f rest ih =>
    rw [List.pairwise_cons] at distinct
    have hf : f ∈ p.flights := hfs f List.mem_cons_self
    have hrest : ∀ g ∈ rest, g ∈ p.flights := fun g hg => hfs g (List.mem_cons_of_mem _ hg)
    rw [breakOff.eq_def]
    simp only
    split
    next =>
      split
      next =>
        have still : ∀ g ∈ rest, g ∈ (p.beginWait f).flights :=
          fun g hg => mem_beginWait (hrest g hg) (distinct.1 g hg)
        have cut : Move p [.brokenOff p.now f.registration] p := .note rfl
        exact .step cut ((Move.wait hf).moves.trans (ih still distinct.2))
      next => exact ih hrest distinct.2
    next => exact ih hrest distinct.2

theorem abandon_grounding {f : Flight} (hf : f ∈ p.flights) (down : p.shutDown = true) :
    Move p (p.abandon f (p.grounding f)).1 (p.abandon f (p.grounding f)).2 := by
  rw [abandon, grounding]
  cases finished : (p.session.waiter? f.registration).bind p.session.ending? with
  | none => exact .ground hf down
  | some outcome =>
    obtain ⟨w, found, ends⟩ := Option.bind_eq_some_iff.1 finished
    have number : w.registration = f.registration := by simpa using List.find?_some found
    simp only
    split
    next => exact .finish hf (List.mem_of_find?_eq_some found) number ends
    next => exact .ground hf down

theorem groundAll_moves {fs : List Flight} (hfs : ∀ f ∈ fs, f ∈ p.flights)
    (distinct : fs.Pairwise fun f g => f.registration ≠ g.registration) (h : p.Sound)
    (down : p.shutDown = true) : Moves p (p.groundAll fs).1 (p.groundAll fs).2 := by
  induction fs generalizing p with
  | nil => exact .refl p
  | cons f rest ih =>
    rw [List.pairwise_cons] at distinct
    have hf : f ∈ p.flights := hfs f List.mem_cons_self
    have still : ∀ g ∈ rest, g ∈ (p.release f).flights := fun g hg =>
      mem_release (hfs g (List.mem_cons_of_mem _ hg)) (distinct.1 g hg)
    have released := abandon_grounding hf down
    have down' : (p.release f).shutDown = true := (released.frame h).shutDown.trans down
    exact .step released (ih still distinct.2 (released.sound h) down')

theorem launch_moves {f : Flight} (h : p.Sound) (hf : f ∈ p.flights)
    (fresh : f.phase.isWaiting = false) (effect : Option Effect) :
    Moves p (p.launch f effect).1 (p.launch f effect).2 := by
  rw [launch.eq_def]
  cases down : p.shutDown with
  | false => exact depart_moves hf fresh effect
  | true =>
    simp only [Bool.not_true, Bool.false_eq_true, if_false]
    split
    next =>
      let q := (p.depart f effect).2
      have departed := depart_moves hf fresh effect
      have sound : q.Sound := departed.sound h
      have distinct := sound.flights_ordered.imp Nat.ne_of_lt
      let own := q.flights.filter fun g => g.registration = f.registration
      have grounded : Moves q (q.groundAll own).1 (q.groundAll own).2 :=
        groundAll_moves (fun _ hg => List.mem_of_mem_filter hg)
          (distinct.sublist List.filter_sublist) sound ((departed.frame h).shutDown.trans down)
      exact departed.trans grounded
    next => exact (Move.ground hf down).moves

def landEach (p : Prober) (ws : List Pending.Waiter) : List Mark × Prober :=
  ({ p with session := (p.session.finishEach ws).2 } : Prober).land
    ((p.session.finishEach ws).1.filterMap Pending.Mark.ending?)

theorem settle_up (up : p.shutDown = false) : p.settle = p.landEach p.session.waiters := by
  rw [settle, if_neg (up ▸ Bool.false_ne_true)]
  rfl

theorem landEach_stays {w : Pending.Waiter} (stays : p.session.ending? w = none)
    (ws : List Pending.Waiter) : p.landEach (w :: ws) = p.landEach ws := by
  rw [landEach, Pending.Session.finishEach, stays]
  rfl

theorem Sound.find_flight (h : p.Sound) {w : Pending.Waiter} (hw : w ∈ p.session.waiters) :
    ∃ f ∈ p.flights, f.registration = w.registration ∧
      (p.flights.find? fun g => g.registration = w.registration) = some f := by
  obtain ⟨f, hf, hseat⟩ := h.flight_of_waiter hw
  have hr : f.registration = w.registration := congrArg (fun s => s.entry.registration) hseat
  refine ⟨f, hf, hr, ?_⟩
  cases hfind : p.flights.find? fun g => g.registration = w.registration with
  | none =>
    have := List.find?_eq_none.1 hfind f hf
    simp [hr] at this
  | some g =>
    have hg : g.registration = w.registration := by simpa using List.find?_some hfind
    rw [h.flight_unique (List.mem_of_find?_eq_some hfind) hf (hg.trans hr.symm)]

theorem Sound.landEach_ends (h : p.Sound) {w : Pending.Waiter} (hw : w ∈ p.session.waiters)
    {outcome : Pending.Outcome} (ends : p.session.ending? w = some outcome)
    (ws : List Pending.Waiter) :
    ∃ f ∈ p.flights, w.registration = f.registration ∧
      (p.release f).session = p.session.leave w ∧
      p.landEach (w :: ws) =
        (.ended p.now f.toTicket (verdict f.toTicket p.now outcome) ::
          ((p.release f).landEach ws).1, ((p.release f).landEach ws).2) := by
  obtain ⟨f, hf, hr, hfind⟩ := h.find_flight hw
  obtain ⟨v, hv, hseat, heq⟩ := h.release_eq hf
  have hvw : v = w := h.session.waiter_unique hv hw
    ((congrArg (fun s => s.entry.registration) hseat).trans hr)
  rw [hvw] at heq
  refine ⟨f, hf, hr.symm, by rw [heq], ?_⟩
  rw [heq, landEach, Pending.Session.finishEach, ends]
  simp only [List.filterMap_append, Pending.Session.released_endings, List.nil_append]
  have ending : Pending.Mark.ending? (.ended ⟨p.session.now, w, outcome⟩) =
      some ⟨p.session.now, w, outcome⟩ := rfl
  rw [List.filterMap_cons_some ending, land, hfind]
  rfl

theorem Sound.landEach_moves (h : p.Sound) {ws : List Pending.Waiter}
    (hws : ∀ w ∈ ws, w ∈ p.session.waiters)
    (distinct : ws.Pairwise fun v w => v.registration ≠ w.registration) :
    Moves p (p.landEach ws).1 (p.landEach ws).2 := by
  induction ws generalizing p with
  | nil => exact .refl p
  | cons w rest ih =>
    rw [List.pairwise_cons] at distinct
    have hw : w ∈ p.session.waiters := hws w List.mem_cons_self
    have hrest : ∀ v ∈ rest, v ∈ p.session.waiters := fun v hv => hws v (List.mem_cons_of_mem _ hv)
    cases ends : p.session.ending? w with
    | none =>
      rw [landEach_stays ends]
      exact ih h hrest distinct.2
    | some outcome =>
      obtain ⟨f, hf, hr, hleave, heq⟩ := h.landEach_ends hw ends rest
      have landed : Move p [.ended p.now f.toTicket (verdict f.toTicket p.now outcome)]
          (p.release f) := .finish hf hw hr ends
      have still : ∀ v ∈ rest, v ∈ (p.release f).session.waiters := by
        intro v hv
        rw [hleave]
        exact List.mem_filter.2 ⟨hrest v hv, by simpa using (distinct.1 v hv).symm⟩
      rw [heq]
      exact .step landed (ih (landed.sound h) still distinct.2)

theorem Sound.settle_moves (h : p.Sound) (up : p.shutDown = false) :
    Moves p p.settle.1 p.settle.2 := by
  rw [settle_up up]
  exact h.landEach_moves (fun _ hw => hw) (h.session.ordered.imp Nat.ne_of_lt)

theorem groundAll_eq (p : Prober) (fs : List Flight) :
    ∃ session flights, (p.groundAll fs).2 = { p with session, flights } := by
  induction fs generalizing p with
  | nil => exact ⟨_, _, rfl⟩
  | cons f rest ih =>
    obtain ⟨session, flights, grounded⟩ := ih (p.release f)
    refine ⟨session, flights, grounded.trans ?_⟩
    rw [release, leave]
    split <;> rfl

def grounded (p : Prober) : Prober := (p.groundAll p.flights).2

theorem settle_down (down : p.shutDown = true) : p.settle =
    ((p.groundAll p.flights).1 ++ p.grounded.retire.1, p.grounded.retire.2) := by
  rw [settle, if_pos down]
  rfl

theorem grounded_maintained (p : Prober) : p.grounded.maintained = p.maintained := by
  obtain ⟨session, flights, same⟩ := p.groundAll_eq p.flights
  rw [grounded, same]

theorem settle_maintained (down : p.shutDown = true) (attended : p.maintained = true) :
    p.settle.2 = p.grounded.close.2 := by
  rw [settle_down down, retire, grounded_maintained, if_pos attended]

theorem settle_unmaintained (down : p.shutDown = true) (unattended : p.maintained = false) :
    p.settle.2 = p.grounded := by
  rw [settle_down down, retire, grounded_maintained, unattended]
  rfl

theorem Sound.grounded_moves (h : p.Sound) (down : p.shutDown = true) :
    Moves p (p.groundAll p.flights).1 p.grounded :=
  groundAll_moves (fun _ hf => hf) (h.flights_ordered.imp Nat.ne_of_lt) h down

theorem retire_course {byHand : Prop} (down : p.shutDown = true) :
    Course byHand p p.retire.1 p.retire.2 := by
  rw [retire]
  split
  next => exact (Shift.close down).course
  next => exact .refl p

theorem Sound.settle_course {byHand : Prop} (h : p.Sound) :
    Course byHand p p.settle.1 p.settle.2 := by
  cases down : p.shutDown with
  | false => exact (h.settle_moves down).course
  | true =>
    have grounded := h.grounded_moves down
    rw [settle_down down]
    exact grounded.course.trans (retire_course ((grounded.frame h).shutDown.trans down))

def Calm (p : Prober) : Prop := p.shutDown = true → p.flights = [] ∧ p.maintained = false

theorem Frame.calm {q : Prober} (frame : Frame p q) (calm : Calm p) : Calm q := by
  intro down
  rw [frame.shutDown] at down
  have nobody : p.tickets = [] := by rw [Prober.tickets, (calm down).1, List.map_nil]
  have none_left := frame.tickets
  rw [nobody, List.subset_nil] at none_left
  exact ⟨List.map_eq_nil_iff.1 none_left, frame.maintained.trans (calm down).2⟩

theorem Calm.settle (calm : Calm p) (down : p.shutDown = true) : p.settle = ([], p) := by
  obtain ⟨nobody, unattended⟩ := calm down
  have still : p.grounded = p := by rw [grounded, nobody, groundAll]
  rw [settle_down down, still, nobody, groundAll, retire, unattended]
  rfl

end

end RoundTrip.Prober
