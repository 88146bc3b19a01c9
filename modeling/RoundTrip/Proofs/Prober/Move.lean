import RoundTrip.Proofs.Clock
import RoundTrip.Proofs.Prober.Journal
import RoundTrip.Proofs.Prober.Sound

/-!
The moves of a prober, each with its marks in the journal. A `Move` happens at one instant and lets
no probe in; a `Shift` is what comes from outside: a probe that enters, the clock, the sweeper's
timer, the shutdown and, if the run has any of it, removal by hand. Every step of a prober is a
course of moves and shifts.
-/

namespace RoundTrip

namespace Prober

structure Same (p p' : Prober) : Prop where
  session : p'.session = p.session
  flights : p'.flights = p.flights
  shutDown : p'.shutDown = p.shutDown
  maintained : p'.maintained = p.maintained

inductive Move : Prober → List Mark → Prober → Prop
  | keep {p p' : Prober} : Same p p' → Move p [] p'
  | note {p : Prober} {m : Mark} : m.idle = true → Move p [m] p
  | skip {p : Prober} :
      Move p [] { p with session := { p.session with table := p.session.table.skip } }
  | hold {p : Prober} {f : Flight} {phase : Flight.Phase} :
      f ∈ p.flights → f.phase.isWaiting = false → phase.isWaiting = false →
      Move p [] (p.setPhase f phase)
  | deliver {p : Prober} {e : Event} {key : Key} {entry : Pending.Entry}
      (byCollaborator : Bool) :
      Delivered.key? e = some key → p.session.table.find? key = some entry →
      Move p [.delivered p.now e true (some entry) byCollaborator]
        { p with session := (p.session.resolve key).2 }
  | sweep {p : Prober} : p.now.tick = p.now →
      Move p [] { p with session := (p.session.sweep p.session.now).2 }
  | wait {p : Prober} {f : Flight} : f ∈ p.flights → Move p [] (p.beginWait f)
  | fail {p : Prober} {f : Flight} (error : TriggerError) : f ∈ p.flights →
      Move p [.answered p.now f.registration (some error),
        .ended p.now f.toTicket (.error (.trigger error))] (p.release f)
  | finish {p : Prober} {f : Flight} {w : Pending.Waiter} {outcome : Pending.Outcome} :
      f ∈ p.flights → w ∈ p.session.waiters → w.registration = f.registration →
      p.session.ending? w = some outcome →
      Move p [.ended p.now f.toTicket (verdict f.toTicket p.now outcome)] (p.release f)
  | ground {p : Prober} {f : Flight} : f ∈ p.flights → p.shutDown = true →
      Move p [.ended p.now f.toTicket (.error (.execution .shuttingDown))] (p.release f)
  | drop {p : Prober} {f : Flight} : f ∈ p.flights →
      Move p [.dropped p.now f.toTicket] (p.release f)

inductive Shift (byHand : Prop) : Prober → List Mark → Prober → Prop
  | enter {p : Prober} {t : Ticket} {session : Pending.Session} (nonce : Nonce) :
      p.session.register t.name t.key t.deadline = .ok session →
      t.registration = p.session.table.next →
      Shift byHand p [.registered p.now t]
        { p with session, flights := p.flights ++ [⟨t, nonce, .registered⟩] }
  | tick {p : Prober} {t : Duration} : p.now ≤ t → (∀ f ∈ p.flights, t ≤ f.deadline.tick) →
      Shift byHand p [] { p with session := { p.session with now := t } }
  | rearm {p : Prober} (sweeper : Option Pending.Sweeper) (maintained : Bool) :
      Shift byHand p [] { p with maintained, session := { p.session with sweeper } }
  | expire {p : Prober} {key : Key} {entry : Pending.Entry} :
      byHand → p.session.table.find? key = some entry →
      Shift byHand p [.expired p.now (some entry)]
        { p with session := (p.session.expire key).2 }
  | signal {p : Prober} : Shift byHand p [.shutDown p.now] { p with shutDown := true }
  | close {p : Prober} : p.shutDown = true → Shift byHand p p.close.1 p.close.2

inductive Moves : Prober → List Mark → Prober → Prop
  | refl (p : Prober) : Moves p [] p
  | step {p q r : Prober} {marks later : List Mark} :
      Move p marks q → Moves q later r → Moves p (marks ++ later) r

inductive Course (byHand : Prop) : Prober → List Mark → Prober → Prop
  | refl (p : Prober) : Course byHand p [] p
  | move {p q r : Prober} {marks later : List Mark} :
      Move p marks q → Course byHand q later r → Course byHand p (marks ++ later) r
  | shift {p q r : Prober} {marks later : List Mark} :
      Shift byHand p marks q → Course byHand q later r → Course byHand p (marks ++ later) r

variable {byHand : Prop} {p q r : Prober} {a b : List Mark}

theorem Move.moves (h : Move p a q) : Moves p a q := by
  simpa using Moves.step h (.refl q)

theorem Moves.trans (h : Moves p a q) (k : Moves q b r) : Moves p (a ++ b) r := by
  induction h with
  | refl => exact k
  | step move _ ih =>
    rw [List.append_assoc]
    exact .step move (ih k)

theorem Shift.course (h : Shift byHand p a q) : Course byHand p a q := by
  simpa using Course.shift h (.refl q)

theorem Moves.course (h : Moves p a q) : Course byHand p a q := by
  induction h with
  | refl => exact .refl _
  | step move _ ih => exact .move move ih

theorem Course.trans (h : Course byHand p a q) (k : Course byHand q b r) :
    Course byHand p (a ++ b) r := by
  induction h with
  | refl => exact k
  | move m _ ih =>
    rw [List.append_assoc]
    exact .move m (ih k)
  | shift m _ ih =>
    rw [List.append_assoc]
    exact .shift m (ih k)

theorem Course.composes : Clock.Machine.Composes (Course byHand) := ⟨.refl, .trans⟩

theorem Move.sound (m : Move p a q) (h : p.Sound) : q.Sound := by
  cases m with
  | keep same =>
    exact h.congr (congrArg _ same.session) (congrArg _ same.session)
      (congrArg Pending.Session.now same.session) same.flights
  | note => exact h
  | skip => exact ⟨h.session.skip, h.seats, h.timely⟩
  | hold hf before after => exact h.setPhase hf before after
  | deliver _ _ hfind =>
    rw [Pending.Session.resolve, h.session.take_eq]
    exact h.withdraw _ (by decide)
  | sweep =>
    rw [h.session.sweep_eq]
    exact h.withdraw _ (by decide)
  | wait hf => exact h.beginWait _
  | fail _ hf => exact h.release hf
  | finish hf => exact h.release hf
  | ground hf => exact h.release hf
  | drop hf => exact h.release hf

theorem Shift.sound (m : Shift byHand p a q) (h : p.Sound) : q.Sound := by
  cases m with
  | enter nonce hr number => exact h.enter hr number nonce
  | tick _ timely => exact ⟨h.session.congr rfl rfl, h.seats, timely⟩
  | rearm => exact h.congr rfl rfl rfl rfl
  | expire =>
    rw [Pending.Session.expire, h.session.take_eq]
    exact h.withdraw _ (by decide)
  | signal => exact h.congr rfl rfl rfl rfl
  | close => exact h.close

theorem Moves.sound (m : Moves p a q) (h : p.Sound) : q.Sound := by
  induction m with
  | refl => exact h
  | step move _ ih => exact ih (move.sound h)

theorem Course.sound (m : Course byHand p a q) (h : p.Sound) : q.Sound := by
  induction m with
  | refl => exact h
  | move m _ ih => exact ih (m.sound h)
  | shift m _ ih => exact ih (m.sound h)

/-- What no move changes, and that moves let no probe in. -/
structure Frame (p q : Prober) : Prop where
  now : q.now = p.now
  sweeper : q.session.sweeper = p.session.sweeper
  shutDown : q.shutDown = p.shutDown
  maintained : q.maintained = p.maintained
  closed : q.session.table.closed = p.session.table.closed
  next : p.session.table.next ≤ q.session.table.next
  tickets : q.tickets ⊆ p.tickets

theorem Frame.refl (p : Prober) : Frame p p :=
  ⟨rfl, rfl, rfl, rfl, rfl, Nat.le_refl _, List.Subset.refl _⟩

theorem Frame.trans (h : Frame p q) (k : Frame q r) : Frame p r :=
  ⟨k.now.trans h.now, k.sweeper.trans h.sweeper, k.shutDown.trans h.shutDown,
    k.maintained.trans h.maintained, k.closed.trans h.closed, Nat.le_trans h.next k.next,
    List.Subset.trans k.tickets h.tickets⟩

theorem tickets_setPhase (p : Prober) (f : Flight) (phase : Flight.Phase) :
    (p.setPhase f phase).tickets = p.tickets := by
  simp only [tickets, setPhase, List.map_map]
  apply List.map_congr_left
  intro g _
  rw [Function.comp_apply]
  split <;> rfl

theorem Sound.release_frame (h : p.Sound) {f : Flight} (hf : f ∈ p.flights) :
    Frame p (p.release f) := by
  obtain ⟨w, hw, hseat, heq⟩ := h.release_eq hf
  rw [heq]
  refine ⟨rfl, rfl, rfl, rfl, rfl, Nat.le_refl _, ?_⟩
  exact List.map_subset _ (List.filter_subset_self _)

theorem Move.frame (m : Move p a q) (h : p.Sound) : Frame p q := by
  cases m with
  | keep same =>
    refine ⟨congrArg Pending.Session.now same.session, by rw [same.session], same.shutDown,
      same.maintained, by rw [same.session], by rw [same.session], ?_⟩
    rw [tickets, same.flights]
    exact List.Subset.refl _
  | note => exact .refl p
  | skip => exact ⟨rfl, rfl, rfl, rfl, rfl, Nat.le_succ _, List.Subset.refl _⟩
  | hold =>
    refine ⟨rfl, rfl, rfl, rfl, rfl, Nat.le_refl _, ?_⟩
    rw [tickets_setPhase]
    exact List.Subset.refl _
  | deliver =>
    rw [Pending.Session.resolve, h.session.take_eq]
    exact ⟨rfl, rfl, rfl, rfl, rfl, Nat.le_refl _, List.Subset.refl _⟩
  | sweep =>
    rw [h.session.sweep_eq]
    exact ⟨rfl, rfl, rfl, rfl, rfl, Nat.le_refl _, List.Subset.refl _⟩
  | wait =>
    refine ⟨rfl, rfl, rfl, rfl, rfl, Nat.le_refl _, ?_⟩
    rw [beginWait, tickets_setPhase]
    exact List.Subset.refl _
  | fail _ hf => exact h.release_frame hf
  | finish hf => exact h.release_frame hf
  | ground hf => exact h.release_frame hf
  | drop hf => exact h.release_frame hf

theorem Moves.frame (m : Moves p a q) (h : p.Sound) : Frame p q := by
  induction m with
  | refl => exact .refl _
  | step move _ ih => exact (move.frame h).trans (ih (move.sound h))

def Locked (p : Prober) : Prop := p.session.table.closed = true → p.shutDown = true

theorem Shift.next_le (m : Shift byHand p a q) (h : p.Sound) :
    p.session.table.next ≤ q.session.table.next := by
  cases m with
  | enter _ hr =>
    obtain ⟨-, -, -, rfl⟩ := Pending.Session.register_ok hr
    exact Nat.le_succ _
  | expire =>
    rw [Pending.Session.expire, h.session.take_eq]
    exact Nat.le_refl _
  | close =>
    rw [Prober.close, h.session.close_eq]
    exact Nat.le_refl _
  | tick | rearm | signal => exact Nat.le_refl _

theorem Shift.locked (m : Shift byHand p a q) (h : p.Sound) (locked : Locked p) : Locked q := by
  cases m with
  | enter _ hr =>
    obtain ⟨-, -, -, rfl⟩ := Pending.Session.register_ok hr
    exact locked
  | expire =>
    rw [Pending.Session.expire, h.session.take_eq]
    exact locked
  | close down => exact fun _ => down
  | tick | rearm => exact locked
  | signal => exact fun _ => rfl

theorem Course.next_le (c : Course byHand p a q) (h : p.Sound) :
    p.session.table.next ≤ q.session.table.next := by
  induction c with
  | refl => exact Nat.le_refl _
  | move m _ ih => exact Nat.le_trans (m.frame h).next (ih (m.sound h))
  | shift m _ ih => exact Nat.le_trans (m.next_le h) (ih (m.sound h))

theorem Course.locked (c : Course byHand p a q) (h : p.Sound) (locked : Locked p) : Locked q := by
  induction c with
  | refl => exact locked
  | move m _ ih =>
    have frame := m.frame h
    apply ih (m.sound h)
    rw [Locked, frame.closed, frame.shutDown]
    exact locked
  | shift m _ ih => exact ih (m.sound h) (m.locked h locked)

open Journal

theorem Move.unsealed (m : Move p a q) : ¬ Sealed a := by
  rintro ⟨mark, hm, sealed⟩
  cases m with
  | note idle =>
    obtain rfl := List.mem_singleton.1 hm
    rw [(Mark.silent_of_idle idle).unsealed] at sealed
    cases sealed
  | keep | skip | hold | sweep | wait => cases hm
  | deliver | finish | ground | drop =>
    obtain rfl := List.mem_singleton.1 hm
    cases sealed
  | fail =>
    rcases List.mem_cons.1 hm with rfl | hm
    · cases sealed
    · obtain rfl := List.mem_singleton.1 hm
      cases sealed

theorem Shift.sealed_iff (m : Shift byHand p a q) (h : p.Sound) :
    q.session.table.closed = true ↔ p.session.table.closed = true ∨ Sealed a := by
  cases m with
  | enter _ hr =>
    obtain ⟨-, -, -, rfl⟩ := Pending.Session.register_ok hr
    simp [Sealed, Mark.isSealed, Pending.Table.insert]
  | expire =>
    rw [Pending.Session.expire, h.session.take_eq]
    simp [Sealed, Mark.isSealed, Pending.Session.withdraw]
  | close =>
    rw [Prober.close, h.session.close_eq]
    simp [Sealed, Mark.isSealed, Pending.Table.close]
  | tick | rearm | signal => simp [Sealed, Mark.isSealed]

theorem Course.sealed_iff (c : Course byHand p a q) (h : p.Sound) :
    q.session.table.closed = true ↔ p.session.table.closed = true ∨ Sealed a := by
  induction c with
  | refl => simp [Sealed]
  | move m _ ih =>
    rw [ih (m.sound h), (m.frame h).closed, sealed_append, or_iff_right m.unsealed]
  | shift m _ ih => rw [ih (m.sound h), m.sealed_iff h, sealed_append, or_assoc]

end Prober

end RoundTrip
