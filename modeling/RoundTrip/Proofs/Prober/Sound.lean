import RoundTrip.Proofs.Pending.Sound
import RoundTrip.Prober.Step

/-!
What holds of every prober at every instant: the flights and the waiters of the pending table sit
in the same seats, and no flight outstays the millisecond of its deadline.
-/

namespace RoundTrip

/-- What a flight and the waiter of its registration have in common. -/
structure Seat where
  entry : Pending.Entry
  waiting : Bool
  deriving DecidableEq

def Seat.sit (registration : Nat) (s : Seat) : Seat :=
  if s.entry.registration = registration then { s with waiting := true } else s

def Seat.others (registration : Nat) (s : Seat) : Bool := s.entry.registration ≠ registration

def Flight.seat (f : Flight) : Seat := ⟨f.entry, f.phase.isWaiting⟩

def Pending.Waiter.seat (w : Waiter) : Seat := ⟨w.entry, w.waiting⟩

@[simp] theorem Ticket.entry_registration (t : Ticket) : t.entry.registration = t.registration :=
  rfl

@[simp] theorem Ticket.entry_key (t : Ticket) : t.entry.key = t.key := rfl

@[simp] theorem Ticket.entry_deadline (t : Ticket) : t.entry.deadline = t.deadline := rfl

namespace Prober

structure Sound (p : Prober) : Prop where
  session : p.session.Sound
  seats : p.flights.map Flight.seat = p.session.waiters.map Pending.Waiter.seat
  timely : ∀ f ∈ p.flights, p.now ≤ f.deadline.tick

section

variable {p : Prober} (h : p.Sound)
include h

theorem Sound.waiter_of_flight {f : Flight} (hf : f ∈ p.flights) :
    ∃ w ∈ p.session.waiters, w.seat = f.seat := by
  have seated : f.seat ∈ p.session.waiters.map Pending.Waiter.seat := by
    rw [← h.seats]
    exact List.mem_map_of_mem hf
  exact List.mem_map.1 seated

theorem Sound.flight_of_waiter {w : Pending.Waiter} (hw : w ∈ p.session.waiters) :
    ∃ f ∈ p.flights, f.seat = w.seat := by
  have seated : w.seat ∈ p.flights.map Flight.seat := by
    rw [h.seats]
    exact List.mem_map_of_mem hw
  exact List.mem_map.1 seated

theorem Sound.flights_ordered :
    p.flights.Pairwise fun f g => f.registration < g.registration := by
  have numbers := congrArg (List.map fun s : Seat => s.entry.registration) h.seats
  simp only [List.map_map] at numbers
  have ordered := List.pairwise_map.2 h.session.ordered
  exact List.pairwise_map.1 (numbers ▸ ordered)

theorem Sound.flight_unique {f g : Flight} (hf : f ∈ p.flights) (hg : g ∈ p.flights)
    (hr : f.registration = g.registration) : f = g := by
  have distinct : (p.flights.map fun f => f.registration).Nodup :=
    List.pairwise_map.2 (h.flights_ordered.imp Nat.ne_of_lt)
  exact List.inj_on_of_nodup_map distinct hf hg hr

theorem Sound.waiters_nil (empty : p.flights = []) : p.session.waiters = [] := by
  have seats := h.seats
  rw [empty, List.map_nil] at seats
  exact List.map_eq_nil_iff.1 seats.symm

theorem Sound.find_waiter {f : Flight} (hf : f ∈ p.flights) :
    ∃ w ∈ p.session.waiters, w.seat = f.seat ∧
      p.session.waiter? f.registration = some w := by
  obtain ⟨w, hw, hseat⟩ := h.waiter_of_flight hf
  have hr : w.registration = f.registration := congrArg (fun s => s.entry.registration) hseat
  refine ⟨w, hw, hseat, ?_⟩
  rw [Pending.Session.waiter?]
  cases hfind : p.session.waiters.find? fun v => v.registration = f.registration with
  | none =>
    have := List.find?_eq_none.1 hfind w hw
    simp [hr] at this
  | some v =>
    have hv : v.registration = f.registration := by simpa using List.find?_some hfind
    rw [h.session.waiter_unique (List.mem_of_find?_eq_some hfind) hw (hv.trans hr.symm)]

theorem Sound.leave_eq {f : Flight} (hf : f ∈ p.flights) :
    ∃ w ∈ p.session.waiters, w.seat = f.seat ∧
      p.leave f = { p with session := p.session.leave w } := by
  obtain ⟨w, hw, hseat, hfind⟩ := h.find_waiter hf
  refine ⟨w, hw, hseat, ?_⟩
  rw [Prober.leave, hfind]

end

theorem Sound.congr {p p' : Prober} (h : p.Sound) (table : p'.session.table = p.session.table)
    (waiters : p'.session.waiters = p.session.waiters) (now : p'.now = p.now)
    (flights : p'.flights = p.flights) : p'.Sound := by
  constructor
  · exact h.session.congr table waiters
  · rw [flights, waiters]; exact h.seats
  · rw [flights, now]; exact h.timely

theorem Sound.withdraw {p : Prober} (h : p.Sound) (q : Pending.Entry → Bool)
    {slot : Pending.Slot} (hs : slot ≠ .empty) :
    ({ p with session := p.session.withdraw q slot } : Prober).Sound := by
  constructor
  · exact h.session.withdraw q hs
  · rw [Pending.Session.withdraw_waiters, List.map_map, h.seats]
    apply List.map_congr_left
    intro w _
    rw [Function.comp_apply]
    split <;> rfl
  · exact h.timely

theorem Sound.close {p : Prober} (h : p.Sound) : p.close.2.Sound := by
  have filled : Pending.Slot.filled .cancelled ≠ .empty := by decide
  have told := h.withdraw (fun _ => true) filled
  constructor
  case session => exact h.session.close
  case seats =>
    rw [Prober.close, h.session.close_eq]
    exact told.seats
  case timely =>
    rw [Prober.close, h.session.close_eq]
    exact told.timely

theorem Sound.beginWait {p : Prober} (h : p.Sound) (f : Flight) : (p.beginWait f).Sound := by
  constructor
  case session => exact h.session.update _ (fun _ => rfl) (fun _ => rfl)
  case seats =>
    have flights : (p.beginWait f).flights.map Flight.seat =
        (p.flights.map Flight.seat).map (Seat.sit f.registration) := by
      rw [Prober.beginWait, setPhase, List.map_map, List.map_map]
      apply List.map_congr_left
      intro g _
      by_cases hr : g.registration = f.registration <;> simp [Seat.sit, Flight.seat, hr]
      rfl
    have waiters : (p.beginWait f).session.waiters.map Pending.Waiter.seat =
        (p.session.waiters.map Pending.Waiter.seat).map (Seat.sit f.registration) := by
      rw [Prober.beginWait, setPhase, Pending.Session.update, List.map_map, List.map_map]
      apply List.map_congr_left
      intro w _
      by_cases hr : w.registration = f.registration <;>
        simp [Seat.sit, Pending.Waiter.seat, Pending.Waiter.entry, hr]
    rw [flights, waiters, h.seats]
  case timely =>
    intro g hg
    obtain ⟨g₀, hg₀, rfl⟩ := List.mem_map.1 hg
    have := h.timely g₀ hg₀
    split <;> exact this

theorem Sound.setPhase {p : Prober} (h : p.Sound) {f : Flight} (hf : f ∈ p.flights)
    (before : f.phase.isWaiting = false) {phase : Flight.Phase}
    (after : phase.isWaiting = false) : (p.setPhase f phase).Sound := by
  constructor
  case session => exact h.session
  case seats =>
    refine Eq.trans ?_ h.seats
    rw [Prober.setPhase, List.map_map]
    apply List.map_congr_left
    intro g hg
    rw [Function.comp_apply]
    split
    next same =>
      rw [h.flight_unique hg hf same, Flight.seat, Flight.seat, before, after]
    next => rfl
  case timely =>
    intro g hg
    obtain ⟨g₀, hg₀, rfl⟩ := List.mem_map.1 hg
    have := h.timely g₀ hg₀
    split <;> exact this

theorem Sound.release_eq {p : Prober} (h : p.Sound) {f : Flight} (hf : f ∈ p.flights) :
    ∃ w ∈ p.session.waiters, w.seat = f.seat ∧
      p.release f = { p with
        session := p.session.leave w
        flights := p.flights.filter fun g => g.registration ≠ f.registration } := by
  obtain ⟨w, hw, hseat, hleave⟩ := h.leave_eq hf
  exact ⟨w, hw, hseat, by rw [Prober.release, hleave, dropFlight]⟩

theorem Sound.release {p : Prober} (h : p.Sound) {f : Flight} (hf : f ∈ p.flights) :
    (p.release f).Sound := by
  obtain ⟨w, hw, hseat, heq⟩ := h.release_eq hf
  have number : w.registration = f.registration := congrArg (fun s => s.entry.registration) hseat
  rw [heq]
  constructor
  case session => exact h.session.leave hw
  case seats =>
    have flights : (p.flights.filter fun g => g.registration ≠ f.registration).map Flight.seat =
        (p.flights.map Flight.seat).filter (Seat.others f.registration) := by
      rw [List.filter_map]
      rfl
    have waiters : (p.session.leave w).waiters.map Pending.Waiter.seat =
        (p.session.waiters.map Pending.Waiter.seat).filter (Seat.others f.registration) := by
      rw [List.filter_map, Pending.Session.leave, number]
      rfl
    rw [flights, waiters, h.seats]
  case timely =>
    intro g hg
    exact h.timely g (List.mem_of_mem_filter hg)

theorem Sound.enter {p : Prober} (h : p.Sound) {t : Ticket} {session : Pending.Session}
    (hr : p.session.register t.name t.key t.deadline = .ok session)
    (number : t.registration = p.session.table.next) (nonce : Nonce) :
    ({ p with session, flights := p.flights ++ [⟨t, nonce, .registered⟩] } : Prober).Sound := by
  have sound := h.session.register hr
  obtain ⟨ahead, -, -, rfl⟩ := Pending.Session.register_ok hr
  constructor
  case session => exact sound
  case seats =>
    simp only [List.map_append, h.seats, List.map_cons, List.map_nil]
    rw [Flight.seat, Ticket.entry, number]
    rfl
  case timely =>
    intro g hg
    rcases List.mem_append.1 hg with hg | hg
    · exact h.timely g hg
    · rw [List.mem_singleton.1 hg]
      exact Nat.le_trans (Nat.le_of_lt ahead) t.deadline.le_tick

end Prober

end RoundTrip
