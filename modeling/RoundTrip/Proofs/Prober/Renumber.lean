import RoundTrip.Proofs.Prober.Disguise

namespace RoundTrip

def Ticket.renumber (ρ : Nat → Nat) (t : Ticket) : Ticket :=
  { t with registration := ρ t.registration }

def Flight.renumber (ρ : Nat → Nat) (f : Flight) : Flight :=
  ⟨f.toTicket.renumber ρ, f.nonce, f.phase⟩

def Mark.renumber (ρ : Nat → Nat) : Mark → Mark
  | .registered now t => .registered now (t.renumber ρ)
  | .called now registration effect => .called now (ρ registration) effect
  | .delivered now e resolved claim byCollaborator =>
    .delivered now e resolved (claim.map (Pending.Entry.renumber ρ)) byCollaborator
  | .expired now claim => .expired now (claim.map (Pending.Entry.renumber ρ))
  | .answered now registration failure => .answered now (ρ registration) failure
  | .brokenOff now registration => .brokenOff now (ρ registration)
  | .ended now t v => .ended now (t.renumber ρ) v
  | .dropped now t => .dropped now (t.renumber ρ)
  | .rejected now name reply => .rejected now name reply
  | .panicked now name => .panicked now name
  | .refused now name surface error => .refused now name surface error
  | .shutDown now => .shutDown now
  | .sealed now => .sealed now

theorem Mark.happening?_renumber (ρ : Nat → Nat) (m : Mark) :
    (m.renumber ρ).happening? = m.happening? := by
  cases m with
  | delivered now e resolved claim byCollaborator => cases byCollaborator <;> rfl
  | _ => rfl

namespace Prober

def renumber (ρ : Nat → Nat) (p : Prober) : Prober :=
  { p with session := p.session.renumber ρ, flights := p.flights.map (Flight.renumber ρ) }

def carry (ρ : Nat → Nat) (out : List Mark × Prober) : List Mark × Prober :=
  (out.1.map (Mark.renumber ρ), out.2.renumber ρ)

variable {ρ : Nat → Nat}

def renumbering (ρ : Nat → Nat) : Disguise :=
  { number := ρ, session := Pending.Session.renumber ρ }

theorem renumbering_steady (inj : Function.Injective ρ) : (renumbering ρ).Steady := by
  constructor
  case toLawful =>
    constructor
    case toTransparent =>
      constructor
      case injective => exact inj
      case now => exact fun _ => rfl
      case find? => exact fun key _ s => s.table.find?_renumber key
      case take => exact fun key _ s slot _ => Pending.Session.take_renumber inj s key slot
      case waiter? => exact Pending.Session.waiter?_renumber inj
      case leave => exact Pending.Session.leave_renumber inj
      case beginWait => exact Pending.Session.beginWait_renumber inj
    case settle => exact Pending.Session.settle_renumber inj
    case ending? => exact Pending.Session.ending?_renumber
    case stop => exact fun _ => rfl
    case close => exact Pending.Session.close_renumber inj
    case policy | pods => exact fun _ => rfl
    case unmaintained => rfl
  case setNow => exact fun _ _ => rfl
  case runSweeper => exact Pending.Session.runSweeper_renumber inj
  case timers => exact Pending.Session.timers_renumber
  case start => exact fun _ _ => rfl
  case sweep => exact fun _ => rfl
  case maintained => rfl

theorem renumbering_fresh {s : Pending.Session}
    (fresh : ρ (s.table.next + 1) = ρ s.table.next + 1) : (renumbering ρ).Fresh s :=
  ⟨rfl, Pending.Session.register_renumber fresh, Pending.Session.refuse_renumber fresh,
    fun _ _ => rfl⟩

theorem carry_renumbering (out : List Mark × Prober) :
    (renumbering ρ).carry out = carry ρ out := by
  have mark : (renumbering ρ).mark = Mark.renumber ρ := by
    funext m
    cases m <;> rfl
  rw [Disguise.carry, mark]
  rfl

theorem perform_renumber (inj : Function.Injective ρ) {p : Prober}
    (fresh : ρ (p.session.table.next + 1) = ρ p.session.table.next + 1) (s : Step) :
    (p.renumber ρ).perform s = ((p.perform s).1, carry ρ (p.perform s).2) := by
  rw [← carry_renumbering]
  exact (renumbering_steady inj).perform (renumbering_fresh fresh) s

theorem step_renumber (inj : Function.Injective ρ) {p : Prober}
    (fresh : ρ (p.session.table.next + 1) = ρ p.session.table.next + 1) (s : Step) :
    (p.renumber ρ).step s = ((p.step s).1, (p.step s).2.renumber ρ) := by
  rw [step, step, perform_renumber inj fresh]
  simp only [carry, List.filterMap_map, Function.comp_def, Mark.happening?_renumber]

end Prober

end RoundTrip
