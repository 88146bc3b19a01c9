import RoundTrip.Proofs.Prober.Closed

namespace RoundTrip

def Mark.called? : Mark → Option (Nat × Effect)
  | .called _ registration effect => some (registration, effect)
  | _ => none

def Journal.calls (j : List Mark) : List (Nat × Effect) := j.filterMap Mark.called?

@[simp] theorem Journal.calls_append (j k : List Mark) : calls (j ++ k) = calls j ++ calls k :=
  List.filterMap_append

namespace Prober

open Journal

structure Passive (p : Prober) (marks : List Mark) (q : Prober) : Prop where
  config : q.config = p.config
  collaborators : q.collaborators = p.collaborators
  calls : calls marks = []

variable {p q r : Prober} {a b : List Mark}

theorem Passive.refl (p : Prober) : Passive p [] p := ⟨rfl, rfl, rfl⟩

theorem Passive.trans (h : Passive p a q) (k : Passive q b r) : Passive p (a ++ b) r := by
  refine ⟨k.config.trans h.config, k.collaborators.trans h.collaborators, ?_⟩
  rw [calls_append, h.calls, k.calls, List.append_nil]

theorem Passive.cons {m : Mark} (silent : m.called? = none) (h : Passive p a q) :
    Passive p (m :: a) q :=
  ⟨h.config, h.collaborators, (List.filterMap_cons_none silent).trans h.calls⟩

theorem Passive.closed : Closed Passive := by
  constructor
  case composes => exact ⟨.refl, .trans⟩
  case session => exact fun _ _ => ⟨rfl, rfl, rfl⟩
  case flights => exact fun _ _ => ⟨rfl, rfl, rfl⟩
  case unattended => exact fun _ _ => ⟨rfl, rfl, rfl⟩
  case note =>
    intro p m note
    refine ⟨rfl, rfl, List.filterMap_cons_none ?_⟩
    cases m with
    | registered | called | delivered | shutDown => cases note
    | _ => rfl
  case deliver =>
    intro p e byCollaborator
    rw [deliver]
    split <;> exact ⟨rfl, rfl, rfl⟩

theorem perform_passive {s : Step} (other : s.request? = none) (p : Prober) :
    Passive p (p.perform s).2.1 (p.perform s).2.2 := by
  refine Passive.closed.perform s ?control ?calls ?enters p
  case control => exact fun _ => ⟨fun _ => ⟨rfl, rfl, rfl⟩, fun _ => ⟨rfl, rfl, rfl⟩⟩
  case calls | enters => simp [other]

end Prober

end RoundTrip
