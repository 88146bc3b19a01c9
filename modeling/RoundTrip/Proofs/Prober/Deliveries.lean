import RoundTrip.Proofs.Prober.Quiet

namespace RoundTrip

def Mark.delivery? : Mark → Option (Duration × Event)
  | .delivered now e _ _ _ => some (now, e)
  | _ => none

def Journal.deliveries (j : List Mark) : List (Duration × Event) := j.filterMap Mark.delivery?

@[simp] theorem Journal.deliveries_append (j k : List Mark) :
    deliveries (j ++ k) = deliveries j ++ deliveries k :=
  List.filterMap_append

namespace Prober

open Journal

theorem deliveries_deliverAll (p : Prober) (es : List Event) :
    deliveries (p.deliverAll es).1 = es.map fun e => (p.now, e) := by
  induction es generalizing p with
  | nil => rfl
  | cons e es ih =>
    have later := ih (p.deliver e).2
    rw [deliver_now] at later
    exact congrArg (List.cons (p.now, e)) later

theorem deliveries_answer (p : Prober) (f : Flight) (effect : Effect) (conduct : Conduct) :
    deliveries (p.answer f effect conduct).1 =
      (conduct.deliveries p.topics effect).map fun e => (p.now, e) := by
  have delivered (rest : List Mark) (silent : deliveries rest = []) :
      deliveries ((p.deliverAll (conduct.deliveries p.topics effect)).1 ++ rest) =
        (conduct.deliveries p.topics effect).map fun e => (p.now, e) := by
    rw [deliveries_append, silent, List.append_nil, deliveries_deliverAll]
  rw [answer]
  cases conduct.failure with
  | none => exact delivered _ rfl
  | some error =>
    simp only [List.append_assoc]
    exact delivered _ rfl

theorem deliveries_answerDue (p : Prober) (fs : List Flight) :
    ∀ x ∈ deliveries (p.answerDue fs).1, x.1 = p.now := by
  induction fs generalizing p with
  | nil => exact fun x hx => by cases hx
  | cons f rest ih =>
    intro x hx
    rw [answerDue.eq_def] at hx
    simp only at hx
    split at hx
    next effect conduct due _ =>
      split at hx
      next =>
        rw [deliveries_append, deliveries_answer] at hx
        rcases List.mem_append.1 hx with hx | hx
        · obtain ⟨e, -, rfl⟩ := List.mem_map.1 hx
          rfl
        · exact (ih _ x hx).trans (answer_now p f effect conduct)
      next => exact ih p x hx
    next => exact ih p x hx

theorem deliveries_breakOff (p : Prober) (fs : List Flight) :
    deliveries (p.breakOff fs).1 = [] := by
  induction fs generalizing p with
  | nil => rfl
  | cons f rest ih =>
    rw [breakOff.eq_def]
    simp only
    split
    next =>
      split
      next => exact ih (p.beginWait f)
      next => exact ih p
    next => exact ih p

theorem deliveries_land (p : Prober) (es : List Pending.Ending) :
    deliveries (p.land es).1 = [] := by
  induction es generalizing p with
  | nil => rfl
  | cons e rest ih =>
    rw [land]
    split
    next => exact ih p
    next f _ => exact ih (p.dropFlight f.registration)

theorem deliveries_groundAll (p : Prober) (fs : List Flight) :
    deliveries (p.groundAll fs).1 = [] := by
  induction fs generalizing p with
  | nil => rfl
  | cons f rest ih => exact ih (p.release f)

theorem deliveries_settle (p : Prober) : deliveries p.settle.1 = [] := by
  cases down : p.shutDown with
  | true =>
    rw [settle_down down, deliveries_append, deliveries_groundAll, retire]
    split <;> rfl
  | false =>
    rw [settle_up down]
    exact deliveries_land _ _

theorem deliveries_endCalls (p : Prober) : ∀ x ∈ deliveries p.endCalls.1, x.1 = p.now := by
  intro x hx
  rw [endCalls, deliveries_append, deliveries_breakOff, List.append_nil] at hx
  exact deliveries_answerDue p p.flights x hx

theorem deliveries_endAll (p : Prober) : deliveries p.endAll.1 = deliveries p.endCalls.1 := by
  rw [endAll, deliveries_append, deliveries_settle, List.append_nil]

theorem deliveries_wake (p : Prober) : ∀ x ∈ deliveries p.wake.1, x.1 = p.now := by
  intro x hx
  rw [wake_eq, deliveries_endAll] at hx
  exact (deliveries_endCalls _ x hx).trans (Pending.Session.runSweeper_now p.session)

end Prober

end RoundTrip
