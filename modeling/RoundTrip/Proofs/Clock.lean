import Mathlib.Data.List.MinMax
import Mathlib.Order.Basic
import RoundTrip.Clock

/-!
What holds of every advance of a clock.

`advance_closed` is for what every instant keeps, however the timers stand. `advance_ahead` is for
machines that leave no timer behind: there every timer fires at its own instant, and an advance ends
at the instant it was asked for, with every timer still ahead.
-/

namespace RoundTrip.Clock

theorem first_le {timers : List Duration} {t : Duration} (h : timers.min? = some t) :
    ∀ d ∈ timers, t ≤ d :=
  (List.min?_eq_some_iff.1 h).2

theorem first_mem {timers : List Duration} {t : Duration} (h : timers.min? = some t) :
    t ∈ timers :=
  (List.min?_eq_some_iff.1 h).1

namespace Machine

variable {σ ω : Type} {m : Machine σ ω}

theorem runTo_over {target : Duration} {s : σ} (beyond : ∀ d ∈ m.timers s, target < d)
    (fuel : Nat) : m.runTo target fuel s = ([], m.setNow target s) := by
  cases fuel with
  | zero => rfl
  | succ fuel =>
    rw [runTo]
    split
    next => rfl
    next t first =>
      rw [if_pos (beyond t (first_mem first))]

structure Composes (R : σ → List ω → σ → Prop) : Prop where
  refl : ∀ s, R s [] s
  trans : ∀ {s t u : σ} {a b : List ω}, R s a t → R t b u → R s (a ++ b) u

section Closed

variable {I : σ → Prop} {R : σ → List ω → σ → Prop} (hR : Composes R)
  (setNow : ∀ t s, I s → I (m.setNow t s) ∧ R s [] (m.setNow t s))
  (wake : ∀ s, I s → I (m.wake s).2 ∧ R s (m.wake s).1 (m.wake s).2)
include hR setNow wake

theorem runTo_closed (target : Duration) (fuel : Nat) (s : σ) (hs : I s) :
    I (m.runTo target fuel s).2 ∧ R s (m.runTo target fuel s).1 (m.runTo target fuel s).2 := by
  induction fuel generalizing s with
  | zero => exact setNow target s hs
  | succ fuel ih =>
    rw [runTo]
    split
    next => exact setNow target s hs
    next t _ =>
      split
      next => exact setNow target s hs
      next =>
        obtain ⟨moved, hmoved⟩ := setNow (max (m.now s) t) s hs
        obtain ⟨woken, hwoken⟩ := wake _ moved
        obtain ⟨done, hdone⟩ := ih _ woken
        exact ⟨done, by simpa using hR.trans hmoved (hR.trans hwoken hdone)⟩

theorem advance_closed (d : Duration) (s : σ) (hs : I s) :
    I (m.advance d s).2 ∧ R s (m.advance d s).1 (m.advance d s).2 :=
  runTo_closed hR setNow wake _ _ s hs

end Closed

section Stamped

/-- The machine with the time of whatever it puts out. -/
def stamped (m : Machine σ ω) : Machine σ (Duration × ω) where
  now := m.now
  setNow := m.setNow
  timers := m.timers
  wake s := ((m.wake s).1.map (Prod.mk (m.now s)), (m.wake s).2)

theorem runTo_stamped (target : Duration) (fuel : Nat) (s : σ) :
    (m.stamped.runTo target fuel s).1.map Prod.snd = (m.runTo target fuel s).1 ∧
      (m.stamped.runTo target fuel s).2 = (m.runTo target fuel s).2 := by
  induction fuel generalizing s with
  | zero => exact ⟨rfl, rfl⟩
  | succ fuel ih =>
    rw [runTo, runTo, show m.stamped.timers s = m.timers s from rfl]
    split
    next => exact ⟨rfl, rfl⟩
    next t _ =>
      split
      next => exact ⟨rfl, rfl⟩
      next =>
        obtain ⟨out, state⟩ := ih (m.wake (m.setNow (max (m.now s) t) s)).2
        refine ⟨?_, state⟩
        rw [List.map_append]
        refine congrArg₂ (· ++ ·) ?_ out
        simp [stamped, Function.comp_def]

theorem advance_stamped (d : Duration) (s : σ) :
    (m.stamped.advance d s).1.map Prod.snd = (m.advance d s).1 ∧
      (m.stamped.advance d s).2 = (m.advance d s).2 :=
  runTo_stamped _ _ s

end Stamped

section Image

variable {g : σ → σ} {h : ω → ω} (now : ∀ s, m.now (g s) = m.now s)
  (setNow : ∀ t s, m.setNow t (g s) = g (m.setNow t s))
  (timers : ∀ s, m.timers (g s) = m.timers s)
  (wake : ∀ s, m.wake (g s) = ((m.wake s).1.map h, g (m.wake s).2))
include now setNow timers wake

theorem runTo_image (target : Duration) (fuel : Nat) (s : σ) :
    m.runTo target fuel (g s) =
      ((m.runTo target fuel s).1.map h, g (m.runTo target fuel s).2) := by
  induction fuel generalizing s with
  | zero => simp only [runTo, setNow, List.map_nil]
  | succ fuel ih =>
    rw [runTo, runTo, timers]
    split
    next => simp only [setNow, List.map_nil]
    next t _ =>
      split
      next => simp only [setNow, List.map_nil]
      next => simp only [now, setNow, wake, ih, List.map_append]

theorem advance_image (d : Duration) (s : σ) :
    m.advance d (g s) = ((m.advance d s).1.map h, g (m.advance d s).2) := by
  rw [advance, advance, now]
  exact runTo_image now setNow timers wake _ _ s

end Image

section Ahead

variable {I : σ → Prop} {R : σ → List ω → σ → Prop} (hR : Composes R)
  (ahead : ∀ s, I s → ∀ d ∈ m.timers s, m.now s < d)
  (pass : ∀ t s, I s → m.now s ≤ t → (∀ d ∈ m.timers s, t < d) →
    I (m.setNow t s) ∧ m.now (m.setNow t s) = t ∧ R s [] (m.setNow t s))
  (fire : ∀ t s, I s → m.now s ≤ t → (∀ d ∈ m.timers s, t ≤ d) →
    I (m.wake (m.setNow t s)).2 ∧ m.now (m.wake (m.setNow t s)).2 = t ∧
      R s (m.wake (m.setNow t s)).1 (m.wake (m.setNow t s)).2)
include hR ahead pass fire

/-- Every round fires a timer ahead and so moves the clock, which is why the fuel lasts. -/
theorem runTo_ahead (target : Duration) (fuel : Nat) (s : σ) (hs : I s) (hle : m.now s ≤ target)
    (hfuel : target < m.now s + fuel) :
    I (m.runTo target fuel s).2 ∧ m.now (m.runTo target fuel s).2 = target ∧
      R s (m.runTo target fuel s).1 (m.runTo target fuel s).2 := by
  induction fuel generalizing s with
  | zero => lia
  | succ fuel ih =>
    rw [runTo]
    split
    next none_set =>
      refine pass target s hs hle fun d hd => ?_
      rw [List.min?_eq_none_iff.1 none_set] at hd
      cases hd
    next t first =>
      split
      next hlt =>
        apply pass target s hs hle
        intro d hd
        exact lt_of_lt_of_le hlt (first_le first d hd)
      next hnot =>
        have later : m.now s < t := ahead s hs t (first_mem first)
        rw [max_eq_right later.le]
        obtain ⟨woken, hnow, hwoken⟩ := fire t s hs later.le (first_le first)
        obtain ⟨done, hdone, hrest⟩ := ih _ woken (by lia) (by lia)
        exact ⟨done, hdone, hR.trans hwoken hrest⟩

theorem advance_ahead (d : Duration) (s : σ) (hs : I s) :
    I (m.advance d s).2 ∧ m.now (m.advance d s).2 = m.now s + d ∧
      R s (m.advance d s).1 (m.advance d s).2 :=
  runTo_ahead hR ahead pass fire _ _ s hs (by lia) (by lia)

end Ahead

section Part

variable {I : σ → Prop}
  (ahead : ∀ s, I s → ∀ d ∈ m.timers s, m.now s < d)
  (pass : ∀ t s, I s → m.now s ≤ t → (∀ d ∈ m.timers s, t < d) → I (m.setNow t s))
  (fire : ∀ t s, I s → m.now s ≤ t → (∀ d ∈ m.timers s, t ≤ d) →
    I (m.wake (m.setNow t s)).2 ∧ m.now (m.wake (m.setNow t s)).2 = t)
  (idle : ∀ s, I s → m.wake s = ([], s))
  (reset : ∀ t u s, m.setNow u (m.setNow t s) = m.setNow u s)
  (now_setNow : ∀ t s, m.now (m.setNow t s) = t)
  (timers_setNow : ∀ t s, m.timers (m.setNow t s) = m.timers s)

include reset now_setNow timers_setNow in
theorem runTo_pass {target t : Duration} {fuel : Nat} {s : σ} (hle : m.now s ≤ t)
    (later : ∀ d ∈ m.timers s, t < d) :
    m.runTo target fuel (m.setNow t s) = m.runTo target fuel s := by
  cases fuel with
  | zero => simp only [runTo, reset]
  | succ fuel =>
    rw [runTo, runTo, timers_setNow, now_setNow, reset]
    split
    next => rfl
    next u first =>
      have set : t < u := later u (first_mem first)
      rw [reset, max_eq_right set.le, max_eq_right (hle.trans set.le)]

variable {A : ω → Prop} {g : σ → σ} {h : List ω → List ω} (keeps : ∀ s, I s → I (g s))
  (h_nil : h [] = []) (h_append : ∀ a b, h (a ++ b) = h a ++ h b)
  (now : ∀ s, m.now (g s) = m.now s) (setNow : ∀ t s, m.setNow t (g s) = g (m.setNow t s))
  (timers : ∀ s, m.timers (g s) ⊆ m.timers s)
  (wake : ∀ t s, I s → m.now s ≤ t → (∀ d ∈ m.timers s, t ≤ d) →
    (∀ o ∈ (m.wake (m.setNow t s)).1, A o) → m.wake (g (m.setNow t s)) =
      (h (m.wake (m.setNow t s)).1, g (m.wake (m.setNow t s)).2))
include ahead pass fire idle reset now_setNow timers_setNow keeps h_nil h_append now setNow
  timers wake

/-- A part of a state that has some of its timers goes through the rounds that these fire, and the
rounds of other timers pass it by, as long as nothing is put out that the part depends on. -/
theorem runTo_part (target : Duration) (fuel fuel' : Nat) (s : σ) (hs : I s)
    (hle : m.now s ≤ target) (hfuel : target < m.now s + fuel) (hfuel' : target < m.now s + fuel')
    (allowed : ∀ o ∈ (m.runTo target fuel s).1, A o) :
    m.runTo target fuel' (g s) =
      (h (m.runTo target fuel s).1, g (m.runTo target fuel s).2) := by
  induction fuel generalizing s fuel' with
  | zero => lia
  | succ fuel ih =>
    obtain _ | fuel' := fuel'
    · lia
    have over_both (beyond : ∀ d ∈ m.timers s, target < d) :
        m.runTo target (fuel' + 1) (g s) =
          (h (m.runTo target (fuel + 1) s).1, g (m.runTo target (fuel + 1) s).2) := by
      rw [runTo_over beyond, runTo_over fun d hd => beyond d (timers s hd), h_nil, setNow]
    cases first : (m.timers s).min? with
    | none => exact over_both (by simp [List.min?_eq_none_iff.1 first])
    | some t =>
      by_cases hlt : target < t
      · exact over_both fun d hd => lt_of_lt_of_le hlt (first_le first d hd)
      · have later : m.now s < t := ahead s hs t (first_mem first)
        have hmax : max (m.now s) t = t := max_eq_right later.le
        obtain ⟨woken, hnow⟩ := fire t s hs later.le (first_le first)
        have round : m.runTo target (fuel + 1) s =
            ((m.wake (m.setNow t s)).1 ++
              (m.runTo target fuel (m.wake (m.setNow t s)).2).1,
              (m.runTo target fuel (m.wake (m.setNow t s)).2).2) := by
          rw [runTo.eq_2 m target s fuel, first]
          simp only [if_neg hlt, hmax]
        rw [round] at allowed
        have shares := wake t s hs later.le (first_le first) fun o ho =>
          allowed o (List.mem_append_left _ ho)
        have allowed_later : ∀ o ∈ (m.runTo target fuel (m.wake (m.setNow t s)).2).1,
            A o := fun o ho => allowed o (List.mem_append_right _ ho)
        rw [round]
        simp only [h_append]
        by_cases its : t ∈ m.timers (g s)
        · have first' : (m.timers (g s)).min? = some t :=
            List.min?_eq_some_iff.2 ⟨its, fun u hu => first_le first u (timers s hu)⟩
          rw [runTo, first']
          simp only [if_neg hlt, now, hmax, setNow, shares]
          rw [ih fuel' _ woken (by lia) (by lia) (by lia) allowed_later]
        · have others : ∀ u ∈ m.timers (g s), t < u := by
            intro u hu
            exact lt_of_le_of_ne (first_le first u (timers s hu)) fun same => its (same ▸ hu)
          have le_part : m.now (g s) ≤ t := by rw [now]; exact later.le
          have passed := pass t (g s) (keeps s hs) le_part others
          rw [← setNow, idle _ passed] at shares
          obtain ⟨unseen, part⟩ := Prod.mk.inj shares
          rw [← runTo_pass reset now_setNow timers_setNow le_part others, part,
            ih (fuel' + 1) _ woken (by lia) (by lia) (by lia) allowed_later, ← unseen,
            List.nil_append]

theorem advance_part (d : Duration) (s : σ) (hs : I s) (allowed : ∀ o ∈ (m.advance d s).1, A o) :
    m.advance d (g s) = (h (m.advance d s).1, g (m.advance d s).2) := by
  rw [advance, advance, now]
  exact runTo_part ahead pass fire idle reset now_setNow timers_setNow keeps h_nil h_append
    now setNow timers wake _ _ _ s hs (by lia) (by lia) (by lia) allowed

end Part

end Machine

end RoundTrip.Clock
