import RoundTrip.Proofs.Pending.Reach
import RoundTrip.Proofs.Pending.Sight

/-!
What is left and what is said when all waits have ended that can. The waits do not get in each
other's way, so each waiter is looked at on its own.
-/

namespace RoundTrip.Pending

def about (registration : Nat) (marks : List Mark) : List Mark :=
  marks.filter fun m => m.registration = registration

def others (registration : Nat) (marks : List Mark) : List Mark :=
  marks.filter fun m => m.registration ≠ registration

section

variable {r : Nat} {marks : List Mark}

@[simp] theorem about_append (r : Nat) (a b : List Mark) :
    about r (a ++ b) = about r a ++ about r b :=
  List.filter_append _ _

theorem about_none (other : ∀ m ∈ marks, m.registration ≠ r) : about r marks = [] := by
  rw [about, List.filter_eq_nil_iff]
  simpa using other

@[simp] theorem others_nil (r : Nat) : others r [] = [] := rfl

@[simp] theorem others_append (r : Nat) (a b : List Mark) :
    others r (a ++ b) = others r a ++ others r b :=
  List.filter_append _ _

theorem others_all (all : ∀ m ∈ marks, m.registration ≠ r) : others r marks = marks := by
  rw [others, List.filter_eq_self]
  simpa using all

end

theorem Slot.full_of_outcome {slot : Slot} {outcome : Outcome}
    (told : slot.outcome? = some outcome) : slot ≠ .empty := by
  rintro rfl
  cases told

namespace Session

variable {s t : Session} {w : Waiter} {outcome : Outcome}

theorem Sound.ext (hs : s.Sound) (ht : t.Sound) (now : s.now = t.now)
    (waiters : s.waiters = t.waiters) (next : s.table.next = t.table.next)
    (closed : s.table.closed = t.table.closed) (sweeper : s.sweeper = t.sweeper) : s = t := by
  have entries : s.table.entries = t.table.entries := by rw [hs.entries, ht.entries, waiters]
  rw [Session.mk.injEq, Table.mk.injEq]
  exact ⟨now, ⟨entries, closed, next⟩, waiters, sweeper⟩

theorem Sound.released_eq (h : s.Sound) (hw : w ∈ s.waiters) (exit : Exit) :
    s.released w exit = if w.slot = .empty then [.removed w.entry exit] else [] := by
  rw [released, h.own_entries hw]
  split <;> rfl

theorem Sound.held_iff (h : s.Sound) (hw : w ∈ s.waiters) :
    w.entry ∈ s.table.entries ↔ w.slot = .empty := by
  refine ⟨?_, h.entry_mem hw⟩
  intro held
  obtain ⟨v, hv, empty, same⟩ := h.mem_entries.1 held
  rwa [h.waiter_unique hv hw (congrArg Entry.registration same)] at empty

theorem ending?_begun (s : Session) {w : Waiter} (told : w.slot.outcome? = some outcome) :
    s.ending? { w with waiting := true } = some outcome := by
  simp [ending?, told]

def farewell (s : Session) (w : Waiter) : List Mark :=
  match s.ending? w with
  | none => []
  | some outcome =>
    (if w.slot = .empty then [.removed w.entry .timedOut] else []) ++
      [.ended ⟨s.now, w, outcome⟩]

theorem farewell_of_none (stays : s.ending? w = none) : s.farewell w = [] := by
  rw [farewell, stays]

theorem farewell_of_some (ends : s.ending? w = some outcome) : s.farewell w =
    (if w.slot = .empty then [.removed w.entry .timedOut] else []) ++
      [.ended ⟨s.now, w, outcome⟩] := by
  rw [farewell, ends]

theorem Sound.finishEach_marks (h : s.Sound) {ws : List Waiter} (hws : ∀ w ∈ ws, w ∈ s.waiters)
    (distinct : ws.Pairwise fun v w => v.registration ≠ w.registration) :
    (s.finishEach ws).1 = ws.flatMap s.farewell := by
  induction ws generalizing s with
  | nil => rfl
  | cons w rest ih =>
    rw [List.pairwise_cons] at distinct
    have hw : w ∈ s.waiters := hws w List.mem_cons_self
    rw [finishEach, List.flatMap_cons]
    split
    next stays =>
      rw [farewell_of_none stays]
      exact ih h (fun v hv => hws v (List.mem_cons_of_mem _ hv)) distinct.2
    next outcome ends =>
      have stay : ∀ v ∈ rest, v ∈ (s.leave w).waiters := by
        intro v hv
        have apart : v.registration ≠ w.registration := (distinct.1 v hv).symm
        exact List.mem_filter.2 ⟨hws v (List.mem_cons_of_mem _ hv), by simpa using apart⟩
      -- whoever goes first, the farewell of the others stays the same
      have later : ((s.leave w).finishEach rest).1 = rest.flatMap s.farewell :=
        ih (h.leave hw) stay distinct.2
      simp only [later, h.released_eq hw, farewell_of_some ends, List.append_assoc,
        List.singleton_append]

theorem finishEach_left (s : Session) (ws : List Waiter) :
    (s.finishEach ws).2.waiters =
      s.waiters.filter fun v => ws.all fun w =>
        v.registration ≠ w.registration || (s.ending? w).isNone := by
  induction ws generalizing s with
  | nil => exact (List.filter_true _).symm
  | cons w rest ih =>
    rw [finishEach]
    split
    next stays =>
      simp only [ih, List.all_cons, stays, Option.isNone_none, Bool.or_true, Bool.true_and]
    next outcome ends =>
      simp only [ih, leave, List.filter_filter, List.all_cons, ends, Option.isNone_some,
        Bool.or_false, Bool.and_comm]
      rfl

theorem Sound.finish_waiters (h : s.Sound) :
    s.finish.2.waiters = s.waiters.filter fun w => (s.ending? w).isNone := by
  rw [finish, finishEach_left]
  apply List.filter_congr
  intro v hv
  rw [Bool.eq_iff_iff, List.all_eq_true]
  constructor
  · intro each
    simpa using each v hv
  · intro stays w hw
    by_cases same : v.registration = w.registration
    · rw [← h.waiter_unique hv hw same, stays, Bool.or_true]
    · simp [same]

theorem Sound.finish_marks (h : s.Sound) : s.finish.1 = s.waiters.flatMap s.farewell :=
  h.finishEach_marks (fun _ hw => hw) (h.ordered.imp Nat.ne_of_lt)

theorem farewell_registration : ∀ m ∈ s.farewell w, m.registration = w.registration := by
  intro m hm
  rw [farewell] at hm
  split at hm
  next => cases hm
  next =>
    rcases List.mem_append.1 hm with hm | hm
    · split at hm
      next =>
        obtain rfl := List.mem_singleton.1 hm
        rfl
      next => cases hm
    · obtain rfl := List.mem_singleton.1 hm
      rfl

theorem about_farewell (s : Session) (w : Waiter) :
    about w.registration (s.farewell w) = s.farewell w := by
  rw [about, List.filter_eq_self]
  intro m hm
  exact decide_eq_true (farewell_registration m hm)

theorem filter_farewells (p : Nat → Bool) (s : Session) (ws : List Waiter) :
    ((ws.flatMap s.farewell).filter fun m => p m.registration) =
      (ws.filter fun w => p w.registration).flatMap s.farewell := by
  induction ws with
  | nil => rfl
  | cons w rest ih =>
    rw [List.flatMap_cons, List.filter_append, ih]
    cases own : p w.registration with
    | false =>
      have silent : ((s.farewell w).filter fun m => p m.registration) = [] := by
        rw [List.filter_eq_nil_iff]
        intro m hm
        simp [farewell_registration m hm, own]
      rw [silent, List.nil_append, List.filter_cons, own]
      rfl
    | true =>
      have heard : ((s.farewell w).filter fun m => p m.registration) = s.farewell w := by
        rw [List.filter_eq_self]
        intro m hm
        rw [farewell_registration m hm, own]
      rw [heard, List.filter_cons, own]
      rfl

theorem Sound.about_finish (h : s.Sound) (r : Nat) :
    about r s.finish.1 = (s.waiters.filter fun w => w.registration = r).flatMap s.farewell := by
  rw [h.finish_marks, about, filter_farewells fun n => decide (n = r)]

theorem Sound.about_finish_own (h : s.Sound) (hw : w ∈ s.waiters) :
    about w.registration s.finish.1 = s.farewell w := by
  have distinct : s.waiters.Pairwise fun v w => v.registration ≠ w.registration :=
    h.ordered.imp Nat.ne_of_lt
  rw [h.about_finish, filter_eq_singleton distinct hw, List.flatMap_singleton]

theorem finishEach_table (s : Session) (ws : List Waiter) :
    (s.finishEach ws).2.table.next = s.table.next ∧
      (s.finishEach ws).2.table.closed = s.table.closed := by
  induction ws generalizing s with
  | nil => exact ⟨rfl, rfl⟩
  | cons w rest ih =>
    rw [finishEach]
    split
    next => exact ih s
    next => exact ih (s.leave w)

/-- Whoever has the registration has been told something, and it is one of these. -/
structure Told (s : Session) (registration : Nat) (P : Slot → Prop) : Prop where
  given : registration < s.table.next
  slot : ∀ w ∈ s.waiters, w.registration = registration → P w.slot

variable {r : Nat} {P : Slot → Prop} {marks : List Mark}

theorem Move.told (m : Move s marks t) (sound : s.Sound) (full : ¬ P .empty) (h : s.Told r P) :
    t.Told r P := by
  refine ⟨h.given.trans_le (m.numbers sound).1, ?_⟩
  cases m with
  | register registered =>
    obtain ⟨-, -, -, rfl⟩ := register_ok registered
    intro w hw own
    rcases List.mem_append.1 hw with hw | hw
    · exact h.slot w hw own
    · obtain rfl := List.mem_singleton.1 hw
      exact absurd own h.given.ne'
  | withdraw p =>
    intro w hw own
    obtain ⟨v, hv, rfl⟩ := List.mem_map.1 hw
    rw [withdraw_registration] at own
    have said := h.slot v hv own
    have other : v.slot ≠ .empty := fun empty => full (empty ▸ said)
    rw [if_neg fun held => other held.1]
    exact said
  | wait u =>
    intro w hw own
    obtain ⟨v, hv, rfl⟩ := List.mem_map.1 hw
    by_cases begins : v.registration = u.registration
    · rw [if_pos begins] at own ⊢
      exact h.slot v hv own
    · rw [if_neg begins] at own ⊢
      exact h.slot v hv own
  | leave | finish =>
    intro w hw
    exact h.slot w (List.mem_of_mem_filter hw)
  | tick _ waiters =>
    rw [waiters]
    exact h.slot
  | skip | shut => exact h.slot

theorem Moves.told (m : Moves s marks t) (sound : s.Sound) (full : ¬ P .empty)
    (h : s.Told r P) : t.Told r P := by
  induction m with
  | refl => exact h
  | step move _ ih => exact ih (move.sound sound) (move.told sound full h)

theorem perform_snd (s : Session) (op : Op) : (s.perform op).2 =
    ((s.act op).2.1 ++ (s.act op).2.2.finish.1, (s.act op).2.2.finish.2) := rfl

theorem run_cons (s : Session) (op : Op) (rest : List Op) : s.run (op :: rest) =
    ((s.perform op).2.1 ++ ((s.perform op).2.2.run rest).1, ((s.perform op).2.2.run rest).2) := rfl

theorem Quiet.finish_self (h : Quiet s) : s.finish = ([], s) := finishEach_nothing h.resting

theorem perform_of_act {op : Op} {x : List Mark × Session} (acts : (s.act op).2 = x)
    (rests : Quiet x.2) : (s.perform op).2 = x := by
  rw [perform_snd, acts, rests.finish_self, List.append_nil]

theorem Quiet.perform_startSweeper (h : Quiet s) (interval : Duration) :
    (s.perform (.startSweeper interval)).2 = (s.startSweeper interval).turn :=
  perform_of_act rfl (h.startSweeper interval)

theorem Quiet.perform_advance (h : Quiet s) (d : Duration) :
    (s.perform (.advance d)).2 = machine.advance d s :=
  perform_of_act rfl (h.advance d)

theorem flatMap_eq_of_mem {α β : Type} {f : α → List β} {l : List α} {a : α}
    (distinct : l.Nodup) (ha : a ∈ l) (other : ∀ b ∈ l, b ≠ a → f b = []) :
    l.flatMap f = f a := by
  induction l with
  | nil => cases ha
  | cons b l ih =>
    obtain ⟨apart, distinct⟩ := List.nodup_cons.1 distinct
    rw [List.flatMap_cons]
    rcases List.mem_cons.1 ha with rfl | ha
    · have rest : l.flatMap f = [] := by
        rw [List.flatMap_eq_nil_iff]
        intro b hb
        exact other b (List.mem_cons_of_mem _ hb) fun same => apart (same ▸ hb)
      rw [rest, List.append_nil]
    · rw [other b List.mem_cons_self fun same => apart (same ▸ ha), List.nil_append]
      exact ih distinct ha fun b hb => other b (List.mem_cons_of_mem _ hb)

theorem Sound.waiters_nodup (h : s.Sound) : s.waiters.Nodup :=
  h.ordered.imp fun less same => Nat.ne_of_lt less (congrArg Waiter.registration same)

theorem Quiet.leave (h : Quiet s) (hw : w ∈ s.waiters) : Quiet (s.leave w) := by
  refine ⟨⟨h.sound.leave hw, h.sweeper⟩, ?_⟩
  intro v hv
  exact h.resting v (List.mem_of_mem_filter hv)

theorem Quiet.perform_leave (h : Quiet s) (hw : w ∈ s.waiters) :
    s.perform (.leave w.registration) = (.none, s.released w .left, s.leave w) := by
  have acts : s.act (.leave w.registration) = (.none, s.released w .left, s.leave w) := by
    rw [Session.act, h.sound.waiter?_eq hw]
  rw [Session.perform, acts]
  simp only [(h.leave hw).finish_self, List.append_nil]

theorem Quiet.finish_beginWait (h : Quiet s) (hw : w ∈ s.waiters) :
    (s.beginWait w).finish =
      (s.farewell { w with waiting := true },
        if (s.ending? { w with waiting := true }).isSome then s.leave w else s.beginWait w) := by
  have sound := h.sound.beginWait w
  have own (v : Waiter) (hv : v ∈ s.waiters) (same : v.registration = w.registration) : v = w :=
    h.sound.waiter_unique hv hw same
  have marks : (s.beginWait w).finish.1 = s.farewell { w with waiting := true } := by
    have begun : (if w.registration = w.registration then { w with waiting := true } else w) =
        { w with waiting := true } := if_pos rfl
    rw [sound.finish_marks, beginWait, update, List.flatMap_map, ← begun]
    refine flatMap_eq_of_mem h.sound.waiters_nodup hw ?_
    intro v hv apart
    rw [if_neg fun same => apart (own v hv same)]
    exact farewell_of_none (h.resting v hv)
  refine Prod.ext marks ?_
  cases ends : s.ending? { w with waiting := true } with
  | none =>
    have rest : ∀ v ∈ (s.beginWait w).waiters, (s.beginWait w).ending? v = none := by
      intro v hv
      obtain ⟨u, hu, rfl⟩ := List.mem_map.1 hv
      split
      next same =>
        rw [own u hu same]
        exact ends
      next => exact h.resting u hu
    rw [Session.finish, finishEach_nothing rest]
    rfl
  | some outcome =>
    have table := finishEach_table (s.beginWait w) (s.beginWait w).waiters
    have keeps := finishEach_keeps (s.beginWait w) (s.beginWait w).waiters
    refine Sound.ext (sound.finish_moves.sound sound) (h.sound.leave hw) keeps.1 ?_ table.1 table.2
      keeps.2
    rw [sound.finish_waiters, beginWait, update, List.filter_map, Session.leave]
    have left : ∀ v ∈ s.waiters, ((fun v => (s.ending? v).isNone) ∘ fun v : Waiter =>
        if v.registration = w.registration then { v with waiting := true } else v) v =
          decide (v.registration ≠ w.registration) := by
      intro v hv
      by_cases same : v.registration = w.registration
      · rw [Function.comp_apply, if_pos same, own v hv same, ends]
        simp
      · rw [Function.comp_apply, if_neg same, h.resting v hv]
        simp [same]
    refine Eq.trans (congrArg _ (List.filter_congr left)) ?_
    refine Eq.trans (List.map_congr_left ?_) (List.map_id _)
    intro v hv
    exact if_neg (of_decide_eq_true (List.mem_filter.1 hv).2)

theorem Quiet.perform_wait (h : Quiet s) (hw : w ∈ s.waiters) :
    s.perform (.wait w.registration) =
      (.none, s.farewell { w with waiting := true },
        if (s.ending? { w with waiting := true }).isSome then s.leave w else s.beginWait w) := by
  have acts : s.act (.wait w.registration) = (.none, [], s.beginWait w) := by
    rw [Session.act, h.sound.waiter?_eq hw]
  rw [Session.perform, acts]
  simp only [h.finish_beginWait hw, List.nil_append]

end Session

end RoundTrip.Pending
