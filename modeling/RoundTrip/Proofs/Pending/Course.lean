import RoundTrip.Proofs.Pending.Timeline
import RoundTrip.Proofs.Pending.Withdraw

/-!
The course of a run. An operation acts at one instant; its effect and the waits that it lets end at
that instant make a course.
-/

namespace RoundTrip.Pending

theorem isWait_removed {exit : Exit} {slot : Slot} (tells : exit.slot? = some slot) (e : Entry) :
    (Mark.removed e exit).isWait = false := by
  cases exit <;> first | rfl | cases tells

namespace Session

variable {ops : List Op} {s t : Session} {w : Waiter} {r : Nat}

/-- What an act does of itself to a waiter that has been told nothing. -/
inductive WaiterEffect (ops : List Op) (w : Waiter) (marks : List Mark) (t : Session) : Prop
  | spared : about w.registration marks = [] → w ∈ t.waiters → WaiterEffect ops w marks t
  | told {exit : Exit} {slot : Slot} : exit.slot? = some slot →
      about w.registration marks = [.removed w.entry exit] → { w with slot } ∈ t.waiters →
      WaiterEffect ops w marks t
  | left : .leave w.registration ∈ ops →
      about w.registration marks = [.removed w.entry .left] → t.Departed w.registration →
      WaiterEffect ops w marks t

/-- What an act does of itself to every registration. -/
structure ActEffect (ops : List Op) (s : Session) (marks : List Mark) (t : Session) : Prop where
  sound : t.Sound
  now : t.now = s.now
  gone : ∀ r, s.Departed r → about r marks = [] ∧ t.Departed r
  waiter : ∀ w, s.Untold w → WaiterEffect ops w marks t
  unwaited : ∀ r, .wait r ∉ ops → s.Unwaited r →
    t.Unwaited r ∧ ∀ m ∈ about r marks, m.isWait = false

theorem ActEffect.same (sound : t.Sound) (now : t.now = s.now) (next : s.table.next ≤ t.table.next)
    (waiters : t.waiters = s.waiters) : ActEffect ops s [] t := by
  refine ⟨sound, now, ?_, ?_, ?_⟩
  · intro r gone
    refine ⟨rfl, sound.departed (gone.given.trans_le next) ?_⟩
    rw [waiters]
    exact gone.waiter
  · intro w untold
    refine .spared rfl ?_
    rw [waiters]
    exact untold.mem
  · intro r _ unwaited
    refine ⟨?_, fun m hm => by cases hm⟩
    rw [Unwaited, waiters]
    exact unwaited

theorem ActEffect.congr {marks : List Mark} {u : Session} (h : ActEffect ops s marks t)
    (now : u.now = t.now) (table : u.table = t.table) (waiters : u.waiters = t.waiters) :
    ActEffect ops s marks u := by
  have gone_still {r : Nat} (gone : t.Departed r) : u.Departed r :=
    ⟨table ▸ gone.given, waiters ▸ gone.waiter, table ▸ gone.entry⟩
  refine ⟨h.sound.congr table waiters, now.trans h.now, ?_, ?_, ?_⟩
  · intro r gone
    obtain ⟨silent, gone⟩ := h.gone r gone
    exact ⟨silent, gone_still gone⟩
  · intro w untold
    cases h.waiter w untold with
    | spared silent there => exact .spared silent (waiters ▸ there)
    | told tells removed there => exact .told tells removed (waiters ▸ there)
    | left given_up removed gone => exact .left given_up removed (gone_still gone)
  · intro r never unwaited
    rw [Unwaited, waiters]
    exact h.unwaited r never unwaited

theorem ActEffect.before {marks : List Mark} {u : Session} (h : ActEffect ops u marks t)
    (now : u.now = s.now) (table : u.table = s.table) (waiters : u.waiters = s.waiters) :
    ActEffect ops s marks t := by
  refine ⟨h.sound, h.now.trans now, ?_, ?_, ?_⟩
  · intro r gone
    exact h.gone r ⟨table ▸ gone.given, waiters ▸ gone.waiter, table ▸ gone.entry⟩
  · intro w untold
    exact h.waiter w ⟨waiters ▸ untold.mem, untold.waits, untold.empty⟩
  · intro r never unwaited
    exact h.unwaited r never (by rwa [Unwaited, waiters])

theorem Sound.numbered_entries (h : s.Sound) (hw : w ∈ s.waiters) :
    (s.table.entries.filter fun e => e.registration = w.registration) =
      if w.slot = .empty then [w.entry] else [] := by
  rw [← h.own_entries hw]
  apply List.filter_congr
  intro e he
  obtain ⟨v, hv, -, rfl⟩ := h.mem_entries.1 he
  by_cases own : v.registration = w.registration
  · rw [h.waiter_unique hv hw own]
    simp
  · simp [own]

theorem Sound.about_withdraw (h : s.Sound) (hw : w ∈ s.waiters) (p : Entry → Bool) (exit : Exit) :
    about w.registration ((s.table.entries.filter p).map fun e => .removed e exit) =
      if w.slot = .empty ∧ p w.entry = true then [.removed w.entry exit] else [] := by
  have kept : (s.table.entries.filter p).filter (fun e => e.registration = w.registration) =
      (if w.slot = .empty then [w.entry] else []).filter p := by
    rw [← h.numbered_entries hw, List.filter_filter, List.filter_filter]
    apply List.filter_congr
    intro e _
    exact Bool.and_comm _ _
  rw [about_removed, kept]
  by_cases empty : w.slot = .empty
  · cases taken : p w.entry <;> simp [empty, taken]
  · simp [empty]

theorem ActEffect.withdraw (h : s.Sound) {p : Entry → Bool} {exit : Exit} {slot : Slot}
    (tells : exit.slot? = some slot) (sound : t.Sound) (now : t.now = s.now)
    (next : t.table.next = s.table.next)
    (waiters : t.waiters = s.waiters.map (withdrawn p slot)) :
    ActEffect ops s ((s.table.entries.filter p).map fun e => .removed e exit) t := by
  refine ⟨sound, now, ?_, ?_, ?_⟩
  · intro r gone
    constructor
    · apply about_none
      intro m hm
      obtain ⟨e, he, rfl⟩ := List.mem_map.1 hm
      exact gone.entry e (List.mem_of_mem_filter he)
    · refine sound.departed (gone.given.trans_eq next.symm) ?_
      intro w hw
      rw [waiters] at hw
      obtain ⟨v, hv, rfl⟩ := List.mem_map.1 hw
      rw [withdrawn_number]
      exact gone.waiter v hv
  · intro w untold
    have there : withdrawn p slot w ∈ t.waiters := by
      rw [waiters]
      exact List.mem_map_of_mem untold.mem
    have marks := h.about_withdraw untold.mem p exit
    rw [withdrawn] at there
    split at there
    next taken => exact .told tells (by rw [marks, if_pos taken]) there
    next spared => exact .spared (by rw [marks, if_neg spared]) there
  · intro r _ unwaited
    constructor
    · intro w hw own
      rw [waiters] at hw
      obtain ⟨v, hv, rfl⟩ := List.mem_map.1 hw
      rw [withdrawn_number] at own
      have waiting : (withdrawn p slot v).waiting = v.waiting := by
        rw [withdrawn]
        split <;> rfl
      rw [waiting]
      exact unwaited v hv own
    · intro m hm
      obtain ⟨e, -, rfl⟩ := List.mem_map.1 (mem_about.1 hm).1
      exact isWait_removed tells e

theorem ActEffect.register (h : s.Sound) {name : String} {key : Key} {deadline : Duration}
    (registered : s.register name key deadline = .ok t) :
    ActEffect ops s [.registered ⟨key, s.table.next, deadline⟩] t := by
  have sound := h.register registered
  obtain ⟨-, -, -, rfl⟩ := register_ok registered
  have silent {r : Nat} (given : r < s.table.next) :
      about r [.registered ⟨key, s.table.next, deadline⟩] = [] := by
    apply about_none
    intro m hm
    obtain rfl := List.mem_singleton.1 hm
    exact given.ne'
  refine ⟨sound, rfl, ?_, ?_, ?_⟩
  · intro r gone
    refine ⟨silent gone.given, sound.departed (gone.given.trans (Nat.lt_succ_self _)) ?_⟩
    intro w hw
    rcases List.mem_append.1 hw with hw | hw
    · exact gone.waiter w hw
    · obtain rfl := List.mem_singleton.1 hw
      exact gone.given.ne'
  · intro w untold
    exact .spared (silent (h.below w untold.mem)) (List.mem_append_left _ untold.mem)
  · intro r _ unwaited
    constructor
    · intro w hw own
      rcases List.mem_append.1 hw with hw | hw
      · exact unwaited w hw own
      · obtain rfl := List.mem_singleton.1 hw
        rfl
    · intro m hm
      obtain rfl := List.mem_singleton.1 (mem_about.1 hm).1
      rfl

theorem ActEffect.wait (h : s.Sound) (begins : .wait w.registration ∈ ops) :
    ActEffect ops s [] (s.beginWait w) := by
  have sound := h.beginWait w
  have number (v : Waiter) :
      (if v.registration = w.registration then { v with waiting := true } else v).registration =
        v.registration := by
    split <;> rfl
  refine ⟨sound, rfl, ?_, ?_, ?_⟩
  · intro r gone
    refine ⟨rfl, sound.departed gone.given ?_⟩
    intro u hu
    obtain ⟨v, hv, rfl⟩ := List.mem_map.1 hu
    rw [number]
    exact gone.waiter v hv
  · intro v untold
    refine .spared rfl (List.mem_map.2 ⟨v, untold.mem, ?_⟩)
    split
    next => rw [← untold.waits]
    next => rfl
  · intro r never unwaited
    refine ⟨?_, fun m hm => by cases hm⟩
    intro u hu own
    obtain ⟨v, hv, rfl⟩ := List.mem_map.1 hu
    rw [number] at own
    rw [if_neg fun same => never (by rwa [← own, same])]
    exact unwaited v hv own

theorem ActEffect.leave (h : s.Sound) (hw : w ∈ s.waiters)
    (given_up : .leave w.registration ∈ ops) :
    ActEffect ops s (s.released w .left) (s.leave w) := by
  have sound := h.leave hw
  have own : ∀ m ∈ s.released w .left, m.registration = w.registration := by
    intro m hm
    obtain ⟨e, he, rfl⟩ := List.mem_map.1 hm
    exact (of_decide_eq_true (List.mem_filter.1 he).2).2
  have stays {v : Waiter} (hv : v ∈ (s.leave w).waiters) : v ∈ s.waiters ∧
      v.registration ≠ w.registration := by
    simpa using List.mem_filter.1 hv
  refine ⟨sound, rfl, ?_, ?_, ?_⟩
  · intro r gone
    refine ⟨about_none fun m hm same => ?_, sound.departed gone.given fun v hv =>
      gone.waiter v (stays hv).1⟩
    exact gone.waiter w hw ((own m hm).symm.trans same)
  · intro v untold
    by_cases same : v.registration = w.registration
    · obtain rfl := h.waiter_unique untold.mem hw same
      refine .left given_up ?_ (sound.departed (h.below v hw) fun u hu => (stays hu).2)
      rw [h.released_eq hw, if_pos untold.empty]
      simp [about, Mark.registration]
    · refine .spared ?_ (List.mem_filter.2 ⟨untold.mem, by simpa using same⟩)
      exact about_none fun m hm => by rw [own m hm]; exact Ne.symm same
  · intro r _ unwaited
    refine ⟨fun v hv => unwaited v (stays hv).1, ?_⟩
    intro m hm
    obtain ⟨e, -, rfl⟩ := List.mem_map.1 (mem_about.1 hm).1
    rfl

theorem Sound.runSweeper_effect (h : s.Sound) :
    ActEffect ops s (s.dueSweep.map fun e => .removed e .swept) s.runSweeper := by
  have sound := h.runSweeper_moves.sound h
  rw [dueSweep]
  cases runs : s.sweeper with
  | none =>
    have idle : s.runSweeper = s := by rw [runSweeper, runs]
    rw [idle]
    exact .same h rfl le_rfl rfl
  | some sweeper =>
    simp only
    split
    next due =>
      have swept := h.runSweeper_due runs due
      exact .withdraw h rfl sound (runSweeper_now s) (by rw [swept]; rfl) (by rw [swept]; rfl)
    next early =>
      have idle : s.runSweeper = s := by
        rw [runSweeper, runs]
        exact if_neg early
      rw [idle]
      exact .same h rfl le_rfl rfl

theorem Sound.stopSweeper_effect (h : s.Sound) (tickFirst : Bool) :
    ActEffect ops s (s.stopSweeper tickFirst).1 (s.stopSweeper tickFirst).2 := by
  cases tickFirst with
  | false => exact .same (h.congr rfl rfl) rfl le_rfl rfl
  | true => exact h.runSweeper_effect.congr rfl rfl rfl

theorem mem_finish (h : s.Sound) :
    w ∈ s.finish.2.waiters ↔ w ∈ s.waiters ∧ s.ending? w = none := by
  simp [h.finish_waiters]

theorem Sound.finish_departed (h : s.Sound) (given : r < s.table.next)
    (ends : ∀ w ∈ s.waiters, w.registration = r → s.ending? w ≠ none) : s.finish.2.Departed r := by
  have table := finishEach_table s s.waiters
  refine (h.finish_moves.sound h).departed (given.trans_eq table.1.symm) ?_
  intro w hw own
  obtain ⟨hw, stays⟩ := (mem_finish h).1 hw
  exact ends w hw own stays

theorem Sound.finish_ended (h : s.Sound) (hw : w ∈ s.waiters) {outcome : Outcome}
    (ends : s.ending? w = some outcome) : s.finish.2.Departed w.registration := by
  apply h.finish_departed (h.below w hw)
  intro v hv own
  rw [h.waiter_unique hv hw own, ends]
  exact Option.some_ne_none _

theorem ending?_told {slot : Slot} {outcome : Outcome} (waits : w.waiting = true)
    (tells : slot.outcome? = some outcome) : s.ending? { w with slot } = some outcome := by
  simp [ending?, waits, tells]

theorem ending?_overdue (waits : w.waiting = true) (empty : w.slot = .empty)
    (overdue : w.deadline.tick ≤ s.now) : s.ending? w = some .expired := by
  simp [ending?, waits, empty, Slot.outcome?, overdue]

theorem about_farewells_unwaited (h : s.Sound) (unwaited : s.Unwaited r) :
    about r s.finish.1 = [] := by
  rw [h.about_finish, List.flatMap_eq_nil_iff]
  intro w hw
  obtain ⟨hw, own⟩ := List.mem_filter.1 hw
  apply farewell_of_none
  rw [ending?_eq_none, unwaited w hw (of_decide_eq_true own)]
  intro waits
  cases waits

theorem Departed.finish (gone : s.Departed r) (h : s.Sound) :
    about r s.finish.1 = [] ∧ s.finish.2.Departed r := by
  have nobody (w : Waiter) (hw : w ∈ s.waiters) (own : w.registration = r) : False :=
    gone.waiter w hw own
  exact ⟨about_farewells_unwaited h fun w hw own => (nobody w hw own).elim,
    h.finish_departed gone.given fun w hw own => (nobody w hw own).elim⟩

theorem ActEffect.waitEndsBy {marks : List Mark} (effect : ActEffect ops s marks t)
    (untold : s.Untold w) (ahead : s.now ≤ w.deadline.tick) :
    WaitEndsBy ops w s.now w.deadline.tick
      (history w.registration ((marks ++ t.finish.1).map (Prod.mk s.now))) t.finish.2 := by
  have sound := effect.sound
  rw [history_stamp, about_append]
  cases effect.waiter w untold with
  | spared silent there =>
    rw [silent, List.nil_append, sound.about_finish_own there]
    -- nobody took the entry, so only the deadline can end the wait
    by_cases overdue : w.deadline.tick ≤ t.now
    · have ends := ending?_overdue untold.waits untold.empty overdue
      have reached : s.now = w.deadline.tick := by
        rw [← effect.now] at ahead ⊢
        exact Nat.le_antisymm ahead overdue
      refine .ends s.now .timedOut (by decide) le_rfl ahead (fun _ => reached) ?_
        (sound.finish_ended there ends)
      rw [farewell_of_some ends, if_pos untold.empty, effect.now]
      rfl
    · have stays : t.ending? w = none :=
        ending?_eq_none.2 fun _ => ⟨untold.empty, Nat.lt_of_not_le overdue⟩
      refine .waits ?_ ((mem_finish sound).2 ⟨there, stays⟩)
      rw [farewell_of_none stays]
      rfl
  | @told exit slot tells removed there =>
    have ends := ending?_told (s := t) untold.waits (Exit.outcome_of_slot tells)
    have said : about w.registration t.finish.1 = t.farewell { w with slot } :=
      sound.about_finish_own there
    have gone := sound.finish_ended there ends
    refine .ends s.now exit ?_ le_rfl ahead ?_ ?_ gone
    · rintro rfl
      cases tells
    · rintro rfl
      cases tells
    · rw [removed, said, farewell_of_some ends, if_neg (Exit.slot_ne_empty tells), effect.now,
        Waiter.told, tells]
      rfl
  | left given_up removed gone =>
    obtain ⟨silent, gone⟩ := gone.finish sound
    refine .leaves s.now given_up le_rfl ahead ?_ gone
    rw [removed, silent]
    rfl

theorem ActEffect.course {marks : List Mark} (effect : ActEffect ops s marks t)
    (ahead : ∀ w, s.Untold w → s.now ≤ w.deadline.tick) :
    Course ops s ((marks ++ t.finish.1).map (Prod.mk s.now)) t.finish.2 := by
  have sound := effect.sound
  constructor
  case later => exact ((finishEach_keeps t t.waiters).1.trans effect.now).ge
  case gone =>
    intro r gone
    obtain ⟨silent, gone⟩ := effect.gone r gone
    obtain ⟨silent', gone⟩ := gone.finish sound
    refine ⟨?_, gone⟩
    rw [history_stamp, about_append, silent, silent']
    rfl
  case waits =>
    intro w untold
    exact effect.waitEndsBy untold (ahead w untold)
  case unwaited =>
    intro r never unwaited
    obtain ⟨unwaited, silent⟩ := effect.unwaited r never unwaited
    refine ⟨fun w hw => unwaited w ((mem_finish sound).1 hw).1, ?_⟩
    intro n hn
    rw [history_stamp, about_append, about_farewells_unwaited sound unwaited, List.append_nil] at hn
    obtain ⟨m, hm, rfl⟩ := List.mem_map.1 hn
    exact silent m hm

theorem Course.tick (later : s.now ≤ t.now) (table : t.table = s.table)
    (waiters : t.waiters = s.waiters) : Course ops s [] t := by
  refine ⟨later, ?_, ?_, ?_⟩
  · intro r gone
    refine ⟨rfl, ⟨?_, ?_, ?_⟩⟩
    · rw [table]; exact gone.given
    · rw [waiters]; exact gone.waiter
    · rw [table]; exact gone.entry
  · intro w untold
    exact .waits rfl (waiters ▸ untold.mem)
  · intro r _ unwaited
    refine ⟨?_, fun n hn => by cases hn⟩
    rw [Unwaited, waiters]
    exact unwaited

theorem Course.after (h : Course ops s [] t) {u : Session} {notes : List (Duration × Mark)}
    (k : Course ops t notes u) : Course ops s notes u :=
  h.trans k

theorem Sound.turn_course (h : s.Sound)
    (ahead : ∀ w, s.Untold w → s.now ≤ w.deadline.tick) :
    Course ops s (s.turn.1.map (Prod.mk s.now)) s.turn.2 :=
  h.runSweeper_effect.course ahead

theorem Quiet.advance_course (h : Quiet s) (d : Duration) :
    Course ops s (machine.stamped.advance d s).1 (machine.advance d s).2 := by
  rw [← (machine.advance_stamped d s).2]
  refine (Clock.Machine.advance_ahead (Course.composes ops) (I := Quiet) ?ahead ?pass ?fire d s
    h).2.2
  case ahead =>
    intro s h
    exact h.timers_ahead
  case pass =>
    intro t s h later ahead
    exact ⟨h.pass ahead, rfl, .tick later rfl rfl⟩
  case fire =>
    intro t s h later first
    have due : Due { s with now := t } := h.due first
    have passed : Course ops s [] { s with now := t } := .tick later rfl rfl
    refine ⟨due.turn, turn_now _, passed.after (due.sound.turn_course ?_)⟩
    intro w untold
    exact first _ (waiter_timer (s := s) untold.mem untold.waits)

theorem Quiet.untold_ahead (h : Quiet s) (untold : s.Untold w) : s.now < w.deadline.tick :=
  h.timers_ahead _ (waiter_timer untold.mem untold.waits)

theorem Quiet.effect_course (h : Quiet s) {op : Op}
    (effect : ActEffect ops s (s.act op).2.1 (s.act op).2.2) :
    Course ops s ((s.perform op).2.1.map (Prod.mk s.now)) (s.perform op).2.2 :=
  effect.course fun _ untold => (h.untold_ahead untold).le

theorem Sound.take_effect (h : s.Sound) (key : Key) {exit : Exit} {slot : Slot}
    (tells : exit.slot? = some slot) : ActEffect ops s (s.taken key exit) (s.take key slot).2 := by
  rw [h.taken_eq, h.take_eq]
  exact .withdraw h tells (h.withdraw _ (Exit.slot_ne_empty tells)) rfl rfl rfl

theorem Sound.sweep_effect (h : s.Sound) (now : Duration) :
    ActEffect ops s ((s.table.overdue now).map fun e => .removed e .swept) (s.sweep now).2 := by
  have swept := h.sweep_eq now
  refine .withdraw h rfl (h.sweep now) ?_ ?_ ?_ <;> rw [swept] <;> rfl

theorem Sound.close_effect (h : s.Sound) :
    ActEffect ops s (s.table.entries.map fun e => .removed e .closed) s.close.2 := by
  have closed := h.close_eq
  have all : (s.table.entries.filter fun _ => true) = s.table.entries := List.filter_true _
  rw [← all]
  refine .withdraw h rfl h.close ?_ ?_ ?_ <;> rw [closed] <;> rfl

theorem Quiet.perform_course (h : Quiet s) {op : Op} (given : op ∈ ops) :
    Course ops s (s.timed op) (s.perform op).2.2 := by
  cases op with
  | register name key deadline =>
    refine h.effect_course ?_
    rw [Session.act]
    split
    next error _ =>
      cases error with
      | timeout => exact .same h.sound rfl le_rfl rfl
      | collision | shuttingDown => exact .same h.sound.skip rfl (Nat.le_succ _) rfl
    next registered => exact .register h.sound registered
  | resolve key | expire key => exact h.effect_course (h.sound.take_effect key rfl)
  | sweep now => exact h.effect_course (h.sound.sweep_effect now)
  | close => exact h.effect_course h.sound.close_effect
  | wait registration =>
    refine h.effect_course ?_
    rw [Session.act]
    split
    next => exact .same h.sound rfl le_rfl rfl
    next w found =>
      rw [← registration_of_waiter? found] at given
      exact .wait h.sound given
  | leave registration =>
    refine h.effect_course ?_
    rw [Session.act]
    split
    next => exact .same h.sound rfl le_rfl rfl
    next w found =>
      rw [← registration_of_waiter? found] at given
      exact .leave h.sound (mem_of_waiter? found) given
  | advance d =>
    have rest := (h.advance d).finish_self
    rw [h.perform_advance]
    simp only [timed, (machine.advance_stamped d s).2, rest, List.map_nil, List.append_nil]
    exact h.advance_course d
  | startSweeper interval =>
    have started : Course ops s [] (s.startSweeper interval) := .tick le_rfl rfl rfl
    have turned : Course ops (s.startSweeper interval) _ _ :=
      (h.sound.startSweeper interval).turn_course fun w untold =>
        (h.untold_ahead ⟨untold.mem, untold.waits, untold.empty⟩).le
    simp only [timed, h.perform_startSweeper]
    exact started.after turned
  | startCancelled interval tickFirst =>
    have started := h.sound.startSweeper interval
    have effect : ActEffect ops s (s.act (.startCancelled interval tickFirst)).2.1
        (s.act (.startCancelled interval tickFirst)).2.2 :=
      (started.stopSweeper_effect tickFirst).before rfl rfl rfl
    exact h.effect_course effect
  | stopSweeper tickFirst => exact h.effect_course (h.sound.stopSweeper_effect tickFirst)

theorem Quiet.timeline_course (h : Quiet s) {rest : List Op} (given : rest ⊆ ops) :
    Course ops s (s.timeline rest) (s.run rest).2 := by
  induction rest generalizing s with
  | nil => exact .refl s
  | cons op rest ih =>
    obtain ⟨head, tail⟩ := List.cons_subset.1 given
    exact (h.perform_course head).trans (ih (h.perform op) tail)

end Session

end RoundTrip.Pending
