import Mathlib.Data.List.Nodup
import RoundTrip.Pending.Run

/-!
What holds of every pending table and its waiters: the entries are those of the waiters whose slot
is still empty, in the order of their registration.

Every removal by key, by deadline or by closing is `withdraw`, which takes the entries that a
predicate holds of and tells their waiters.
-/

namespace RoundTrip.Pending

def Waiter.entry (w : Waiter) : Entry := ⟨w.key, w.registration, w.deadline⟩

@[simp] theorem Waiter.entry_key (w : Waiter) : w.entry.key = w.key := rfl

@[simp] theorem Waiter.entry_registration (w : Waiter) :
    w.entry.registration = w.registration := rfl

@[simp] theorem Waiter.entry_deadline (w : Waiter) : w.entry.deadline = w.deadline := rfl

theorem filter_eq_singleton {α β : Type} [DecidableEq β] {f : α → β} {l : List α}
    (h : l.Pairwise fun a b => f a ≠ f b) {a : α} (ha : a ∈ l) :
    (l.filter fun b => f b = f a) = [a] := by
  induction l with
  | nil => simp at ha
  | cons b l ih =>
    rw [List.pairwise_cons] at h
    cases ha with
    | head =>
      have hl : (l.filter fun b => f b = f a) = [] := by
        rw [List.filter_eq_nil_iff]
        intro c hc
        simpa using Ne.symm (h.1 c hc)
      simp [hl]
    | tail _ ha =>
      have hb : f b ≠ f a := h.1 a ha
      simp [hb, ih h.2 ha]

namespace Session

structure Sound (s : Session) : Prop where
  entries : s.table.entries = (s.waiters.filter fun w => w.slot = .empty).map Waiter.entry
  ordered : s.waiters.Pairwise fun v w => v.registration < w.registration
  below : ∀ w ∈ s.waiters, w.registration < s.table.next
  keys : s.table.entries.Pairwise fun d e => d.key ≠ e.key
  closed : s.table.closed = true → s.table.entries = []

theorem Sound.empty : Sound {} := by
  constructor <;> simp

theorem Sound.congr {s s' : Session} (h : s.Sound) (ht : s'.table = s.table)
    (hw : s'.waiters = s.waiters) : s'.Sound := by
  constructor
  · rw [ht, hw]; exact h.entries
  · rw [hw]; exact h.ordered
  · rw [ht, hw]; exact h.below
  · rw [ht]; exact h.keys
  · rw [ht]; exact h.closed

theorem Sound.startSweeper {s : Session} (h : s.Sound) (interval : Duration) :
    (s.startSweeper interval).Sound :=
  h.congr rfl rfl

section

variable {s : Session} (h : s.Sound)
include h

theorem Sound.mem_entries {e : Entry} :
    e ∈ s.table.entries ↔ ∃ w ∈ s.waiters, w.slot = .empty ∧ w.entry = e := by
  simp [h.entries, and_assoc]

theorem Sound.entry_mem {w : Waiter} (hw : w ∈ s.waiters) (he : w.slot = .empty) :
    w.entry ∈ s.table.entries :=
  h.mem_entries.2 ⟨w, hw, he, rfl⟩

theorem Sound.waiter_unique {v w : Waiter} (hv : v ∈ s.waiters) (hw : w ∈ s.waiters)
    (hr : v.registration = w.registration) : v = w := by
  have distinct : (s.waiters.map Waiter.registration).Nodup :=
    List.pairwise_map.2 (h.ordered.imp Nat.ne_of_lt)
  exact List.inj_on_of_nodup_map distinct hv hw hr

theorem Sound.entries_ordered :
    s.table.entries.Pairwise fun d e => d.registration < e.registration := by
  rw [h.entries, List.pairwise_map]
  exact h.ordered.filter _

theorem Sound.own_entries {w : Waiter} (hw : w ∈ s.waiters) :
    (s.table.entries.filter fun e => e.key = w.key ∧ e.registration = w.registration) =
      if w.slot = .empty then [w.entry] else [] := by
  have own : ∀ e ∈ s.table.entries, e.registration = w.registration →
      w.slot = .empty ∧ e = w.entry := by
    intro e he hr
    obtain ⟨v, hv, hs, rfl⟩ := h.mem_entries.1 he
    have : v = w := h.waiter_unique hv hw hr
    exact ⟨this ▸ hs, this ▸ rfl⟩
  split
  next hs =>
    have distinct : s.table.entries.Pairwise fun d e => d.registration ≠ e.registration :=
      h.entries_ordered.imp Nat.ne_of_lt
    rw [← filter_eq_singleton distinct (h.entry_mem hw hs)]
    apply List.filter_congr
    intro e he
    by_cases hr : e.registration = w.registration
    · simp [(own e he hr).2]
    · simp [hr]
  next hs =>
    rw [List.filter_eq_nil_iff]
    intro e he hown
    simp only [decide_eq_true_eq] at hown
    exact hs (own e he hown.2).1

end

/-- Takes the entries that `p` holds of out of the table and tells their waiters. -/
def withdraw (s : Session) (p : Entry → Bool) (slot : Slot) : Session :=
  { s with
    table := { s.table with entries := s.table.entries.filter fun e => !p e }
    waiters := s.waiters.map fun w =>
      if w.slot = .empty ∧ p w.entry = true then { w with slot } else w }

@[simp] theorem withdraw_next (s : Session) (p : Entry → Bool) (slot : Slot) :
    (s.withdraw p slot).table.next = s.table.next := rfl

@[simp] theorem withdraw_closed (s : Session) (p : Entry → Bool) (slot : Slot) :
    (s.withdraw p slot).table.closed = s.table.closed := rfl

@[simp] theorem withdraw_entries (s : Session) (p : Entry → Bool) (slot : Slot) :
    (s.withdraw p slot).table.entries = s.table.entries.filter fun e => !p e := rfl

theorem withdraw_waiters (s : Session) (p : Entry → Bool) (slot : Slot) :
    (s.withdraw p slot).waiters = s.waiters.map fun w =>
      if w.slot = .empty ∧ p w.entry = true then { w with slot } else w := rfl

def withdrawn (p : Entry → Bool) (slot : Slot) (w : Waiter) : Waiter :=
  if w.slot = .empty ∧ p w.entry = true then { w with slot } else w

theorem withdraw_registration (w : Waiter) (p : Entry → Bool) (slot : Slot) :
    (if w.slot = .empty ∧ p w.entry = true then { w with slot } else w).registration =
      w.registration := by
  split <;> rfl

theorem map_if_never {α : Type} {p : α → Prop} [DecidablePred p] {f : α → α} {l : List α}
    (never : ∀ a ∈ l, ¬ p a) : (l.map fun a => if p a then f a else a) = l := by
  refine Eq.trans (List.map_congr_left ?_) (List.map_id _)
  intro a ha
  exact if_neg (never a ha)

theorem withdraw_nothing {s : Session} (h : s.Sound) {p : Entry → Bool} (slot : Slot)
    (none_held : ∀ e ∈ s.table.entries, p e = false) : s.withdraw p slot = s := by
  have held : (s.table.entries.filter fun e => !p e) = s.table.entries := by
    rw [List.filter_eq_self]
    intro e he
    rw [none_held e he]
    rfl
  have told : (s.waiters.map fun w =>
      if w.slot = .empty ∧ p w.entry = true then { w with slot } else w) = s.waiters := by
    apply map_if_never
    rintro w hw ⟨empty, taken⟩
    rw [none_held _ (h.entry_mem hw empty)] at taken
    cases taken
  rw [withdraw, held, told]

theorem Sound.withdraw {s : Session} (h : s.Sound) (p : Entry → Bool) {slot : Slot}
    (hs : slot ≠ .empty) : (s.withdraw p slot).Sound := by
  constructor
  case entries =>
    rw [withdraw_entries, withdraw_waiters, h.entries, List.filter_map, List.filter_filter,
      List.filter_map, List.map_map]
    have hfilter : ∀ w : Waiter,
        (decide ((if w.slot = .empty ∧ p w.entry = true then { w with slot } else w).slot
          = .empty)) = (decide (w.slot = .empty) && !p w.entry) := by
      intro w
      by_cases he : w.slot = .empty <;> by_cases hp : p w.entry = true <;> simp [he, hp, hs]
    simp only [Function.comp_def, hfilter, Bool.and_comm]
    apply List.map_congr_left
    intro w hw
    have hp : p w.entry = false := by
      have := (List.mem_filter.1 hw).2
      simp only [Bool.and_eq_true, Bool.not_eq_true', decide_eq_true_eq] at this
      exact this.2
    simp [hp]
  case ordered =>
    rw [withdraw_waiters, List.pairwise_map]
    simpa only [withdraw_registration] using h.ordered
  case below =>
    intro w hw
    rw [withdraw_waiters] at hw
    obtain ⟨v, hv, rfl⟩ := List.mem_map.1 hw
    rw [withdraw_registration]
    exact h.below v hv
  case keys => exact h.keys.filter _
  case closed =>
    intro hc
    simp [h.closed hc]

theorem Sound.skip {s : Session} (h : s.Sound) :
    ({ s with table := s.table.skip } : Session).Sound := by
  refine ⟨h.entries, h.ordered, ?_, h.keys, h.closed⟩
  intro w hw
  exact Nat.lt_succ_of_lt (h.below w hw)

theorem signalAll_table (s : Session) (slot : Slot) (es : List Entry) :
    (s.signalAll slot es).table = s.table := by
  induction es generalizing s with
  | nil => rfl
  | cons e es ih => exact ih _

theorem signalAll_waiters (s : Session) (slot : Slot) (es : List Entry) :
    (s.signalAll slot es).waiters = s.waiters.map fun w =>
      if ∃ e ∈ es, w.registration = e.registration then { w with slot } else w := by
  induction es generalizing s with
  | nil => simp [signalAll]
  | cons e es ih =>
    have step : s.signalAll slot (e :: es) = (s.signal slot e).signalAll slot es := rfl
    rw [step, ih, signal, update, List.map_map]
    apply List.map_congr_left
    intro w _
    by_cases he : w.registration = e.registration <;> simp [he]

theorem signalAll_now (s : Session) (slot : Slot) (es : List Entry) :
    (s.signalAll slot es).now = s.now := by
  induction es generalizing s with
  | nil => rfl
  | cons e es ih => exact ih _

theorem signalAll_sweeper (s : Session) (slot : Slot) (es : List Entry) :
    (s.signalAll slot es).sweeper = s.sweeper := by
  induction es generalizing s with
  | nil => rfl
  | cons e es ih => exact ih _

theorem Sound.signalAll_filter {s : Session} (h : s.Sound) (p : Entry → Bool) (slot : Slot) :
    ({ s with table := { s.table with entries := s.table.entries.filter fun e => !p e } }.signalAll
      slot (s.table.entries.filter p)) = s.withdraw p slot := by
  have waiters : ∀ w ∈ s.waiters,
      (∃ e ∈ s.table.entries.filter p, w.registration = e.registration) ↔
        w.slot = .empty ∧ p w.entry = true := by
    intro w hw
    constructor
    · rintro ⟨e, he, hr⟩
      rw [List.mem_filter] at he
      obtain ⟨v, hv, hs, rfl⟩ := h.mem_entries.1 he.1
      rw [h.waiter_unique hw hv hr]
      exact ⟨hs, he.2⟩
    · rintro ⟨hs, hp⟩
      exact ⟨w.entry, List.mem_filter.2 ⟨h.entry_mem hw hs, hp⟩, rfl⟩
  rw [Session.mk.injEq]
  refine ⟨signalAll_now _ _ _, signalAll_table _ _ _, ?_, signalAll_sweeper _ _ _⟩
  rw [signalAll_waiters, withdraw_waiters]
  apply List.map_congr_left
  intro w hw
  simp only [waiters w hw]

theorem Sound.sweep_eq {s : Session} (h : s.Sound) (now : Duration) :
    (s.sweep now).2 = s.withdraw (fun e => e.deadline ≤ now) .dropped := by
  rw [← h.signalAll_filter]
  simp only [sweep, Table.sweep, Table.overdue, ← Nat.not_le, decide_not]

theorem Sound.find?_eq {s : Session} (h : s.Sound) {key : Key} {e : Entry}
    (he : s.table.find? key = some e) : s.table.entries.filter (fun d => d.key = key) = [e] := by
  have hk : e.key = key := by simpa using List.find?_some he
  rw [← hk]
  exact filter_eq_singleton h.keys (List.mem_of_find?_eq_some he)

theorem Sound.take_eq {s : Session} (h : s.Sound) (key : Key) (slot : Slot) :
    s.take key slot = (s.table.contains key, s.withdraw (fun e => e.key = key) slot) := by
  cases he : s.table.find? key with
  | none =>
    have none_left : ∀ e ∈ s.table.entries, e.key ≠ key := by
      simpa [Table.find?] using he
    have hentries : s.table.entries.filter (fun e => e.key = key) = [] := by
      rw [List.filter_eq_nil_iff]
      simpa using none_left
    have hkept : s.table.entries.filter (fun e => !decide (e.key = key)) = s.table.entries := by
      rw [List.filter_eq_self]
      simpa using none_left
    rw [← h.signalAll_filter, hentries, hkept]
    simp [take, Table.contains, he, signalAll]
  | some e =>
    rw [← h.signalAll_filter, h.find?_eq he]
    simp [take, Table.contains, he, signalAll, Table.remove, decide_not]

theorem Sound.close_eq {s : Session} (h : s.Sound) :
    s.close.2 =
      { s.withdraw (fun _ => true) (.filled .cancelled) with table := s.table.close } := by
  have told := congrArg Session.waiters (h.signalAll_filter (fun _ => true) (.filled .cancelled))
  rw [signalAll_waiters, List.filter_true] at told
  rw [Session.mk.injEq]
  refine ⟨signalAll_now _ _ _, signalAll_table _ _ _, ?_, signalAll_sweeper _ _ _⟩
  exact (signalAll_waiters _ _ _).trans told

theorem Sound.sweep {s : Session} (h : s.Sound) (now : Duration) : (s.sweep now).2.Sound := by
  rw [h.sweep_eq]
  exact h.withdraw _ (by decide)

theorem Sound.close {s : Session} (h : s.Sound) : s.close.2.Sound := by
  have all : (s.withdraw (fun _ => true) (.filled .cancelled)).Sound := h.withdraw _ (by decide)
  rw [h.close_eq]
  constructor
  · simpa [Table.close] using all.entries
  · exact all.ordered
  · exact all.below
  · exact .nil
  · intro _; rfl

theorem register_ok {s s' : Session} {name : String} {key : Key} {deadline : Duration}
    (hr : s.register name key deadline = .ok s') :
    s.now < deadline ∧ s.table.closed = false ∧ s.table.contains key = false ∧
      s' = { s with
        table := s.table.insert key deadline
        waiters := s.waiters ++ [⟨name, key, s.table.next, deadline, .empty, false⟩] } := by
  unfold register Table.refusal? at hr
  split at hr
  next => cases hr
  next none_refused =>
    simp only [Except.ok.injEq] at hr
    split at none_refused
    · cases none_refused
    split at none_refused
    · cases none_refused
    split at none_refused
    · cases none_refused
    next hd hc hk => exact ⟨Nat.lt_of_not_le hd, by simpa using hc, by simpa using hk, hr.symm⟩

theorem register_of_free {s : Session} {key : Key} {deadline : Duration}
    (ahead : s.now < deadline) (opened : s.table.closed = false)
    (free : s.table.contains key = false) (name : String) :
    ∃ s', s.register name key deadline = .ok s' := by
  rw [register, Table.refusal?, if_neg (Nat.not_le_of_lt ahead), opened, free]
  exact ⟨_, rfl⟩

theorem Sound.register {s s' : Session} (h : s.Sound) {name : String} {key : Key}
    {deadline : Duration} (hr : s.register name key deadline = .ok s') : s'.Sound := by
  obtain ⟨-, hopen, hfree, rfl⟩ := register_ok hr
  constructor
  case entries =>
    simp only [Table.insert, List.filter_append, List.map_append, h.entries]
    rfl
  case ordered =>
    rw [List.pairwise_append]
    refine ⟨h.ordered, List.pairwise_singleton _ _, ?_⟩
    intro v hv w hw
    rw [List.mem_singleton.1 hw]
    exact h.below v hv
  case below =>
    intro w hw
    rcases List.mem_append.1 hw with hw | hw
    · exact Nat.lt_succ_of_lt (h.below w hw)
    · rw [List.mem_singleton.1 hw]
      exact Nat.lt_succ_self _
  case keys =>
    simp only [Table.insert, List.pairwise_append]
    refine ⟨h.keys, List.pairwise_singleton _ _, ?_⟩
    intro d hd e he
    rw [List.mem_singleton.1 he]
    intro hk
    have taken : s.table.contains key = true := by
      rw [Table.contains, Table.find?, List.find?_isSome]
      exact ⟨d, hd, by simpa using hk⟩
    rw [hfree] at taken
    cases taken
  case closed =>
    intro hc
    simp only [Table.insert] at hc
    rw [hopen] at hc
    cases hc

theorem Sound.leave_entries {s : Session} (h : s.Sound) {w : Waiter} (hw : w ∈ s.waiters) :
    (s.leave w).table.entries =
      s.table.entries.filter fun e => e.registration ≠ w.registration := by
  apply List.filter_congr
  intro e he
  obtain ⟨v, hv, hs, rfl⟩ := h.mem_entries.1 he
  by_cases hr : v.registration = w.registration
  · simp [h.waiter_unique hv hw hr]
  · simp [hr]

theorem Sound.leave {s : Session} (h : s.Sound) {w : Waiter} (hw : w ∈ s.waiters) :
    (s.leave w).Sound := by
  constructor
  case entries =>
    rw [h.leave_entries hw, h.entries, List.filter_map, Session.leave, List.filter_filter,
      List.filter_filter]
    congr 1
    apply List.filter_congr
    intro v _
    exact Bool.and_comm _ _
  case ordered => exact h.ordered.filter _
  case below =>
    intro v hv
    exact h.below v (List.mem_of_mem_filter hv)
  case keys => exact h.keys.filter _
  case closed =>
    intro hc
    rw [h.leave_entries hw, h.closed hc]
    rfl

theorem Sound.update {s : Session} (h : s.Sound) (registration : Nat) {f : Waiter → Waiter}
    (he : ∀ w, (f w).entry = w.entry) (hs : ∀ w, (f w).slot = w.slot) :
    (s.update registration f).Sound := by
  have entry (w : Waiter) :
      (if w.registration = registration then f w else w).entry = w.entry := by
    split
    · exact he w
    · rfl
  have slot (w : Waiter) :
      (if w.registration = registration then f w else w).slot = w.slot := by
    split
    · exact hs w
    · rfl
  have number (w : Waiter) :
      (if w.registration = registration then f w else w).registration = w.registration :=
    congrArg Entry.registration (entry w)
  constructor
  case entries =>
    simp only [Session.update, List.filter_map, List.map_map, Function.comp_def, slot, entry]
    exact h.entries
  case ordered =>
    simp only [Session.update, List.pairwise_map, number]
    exact h.ordered
  case below =>
    intro w hw
    obtain ⟨v, hv, rfl⟩ := List.mem_map.1 hw
    rw [number]
    exact h.below v hv
  case keys => exact h.keys
  case closed => exact h.closed

theorem Sound.beginWait {s : Session} (h : s.Sound) (w : Waiter) : (s.beginWait w).Sound :=
  h.update _ (fun _ => rfl) (fun _ => rfl)

theorem released_endings (s : Session) (w : Waiter) (exit : Exit) :
    (s.released w exit).filterMap Mark.ending? = [] := by
  rw [released, List.filterMap_map, List.filterMap_eq_nil_iff]
  intro e _
  rfl

end Session

end RoundTrip.Pending
