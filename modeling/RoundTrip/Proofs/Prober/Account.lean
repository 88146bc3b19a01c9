import RoundTrip.Proofs.Prober.Journal
import RoundTrip.Proofs.Prober.Move

/-!
The journal of a run accounts for the state that the run leads to: who is still in flight, and what
the slot of each of them says. Every move and every shift keeps the account and adds only marks that
fit.
-/

namespace RoundTrip.Prober

open Journal
open Pending.Session (withdrawn)

/-- What the slot of a waiter says is what the journal says of its entry. -/
def Told (j : List Mark) (instant : Duration) (w : Pending.Waiter) : Prop :=
  match w.slot with
  | .empty => w.entry ∉ claims j ∧ w.entry ∉ expiries j
  | .filled .delivered => w.entry ∈ claims j
  | .filled .cancelled => w.entry ∉ claims j ∧ ShutDown j
  | .dropped => w.entry ∉ claims j ∧ (w.entry ∈ expiries j ∨ w.deadline.tick ≤ instant)

structure Account (j : List Mark) (p : Prober) : Prop where
  sound : p.Sound
  tickets : p.tickets = running j
  ordered : (registered j).Pairwise fun t u => t.registration < u.registration
  below : ∀ t ∈ registered j, t.registration < p.session.table.next
  unfailed : ∀ t ∈ p.tickets, t.registration ∉ failed j
  down : p.shutDown = true ↔ ShutDown j
  told : ∀ w ∈ p.session.waiters, Told j p.session.now w
  coherent : Coherent [] j

variable {j : List Mark} {p q : Prober}

theorem Account.flight_running (h : Account j p) {f : Flight} (hf : f ∈ p.flights) :
    f.toTicket ∈ running j := by
  rw [← h.tickets]
  exact List.mem_map_of_mem hf

theorem Told.later {instant instant' : Duration} (later : instant ≤ instant') {v w : Pending.Waiter}
    (entry : v.entry = w.entry) (slot : v.slot = w.slot) (h : Told j instant v) :
    Told j instant' w := by
  have deadline : v.deadline = w.deadline := congrArg Pending.Entry.deadline entry
  rw [Told, entry, slot, deadline] at h
  rw [Told]
  split <;> rename_i hs <;> rw [hs] at h
  · exact h
  · exact h
  · exact h
  · exact ⟨h.1, h.2.imp_right fun due => Nat.le_trans due later⟩

theorem Told.append {k : List Mark} {instant : Duration} {w : Pending.Waiter}
    (h : Told j instant w) (unclaimed : w.entry ∉ claims k) (unexpired : w.entry ∉ expiries k) :
    Told (j ++ k) instant w := by
  rw [Told] at h ⊢
  simp only [claims_append, expiries_append, List.mem_append, unclaimed, unexpired, or_false]
  split <;> rename_i hs <;> rw [hs] at h
  · exact h
  · exact h
  · exact ⟨h.1, (shutDown_append k).2 (.inl h.2)⟩
  · exact h

theorem Account.same (h : Account j p) (sound : q.Sound) (tickets : q.tickets = p.tickets)
    (next : p.session.table.next ≤ q.session.table.next) (shutDown : q.shutDown = p.shutDown)
    (instant : p.session.now ≤ q.session.now)
    (waiters : ∀ w ∈ q.session.waiters,
      ∃ v ∈ p.session.waiters, v.entry = w.entry ∧ v.slot = w.slot) : Account j q := by
  constructor
  case sound => exact sound
  case tickets => rw [tickets]; exact h.tickets
  case ordered => exact h.ordered
  case below =>
    intro t ht
    exact Nat.lt_of_lt_of_le (h.below t ht) next
  case unfailed => rw [tickets]; exact h.unfailed
  case down => rw [shutDown]; exact h.down
  case told =>
    intro w hw
    obtain ⟨v, hv, entry, slot⟩ := waiters w hw
    exact (h.told v hv).later instant entry slot
  case coherent => exact h.coherent

theorem running_append {k : List Mark} (made : registered k = []) :
    running (j ++ k) = (running j).filter fun t => t.registration ∉ closed k := by
  simp only [running, registered_append, made, List.append_nil, closed_append, List.filter_filter,
    List.mem_append, not_or, Bool.decide_and, Bool.and_comm]

theorem Account.note (h : Account j p) {m : Mark} (idle : m.idle = true) :
    Account (j ++ [m]) p := by
  have silent := Mark.silent_of_idle idle
  constructor
  case sound => exact h.sound
  case tickets => rw [running_concat silent.registered silent.closed]; exact h.tickets
  case ordered => rw [registered_concat silent.registered]; exact h.ordered
  case below => rw [registered_concat silent.registered]; exact h.below
  case unfailed => rw [failed_concat silent.failed]; exact h.unfailed
  case down => simpa [shutDown_append, ShutDown, silent.up] using h.down
  case told =>
    intro w hw
    refine (h.told w hw).append ?_ ?_
    · simp [claims, silent.claimed]
    · simp [expiries, silent.expired]
  case coherent => exact coherent_append.2 ⟨h.coherent, fits_of_idle idle, trivial⟩

structure Parting (f : Flight) (k : List Mark) : Prop where
  registered : registered k = []
  claims : claims k = []
  expiries : expiries k = []
  failed : ∀ n ∈ failed k, n = f.registration
  closed : closed k = [f.registration]
  up : ¬ ShutDown k

theorem Parting.ended (now : Duration) (f : Flight) (v : Verdict) :
    Parting f [.ended now f.toTicket v] := by
  refine ⟨rfl, rfl, rfl, ?_, rfl, ?_⟩
  · intro n hn
    cases hn
  · simp [ShutDown, Mark.isShutDown]

theorem Parting.dropped (now : Duration) (f : Flight) : Parting f [.dropped now f.toTicket] := by
  refine ⟨rfl, rfl, rfl, ?_, rfl, ?_⟩
  · intro n hn
    cases hn
  · simp [ShutDown, Mark.isShutDown]

theorem Parting.failing (now : Duration) (f : Flight) (error : TriggerError) (v : Verdict) :
    Parting f [.answered now f.registration (some error), .ended now f.toTicket v] := by
  refine ⟨rfl, rfl, rfl, ?_, rfl, ?_⟩
  · intro n hn
    exact List.mem_singleton.1 hn
  · simp [ShutDown, Mark.isShutDown]

theorem Account.release (h : Account j p) {f : Flight} (hf : f ∈ p.flights) {k : List Mark}
    (parting : Parting f k) (coherent : Coherent j k) : Account (j ++ k) (p.release f) := by
  have sound := h.sound.release hf
  obtain ⟨w, hw, hseat, heq⟩ := h.sound.release_eq hf
  have registered : registered (j ++ k) = registered j := by
    rw [registered_append, parting.registered, List.append_nil]
  have tickets : (p.release f).tickets =
      p.tickets.filter fun t => t.registration ≠ f.registration := by
    rw [heq, Prober.tickets, Prober.tickets, List.filter_map]
    rfl
  constructor
  case sound => exact sound
  case tickets =>
    rw [tickets, running_append parting.registered, parting.closed, h.tickets]
    simp
  case ordered => rw [registered]; exact h.ordered
  case below => rw [registered, heq]; exact h.below
  case unfailed =>
    intro t ht
    rw [tickets, List.mem_filter] at ht
    rw [failed_append, List.mem_append]
    rintro (old | now)
    · exact h.unfailed t ht.1 old
    · simpa [parting.failed _ now] using ht.2
  case down =>
    rw [shutDown_append, heq]
    exact h.down.trans (or_iff_left parting.up).symm
  case told =>
    intro v hv
    rw [heq] at hv ⊢
    refine (h.told v (List.mem_of_mem_filter hv)).append ?_ ?_
    · simp [parting.claims]
    · simp [parting.expiries]
  case coherent => exact coherent_append.2 ⟨h.coherent, coherent⟩

theorem Sound.own_waiter (h : p.Sound) {f : Flight} (hf : f ∈ p.flights) {w : Pending.Waiter}
    (hw : w ∈ p.session.waiters) (hr : w.registration = f.registration) : w.entry = f.entry := by
  obtain ⟨v, hv, hseat⟩ := h.waiter_of_flight hf
  have entry : v.entry = f.entry := congrArg Seat.entry hseat
  have same : v = w := h.session.waiter_unique hv hw
    ((congrArg Pending.Entry.registration entry).trans hr.symm)
  exact same ▸ entry

theorem Account.ending (h : Account j p) {w : Pending.Waiter} (hw : w ∈ p.session.waiters)
    {outcome : Pending.Outcome} (ends : p.session.ending? w = some outcome) :
    outcome = .delivered ↔ w.entry ∈ claims j := by
  have told := h.told w hw
  rw [Told] at told
  rw [Pending.Session.ending?] at ends
  split at ends
  next => cases ends
  next =>
    split at told
    next hs =>
      rw [hs] at ends
      simp only [Pending.Slot.outcome?] at ends
      split at ends
      · obtain rfl := Option.some.inj ends
        simp [told.1]
      · cases ends
    next hs =>
      rw [hs] at ends
      obtain rfl := Option.some.inj ends
      exact ⟨fun _ => told, fun _ => rfl⟩
    next hs =>
      rw [hs] at ends
      obtain rfl := Option.some.inj ends
      simp [Pending.Resolution.outcome, told.1]
    next hs =>
      rw [hs] at ends
      obtain rfl := Option.some.inj ends
      simp [told.1]

theorem verdict_ok (t : Ticket) (now : Duration) (outcome : Pending.Outcome) :
    verdict t now outcome = .ok () ↔ outcome = .delivered := by
  cases outcome <;> simp [verdict]

theorem Account.flight_unfailed (h : Account j p) {f : Flight} (hf : f ∈ p.flights) :
    f.registration ∉ failed j := by
  apply h.unfailed f.toTicket
  rw [h.tickets]
  exact h.flight_running hf

theorem Account.finish (h : Account j p) {f : Flight} (hf : f ∈ p.flights) {w : Pending.Waiter}
    (hw : w ∈ p.session.waiters) (hr : w.registration = f.registration)
    {outcome : Pending.Outcome} (ends : p.session.ending? w = some outcome) :
    Account (j ++ [.ended p.now f.toTicket (verdict f.toTicket p.now outcome)]) (p.release f) := by
  have decided : outcome = .delivered ↔ f.entry ∈ claims j := by
    rw [h.ending hw ends, h.sound.own_waiter hf hw hr]
  refine h.release hf (.ended _ f _)
    ⟨⟨h.flight_running hf, h.sound.timely f hf, ?_, ?_⟩, trivial⟩
  all_goals rw [verdict_ok, decided]
  · exact fun claimed => ⟨claimed, h.flight_unfailed hf⟩
  · exact fun acknowledged => acknowledged.claimed

theorem Account.fail (h : Account j p) {f : Flight} (hf : f ∈ p.flights) (error : TriggerError) :
    Account (j ++ [.answered p.now f.registration (some error),
      .ended p.now f.toTicket (.error (.trigger error))]) (p.release f) := by
  have runs : f.toTicket ∈ running (j ++ [.answered p.now f.registration (some error)]) := by
    rw [running_append rfl]
    exact List.mem_filter.2 ⟨h.flight_running hf, by simp [closed, Mark.closed?]⟩
  refine h.release hf (.failing _ f error _)
    ⟨⟨f.toTicket, h.flight_running hf, rfl⟩, ⟨runs, h.sound.timely f hf, ?_, ?_⟩, trivial⟩
  · intro ok
    cases ok
  · intro acknowledged
    have unfailed := acknowledged.unfailed
    rw [failed_append] at unfailed
    exact absurd (List.mem_append_right _ List.mem_cons_self) unfailed

theorem Account.ground (h : Account j p) {f : Flight} (hf : f ∈ p.flights)
    (down : p.shutDown = true) :
    Account (j ++ [.ended p.now f.toTicket (.error (.execution .shuttingDown))])
      (p.release f) := by
  refine h.release hf (.ended _ f _)
    ⟨⟨h.flight_running hf, h.sound.timely f hf, nofun, ?_⟩, trivial⟩
  intro acknowledged
  exact absurd (h.down.1 down) acknowledged.up

theorem Account.drop (h : Account j p) {f : Flight} (hf : f ∈ p.flights) :
    Account (j ++ [.dropped p.now f.toTicket]) (p.release f) :=
  h.release hf (.dropped _ f) ⟨h.flight_running hf, trivial⟩

theorem Account.withdraw (h : Account j p) (q : Pending.Entry → Bool) {slot : Pending.Slot}
    (hs : slot ≠ .empty) {k : List Mark} (made : registered k = []) (failing : failed k = [])
    (ended : closed k = []) (up : ¬ ShutDown k) (coherent : Coherent j k)
    (told : ∀ w ∈ p.session.waiters,
      Told (j ++ k) p.session.now (withdrawn q slot w)) :
    Account (j ++ k) { p with session := p.session.withdraw q slot } := by
  have registered : registered (j ++ k) = registered j := by
    rw [registered_append, made, List.append_nil]
  constructor
  case sound => exact h.sound.withdraw q hs
  case tickets =>
    rw [running_append made, ended]
    simp only [List.not_mem_nil, not_false_eq_true, decide_true, List.filter_true]
    exact h.tickets
  case ordered => rw [registered]; exact h.ordered
  case below => rw [registered]; exact h.below
  case unfailed => rw [failed_append, failing, List.append_nil]; exact h.unfailed
  case down => rw [shutDown_append]; exact h.down.trans (or_iff_left up).symm
  case told =>
    intro w hw
    rw [Pending.Session.withdraw_waiters] at hw
    obtain ⟨v, hv, rfl⟩ := List.mem_map.1 hw
    exact told v hv
  case coherent => exact coherent_append.2 ⟨h.coherent, coherent⟩

theorem withdrawn_found {s : Pending.Session} (h : s.Sound) {key : Key} {entry : Pending.Entry}
    (found : s.table.find? key = some entry) {w : Pending.Waiter} (hw : w ∈ s.waiters)
    (slot : Pending.Slot) :
    withdrawn (fun e => e.key = key) slot w = if w.entry = entry then { w with slot } else w := by
  have own : (w.slot = .empty ∧ decide (w.entry.key = key) = true) ↔ w.entry = entry := by
    rw [decide_eq_true_iff]
    have single := h.find?_eq found
    constructor
    · rintro ⟨hs, hk⟩
      have mem : w.entry ∈ s.table.entries.filter fun e => e.key = key :=
        List.mem_filter.2 ⟨h.entry_mem hw hs, decide_eq_true hk⟩
      rw [single] at mem
      exact List.mem_singleton.1 mem
    · rintro rfl
      have held := List.mem_of_find?_eq_some found
      obtain ⟨v, hv, hs, entry⟩ := h.mem_entries.1 held
      have same : v = w := h.waiter_unique hv hw (congrArg Pending.Entry.registration entry)
      have matched := List.find?_some found
      exact ⟨same ▸ hs, of_decide_eq_true matched⟩
  rw [withdrawn]
  simp only [own]

theorem Account.found (h : Account j p) {key : Key} {entry : Pending.Entry}
    (found : p.session.table.find? key = some entry) :
    entry.key = key ∧ ∃ w ∈ p.session.waiters, w.slot = .empty ∧ w.entry = entry ∧
      ∃ f ∈ p.flights, f.entry = entry := by
  have matched := List.find?_some found
  obtain ⟨w, hw, hs, own⟩ := h.sound.session.mem_entries.1 (List.mem_of_find?_eq_some found)
  obtain ⟨f, hf, seat⟩ := h.sound.flight_of_waiter hw
  have entry_eq : f.entry = w.entry := congrArg Seat.entry seat
  exact ⟨of_decide_eq_true matched, w, hw, hs, own, f, hf, entry_eq.trans own⟩

theorem Account.claim (h : Account j p) {e : Event} {key : Key} {entry : Pending.Entry}
    (byCollaborator : Bool) (hkey : Delivered.key? e = some key)
    (found : p.session.table.find? key = some entry) :
    Account (j ++ [.delivered p.now e true (some entry) byCollaborator])
      { p with session := (p.session.resolve key).2 } := by
  obtain ⟨rfl, w, hw, hs, own, f, hf, entry_eq⟩ := h.found found
  have fresh : entry ∉ claims j := by
    have told := h.told w hw
    rw [Told, hs, own] at told
    exact told.1
  have timely : p.now ≤ entry.deadline.tick := by
    rw [← entry_eq]
    exact h.sound.timely f hf
  rw [Pending.Session.resolve, h.sound.session.take_eq]
  refine h.withdraw _ (by decide) rfl rfl rfl (by simp [ShutDown, Mark.isShutDown]) ?coherent ?told
  case coherent =>
    refine ⟨⟨rfl, ?_⟩, trivial⟩
    intro d hd
    obtain rfl := Option.some.inj hd
    exact ⟨hkey, fresh, timely, f.toTicket, h.flight_running hf, entry_eq⟩
  case told =>
    intro v hv
    rw [withdrawn_found h.sound.session found hv]
    split
    next own =>
      show v.entry ∈ _
      rw [claims_append, own]
      exact List.mem_append_right _ List.mem_cons_self
    next other =>
      refine (h.told v hv).append ?_ ?_
      · intro hd
        exact other (List.mem_singleton.1 hd)
      · intro hd
        cases hd

theorem Account.expire (h : Account j p) {key : Key} {entry : Pending.Entry}
    (found : p.session.table.find? key = some entry) :
    Account (j ++ [.expired p.now (some entry)])
      { p with session := (p.session.expire key).2 } := by
  obtain ⟨-, w, hw, hs, own, f, hf, entry_eq⟩ := h.found found
  have fresh : entry ∉ claims j := by
    have told := h.told w hw
    rw [Told, hs, own] at told
    exact told.1
  rw [Pending.Session.expire, h.sound.session.take_eq]
  refine h.withdraw _ (by decide) rfl rfl rfl (by simp [ShutDown, Mark.isShutDown]) ?coherent ?told
  case coherent =>
    refine ⟨?_, trivial⟩
    intro d hd
    obtain rfl := Option.some.inj hd
    exact ⟨f.toTicket, h.flight_running hf, entry_eq⟩
  case told =>
    intro v hv
    rw [withdrawn_found h.sound.session found hv]
    split
    next own =>
      have none_claimed : claims [.expired p.now (some entry)] = [] := rfl
      rw [Told]
      show v.entry ∉ _ ∧ (v.entry ∈ _ ∨ _)
      rw [claims_append, none_claimed, List.append_nil, expiries_append, own]
      exact ⟨fresh, .inl (List.mem_append_right _ List.mem_cons_self)⟩
    next other =>
      refine (h.told v hv).append ?_ ?_
      · intro hd
        cases hd
      · intro hd
        exact other (List.mem_singleton.1 hd)

theorem Account.sweep (h : Account j p) (whole : p.now.tick = p.now) :
    Account j { p with session := (p.session.sweep p.session.now).2 } := by
  rw [h.sound.session.sweep_eq]
  have swept : Account (j ++ []) { p with
      session := p.session.withdraw (fun e => e.deadline ≤ p.session.now) .dropped } := by
    refine h.withdraw _ (by decide) rfl rfl rfl (by simp [ShutDown]) trivial ?_
    intro w hw
    have old := h.told w hw
    rw [List.append_nil, withdrawn]
    split
    next due =>
      rw [Told, due.1] at old
      have ticked := Duration.tick_mono (of_decide_eq_true due.2)
      exact ⟨old.1, .inr (ticked.trans_eq whole)⟩
    next => exact old
  rw [List.append_nil] at swept
  exact swept

theorem Account.enter (h : Account j p) {t : Ticket} {session : Pending.Session}
    (hr : p.session.register t.name t.key t.deadline = .ok session)
    (number : t.registration = p.session.table.next) (nonce : Nonce) :
    Account (j ++ [.registered p.now t])
      { p with session, flights := p.flights ++ [⟨t, nonce, .registered⟩] } := by
  have sound := h.sound.enter hr number nonce
  obtain ⟨-, -, -, rfl⟩ := Pending.Session.register_ok hr
  have made : registered (j ++ [.registered p.now t]) = registered j ++ [t] :=
    registered_append _
  constructor
  case sound => exact sound
  case tickets =>
    have open_ : t.registration ∉ closed j := by
      intro hn
      exact absurd (h.coherent.closed_below h.below hn) (by omega)
    have tickets := h.tickets
    rw [running] at tickets
    rw [Prober.tickets, List.map_append, running, made, closed_concat rfl, List.filter_append,
      ← tickets]
    simp [open_, Prober.tickets]
  case ordered =>
    rw [made, List.pairwise_append]
    refine ⟨h.ordered, List.pairwise_singleton _ _, ?_⟩
    intro u hu v hv
    rw [List.mem_singleton.1 hv, number]
    exact h.below u hu
  case below =>
    intro u hu
    rw [made] at hu
    rcases List.mem_append.1 hu with hu | hu
    · exact Nat.lt_succ_of_lt (h.below u hu)
    · rw [List.mem_singleton.1 hu, number]
      exact Nat.lt_succ_self _
  case unfailed =>
    intro u hu
    rw [failed_concat rfl]
    rw [Prober.tickets, List.map_append] at hu
    rcases List.mem_append.1 hu with hu | hu
    · exact h.unfailed u hu
    · rw [List.mem_singleton.1 hu]
      intro hn
      exact absurd (h.coherent.failed_below h.below hn) (by simp [number])
  case down =>
    rw [shutDown_append]
    exact h.down.trans (or_iff_left (by simp [ShutDown, Mark.isShutDown])).symm
  case told =>
    intro w hw
    rcases List.mem_append.1 hw with hw | hw
    · exact (h.told w hw).append List.not_mem_nil List.not_mem_nil
    · rw [List.mem_singleton.1 hw, Told, claims_concat rfl, expiries_concat rfl]
      constructor
      · intro hd
        exact absurd (h.coherent.claims_below h.below hd) (Nat.lt_irrefl _)
      · intro hd
        exact absurd (h.coherent.expiries_below h.below hd) (Nat.lt_irrefl _)
  case coherent => exact coherent_append.2 ⟨h.coherent, trivial, trivial⟩

theorem Account.beginWait (h : Account j p) (f : Flight) : Account j (p.beginWait f) := by
  refine h.same (h.sound.beginWait f) (tickets_setPhase _ _ _) (Nat.le_refl _) rfl
    (Nat.le_refl _) ?_
  intro w hw
  obtain ⟨v, hv, rfl⟩ := List.mem_map.1 hw
  refine ⟨v, hv, ?_⟩
  split <;> exact ⟨rfl, rfl⟩

theorem Account.close (h : Account j p) (down : p.shutDown = true) :
    Account (j ++ p.close.1) p.close.2 := by
  have told : Account (j ++ p.close.1) { p with
      session := p.session.withdraw (fun _ => true) (.filled .cancelled) } := by
    refine h.withdraw _ (by decide) rfl rfl rfl ?up ⟨trivial, trivial⟩ ?told
    case up => simp [Prober.close, ShutDown, Mark.isShutDown]
    case told =>
      intro w hw
      rw [withdrawn]
      have old := h.told w hw
      split
      next held =>
        rw [Told, held.1] at old
        rw [Told]
        refine ⟨?_, (shutDown_append _).2 (.inl (h.down.1 down))⟩
        rw [claims_append]
        exact List.not_mem_append old.1 List.not_mem_nil
      next => exact old.append List.not_mem_nil List.not_mem_nil
  refine told.same h.sound.close rfl ?_ rfl ?_ ?_
  all_goals rw [Prober.close, h.sound.session.close_eq]
  · exact Nat.le_refl _
  · intro w hw
    exact ⟨w, hw, rfl, rfl⟩

theorem Account.signal (h : Account j p) :
    Account (j ++ [.shutDown p.now]) { p with shutDown := true } := by
  constructor
  case sound => exact h.sound.congr rfl rfl rfl rfl
  case tickets => rw [running_concat rfl rfl]; exact h.tickets
  case ordered => rw [registered_concat rfl]; exact h.ordered
  case below => rw [registered_concat rfl]; exact h.below
  case unfailed => rw [failed_concat rfl]; exact h.unfailed
  case down => simp [ShutDown, Mark.isShutDown]
  case told =>
    intro w hw
    exact (h.told w hw).append List.not_mem_nil List.not_mem_nil
  case coherent => exact coherent_append.2 ⟨h.coherent, trivial, trivial⟩

theorem Move.account {k : List Mark} (m : Move p k q) (h : Account j p) : Account (j ++ k) q := by
  have sound := m.sound h.sound
  cases m with
  | note idle => exact h.note idle
  | deliver byCollaborator hkey found => exact h.claim byCollaborator hkey found
  | fail error hf => exact h.fail hf error
  | finish hf hw hr ends => exact h.finish hf hw hr ends
  | ground hf down => exact h.ground hf down
  | drop hf => exact h.drop hf
  | sweep whole => rw [List.append_nil]; exact h.sweep whole
  | wait hf => rw [List.append_nil]; exact h.beginWait _
  | skip =>
    rw [List.append_nil]
    refine h.same sound rfl (Nat.le_succ _) rfl (Nat.le_refl _) ?_
    intro w hw
    exact ⟨w, hw, rfl, rfl⟩
  | hold hf before after =>
    rw [List.append_nil]
    refine h.same sound (tickets_setPhase _ _ _) (Nat.le_refl _) rfl (Nat.le_refl _) ?_
    intro w hw
    exact ⟨w, hw, rfl, rfl⟩
  | keep same =>
    rw [List.append_nil]
    refine h.same sound ?_ ?_ same.shutDown ?_ ?_
    · rw [Prober.tickets, same.flights, Prober.tickets]
    · rw [same.session]
    · rw [same.session]
    · intro w hw
      rw [same.session] at hw
      exact ⟨w, hw, rfl, rfl⟩

theorem Shift.account {byHand : Prop} {k : List Mark} (m : Shift byHand p k q) (h : Account j p) :
    Account (j ++ k) q := by
  have sound := m.sound h.sound
  cases m with
  | enter nonce hr number => exact h.enter hr number nonce
  | close down => exact h.close down
  | expire _ found => exact h.expire found
  | rearm sweeper =>
    rw [List.append_nil]
    refine h.same sound rfl (Nat.le_refl _) rfl (Nat.le_refl _) ?_
    intro w hw
    exact ⟨w, hw, rfl, rfl⟩
  | tick later =>
    rw [List.append_nil]
    refine h.same sound rfl (Nat.le_refl _) rfl later ?_
    intro w hw
    exact ⟨w, hw, rfl, rfl⟩
  | signal => exact h.signal

theorem Course.account {byHand : Prop} {k : List Mark} (c : Course byHand p k q) (h : Account j p) :
    Account (j ++ k) q := by
  induction c generalizing j with
  | refl => simpa using h
  | move m _ ih =>
    rw [← List.append_assoc]
    exact ih (m.account h)
  | shift m _ ih =>
    rw [← List.append_assoc]
    exact ih (m.account h)

theorem account_start {config : Config} {collaborators : Collaborators}
    (hs : start config collaborators = .ok p) : Account [] p := by
  rw [start] at hs
  split at hs
  next => cases hs
  next =>
    obtain rfl := Except.ok.inj hs
    refine ⟨⟨Pending.Session.Sound.empty, rfl, ?_⟩, rfl, .nil, ?_, ?_, ?_, ?_, trivial⟩
    all_goals simp [registered, Prober.tickets, ShutDown]

end RoundTrip.Prober
