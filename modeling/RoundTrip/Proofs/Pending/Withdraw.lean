import RoundTrip.Proofs.Pending.Rest

/-!
Withdrawing entries does not get in the way of what happens to the others. It makes no difference
whether it happens before or after a removal by another key, the beginning of a wait or the leaving
of a waiter, and none at all for entries whose waiters are about to give up.
-/

namespace RoundTrip.Pending

def Ending.withdrawn (p : Entry → Bool) (slot : Slot) (x : Ending) : Ending :=
  { x with waiter := Session.withdrawn p slot x.waiter }

namespace Session

variable {s : Session} {p q : Entry → Bool} {slot : Slot} {key : Key}

theorem waiters_withdraw (s : Session) (p : Entry → Bool) (slot : Slot) :
    (s.withdraw p slot).waiters = s.waiters.map (withdrawn p slot) := rfl

theorem withdrawn_number (p : Entry → Bool) (slot : Slot) (w : Waiter) :
    (withdrawn p slot w).registration = w.registration :=
  withdraw_registration w p slot

theorem withdrawn_key (p : Entry → Bool) (slot : Slot) (w : Waiter) :
    (withdrawn p slot w).key = w.key := by
  rw [withdrawn]
  split <;> rfl

theorem withdrawn_full {w : Waiter} (full : w.slot ≠ .empty) : withdrawn p slot w = w :=
  if_neg fun held => full held.1

theorem withdraw_congr (h : s.Sound) (same : ∀ e ∈ s.table.entries, p e = q e) (slot : Slot) :
    s.withdraw p slot = s.withdraw q slot := by
  have entries : (s.table.entries.filter fun e => !p e) = s.table.entries.filter fun e => !q e := by
    apply List.filter_congr
    intro e he
    rw [same e he]
  have waiters : s.waiters.map (withdrawn p slot) = s.waiters.map (withdrawn q slot) := by
    apply List.map_congr_left
    intro w hw
    rw [withdrawn, withdrawn]
    by_cases empty : w.slot = .empty
    · rw [same _ (h.entry_mem hw empty)]
    · rw [if_neg fun held => empty held.1, if_neg fun held => empty held.1]
  rw [withdraw, withdraw, entries]
  exact congrArg (fun waiters => { s with
    table := { s.table with entries := s.table.entries.filter fun e => !q e }, waiters }) waiters

theorem find?_withdraw (other : ∀ e, p e = true → e.key ≠ key) (s : Session) (slot : Slot) :
    (s.withdraw p slot).table.find? key = s.table.find? key := by
  have held (e : Entry) :
      (decide ((!p e) = true) && decide (e.key = key)) = decide (e.key = key) := by
    cases taken : p e with
    | false => simp
    | true => simp [other e taken]
  simp only [Table.find?, withdraw_entries, List.find?_filter]
  congr 1
  funext e
  simpa using held e

theorem waiter?_withdraw (s : Session) (p : Entry → Bool) (slot : Slot) (registration : Nat) :
    (s.withdraw p slot).waiter? registration =
      (s.waiter? registration).map (withdrawn p slot) := by
  simp only [waiter?, waiters_withdraw, List.find?_map, Function.comp_def, withdrawn_number]

theorem update_withdraw {f : Waiter → Waiter}
    (told : ∀ w, f (withdrawn p slot w) = withdrawn p slot (f w)) (s : Session)
    (registration : Nat) :
    (s.withdraw p slot).update registration f = (s.update registration f).withdraw p slot := by
  have waiters : (s.waiters.map (withdrawn p slot)).map
        (fun w => if w.registration = registration then f w else w) =
      (s.waiters.map fun w => if w.registration = registration then f w else w).map
        (withdrawn p slot) := by
    rw [List.map_map, List.map_map]
    apply List.map_congr_left
    intro w _
    simp only [Function.comp_apply, withdrawn_number]
    split
    next => exact told w
    next => rfl
  exact congrArg (fun waiters => { s.withdraw p slot with waiters }) waiters

theorem wait_withdraw (s : Session) (p : Entry → Bool) (slot : Slot) (registration : Nat) :
    ((s.withdraw p slot).update registration fun w => { w with waiting := true }) =
      (s.update registration fun w => { w with waiting := true }).withdraw p slot := by
  refine update_withdraw ?_ s registration
  intro w
  have entry : ({ w with waiting := true } : Waiter).entry = w.entry := rfl
  rw [withdrawn, withdrawn, entry]
  split <;> rfl

theorem take_withdraw (other : ∀ e, p e = true → e.key ≠ key) (s : Session) (slot : Slot)
    {filled : Slot} (full : filled ≠ .empty) :
    (s.withdraw p slot).take key filled =
      ((s.take key filled).1, (s.take key filled).2.withdraw p slot) := by
  rw [take, take, find?_withdraw other]
  cases s.table.find? key with
  | none => rfl
  | some e =>
    have removed : { s.withdraw p slot with table := (s.withdraw p slot).table.remove key } =
        ({ s with table := s.table.remove key } : Session).withdraw p slot := by
      simp only [withdraw, Table.remove, List.filter_filter, Bool.and_comm]
    have told (w : Waiter) : ({ withdrawn p slot w with slot := filled } : Waiter) =
        withdrawn p slot { w with slot := filled } := by
      have kept : withdrawn p slot { w with slot := filled } = { w with slot := filled } :=
        withdrawn_full full
      rw [kept, withdrawn]
      split <;> rfl
    simp only [removed]
    exact congrArg (Prod.mk true) (update_withdraw told _ e.registration)

theorem leave_withdraw (s : Session) (p : Entry → Bool) (slot : Slot) (w : Waiter) :
    (s.withdraw p slot).leave (withdrawn p slot w) = (s.leave w).withdraw p slot := by
  have waiters : ((s.waiters.map (withdrawn p slot)).filter fun v =>
        v.registration ≠ (withdrawn p slot w).registration) =
      (s.waiters.filter fun v => v.registration ≠ w.registration).map (withdrawn p slot) := by
    simp only [List.filter_map, Function.comp_def, withdrawn_number]
  have table : (s.withdraw p slot).table.removeOwn (withdrawn p slot w).key
      (withdrawn p slot w).registration = ((s.leave w).withdraw p slot).table := by
    rw [withdrawn_key, withdrawn_number]
    simp only [leave, withdraw, Table.removeOwn, List.filter_filter, Bool.and_comm]
  exact congrArg₂ (fun table waiters => { s with table, waiters }) table waiters

theorem ending?_withdrawn {w : Waiter}
    (due : w.slot = .empty → p w.entry = true → s.ending? w = some .expired) :
    s.ending? (withdrawn p .dropped w) = s.ending? w := by
  rw [withdrawn]
  split
  next held =>
    have expired := due held.1 held.2
    have waits : w.waiting = true := by
      cases asleep : w.waiting with
      | true => rfl
      | false => simp [ending?, asleep] at expired
    rw [expired, ending?]
    simp [waits, Slot.outcome?]
  next => rfl

theorem finishEach_withdraw {ws : List Waiter}
    (due : ∀ w ∈ ws, w.slot = .empty → p w.entry = true → s.ending? w = some .expired) :
    ((s.withdraw p .dropped).finishEach (ws.map (withdrawn p .dropped))).1.filterMap Mark.ending? =
        ((s.finishEach ws).1.filterMap Mark.ending?).map (Ending.withdrawn p .dropped) ∧
      ((s.withdraw p .dropped).finishEach (ws.map (withdrawn p .dropped))).2 =
        (s.finishEach ws).2.withdraw p .dropped := by
  induction ws generalizing s with
  | nil => exact ⟨rfl, rfl⟩
  | cons w rest ih =>
    have ends : (s.withdraw p .dropped).ending? (withdrawn p .dropped w) = s.ending? w :=
      ending?_withdrawn (due w List.mem_cons_self)
    have due_rest : ∀ v ∈ rest, v.slot = .empty → p v.entry = true →
        s.ending? v = some .expired := fun v hv => due v (List.mem_cons_of_mem _ hv)
    rw [List.map_cons, finishEach, finishEach, ends]
    split
    next => exact ih due_rest
    next outcome _ =>
      obtain ⟨endings, left⟩ := ih (s := s.leave w) due_rest
      simp only [leave_withdraw, List.filterMap_append, released_endings, List.nil_append]
      refine ⟨?_, left⟩
      exact congrArg (List.cons (Ending.withdrawn p .dropped ⟨s.now, w, outcome⟩)) endings

theorem settle_withdraw (due : ∀ w ∈ s.waiters, w.slot = .empty → p w.entry = true →
      s.ending? w = some .expired)
    (sound : s.settle.2.Sound) (gone : ∀ e ∈ s.settle.2.table.entries, p e = false) :
    (s.withdraw p .dropped).settle =
      (s.settle.1.map (Ending.withdrawn p .dropped), s.settle.2) := by
  obtain ⟨endings, left⟩ := finishEach_withdraw due
  have nothing : (s.finishEach s.waiters).2.withdraw p .dropped = s.settle.2 :=
    withdraw_nothing sound _ gone
  rw [nothing] at left
  exact Prod.ext endings left

end Session

end RoundTrip.Pending
