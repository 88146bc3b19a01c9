import Mathlib.Data.List.Perm.Basic
import RoundTrip.Proofs.Pending.Move

namespace RoundTrip.Pending

open scoped List

def Mark.registered? : Mark → Option Entry
  | .registered e => some e
  | _ => none

def Mark.removed? : Mark → Option (Entry × Exit)
  | .removed e exit => some (e, exit)
  | _ => none

def registrations (journal : List Mark) : List Entry := journal.filterMap Mark.registered?

def removals (journal : List Mark) : List (Entry × Exit) := journal.filterMap Mark.removed?

/-- The ways in which a registration left the table, the first one first. -/
def exits (journal : List Mark) (registration : Nat) : List Exit :=
  ((removals journal).filter fun r => r.1.registration = registration).map Prod.snd

@[simp] theorem registrations_append (a b : List Mark) :
    registrations (a ++ b) = registrations a ++ registrations b :=
  List.filterMap_append

@[simp] theorem removals_append (a b : List Mark) :
    removals (a ++ b) = removals a ++ removals b :=
  List.filterMap_append

@[simp] theorem registrations_removed (es : List Entry) (exit : Exit) :
    registrations (es.map fun e => .removed e exit) = [] := by
  simp [registrations, Mark.registered?]

@[simp] theorem removals_removed (es : List Entry) (exit : Exit) :
    removals (es.map fun e => .removed e exit) = es.map fun e => (e, exit) := by
  simp [removals, List.filterMap_map, Function.comp_def, Mark.removed?]

def Without (exit : Exit) (journal : List Mark) : Prop := ∀ e, (e, exit) ∉ removals journal

theorem without_nil (exit : Exit) : Without exit [] := fun _ he => by cases he

theorem Without.append {exit : Exit} {a b : List Mark} (ha : Without exit a)
    (hb : Without exit b) : Without exit (a ++ b) := by
  intro e he
  rw [removals_append] at he
  rcases List.mem_append.1 he with he | he
  · exact ha e he
  · exact hb e he

theorem without_removed {es : List Entry} {exit exit' : Exit} (other : exit' ≠ exit) :
    Without exit (es.map fun e => .removed e exit') := by
  intro e he
  rw [removals_removed] at he
  obtain ⟨d, -, same⟩ := List.mem_map.1 he
  exact other (congrArg Prod.snd same)

def Op.exit? : Op → Option Exit
  | .resolve _ => some .resolved
  | .expire _ => some .expired
  | .sweep _ => some .swept
  | .close => some .closed
  | .register _ _ _ | .wait _ | .leave _ | .advance _ | .startSweeper _
  | .startCancelled _ _ | .stopSweeper _ => none

namespace Session

structure Ledger (journal : List Mark) (s : Session) : Prop where
  sound : s.Sound
  conserved : (registrations journal).Perm (s.table.entries ++ (removals journal).map Prod.fst)
  ordered : (registrations journal).Pairwise fun d e => d.registration < e.registration
  below : ∀ e ∈ registrations journal, e.registration < s.table.next
  told : ∀ w ∈ s.waiters, w.slot ≠ .empty →
    ∃ exit, (w.entry, exit) ∈ removals journal ∧ exit.slot? = some w.slot
  ended : ∀ x, .ended x ∈ journal →
    ∃ exit, (x.waiter.entry, exit) ∈ removals journal ∧ x.outcome = exit.outcome

theorem Ledger.empty : Ledger [] {} := by
  constructor
  · exact Sound.empty
  all_goals simp [registrations, removals]

variable {journal : List Mark} {s s' : Session}

theorem Ledger.register (h : Ledger journal s) {name : String} {key : Key} {deadline : Duration}
    (hr : s.register name key deadline = .ok s') :
    Ledger (journal ++ [.registered ⟨key, s.table.next, deadline⟩]) s' := by
  have sound := h.sound.register hr
  obtain ⟨-, -, -, rfl⟩ := register_ok hr
  have added : registrations [.registered ⟨key, s.table.next, deadline⟩] =
      [⟨key, s.table.next, deadline⟩] := rfl
  have kept : removals [.registered ⟨key, s.table.next, deadline⟩] = [] := rfl
  constructor
  case sound => exact sound
  case conserved =>
    rw [registrations_append, removals_append, added, kept, List.append_nil]
    simp only [Table.insert]
    calc registrations journal ++ [⟨key, s.table.next, deadline⟩]
        ~ (s.table.entries ++ (removals journal).map Prod.fst) ++
            [⟨key, s.table.next, deadline⟩] := h.conserved.append_right _
      _ ~ s.table.entries ++ ([⟨key, s.table.next, deadline⟩] ++
            (removals journal).map Prod.fst) := by
        rw [List.append_assoc]
        exact List.perm_append_comm.append_left _
      _ = (s.table.entries ++ [⟨key, s.table.next, deadline⟩]) ++
            (removals journal).map Prod.fst := by rw [List.append_assoc]
  case ordered =>
    rw [registrations_append, added, List.pairwise_append]
    refine ⟨h.ordered, List.pairwise_singleton _ _, ?_⟩
    intro d hd e he
    rw [List.mem_singleton.1 he]
    exact h.below d hd
  case below =>
    intro e he
    rw [registrations_append, added] at he
    rcases List.mem_append.1 he with he | he
    · exact Nat.lt_succ_of_lt (h.below e he)
    · rw [List.mem_singleton.1 he]
      exact Nat.lt_succ_self _
  case told =>
    intro w hw hs
    rw [removals_append, kept, List.append_nil]
    rcases List.mem_append.1 hw with hw | hw
    · exact h.told w hw hs
    · rw [List.mem_singleton.1 hw] at hs
      exact absurd rfl hs
  case ended =>
    intro x hx
    rw [removals_append, kept, List.append_nil]
    exact h.ended x (by simpa using hx)

theorem Ledger.remove (h : Ledger journal s) (sound : s'.Sound) (p : Entry → Bool) (exit : Exit)
    (next : s'.table.next = s.table.next)
    (entries : s'.table.entries = s.table.entries.filter fun e => !p e)
    (told : ∀ w ∈ s'.waiters, w.slot ≠ .empty → w ∈ s.waiters ∨
      w.entry ∈ s.table.entries.filter p ∧ exit.slot? = some w.slot) :
    Ledger (journal ++ (s.table.entries.filter p).map fun e => .removed e exit) s' := by
  constructor
  case sound => exact sound
  case conserved =>
    simp only [registrations_append, registrations_removed, List.append_nil, removals_append,
      removals_removed, List.map_append, List.map_map, Function.comp_def, List.map_id', entries]
    calc registrations journal
        ~ s.table.entries ++ (removals journal).map Prod.fst := h.conserved
      _ ~ (s.table.entries.filter p ++ s.table.entries.filter fun e => !p e) ++
            (removals journal).map Prod.fst :=
        (List.filter_append_perm p s.table.entries).symm.append_right _
      _ ~ (s.table.entries.filter fun e => !p e) ++
            ((removals journal).map Prod.fst ++ s.table.entries.filter p) := by
        rw [List.append_assoc]
        exact List.perm_append_comm.trans (by rw [List.append_assoc])
  case ordered =>
    simpa using h.ordered
  case below =>
    simpa [next] using h.below
  case told =>
    intro w hw hs
    simp only [removals_append, removals_removed, List.mem_append]
    rcases told w hw hs with hw | ⟨hp, he⟩
    · obtain ⟨x, hx, hslot⟩ := h.told w hw hs
      exact ⟨x, .inl hx, hslot⟩
    · exact ⟨exit, .inr (List.mem_map_of_mem hp), he⟩
  case ended =>
    intro x hx
    have old : .ended x ∈ journal := by simpa using hx
    obtain ⟨e, he, ho⟩ := h.ended x old
    exact ⟨e, by simp [he], ho⟩

theorem Ledger.withdraw (h : Ledger journal s) (p : Entry → Bool) {exit : Exit} {slot : Slot}
    (he : exit.slot? = some slot) :
    Ledger (journal ++ (s.table.entries.filter p).map fun e => .removed e exit)
      (s.withdraw p slot) := by
  refine h.remove (h.sound.withdraw p (Exit.slot_ne_empty he)) p exit rfl rfl ?_
  intro w hw hs
  rw [withdraw_waiters] at hw
  obtain ⟨v, hv, rfl⟩ := List.mem_map.1 hw
  split at hs
  next taken =>
    right
    have own : v.entry ∈ s.table.entries.filter p :=
      List.mem_filter.2 ⟨h.sound.entry_mem hv taken.1, taken.2⟩
    rw [if_pos taken]
    exact ⟨own, he⟩
  next kept =>
    left
    rw [if_neg kept]
    exact hv

theorem Ledger.leave (h : Ledger journal s) {w : Waiter} (hw : w ∈ s.waiters) (exit : Exit) :
    Ledger (journal ++ s.released w exit) (s.leave w) := by
  refine h.remove (h.sound.leave hw) _ exit rfl ?_ ?_
  · simp [Session.leave, Table.removeOwn]
  · intro v hv _
    exact .inl (List.mem_of_mem_filter hv)

theorem Ledger.end_ (h : Ledger journal s) {x : Ending}
    (cause : ∃ exit, (x.waiter.entry, exit) ∈ removals journal ∧ x.outcome = exit.outcome) :
    Ledger (journal ++ [.ended x]) s := by
  have registered : registrations (journal ++ [.ended x]) = registrations journal := by
    rw [registrations_append]
    exact List.append_nil _
  have removed : removals (journal ++ [.ended x]) = removals journal := by
    rw [removals_append]
    exact List.append_nil _
  constructor
  case sound => exact h.sound
  case conserved => rw [registered, removed]; exact h.conserved
  case ordered => rw [registered]; exact h.ordered
  case below => rw [registered]; exact h.below
  case told => rw [removed]; exact h.told
  case ended =>
    intro y hy
    rw [removed]
    rcases List.mem_append.1 hy with hy | hy
    · exact h.ended y hy
    · rw [Mark.ended.inj (List.mem_singleton.1 hy)]
      exact cause

theorem Ledger.finish (h : Ledger journal s) {w : Waiter} (hw : w ∈ s.waiters) {outcome : Outcome}
    (he : s.ending? w = some outcome) :
    Ledger (journal ++ (s.released w .timedOut ++ [.ended ⟨s.now, w, outcome⟩])) (s.leave w) := by
  rw [← List.append_assoc]
  refine (h.leave hw .timedOut).end_ ?_
  rw [removals_append]
  -- An empty slot means that the entry goes now; any other tells of the removal it went with.
  by_cases hs : w.slot = .empty
  · refine ⟨.timedOut, ?_, ?_⟩
    · rw [released, h.sound.own_entries hw, if_pos hs, removals_removed]
      simp
    · simp only [ending?, hs, Slot.outcome?] at he
      split at he
      · cases he
      · split at he
        · exact (Option.some.inj he).symm
        · cases he
  · obtain ⟨exit, hx, hslot⟩ := h.told w hw hs
    refine ⟨exit, List.mem_append_left _ hx, ?_⟩
    simp only [ending?, Exit.outcome_of_slot hslot] at he
    split at he
    · cases he
    · exact (Option.some.inj he).symm

theorem Ledger.congr (h : Ledger journal s) (sound : s'.Sound)
    (next : s.table.next ≤ s'.table.next) (entries : s'.table.entries = s.table.entries)
    (kept : ∀ w ∈ s'.waiters, w.slot ≠ .empty →
      ∃ v ∈ s.waiters, v.entry = w.entry ∧ v.slot = w.slot) : Ledger journal s' := by
  constructor
  case sound => exact sound
  case conserved => rw [entries]; exact h.conserved
  case ordered => exact h.ordered
  case below =>
    intro e he
    exact Nat.lt_of_lt_of_le (h.below e he) next
  case told =>
    intro w hw hs
    obtain ⟨v, hv, he, hslot⟩ := kept w hw hs
    rw [← he, ← hslot]
    exact h.told v hv (by rwa [hslot])
  case ended => exact h.ended

theorem Move.ledger {marks : List Mark} (m : Move s marks s') (h : Ledger journal s) :
    Ledger (journal ++ marks) s' := by
  have sound := m.sound h.sound
  cases m with
  | register hr => exact h.register hr
  | withdraw p he => exact h.withdraw p he
  | leave hw => exact h.leave hw .left
  | finish hw he => exact h.finish hw he
  | shut he =>
    rw [List.append_nil]
    exact h.congr sound (Nat.le_refl _) he.symm fun w hw _ => ⟨w, hw, rfl, rfl⟩
  | skip =>
    rw [List.append_nil]
    exact h.congr sound (Nat.le_succ _) rfl fun w hw _ => ⟨w, hw, rfl, rfl⟩
  | tick ht hw =>
    rw [List.append_nil]
    refine h.congr sound (by rw [ht]) (by rw [ht]) ?_
    intro w hw' _
    exact ⟨w, hw ▸ hw', rfl, rfl⟩
  | wait v =>
    rw [List.append_nil]
    refine h.congr sound (Nat.le_refl _) rfl ?_
    intro w hw _
    obtain ⟨u, hu, rfl⟩ := List.mem_map.1 hw
    refine ⟨u, hu, ?_⟩
    split <;> exact ⟨rfl, rfl⟩

theorem Moves.ledger {marks : List Mark} (m : Moves s marks s') (h : Ledger journal s) :
    Ledger (journal ++ marks) s' := by
  induction m generalizing journal with
  | refl => simpa using h
  | step move _ ih =>
    -- the journal so far grows by what this move notes
    rw [← List.append_assoc]
    exact ih (move.ledger h)

theorem ledger_run (ops : List Op) : Ledger (run {} ops).1 (run {} ops).2 :=
  (Sound.empty.run_moves ops).ledger .empty

theorem Ledger.numbers (h : Ledger journal s) :
    (s.table.entries.map Entry.registration ++
      (removals journal).map fun r => r.1.registration).Nodup := by
  have distinct : ((registrations journal).map Entry.registration).Nodup := by
    rw [List.Nodup, List.pairwise_map]
    exact h.ordered.imp Nat.ne_of_lt
  have moved := (h.conserved.map Entry.registration).nodup_iff.1 distinct
  simpa [Function.comp_def] using moved

theorem Ledger.exits_removed (h : Ledger journal s) {e : Entry} {exit : Exit}
    (he : (e, exit) ∈ removals journal) : exits journal e.registration = [exit] := by
  have distinct : (removals journal).Pairwise fun a b => a.1.registration ≠ b.1.registration := by
    have right := (List.nodup_append.1 h.numbers).2.1
    rwa [List.Nodup, List.pairwise_map] at right
  rw [exits, filter_eq_singleton distinct he]
  rfl

theorem Ledger.exits_held (h : Ledger journal s) {e : Entry} (he : e ∈ s.table.entries) :
    exits journal e.registration = [] := by
  have apart := (List.nodup_append.1 h.numbers).2.2
  rw [exits, List.map_eq_nil_iff, List.filter_eq_nil_iff]
  intro r hr hn
  exact apart _ (List.mem_map_of_mem he) _ (List.mem_map_of_mem hr) (of_decide_eq_true hn).symm

theorem Sound.find?_mem {s : Session} (h : s.Sound) {e : Entry} (he : e ∈ s.table.entries) :
    s.table.find? e.key = some e := by
  cases hf : s.table.find? e.key with
  | none =>
    have := List.find?_eq_none.1 hf e he
    simp at this
  | some d =>
    have single := h.find?_eq hf
    have mem : e ∈ s.table.entries.filter fun d => d.key = e.key := by simp [he]
    rw [single] at mem
    rw [List.mem_singleton.1 mem]

theorem take_found (s : Session) (key : Key) (slot : Slot) :
    (s.take key slot).1 = s.table.contains key := by
  rw [take, Table.contains]
  split
  next none_found => rw [none_found]; rfl
  next e found => rw [found]; rfl

theorem taken_length (s : Session) (key : Key) :
    (s.table.find? key).toList.length = (s.table.contains key).toNat := by
  rw [Table.contains]
  cases s.table.find? key <;> rfl

theorem act_counted (s : Session) {op : Op} {exit : Exit} (h : op.exit? = some exit) :
    ∃ es : List Entry, (s.act op).2.1 = es.map (fun e => .removed e exit) ∧
      es.length = (s.act op).1.removals := by
  cases op with
  | resolve key =>
    cases h
    refine ⟨(s.table.find? key).toList, rfl, ?_⟩
    rw [taken_length, ← take_found s key (.filled .delivered)]
    rfl
  | expire key =>
    cases h
    refine ⟨(s.table.find? key).toList, rfl, ?_⟩
    rw [taken_length, ← take_found s key .dropped]
    rfl
  | sweep now => cases h; exact ⟨_, rfl, rfl⟩
  | close => cases h; exact ⟨_, rfl, rfl⟩
  | _ => cases h

theorem finishEach_timedOut (s : Session) (ws : List Waiter) :
    ∀ r ∈ removals (s.finishEach ws).1, r.2 = .timedOut := by
  induction ws generalizing s with
  | nil => simp [finishEach, removals]
  | cons w rest ih =>
    rw [finishEach]
    split
    next => exact ih s
    next outcome _ =>
      intro r hr
      have split : removals (s.released w .timedOut ++
          Mark.ended ⟨s.now, w, outcome⟩ :: ((s.leave w).finishEach rest).1) =
          removals (s.released w .timedOut) ++ removals ((s.leave w).finishEach rest).1 := by
        rw [removals_append]
        rfl
      rw [split, released, removals_removed] at hr
      rcases List.mem_append.1 hr with hr | hr
      · obtain ⟨e, -, rfl⟩ := List.mem_map.1 hr
        rfl
      · exact ih _ r hr

theorem perform_counted (s : Session) {op : Op} {exit : Exit} (h : op.exit? = some exit) :
    ((removals (s.perform op).2.1).filter fun r => r.2 = exit).length =
      (s.perform op).1.removals := by
  obtain ⟨es, marks, length⟩ := s.act_counted h
  have later : (removals (s.act op).2.2.finish.1).filter (fun r => r.2 = exit) = [] := by
    rw [List.filter_eq_nil_iff]
    intro r hr
    rw [finishEach_timedOut _ _ r hr]
    cases op <;> cases h <;> decide
  have performed : (s.perform op).2.1 = (s.act op).2.1 ++ (s.act op).2.2.finish.1 := rfl
  rw [performed, removals_append, List.filter_append, later, List.append_nil, marks,
    removals_removed, List.filter_map]
  simp only [Function.comp_def, decide_true, List.filter_true, List.length_map]
  exact length

/-- What the journal of a run and the state that it leads to say of every registration. -/
structure Settled (journal : List Mark) (s : Session) : Prop where
  /-- An entry is still that of its key, or it has left once. -/
  fate : ∀ e ∈ registrations journal,
    s.table.find? e.key = some e ∧ exits journal e.registration = [] ∨
      e ∉ s.table.entries ∧ ∃ exit, exits journal e.registration = [exit]
  numbered : ((registrations journal).map Entry.registration).Nodup
  /-- A wait ends with what became of its own entry. -/
  outcome : ∀ x, .ended x ∈ journal →
    x.waiter.entry ∈ registrations journal ∧
      ∃ exit, exits journal x.waiter.registration = [exit] ∧
        (x.outcome = .delivered ↔ exit = .resolved) ∧
        (x.outcome = .cancelled ↔ exit = .closed)
  conserved : (registrations journal).length = s.table.size + (removals journal).length
  /-- A delivery finds an entry whenever there is one, and takes that one. -/
  resolves : ∀ key, ((s.perform (.resolve key)).1 = .flag true ↔
      ∃ e ∈ s.table.entries, e.key = key) ∧
    ∀ e, (e, .resolved) ∈ removals (s.perform (.resolve key)).2.1 ↔ s.table.find? key = some e
  counted : ∀ op exit, op.exit? = some exit →
    ((removals (s.perform op).2.1).filter fun r => r.2 = exit).length = (s.perform op).1.removals

theorem Exit.delivered_iff (exit : Exit) : exit.outcome = .delivered ↔ exit = .resolved := by
  cases exit <;> decide

theorem Exit.cancelled_iff (exit : Exit) : exit.outcome = .cancelled ↔ exit = .closed := by
  cases exit <;> decide

theorem resolve_flag (s : Session) (key : Key) :
    (s.perform (.resolve key)).1 = .flag true ↔ ∃ e ∈ s.table.entries, e.key = key := by
  have flag : (s.perform (.resolve key)).1 = .flag (s.take key (.filled .delivered)).1 := rfl
  rw [flag, take_found, Answer.flag.injEq, Table.contains, Table.find?, List.find?_isSome]
  simp

theorem resolve_removes (s : Session) (key : Key) (e : Entry) :
    (e, .resolved) ∈ removals (s.perform (.resolve key)).2.1 ↔ s.table.find? key = some e := by
  have performed : (s.perform (.resolve key)).2.1 =
      (s.table.find? key).toList.map (fun e => .removed e .resolved) ++
        (s.resolve key).2.finish.1 := rfl
  rw [performed, removals_append, removals_removed, List.mem_append]
  constructor
  · rintro (taken | later)
    · simpa using taken
    · cases finishEach_timedOut _ _ _ later
  · intro found
    left
    simpa using found

theorem settled_exactly_once (ops : List Op) : Settled (run {} ops).1 (run {} ops).2 := by
  have ledger := ledger_run ops
  constructor
  case fate =>
    intro e he
    rcases List.mem_append.1 (ledger.conserved.mem_iff.1 he) with held | gone
    · left
      exact ⟨ledger.sound.find?_mem held, ledger.exits_held held⟩
    · right
      obtain ⟨⟨e, exit⟩, removed, rfl⟩ := List.mem_map.1 gone
      have once := ledger.exits_removed removed
      refine ⟨?_, exit, once⟩
      intro held
      rw [ledger.exits_held held] at once
      cases once
  case numbered =>
    rw [List.Nodup, List.pairwise_map]
    exact ledger.ordered.imp Nat.ne_of_lt
  case outcome =>
    intro x hx
    obtain ⟨exit, removed, told⟩ := ledger.ended x hx
    have known : x.waiter.entry ∈ registrations (run {} ops).1 :=
      ledger.conserved.mem_iff.2 (List.mem_append_right _ (List.mem_map_of_mem removed))
    refine ⟨known, exit, ledger.exits_removed removed, ?_, ?_⟩
    · rw [told]
      exact Exit.delivered_iff exit
    · rw [told]
      exact Exit.cancelled_iff exit
  case conserved =>
    rw [ledger.conserved.length_eq, List.length_append, List.length_map]
    rfl
  case resolves =>
    intro key
    exact ⟨resolve_flag _ key, resolve_removes _ key⟩
  case counted =>
    intro op exit h
    exact perform_counted _ h

end Session

end RoundTrip.Pending
