import Mathlib.Logic.Equiv.Basic
import RoundTrip.Proofs.Pending.Part

/-!
What can be seen of a key in a run, and tables that show the same of it but for the numbers of the
registrations, which all keys share. A run without the operations on other keys goes along with the
whole run.
-/

namespace RoundTrip.Pending

/-- What can be seen of a key when an operation is done. -/
structure Sight where
  /-- Left out of operations on all keys, which answer with a count over all of them. -/
  answer : Answer
  marks : List Mark
  now : Nat
  held : Bool
  deriving DecidableEq

def Sight.renumber (ρ : Nat → Nat) (x : Sight) : Sight :=
  { x with marks := x.marks.map (Mark.renumber ρ) }

def Mark.registration : Mark → Nat
  | .registered e => e.registration
  | .removed e _ => e.registration
  | .ended x => x.waiter.registration

namespace Session

def sight (s : Session) (key : Key) (op : Op) : Sight where
  answer := if op.isShared then .none else (s.perform op).1
  marks := marksOf key (s.perform op).2.1
  now := (s.perform op).2.2.now
  held := (s.perform op).2.2.table.contains key

def sights (key : Key) : Session → List Op → List Sight
  | _, [] => []
  | s, op :: rest =>
    if s.concerns key op then s.sight key op :: sights key (s.perform op).2.2 rest
    else sights key (s.perform op).2.2 rest

/-- The run without the operations on other keys, with the registrations numbered anew. -/
def kept (key : Key) (ρ : Nat → Nat) : Session → List Op → List Op
  | _, [] => []
  | s, op :: rest =>
    if s.concerns key op then op.renumber ρ :: kept key ρ (s.perform op).2.2 rest
    else kept key ρ (s.perform op).2.2 rest

end Session

open Session

theorem Session.Move.numbers {s t : Session} {marks : List Mark} (m : Move s marks t)
    (sound : s.Sound) :
    s.table.next ≤ t.table.next ∧ ∀ x ∈ marks, x.registration < t.table.next := by
  have held (es : List Entry) (hes : es ⊆ s.table.entries) (exit : Exit) :
      ∀ x ∈ es.map fun e => Mark.removed e exit, x.registration < s.table.next := by
    intro x hx
    obtain ⟨e, he, rfl⟩ := List.mem_map.1 hx
    obtain ⟨w, hw, -, rfl⟩ := sound.mem_entries.1 (hes he)
    exact sound.below w hw
  cases m with
  | register hr =>
    obtain ⟨-, -, -, rfl⟩ := register_ok hr
    exact ⟨Nat.le_succ _, by simp [Mark.registration, Table.insert]⟩
  | skip => exact ⟨Nat.le_succ _, by simp⟩
  | withdraw p _ => exact ⟨le_rfl, held _ (List.filter_subset_self _) _⟩
  | shut => exact ⟨le_rfl, by simp⟩
  | wait => exact ⟨le_rfl, by simp⟩
  | leave => exact ⟨le_rfl, held _ (List.filter_subset_self _) _⟩
  | finish hw =>
    refine ⟨le_rfl, ?_⟩
    intro x hx
    rcases List.mem_append.1 hx with hx | hx
    · exact held _ (List.filter_subset_self _) _ x hx
    · obtain rfl := List.mem_singleton.1 hx
      exact sound.below _ hw
  | tick table => rw [table]; exact ⟨le_rfl, by simp⟩

theorem Session.Moves.numbers {s t : Session} {marks : List Mark} (m : Moves s marks t)
    (sound : s.Sound) :
    s.table.next ≤ t.table.next ∧ ∀ x ∈ marks, x.registration < t.table.next := by
  induction m with
  | refl => exact ⟨le_rfl, by simp⟩
  | step move _ ih =>
    obtain ⟨le, given⟩ := move.numbers sound
    obtain ⟨le', given'⟩ := ih (move.sound sound)
    refine ⟨le.trans le', ?_⟩
    intro x hx
    rcases List.mem_append.1 hx with hx | hx
    · exact lt_of_lt_of_le (given x hx) le'
    · exact given' x hx

theorem exists_fresh {ρ : Nat → Nat} (inj : Function.Injective ρ) (n m : Nat) :
    ∃ ρ' : Nat → Nat, Function.Injective ρ' ∧ ρ' n = m ∧ ρ' (n + 1) = m + 1 ∧
      ∀ x < n, ρ x < m → ρ' x = ρ x := by
  let σ : Nat → Nat := Equiv.swap (ρ n) m ∘ ρ
  have inj_σ : Function.Injective σ := (Equiv.swap (ρ n) m).injective.comp inj
  have σ_n : σ n = m := Equiv.swap_apply_left _ _
  let τ : Nat → Nat := Equiv.swap (σ (n + 1)) (m + 1) ∘ σ
  refine ⟨τ, (Equiv.swap (σ (n + 1)) (m + 1)).injective.comp inj_σ, ?_, ?_, ?_⟩
  · have apart : m ≠ σ (n + 1) := by
      rw [← σ_n]
      exact inj_σ.ne (Nat.succ_ne_self n).symm
    exact (congrArg _ σ_n).trans (Equiv.swap_apply_of_ne_of_ne apart (Nat.succ_ne_self m).symm)
  · exact Equiv.swap_apply_left _ _
  · intro x below used
    have σ_x : σ x = ρ x :=
      Equiv.swap_apply_of_ne_of_ne (inj.ne (Nat.ne_of_lt below)) (Nat.ne_of_lt used)
    have apart : σ x ≠ σ (n + 1) := inj_σ.ne (by omega)
    have below_m : σ x ≠ m + 1 := by omega
    exact (Equiv.swap_apply_of_ne_of_ne apart below_m).trans σ_x

theorem marksOf_renumber (key : Key) (ρ : Nat → Nat) (marks : List Mark) :
    marksOf key (marks.map (Mark.renumber ρ)) = (marksOf key marks).map (Mark.renumber ρ) := by
  have same (m : Mark) : (m.renumber ρ).key = m.key := by cases m <;> rfl
  simp only [marksOf, List.filter_map, Function.comp_def, same]

theorem Mark.renumber_congr {ρ ρ' : Nat → Nat} {m : Mark}
    (agree : ρ' m.registration = ρ m.registration) : m.renumber ρ' = m.renumber ρ := by
  cases m <;>
    simp only [registration] at agree <;>
    simp only [renumber, Entry.renumber, Ending.renumber, Waiter.renumber, agree]

@[simp] theorem Op.isShared_renumber (ρ : Nat → Nat) (op : Op) :
    (op.renumber ρ).isShared = op.isShared := by
  cases op <;> rfl

namespace Session

variable {key : Key} {ρ ρ' : Nat → Nat} {s s' t t' : Session} {op : Op}

theorem concerns_iff : s.concerns key op = true ↔
    op.isShared = true ∨ s.subject? op = some key := by
  simp [concerns]

theorem Quiet.perform_concerned (h : Quiet s) (concerned : s.concerns key op = true) :
    ((s.part key).perform op).2 =
      (marksOf key (s.perform op).2.1, (s.perform op).2.2.part key) := by
  rcases concerns_iff.1 concerned with shared | own
  · exact h.perform_part shared key
  · exact congrArg Prod.snd (h.sound.perform_part own)

theorem Quiet.sight_part (h : Quiet s) (concerned : s.concerns key op = true) :
    (s.part key).sight key op = s.sight key op := by
  have performed := h.perform_concerned concerned
  have answer : (if op.isShared then .none else ((s.part key).perform op).1) =
      if op.isShared then .none else (s.perform op).1 := by
    rcases concerns_iff.1 concerned with shared | own
    · simp only [shared, if_true]
    · rw [h.sound.perform_part own]
  have marks : marksOf key (marksOf key (s.perform op).2.1) = marksOf key (s.perform op).2.1 := by
    simp [marksOf]
  simp only [sight, answer, performed, marks, part_table, Table.contains_part, part_now]

theorem sight_renumber (inj : Function.Injective ρ)
    (fresh : ρ (s.table.next + 1) = ρ s.table.next + 1) (key : Key) (op : Op) :
    (s.renumber ρ).sight key (op.renumber ρ) = (s.sight key op).renumber ρ := by
  have held (s : Session) : (s.renumber ρ).table.contains key = s.table.contains key :=
    s.table.contains_renumber key
  simp only [sight, perform_renumber inj fresh, Op.isShared_renumber, marksOf_renumber, held]
  rfl

/-- Two tables that have the same of a key, but for the numbers. -/
def Alike (key : Key) (ρ : Nat → Nat) (s t : Session) : Prop :=
  t.part key = ((s.part key).renumber ρ).numbered t.table.next

theorem Alike.left (h : Alike key ρ s t)
    (same : s'.part key = (s.part key).numbered s'.table.next) : Alike key ρ s' t := by
  rw [Alike, same]
  exact h

theorem Alike.right (h : Alike key ρ s t)
    (same : t'.part key = (t.part key).numbered t'.table.next) : Alike key ρ s t' := by
  rw [Alike, same, h]
  rfl

theorem Alike.part (h : Alike key ρ s t) (next : ρ s.table.next = t.table.next) :
    t.part key = (s.part key).renumber ρ := by
  rw [h, ← next]
  rfl

theorem Alike.congr (h : Alike key ρ s t) (sound : s.Sound)
    (agree : ∀ w ∈ s.waiters, w.key = key → ρ' w.registration = ρ w.registration) :
    Alike key ρ' s t := by
  rw [Alike, (sound.part key).renumber_congr (ρ := ρ)]
  · exact h
  · intro w hw
    obtain ⟨hw, own⟩ := mem_part.1 hw
    exact agree w hw own

theorem Alike.waiter (h : Alike key ρ s t) {w : Waiter} (hw : w ∈ s.waiters) (own : w.key = key) :
    w.renumber ρ ∈ t.waiters := by
  have there : w.renumber ρ ∈ (t.part key).waiters := by
    rw [h]
    exact List.mem_map_of_mem (mem_part.2 ⟨hw, own⟩)
  exact (mem_part.1 there).1

theorem Alike.subject? (h : Alike key ρ s t) (sound : t.Sound) (own : s.subject? op = some key) :
    t.subject? (op.renumber ρ) = some key := by
  cases op with
  | register | resolve | expire => exact own
  | wait registration | leave registration =>
    obtain ⟨w, found, rfl⟩ := Option.map_eq_some_iff.1 own
    have there := sound.waiter?_eq (h.waiter (mem_of_waiter? found) rfl)
    have same : (w.renumber ρ).registration = ρ registration :=
      congrArg ρ (registration_of_waiter? found)
    rw [same] at there
    simp only [Op.renumber, Session.subject?, there]
    rfl
  | sweep | close | advance | startSweeper | startCancelled | stopSweeper => cases own

theorem Alike.perform (h : Alike key ρ s t) (hs : Quiet s) (ht : Quiet t)
    (inj : Function.Injective ρ) (next : ρ s.table.next = t.table.next)
    (fresh : ρ (s.table.next + 1) = t.table.next + 1) (concerned : s.concerns key op = true) :
    t.concerns key (op.renumber ρ) = true ∧
      t.sight key (op.renumber ρ) = (s.sight key op).renumber ρ ∧
      (t.perform (op.renumber ρ)).2.2.part key = ((s.perform op).2.2.part key).renumber ρ := by
  have part := h.part next
  have in_step : ρ ((s.part key).table.next + 1) = ρ (s.part key).table.next + 1 := by
    rw [← next] at fresh
    exact fresh
  have concerned' : t.concerns key (op.renumber ρ) = true := by
    rw [concerns_iff, Op.isShared_renumber]
    exact (concerns_iff.1 concerned).imp_right (h.subject? ht.sound)
  refine ⟨concerned', ?_, ?_⟩
  · calc t.sight key (op.renumber ρ)
      _ = (t.part key).sight key (op.renumber ρ) := (ht.sight_part concerned').symm
      _ = ((s.part key).renumber ρ).sight key (op.renumber ρ) := by rw [part]
      _ = ((s.part key).sight key op).renumber ρ := sight_renumber inj in_step key op
      _ = (s.sight key op).renumber ρ := by rw [hs.sight_part concerned]
  · calc (t.perform (op.renumber ρ)).2.2.part key
      _ = ((t.part key).perform (op.renumber ρ)).2.2 := by rw [ht.perform_concerned concerned']
      _ = (((s.part key).renumber ρ).perform (op.renumber ρ)).2.2 := by rw [part]
      _ = ((s.part key).perform op).2.2.renumber ρ := by rw [perform_renumber inj in_step]
      _ = ((s.perform op).2.2.part key).renumber ρ := by rw [hs.perform_concerned concerned]

theorem Alike.of_part (same : t.part key = (s.part key).renumber ρ) : Alike key ρ s t := by
  have next : t.table.next = ρ s.table.next := congrArg (fun s => s.table.next) same
  rw [Alike, same, next]
  rfl

theorem Alike.used (h : Alike key ρ s t) (sound : t.Sound) {w : Waiter} (hw : w ∈ s.waiters)
    (own : w.key = key) : ρ w.registration < t.table.next :=
  sound.below _ (h.waiter hw own)

theorem renumber_op (concerned : s.concerns key op = true)
    (agree : ∀ w ∈ s.waiters, w.key = key → ρ' w.registration = ρ w.registration) :
    op.renumber ρ' = op.renumber ρ := by
  cases op with
  | wait registration | leave registration =>
    obtain ⟨w, found, own⟩ := Option.map_eq_some_iff.1 ((concerns_iff.1 concerned).resolve_left
      Bool.false_ne_true)
    rw [Op.renumber, Op.renumber, ← registration_of_waiter? found,
      agree w (mem_of_waiter? found) own]
  | register | resolve | expire | sweep | close | advance => rfl
  | startSweeper | startCancelled | stopSweeper => rfl

theorem renumber_sight {x : Sight}
    (agree : ∀ m ∈ x.marks, ρ' m.registration = ρ m.registration) :
    x.renumber ρ' = x.renumber ρ := by
  have marks : x.marks.map (Mark.renumber ρ') = x.marks.map (Mark.renumber ρ) :=
    List.map_congr_left fun m hm => Mark.renumber_congr (agree m hm)
  rw [Sight.renumber, marks]
  rfl

/-- A run without the operations on other keys goes along with the whole run. The numbers it gives
out are settled one after another, so the renaming that goes with the whole of it is the one that is
found last. -/
theorem Alike.run (h : Alike key ρ s t) (hs : Quiet s) (ht : Quiet t)
    (inj : Function.Injective ρ) (ops : List Op) :
    ∃ ρ' : Nat → Nat, Function.Injective ρ' ∧
      (∀ x < s.table.next, ρ x < t.table.next → ρ' x = ρ x) ∧
      sights key t (kept key ρ' s ops) = (sights key s ops).map (Sight.renumber ρ') := by
  induction ops generalizing s t ρ with
  | nil => exact ⟨ρ, inj, fun _ _ _ => rfl, rfl⟩
  | cons op rest ih =>
    obtain ⟨le, given⟩ := (hs.sound.perform_moves op).numbers hs.sound
    by_cases concerned : s.concerns key op = true
    · obtain ⟨ρ₁, inj₁, next, fresh, same⟩ := exists_fresh inj s.table.next t.table.next
      have alike : Alike key ρ₁ s t := h.congr hs.sound fun w hw own =>
        same _ (hs.sound.below w hw) (h.used ht.sound hw own)
      obtain ⟨concerned', sees, parts⟩ := alike.perform hs ht inj₁ next fresh concerned
      obtain ⟨le', given'⟩ := (ht.sound.perform_moves (op.renumber ρ₁)).numbers ht.sound
      obtain ⟨ρ', inj', later, rest_sees⟩ :=
        ih (.of_part parts) (hs.perform op) (ht.perform (op.renumber ρ₁)) inj₁
      have op_same : op.renumber ρ' = op.renumber ρ₁ := renumber_op concerned fun w hw own =>
        later _ (lt_of_lt_of_le (hs.sound.below w hw) le)
          (lt_of_lt_of_le (alike.used ht.sound hw own) le')
      have sight_same : (s.sight key op).renumber ρ' = (s.sight key op).renumber ρ₁ := by
        apply renumber_sight
        intro m hm
        have shown : m.renumber ρ₁ ∈ (t.sight key (op.renumber ρ₁)).marks := by
          rw [sees]
          exact List.mem_map_of_mem hm
        have number : (m.renumber ρ₁).registration = ρ₁ m.registration := by cases m <;> rfl
        have used := given' _ (List.mem_of_mem_filter shown)
        rw [number] at used
        exact later _ (given m (List.mem_of_mem_filter hm)) used
      refine ⟨ρ', inj', ?_, ?_⟩
      · intro x below used
        rw [← same x below used]
        apply later x (lt_of_lt_of_le below le)
        rw [same x below used]
        exact lt_of_lt_of_le used le'
      · simp only [kept, sights, if_pos concerned, op_same, if_pos concerned', sees, rest_sees,
          List.map_cons, sight_same]
    · simp only [kept, sights, if_neg concerned]
      obtain ⟨-, passed⟩ := hs.perform_other (Bool.eq_false_iff.2 concerned)
      obtain ⟨ρ', inj', later, rest_sees⟩ := ih (h.left passed) (hs.perform op) ht inj
      exact ⟨ρ', inj', fun x below => later x (lt_of_lt_of_le below le), rest_sees⟩

end Session

end RoundTrip.Pending
