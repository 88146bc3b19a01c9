import RoundTrip.Proofs.Pending.Sight

namespace RoundTrip.Pending

def exchange (n a b x : Nat) : Nat :=
  if x < n then x else if x < n + a then x + b else if x < n + a + b then x - a else x

theorem exchange_exchange (n a b x : Nat) : exchange n b a (exchange n a b x) = x := by
  unfold exchange
  split_ifs <;> omega

theorem exchange_injective (n a b : Nat) : Function.Injective (exchange n a b) :=
  Function.LeftInverse.injective (exchange_exchange n a b)

theorem exchange_below {n a b x : Nat} (below : x < n) : exchange n a b x = x := if_pos below

theorem exchange_above {n a b x : Nat} (above : n + a + b ≤ x) : exchange n a b x = x := by
  rw [exchange, if_neg (by omega), if_neg (by omega), if_neg (by omega)]

def shift (n d x : Nat) : Nat := if x < n then x else x + d

theorem shift_injective (n d : Nat) : Function.Injective (shift n d) := by
  intro x y same
  unfold shift at same
  split_ifs at same <;> omega

theorem shift_below {n d x : Nat} (below : x < n) : shift n d x = x := if_pos below

theorem shift_above {n d x : Nat} (above : n ≤ x) : shift n d x = x + d :=
  if_neg (Nat.not_lt_of_le above)

theorem shift_eq_exchange {n a b x : Nat} (below : x < n + a) : shift n b x = exchange n a b x := by
  rw [shift, exchange, if_pos below]

theorem Mark.renumber_renumber (ρ σ : Nat → Nat) (m : Mark) :
    (m.renumber ρ).renumber σ = m.renumber (σ ∘ ρ) := by
  cases m <;> rfl

theorem Sight.renumber_inverse {ρ σ : Nat → Nat} (inverse : ∀ x, σ (ρ x) = x) (x : Sight) :
    (x.renumber ρ).renumber σ = x := by
  have all : σ ∘ ρ = id := funext inverse
  have marks (m : Mark) : (m.renumber ρ).renumber σ = m := by
    rw [Mark.renumber_renumber, all]
    cases m <;> rfl
  simp only [renumber, List.map_map, Function.comp_def, marks, List.map_id']

theorem Op.renumber_id (op : Op) : op.renumber id = op := by cases op <;> rfl

namespace Session

variable {key other : Key} {ρ σ : Nat → Nat} {s t : Session} {op a b : Op}

theorem renumber_inverse (inverse : ∀ x, σ (ρ x) = x) (s : Session) :
    (s.renumber ρ).renumber σ = s := by
  have entries (e : Entry) : (e.renumber ρ).renumber σ = e := by
    simp only [Entry.renumber, inverse]
  have waiters (w : Waiter) : (w.renumber ρ).renumber σ = w := by
    simp only [Waiter.renumber, inverse]
  simp only [renumber, Table.renumber, List.map_map, Function.comp_def, entries, waiters, inverse,
    List.map_id']

theorem Alike.symm (h : Alike key ρ s t) (inverse : ∀ x, σ (ρ x) = x) : Alike key σ t s := by
  have undone : ((t.part key).renumber σ).numbered s.table.next =
      (((s.part key).renumber ρ).renumber σ).numbered s.table.next := by
    rw [h]
    rfl
  rw [Alike, undone, renumber_inverse inverse]
  rfl

theorem Alike.refl (key : Key) (s : Session) : Alike key id s s := by
  rw [Alike, renumber_id]
  rfl

/-- How many numbers an operation gives out. -/
def given (s : Session) (op : Op) : Nat := (s.perform op).2.2.table.next - s.table.next

theorem Sound.next_eq (h : s.Sound) (op : Op) :
    (s.perform op).2.2.table.next = s.table.next + s.given op := by
  obtain ⟨le, -⟩ := (h.perform_moves op).numbers h
  rw [given]
  omega

theorem Quiet.put_off (h : Quiet s) (own : s.concerns key a = true)
    (apart : s.concerns key b = false) :
    let σ := exchange s.table.next (s.given a) (s.given b)
    let t := (s.perform b).2.2
    t.concerns key a = true ∧ t.sight key a = (s.sight key a).renumber σ ∧
      Alike key σ (s.perform a).2.2 (t.perform a).2.2 ∧
      (t.perform a).2.2.table.next = (s.perform a).2.2.table.next + s.given b := by
  intro σ t
  let τ := shift s.table.next (s.given b)
  have alike : Alike key τ s t := by
    have passed := (Alike.refl key s).right (h.perform_other apart).2
    exact passed.congr h.sound fun w hw _ => shift_below (h.sound.below w hw)
  have same : a.renumber τ = a := by
    rw [renumber_op (ρ := id) own fun w hw _ => shift_below (h.sound.below w hw), Op.renumber_id]
  have t_next : t.table.next = s.table.next + s.given b := h.sound.next_eq b
  have next : τ s.table.next = t.table.next := (shift_above le_rfl).trans t_next.symm
  have fresh : τ (s.table.next + 1) = t.table.next + 1 := by
    have above : τ (s.table.next + 1) = s.table.next + 1 + s.given b := shift_above (Nat.le_succ _)
    omega
  obtain ⟨concerned, sees, parts⟩ :=
    alike.perform h (h.perform b) (shift_injective _ _) next fresh own
  rw [same] at concerned sees parts
  obtain ⟨le, numbers⟩ := (h.sound.perform_moves a).numbers h.sound
  rw [h.sound.next_eq a] at numbers
  refine ⟨concerned, ?_, ?_, ?_⟩
  · rw [sees]
    refine (renumber_sight fun m hm => ?_).symm
    exact (shift_eq_exchange (numbers m (List.mem_of_mem_filter hm))).symm
  · have acted := (h.perform a).sound
    refine (Alike.of_part parts).congr acted fun w hw _ => ?_
    have below := acted.below w hw
    rw [h.sound.next_eq a] at below
    exact (shift_eq_exchange below).symm
  · have numbered : (t.perform a).2.2.table.next = τ (s.perform a).2.2.table.next :=
      congrArg (fun s => s.table.next) parts
    exact numbered.trans (shift_above le)

theorem not_shared (own : s.subject? op = some key) : op.isShared = false := by
  cases op with
  | sweep | close | advance | startSweeper | startCancelled | stopSweeper => cases own
  | register | resolve | expire | wait | leave => rfl

theorem concerns_subject (own : s.subject? op = some key) :
    s.concerns other op = decide (key = other) := by
  rw [concerns, not_shared own, own]
  simp

/-- Two tables that have the same of all keys, but for the numbers. -/
structure Mirrors (σ : Nat → Nat) (s t : Session) : Prop where
  quiet : Quiet s
  image : Quiet t
  inj : Function.Injective σ
  alike : ∀ key, Alike key σ s t
  next : t.table.next = s.table.next
  fixed : ∀ x, s.table.next ≤ x → σ x = x

theorem Mirrors.concerns (h : Mirrors σ s t) (key : Key) (op : Op) :
    t.concerns key (op.renumber σ) = s.concerns key op := by
  rw [Bool.eq_iff_iff, concerns_iff, concerns_iff, Op.isShared_renumber]
  refine or_congr_right ⟨?_, (h.alike key).subject? h.image.sound⟩
  intro own
  obtain ⟨τ, inverse⟩ := h.inj.hasLeftInverse
  have undone : (op.renumber σ).renumber τ = op := by
    cases op <;> simp only [Op.renumber, inverse _]
  rw [← undone]
  exact ((h.alike key).symm inverse).subject? h.quiet.sound own

theorem Quiet.perform_idle (h : Quiet s) (idle : ∀ key, s.concerns key op = false) :
    (s.perform op).2.2 = s := by
  have rests : s.finish = ([], s) := finishEach_nothing h.resting
  cases op with
  | register name key deadline => exact absurd (idle key) (by simp [concerns, subject?])
  | resolve key | expire key => exact absurd (idle key) (by simp [concerns, subject?])
  | wait registration | leave registration =>
    cases found : s.waiter? registration with
    | none => simp only [Session.perform, Session.act, found, rests]
    | some w => exact absurd (idle w.key) (by simp [concerns, subject?, found])
  | sweep | close | advance | startSweeper | startCancelled | stopSweeper =>
    exact absurd (idle .ping) (by simp [concerns, Op.isShared])

theorem Mirrors.perform (h : Mirrors σ s t) (op : Op) :
    Mirrors σ (s.perform op).2.2 (t.perform (op.renumber σ)).2.2 ∧
      ∀ key, s.concerns key op = true →
        t.sight key (op.renumber σ) = (s.sight key op).renumber σ := by
  have next : σ s.table.next = t.table.next := (h.fixed _ le_rfl).trans h.next.symm
  have fresh : σ (s.table.next + 1) = t.table.next + 1 := by
    rw [h.fixed _ (Nat.le_succ _), h.next]
  have each (key : Key) (concerned : s.concerns key op = true) :=
    (h.alike key).perform h.quiet h.image h.inj next fresh concerned
  obtain ⟨le, -⟩ := (h.quiet.sound.perform_moves op).numbers h.quiet.sound
  refine ⟨?_, fun key concerned => (each key concerned).2.1⟩
  constructor
  case quiet => exact h.quiet.perform op
  case image => exact h.image.perform (op.renumber σ)
  case inj => exact h.inj
  case alike =>
    intro key
    by_cases concerned : s.concerns key op = true
    · exact .of_part (each key concerned).2.2
    · have apart := Bool.eq_false_iff.2 concerned
      have apart' : t.concerns key (op.renumber σ) = false := (h.concerns key op).trans apart
      exact ((h.alike key).left (h.quiet.perform_other apart).2).right
        (h.image.perform_other apart').2
  case next =>
    by_cases idle : ∀ key, s.concerns key op = false
    · rw [h.quiet.perform_idle idle,
        h.image.perform_idle fun key => (h.concerns key op).trans (idle key)]
      exact h.next
    · obtain ⟨key, concerned⟩ := not_forall.1 idle
      have parts := (each key (Bool.eq_true_of_not_eq_false concerned)).2.2
      have numbered : (t.perform (op.renumber σ)).2.2.table.next =
          σ (s.perform op).2.2.table.next := congrArg (fun s => s.table.next) parts
      rw [numbered, h.fixed _ le]
  case fixed =>
    intro x above
    exact h.fixed x (le.trans above)

theorem Mirrors.sights (h : Mirrors σ s t) (key : Key) (ops : List Op) :
    sights key t (ops.map (Op.renumber σ)) = (sights key s ops).map (Sight.renumber σ) := by
  induction ops generalizing s t with
  | nil => rfl
  | cons op rest ih =>
    obtain ⟨after, sees⟩ := h.perform op
    by_cases concerned : s.concerns key op = true
    · have concerned' := (h.concerns key op).trans concerned
      simp only [List.map_cons, Session.sights, if_pos concerned, if_pos concerned',
        sees key concerned, ih after]
    · have concerned' : ¬ t.concerns key (op.renumber σ) = true := by rwa [h.concerns]
      simp only [List.map_cons, Session.sights, if_neg concerned, if_neg concerned', ih after]

section

variable (h : Quiet s) (ha : s.subject? a = some key) (hb : s.subject? b = some other)
  (apart : key ≠ other)
include h ha hb apart

theorem Quiet.put_off_other :
    let σ := exchange s.table.next (s.given a) (s.given b)
    let t := (s.perform b).2.2
    t.subject? a = some key ∧ t.sight key a = (s.sight key a).renumber σ ∧
      Alike key σ (s.perform a).2.2 (t.perform a).2.2 ∧
      (t.perform a).2.2.table.next = (s.perform a).2.2.table.next + s.given b := by
  have own : s.concerns key a = true := concerns_iff.2 (.inr ha)
  have passed : s.concerns key b = false := by
    rw [concerns_subject hb, decide_eq_false apart.symm]
  obtain ⟨concerned, later⟩ := h.put_off own passed
  exact ⟨(concerns_iff.1 concerned).resolve_left (by simp [not_shared ha]), later⟩

theorem Quiet.mirrors :
    Mirrors (exchange s.table.next (s.given a) (s.given b))
      ((s.perform a).2.2.perform b).2.2 ((s.perform b).2.2.perform a).2.2 := by
  obtain ⟨ha', -, alike_a, next_a⟩ := h.put_off_other ha hb apart
  obtain ⟨hb', -, alike_b, next_b⟩ := h.put_off_other hb ha apart.symm
  have pass {s : Session} {op : Op} {key k : Key} (h : Quiet s) (own : s.subject? op = some key)
      (hk : key ≠ k) :
      (s.perform op).2.2.part k = (s.part k).numbered (s.perform op).2.2.table.next :=
    (h.perform_other (by rw [concerns_subject own, decide_eq_false hk])).2
  have first := h.sound.next_eq a
  have second := h.sound.next_eq b
  constructor
  case quiet => exact (h.perform a).perform b
  case image => exact (h.perform b).perform a
  case inj => exact exchange_injective _ _ _
  case alike =>
    intro k
    by_cases hk : key = k
    · subst hk
      exact alike_a.left (pass (h.perform a) hb' apart.symm)
    by_cases hk' : other = k
    · subst hk'
      exact (alike_b.left (pass (h.perform b) ha' apart)).symm (exchange_exchange _ _ _)
    · have old : Alike k (exchange s.table.next (s.given a) (s.given b)) s s :=
        (Alike.refl k s).congr h.sound fun w hw _ => exchange_below (h.sound.below w hw)
      have left := (old.left (pass h ha hk)).left (pass (h.perform a) hb' hk')
      exact (left.right (pass h hb hk')).right (pass (h.perform b) ha' hk)
  case next => omega
  case fixed =>
    intro x above
    exact exchange_above (by omega)

theorem Quiet.sights_exchange (k : Key) (after : List Op) :
    let σ := exchange s.table.next (s.given a) (s.given b)
    sights k s (b :: a :: after.map (Op.renumber σ)) =
      (sights k s (a :: b :: after)).map (Sight.renumber σ) := by
  intro σ
  obtain ⟨ha', sees_a, -, -⟩ := h.put_off_other ha hb apart
  obtain ⟨hb', sees_b, -, -⟩ := h.put_off_other hb ha apart.symm
  have later := (h.mirrors ha hb apart).sights k after
  simp only [sights, concerns_subject ha, concerns_subject hb, concerns_subject ha',
    concerns_subject hb', decide_eq_true_eq]
  by_cases hk : key = k
  · subst hk
    rw [if_neg apart.symm, if_pos rfl, if_pos rfl, if_neg apart.symm, sees_a, List.map_cons, later]
  by_cases hk' : other = k
  · subst hk'
    have undone : ((s.perform a).2.2.sight other b).renumber σ = s.sight other b := by
      rw [sees_b]
      exact Sight.renumber_inverse (exchange_exchange _ _ _) _
    rw [if_pos rfl, if_neg apart, if_neg apart, if_pos rfl, List.map_cons, later, undone]
  · rw [if_neg hk', if_neg hk, if_neg hk, if_neg hk', later]

end

/-- How a key fares in a run, and where the run leads. -/
structure Isolated (key : Key) (ops : List Op) : Prop where
  /-- Without the operations on other keys, the same is seen of the key. -/
  alone : ∃ ρ : Nat → Nat, Function.Injective ρ ∧
    sights key {} (kept key ρ {} ops) = (sights key {} ops).map (Sight.renumber ρ)
  unseen : ∀ op, (run {} ops).2.concerns key op = false →
    marksOf key ((run {} ops).2.perform op).2.1 = [] ∧
      ((run {} ops).2.perform op).2.2.table.contains key = (run {} ops).2.table.contains key
  /-- An operation on the key and one on another key can change places. -/
  commutes : ∀ a b other, (run {} ops).2.subject? a = some key →
    (run {} ops).2.subject? b = some other → key ≠ other →
    ∃ σ : Nat → Nat, Function.Injective σ ∧ ∀ k after,
      sights k (run {} ops).2 (b :: a :: after.map (Op.renumber σ)) =
        (sights k (run {} ops).2 (a :: b :: after)).map (Sight.renumber σ)

theorem keys_isolated (key : Key) (ops : List Op) : Isolated key ops := by
  have quiet : Quiet (run {} ops).2 := Quiet.empty.run ops
  constructor
  case alone =>
    obtain ⟨ρ, inj, -, sees⟩ :=
      (Alike.refl key {}).run Quiet.empty Quiet.empty Function.injective_id ops
    exact ⟨ρ, inj, sees⟩
  case unseen =>
    intro op apart
    obtain ⟨unmarked, same⟩ := quiet.perform_other apart
    refine ⟨unmarked, ?_⟩
    calc ((run {} ops).2.perform op).2.2.table.contains key
      _ = (((run {} ops).2.perform op).2.2.part key).table.contains key :=
        (Table.contains_part _ _).symm
      _ = ((run {} ops).2.part key).table.contains key := by rw [same]; rfl
      _ = (run {} ops).2.table.contains key := Table.contains_part _ _
  case commutes =>
    intro a b other ha hb apart
    exact ⟨_, exchange_injective _ _ _, quiet.sights_exchange ha hb apart⟩

/-- The second registration of this run is the first one that the part of its key gives out. -/
example :
    let ops : List Op := [.register "a" .scheduler (Duration.ofMillis 5),
      .register "b" .ping (Duration.ofMillis 7), .wait 0, .wait 1, .resolve .scheduler, .advance 7]
    sights .ping {} [.register "b" .ping (Duration.ofMillis 7), .wait 0, .advance 7] =
      (sights .ping {} ops).map (Sight.renumber fun n => n - 1) := by
  decide

end Session

end RoundTrip.Pending
