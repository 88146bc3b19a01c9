import Mathlib.Algebra.Order.BigOperators.Group.List
import RoundTrip.Proofs.Duration.Reading

namespace RoundTrip.Duration

theorem contained_of_total {amounts : List Amount} (within : total amounts ≤ limit) :
    ∀ a ∈ amounts, ¬ a.Overflows := by
  intro a ha overflows
  have part : a.nanos ≤ total amounts := List.le_sum_of_mem (List.mem_map_of_mem ha)
  have large := (a.overflows_iff.1 overflows).2
  exact absurd ((large.trans part).trans within) limit_lt_componentBound.not_ge

theorem readFrom_append {us vs : List Amount} (hu : total us ≤ limit) (hv : total vs ≤ limit) :
    readFrom 0 (us ++ vs) =
      if total us + total vs ≤ limit then .ok (total us + total vs) else .error .outOfRange := by
  have sum : 0 + total (us ++ vs) = total us + total vs := by rw [Nat.zero_add, total_append]
  split_ifs with within
  · rw [← sum] at within ⊢
    exact readFrom_of_total within
  · refine readFrom_of_contained ?_ (by omega) (Nat.zero_le _)
    intro a ha
    exact (List.mem_append.1 ha).elim (contained_of_total hu a) (contained_of_total hv a)

theorem body_append {us vs : List Amount} (hu : us ≠ []) (hv : vs ≠ []) :
    body (us ++ vs) = body us ++ body vs := by
  rw [body_of_ne_nil hu, body_of_ne_nil hv, body_of_ne_nil (List.append_ne_nil_of_left_ne_nil hu _),
    List.flatMap_append]

variable {u v : String} {x y : Int}

theorem sign_of_unsigned {sign : Sign} {amounts : List Amount} (unsigned : Unsigned u)
    (spells : u.toList = spell sign amounts) : sign = .none := by
  rw [Unsigned, spells] at unsigned
  cases sign with
  | none => rfl
  | plus => exact absurd rfl (unsigned '+' rfl).1
  | minus => exact absurd rfl (unsigned '-' rfl).2

theorem exists_amounts (unsigned : Unsigned u) (read : parseSigned u = .ok x) :
    ∃ amounts, u.toList = body amounts ∧ total amounts ≤ limit ∧ x = total amounts := by
  obtain ⟨sign, amounts, spells, within, rfl⟩ := parseSigned_ok_iff.1 read
  obtain rfl := sign_of_unsigned unsigned spells
  exact ⟨amounts, spells, within, rfl⟩

theorem ne_nil_of_ne_zero {amounts : List Amount} (spells : u.toList = body amounts)
    (measured : u ≠ "0") : amounts ≠ [] := by
  rintro rfl
  exact measured (String.toList_inj.1 spells)

theorem parseSigned_append (unsigned : Unsigned u) (unsigned' : Unsigned v) (measured : u ≠ "0")
    (measured' : v ≠ "0") (read : parseSigned u = .ok x) (read' : parseSigned v = .ok y) :
    parseSigned (u ++ v) = if x + y ≤ limit then .ok (x + y) else .error .outOfRange := by
  obtain ⟨us, spells, within, rfl⟩ := exists_amounts unsigned read
  obtain ⟨vs, spells', within', rfl⟩ := exists_amounts unsigned' read'
  have joined : (u ++ v).toList = spell .none (us ++ vs) := by
    rw [String.toList_append, spells, spells', spell, body_append
      (ne_nil_of_ne_zero spells measured) (ne_nil_of_ne_zero spells' measured')]
    rfl
  rw [parseSigned_spell joined, readFrom_append within within']
  simp only [← Nat.cast_add, Int.ofNat_le]
  split_ifs <;> rfl

theorem parseSigned_signed (unsigned : Unsigned u) (read : parseSigned u = .ok x) :
    ∃ n : Nat, x = n ∧ ∀ (sign : Sign) (s : String), s.toList = sign.text →
      parseSigned (s ++ u) = .ok (sign.apply n) := by
  obtain ⟨amounts, spells, within, rfl⟩ := exists_amounts unsigned read
  refine ⟨total amounts, rfl, fun sign s written => ?_⟩
  have signed : (s ++ u).toList = spell sign amounts := by
    rw [String.toList_append, written, spells]
    rfl
  exact parseSigned_ok_iff.2 ⟨sign, amounts, signed, within, rfl⟩

/-- Durations add up where they are joined, in either order, as long as the sum is in range. A sign
mirrors them, and those that are not negative are the ones that are read without a sign. -/
theorem joined_add_signed_mirror :
    (∀ u v x y, Unsigned u → Unsigned v → u ≠ "0" → v ≠ "0" →
      parseSigned u = .ok x → parseSigned v = .ok y →
        parseSigned (u ++ v) = (if x + y ≤ limit then .ok (x + y) else .error .outOfRange) ∧
          parseSigned (v ++ u) = parseSigned (u ++ v)) ∧
    (∀ u x, Unsigned u → parseSigned u = .ok x →
      parseSigned ("+" ++ u) = .ok x ∧ parseSigned ("-" ++ u) = .ok (-x) ∧
        ((∃ d, parse ("-" ++ u) = .ok d) ↔ x = 0)) ∧
    ∀ s d, parse s = .ok d ↔ parseSigned s = .ok (d : Int) := by
  refine ⟨?_, ?_, fun s d => parse_ok_iff⟩
  · intro u v x y unsigned unsigned' measured measured' read read'
    rw [parseSigned_append unsigned unsigned' measured measured' read read',
      parseSigned_append unsigned' unsigned measured' measured read' read, Int.add_comm y x]
    exact ⟨rfl, rfl⟩
  · intro u x unsigned read
    obtain ⟨n, rfl, signed⟩ := parseSigned_signed unsigned read
    have negated : parseSigned ("-" ++ u) = .ok (-n) := signed .minus "-" rfl
    refine ⟨signed .plus "+" rfl, negated, ?_⟩
    simp only [parse_ok_iff, negated, Except.ok.injEq]
    constructor
    · rintro ⟨d, same⟩
      omega
    · intro zero
      exact ⟨0, by omega⟩

theorem joined_add_minute :
    (Unsigned "1m" ∧ Unsigned ".5s" ∧ "1m" ≠ "0" ∧ ".5s" ≠ "0" ∧
      parseSigned "1m" = .ok 60000000000 ∧ parseSigned ".5s" = .ok 500000000) ∧
    parseSigned ("1m" ++ ".5s") = .ok 60500000000 ∧
      parseSigned (".5s" ++ "1m") = .ok 60500000000 ∧
        parseSigned ("-" ++ "1m") = .ok (-60000000000) ∧ ¬ ∃ d, parse ("-" ++ "1m") = .ok d := by
  have minute : parseSigned "1m" = .ok 60000000000 := by decide +kernel
  have half : parseSigned ".5s" = .ok 500000000 := by decide +kernel
  have unsigned : Unsigned "1m" := by
    rintro c ⟨⟩
    decide
  have unsigned' : Unsigned ".5s" := by
    rintro c ⟨⟩
    decide
  obtain ⟨add, mirror, -⟩ := joined_add_signed_mirror
  obtain ⟨joined, swapped⟩ :=
    add "1m" ".5s" _ _ unsigned unsigned' (by decide) (by decide) minute half
  obtain ⟨-, negated, refused⟩ := mirror "1m" _ unsigned minute
  exact ⟨⟨unsigned, unsigned', by decide, by decide, minute, half⟩, joined, swapped.trans joined,
    negated, fun accepted => absurd (refused.1 accepted) (by decide)⟩

end RoundTrip.Duration
