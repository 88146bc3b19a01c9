import RoundTrip.Proofs.Duration.Reading

namespace RoundTrip.Duration

namespace Amount

@[ext] theorem ext {a b : Amount} (whole : a.whole = b.whole) (fraction : a.fraction = b.fraction)
    (unit : a.unit = b.unit) : a = b := by
  have scale : a.scale = b.scale := by
    have known := unitScale_eq_some_iff.2 a.known
    rw [unit, unitScale_eq_some_iff.2 b.known] at known
    exact (Option.some.inj known).symm
  cases a
  cases b
  cases whole
  cases fraction
  cases unit
  cases scale
  rfl

theorem eq_of_text_append {a b : Amount} {rest rest' : List Char} (opens : Opens rest)
    (opens' : Opens rest') (same : a.text ++ rest = b.text ++ rest') : a = b ∧ rest = rest' := by
  have taken := take_text (a := a) opens
  rw [same, take_text opens', Prod.mk.injEq, component, component, Component.mk.injEq,
    String.toList_inj] at taken
  obtain ⟨⟨whole, -, unit⟩, rfl⟩ := taken
  have texts := List.append_cancel_right same
  rw [text, text, whole, unit, List.append_cancel_left_eq, List.append_cancel_right_eq] at texts
  refine ⟨ext whole.symm ?_ unit.symm, rfl⟩
  cases ha : a.fraction <;> cases hb : b.fraction <;> rw [ha, hb] at texts
  case none.some => cases texts
  case some.none => cases texts
  case some.some => rw [(List.cons.inj texts).2]

end Amount

theorem flatMap_text_inj {amounts amounts' : List Amount}
    (same : amounts.flatMap Amount.text = amounts'.flatMap Amount.text) : amounts = amounts' := by
  induction amounts generalizing amounts' with
  | nil =>
    cases amounts' with
    | nil => rfl
    | cons b rest => exact absurd (List.append_eq_nil_iff.1 same.symm).1 b.text_ne_nil
  | cons a rest ih =>
    cases amounts' with
    | nil => exact absurd (List.append_eq_nil_iff.1 same).1 a.text_ne_nil
    | cons b rest' =>
      obtain ⟨rfl, others⟩ :=
        Amount.eq_of_text_append (opens_flatMap rest) (opens_flatMap rest') same
      rw [ih others]

theorem body_inj {amounts amounts' : List Amount} (same : body amounts = body amounts') :
    amounts = amounts' := by
  cases amounts <;> cases amounts'
  case nil.nil => rfl
  case nil.cons b rest => exact absurd same.symm (flatMap_ne_zero b rest)
  case cons.nil a rest => exact absurd same (flatMap_ne_zero a rest)
  case cons.cons => exact flatMap_text_inj same

theorem body_ne_cons {c : Char} (unit : isUnitChar c = true) (amounts : List Amount)
    (cs : List Char) : body amounts ≠ c :: cs := by
  intro same
  have opens := opens_body amounts
  rw [same] at opens
  rw [opens c rfl] at unit
  cases unit

theorem spell_inj {sign sign' : Sign} {amounts amounts' : List Amount}
    (same : spell sign amounts = spell sign' amounts') : sign = sign' ∧ amounts = amounts' := by
  cases sign <;> cases sign'
  case none.none => exact ⟨rfl, body_inj same⟩
  case plus.plus => exact ⟨rfl, body_inj (List.cons.inj same).2⟩
  case minus.minus => exact ⟨rfl, body_inj (List.cons.inj same).2⟩
  case none.plus | none.minus => exact absurd same (body_ne_cons rfl _ _)
  case plus.none | minus.none => exact absurd same.symm (body_ne_cons rfl _ _)
  case plus.minus | minus.plus => exact absurd (List.cons.inj same).1 (by decide)

def Overflows (text : String) : Prop :=
  ∃ (sign : Sign) (before : List Amount) (a : Amount) (rest : List Char),
    text.toList = sign.text ++ (before.flatMap Amount.text ++ (a.text ++ rest)) ∧ Opens rest ∧
      total before ≤ limit ∧ a.Overflows

theorem sum_overflow {fuel start : Nat} {cs : List Char} (begun : start ≤ limit)
    (panics : sum fuel start cs = .error .overflow) :
    ∃ (before : List Amount) (a : Amount) (rest : List Char),
      cs = before.flatMap Amount.text ++ (a.text ++ rest) ∧ Opens rest ∧
        start + total before ≤ limit ∧ a.Overflows := by
  induction fuel generalizing start cs with
  | zero => cases cs <;> cases panics
  | succ fuel ih =>
    by_cases empty : cs = []
    · rw [empty] at panics
      cases panics
    have opens := Amount.opens_take (c := (Component.take cs).1) Prod.mk.eta.symm
    have read {a : Amount} (split : cs = a.text ++ (Component.take cs).2) :
        (Component.take cs).1 = a.component := by
      have taken := Amount.take_text (a := a) opens
      rw [← split] at taken
      exact congrArg Prod.fst taken
    rw [sum_of_ne_nil empty] at panics
    split at panics
    next fault counts =>
      obtain rfl := Except.error.inj panics
      obtain ⟨a, split⟩ := Amount.exists_amount Prod.mk.eta.symm (.inl counts)
      rw [read split, Amount.component_nanos] at counts
      split_ifs at counts with whole sum
      · cases counts
      · exact ⟨[], a, _, split, opens, begun,
          a.overflows_iff.2 ⟨Nat.lt_of_not_le whole, sum⟩⟩
    next nanos counts =>
      obtain ⟨a, split⟩ := Amount.exists_amount Prod.mk.eta.symm (.inr ⟨nanos, counts⟩)
      rw [read split, Amount.component_nanos] at counts
      split_ifs at panics counts with large whole sum
      · cases panics
      · obtain rfl := Except.ok.inj counts
        obtain ⟨before, b, rest, spells, opens, within, overflows⟩ :=
          ih (Nat.le_of_not_lt large) panics
        refine ⟨a :: before, b, rest, ?_, opens, ?_, overflows⟩
        · rw [List.flatMap_cons, List.append_assoc, ← spells]
          exact split
        · rwa [total_cons, ← Nat.add_assoc]

theorem magnitude_overflow {before : List Amount} {a : Amount} {rest : List Char}
    (opens : Opens rest) (within : total before ≤ limit) (overflows : a.Overflows) :
    magnitude (before.flatMap Amount.text ++ (a.text ++ rest)) = .error .overflow := by
  have long := List.length_pos_iff.2 a.text_ne_nil
  have amounts := length_le_flatMap before
  have split : before.flatMap Amount.text ++ (a.text ++ rest) =
      (before ++ [a]).flatMap Amount.text ++ rest := by
    simp [List.append_assoc]
  have measured : before.flatMap Amount.text ++ (a.text ++ rest) ≠ ['0'] := by
    obtain ⟨nonempty, unit, -, -⟩ := a.unit_spec
    obtain ⟨c, hc⟩ := List.exists_mem_of_ne_nil _ nonempty
    intro zero
    have among : c ∈ ['0'] := by
      rw [← zero, Amount.text]
      simp [hc]
    rw [List.mem_singleton.1 among] at hc
    exact absurd (unit '0' hc) (by decide)
  have filled : ¬ (before.flatMap Amount.text ++ (a.text ++ rest)).isEmpty = true := by
    simp [a.text_ne_nil]
  obtain ⟨fuel, enough⟩ : ∃ fuel, (before.flatMap Amount.text ++ (a.text ++ rest)).length =
      (before ++ [a]).length + fuel := by
    refine Nat.exists_eq_add_of_le ?_
    simp only [List.length_append, List.length_cons, List.length_nil]
    omega
  rw [magnitude, if_neg measured, if_neg filled, enough, split, sum_append opens,
    readFrom_overflow (by rwa [Nat.zero_add]) overflows]
  rfl

theorem parseSigned_overflow_iff {text : String} :
    parseSigned text = .error .overflow ↔ Overflows text := by
  constructor
  · intro panics
    obtain ⟨sign, cs, starts, unsigned⟩ := exists_sign text
    rw [parseSigned_of_text starts unsigned] at panics
    cases read : magnitude cs with
    | ok n => rw [read] at panics; cases panics
    | error fault =>
      rw [read] at panics
      obtain rfl := Except.error.inj panics
      rw [magnitude] at read
      split_ifs at read with zero empty
      · cases read
      obtain ⟨before, a, rest, spells, opens, within, overflows⟩ :=
        sum_overflow (Nat.zero_le _) read
      rw [Nat.zero_add] at within
      exact ⟨sign, before, a, rest, spells ▸ starts, opens, within, overflows⟩
  · rintro ⟨sign, before, a, rest, starts, opens, within, overflows⟩
    have unsigned : sign = .none → Unsigned text := by
      rintro rfl
      apply unsigned_of_opens
      rw [starts]
      exact opens_append (a.opens_text rest) before
    rw [parseSigned_of_text starts unsigned, magnitude_overflow opens within overflows]
    rfl

theorem parse_overflow_iff {text : String} : parse text = .error .overflow ↔ Overflows text := by
  rw [← parseSigned_overflow_iff, parse]
  cases parseSigned text with
  | error fault => rw [Except.error.injEq, Except.error.injEq]
  | ok n =>
    simp only
    split_ifs <;> simp

/-- A text is accepted exactly if the grammar spells it, which it does in one way, with a sum in
range, and read as that sum. It makes reading panic exactly if a sum that is not checked leaves 128
bits before any other fault is found. -/
theorem exact_or_overflows (text : String) :
    (∀ z, parseSigned text = .ok z ↔ ∃ sign amounts, text.toList = spell sign amounts ∧
      total amounts ≤ limit ∧ z = sign.apply (total amounts)) ∧
    (∀ sign amounts sign' amounts', text.toList = spell sign amounts →
      text.toList = spell sign' amounts' → sign = sign' ∧ amounts = amounts') ∧
    (parseSigned text = .error .overflow ↔ Overflows text) :=
  ⟨fun _ => parseSigned_ok_iff, fun _ _ _ _ spells spells' => spell_inj (spells.symm.trans spells'),
    parseSigned_overflow_iff⟩

/-- Not every text gets an answer: at the bound itself, in microseconds, reading panics. -/
theorem not_every_text_answered : ¬ ∀ text, parseSigned text ≠ .error .overflow := by
  intro every
  exact every "340282366920938463463374607431768211.456us" (by decide +kernel)

end RoundTrip.Duration
