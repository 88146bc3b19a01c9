import RoundTrip.Proofs.Duration.Amount
import RoundTrip.Proofs.Result

/-!
Which texts are durations and of what length: those that the grammar spells, as long as the sum of
their amounts stays in range.
-/

namespace RoundTrip.Duration

inductive Sign
  | none
  | plus
  | minus
  deriving DecidableEq, Repr

namespace Sign

def text : Sign → List Char
  | none => []
  | plus => ['+']
  | minus => ['-']

def apply (n : Nat) : Sign → Int
  | none | plus => n
  | minus => -n

end Sign

/-- A zero needs no unit if it stands alone. -/
def body : List Amount → List Char
  | [] => ['0']
  | a :: rest => (a :: rest).flatMap Amount.text

theorem body_of_ne_nil {amounts : List Amount} (nonempty : amounts ≠ []) :
    body amounts = amounts.flatMap Amount.text := by
  cases amounts with
  | nil => exact absurd rfl nonempty
  | cons a rest => rfl

def spell (sign : Sign) (amounts : List Amount) : List Char := sign.text ++ body amounts

def total (amounts : List Amount) : Nat := (amounts.map Amount.nanos).sum

def readFrom : Nat → List Amount → Except Fault Nat
  | start, [] => .ok start
  | start, a :: rest =>
    if componentBound ≤ a.wholeNanos then .error .outOfRange
    else if componentBound ≤ a.nanos then .error .overflow
    else if limit < start + a.nanos then .error .outOfRange
    else readFrom (start + a.nanos) rest

theorem limit_lt_componentBound : limit < componentBound := by decide

theorem total_cons (a : Amount) (rest : List Amount) : total (a :: rest) = a.nanos + total rest :=
  List.sum_cons

theorem total_append (us vs : List Amount) : total (us ++ vs) = total us + total vs := by
  rw [total, List.map_append, List.sum_append]
  rfl

theorem readFrom_of_total {amounts : List Amount} {start : Nat}
    (within : start + total amounts ≤ limit) :
    readFrom start amounts = .ok (start + total amounts) := by
  induction amounts generalizing start with
  | nil => rfl
  | cons a rest ih =>
    have whole := a.wholeNanos_le
    have bound := limit_lt_componentBound
    rw [total_cons] at within
    rw [readFrom, if_neg (by omega), if_neg (by omega), if_neg (by omega), ih (by omega),
      total_cons, Nat.add_assoc]

theorem readFrom_of_contained {amounts : List Amount} {start : Nat}
    (contained : ∀ a ∈ amounts, ¬ a.Overflows) (beyond : limit < start + total amounts)
    (begun : start ≤ limit) : readFrom start amounts = .error .outOfRange := by
  induction amounts generalizing start with
  | nil => exact absurd begun (Nat.not_le_of_lt beyond)
  | cons a rest ih =>
    rw [List.forall_mem_cons, Amount.overflows_iff] at contained
    rw [total_cons] at beyond
    rw [readFrom]
    split_ifs with whole sum large
    · rfl
    · exact absurd ⟨Nat.lt_of_not_le whole, sum⟩ contained.1
    · rfl
    · exact ih contained.2 (by omega) (Nat.le_of_not_lt large)

theorem readFrom_overflow {before after : List Amount} {a : Amount} {start : Nat}
    (within : start + total before ≤ limit) (overflows : a.Overflows) :
    readFrom start (before ++ a :: after) = .error .overflow := by
  induction before generalizing start with
  | nil =>
    obtain ⟨whole, sum⟩ := a.overflows_iff.1 overflows
    rw [List.nil_append, readFrom, if_neg (Nat.not_le_of_lt whole), if_pos sum]
  | cons b rest ih =>
    have whole := b.wholeNanos_le
    have bound := limit_lt_componentBound
    rw [total_cons] at within
    rw [List.cons_append, readFrom, if_neg (by omega), if_neg (by omega), if_neg (by omega),
      ih (by omega)]

theorem readFrom_ok_iff {amounts : List Amount} {start n : Nat} (begun : start ≤ limit) :
    readFrom start amounts = .ok n ↔ start + total amounts ≤ limit ∧ n = start + total amounts := by
  constructor
  · intro read
    induction amounts generalizing start with
    | nil => exact ⟨begun, (Except.ok.inj read).symm⟩
    | cons a rest ih =>
      rw [readFrom] at read
      split_ifs at read with whole sum large
      rw [total_cons, ← Nat.add_assoc]
      exact ih (Nat.le_of_not_lt large) read
  · rintro ⟨within, rfl⟩
    exact readFrom_of_total within

theorem opens_flatMap (amounts : List Amount) : Opens (amounts.flatMap Amount.text) := by
  cases amounts with
  | nil => nofun
  | cons a rest =>
    rw [List.flatMap_cons]
    exact a.opens_text _

theorem sum_of_ne_nil {cs : List Char} (nonempty : cs ≠ []) (fuel total : Nat) :
    sum (fuel + 1) total cs =
      match (Component.take cs).1.nanos with
      | .error fault => .error fault
      | .ok nanos =>
        if limit < total + nanos then .error .outOfRange
        else sum fuel (total + nanos) (Component.take cs).2 := by
  cases cs with
  | nil => exact absurd rfl nonempty
  | cons c cs => rfl

theorem sum_amount {a : Amount} {rest : List Char} (opens : Opens rest) (fuel start : Nat) :
    sum (fuel + 1) start (a.text ++ rest) =
      (readFrom start [a]).bind fun n => sum fuel n rest := by
  have nonempty : a.text ++ rest ≠ [] := fun empty =>
    a.text_ne_nil (List.append_eq_nil_iff.1 empty).1
  rw [sum_of_ne_nil nonempty, Amount.take_text opens, Amount.component_nanos, readFrom]
  split_ifs <;> simp_all [Except.bind, readFrom]

theorem readFrom_cons (start : Nat) (a : Amount) (rest : List Amount) :
    readFrom start (a :: rest) = (readFrom start [a]).bind fun n => readFrom n rest := by
  rw [readFrom, readFrom]
  split_ifs <;> rfl

theorem opens_append {rest : List Char} (opens : Opens rest) (amounts : List Amount) :
    Opens (amounts.flatMap Amount.text ++ rest) := by
  cases amounts with
  | nil => exact opens
  | cons a others =>
    rw [List.flatMap_cons, List.append_assoc]
    exact a.opens_text _

theorem sum_append {rest : List Char} (opens : Opens rest) (amounts : List Amount)
    (fuel start : Nat) :
    sum (amounts.length + fuel) start (amounts.flatMap Amount.text ++ rest) =
      (readFrom start amounts).bind fun n => sum fuel n rest := by
  induction amounts generalizing start with
  | nil =>
    rw [List.length_nil, Nat.zero_add]
    rfl
  | cons a others ih =>
    rw [List.length_cons, Nat.add_right_comm, List.flatMap_cons, List.append_assoc,
      sum_amount (opens_append opens others), readFrom_cons start a others]
    cases readFrom start [a] with
    | error fault => rfl
    | ok n => exact ih n

theorem sum_flatMap {amounts : List Amount} {fuel : Nat} (enough : amounts.length ≤ fuel)
    (start : Nat) : sum fuel start (amounts.flatMap Amount.text) = readFrom start amounts := by
  obtain ⟨more, rfl⟩ := Nat.exists_eq_add_of_le enough
  have ended : Opens [] := nofun
  have read := sum_append ended amounts more start
  have done (n : Nat) : sum more n [] = .ok n := by cases more <;> rfl
  rw [List.append_nil] at read
  rw [read]
  cases readFrom start amounts with
  | error fault => rfl
  | ok n => exact done n

theorem length_le_flatMap (amounts : List Amount) :
    amounts.length ≤ (amounts.flatMap Amount.text).length := by
  induction amounts with
  | nil => exact Nat.le_refl 0
  | cons a rest ih =>
    have nonempty := List.length_pos_iff.2 a.text_ne_nil
    rw [List.flatMap_cons, List.length_append, List.length_cons]
    omega

theorem flatMap_ne_zero (a : Amount) (rest : List Amount) :
    (a :: rest).flatMap Amount.text ≠ ['0'] := by
  intro zero
  obtain ⟨nonempty, unit, -, -⟩ := a.unit_spec
  obtain ⟨c, hc⟩ := List.exists_mem_of_ne_nil _ nonempty
  have among : c ∈ (a :: rest).flatMap Amount.text := by
    rw [List.flatMap_cons, Amount.text]
    simp only [List.mem_append]
    exact .inl (.inr (.inr hc))
  rw [zero, List.mem_singleton] at among
  have digit := unit c hc
  rw [among] at digit
  cases digit

theorem body_ne_nil (amounts : List Amount) : body amounts ≠ [] := by
  cases amounts with
  | nil => exact List.cons_ne_nil _ _
  | cons a rest => exact fun empty => a.text_ne_nil (List.append_eq_nil_iff.1 empty).1

theorem magnitude_body (amounts : List Amount) :
    magnitude (body amounts) = readFrom 0 amounts := by
  cases amounts with
  | nil => rfl
  | cons a rest =>
    have nonempty : ¬ ((a :: rest).flatMap Amount.text).isEmpty = true :=
      mt List.isEmpty_iff.1 (body_ne_nil (a :: rest))
    rw [body, magnitude, if_neg (flatMap_ne_zero a rest), if_neg nonempty,
      sum_flatMap (length_le_flatMap _)]

theorem opens_body (amounts : List Amount) : Opens (body amounts) := by
  cases amounts with
  | nil =>
    rintro c ⟨⟩
    rfl
  | cons a rest => exact opens_flatMap (a :: rest)

def Unsigned (text : String) : Prop := ∀ c ∈ text.toList.head?, c ≠ '+' ∧ c ≠ '-'

theorem unsigned_of_opens {text : String} (opens : Opens text.toList) : Unsigned text := by
  intro c first
  have opens := opens c first
  constructor
  all_goals
    rintro rfl
    cases opens

theorem unsigned_of_body {text : String} {amounts : List Amount}
    (spells : text.toList = body amounts) : Unsigned text :=
  unsigned_of_opens (spells ▸ opens_body amounts)

theorem parseSigned_of_text {text : String} {sign : Sign} {cs : List Char}
    (starts : text.toList = sign.text ++ cs) (unsigned : sign = .none → Unsigned text) :
    parseSigned text = (magnitude cs).map sign.apply := by
  rw [parseSigned]
  cases sign with
  | none =>
    have same : text.toList = cs := starts
    have unsigned := unsigned rfl
    rw [Unsigned] at unsigned
    split
    next minus =>
      rw [minus] at unsigned
      exact absurd rfl (unsigned '-' rfl).2
    next plus =>
      rw [plus] at unsigned
      exact absurd rfl (unsigned '+' rfl).1
    next =>
      rw [same]
      cases magnitude cs <;> rfl
  | plus =>
    have plus : text.toList = '+' :: cs := starts
    rw [plus]
    cases read : magnitude cs <;> simp only [read] <;> rfl
  | minus =>
    have minus : text.toList = '-' :: cs := starts
    rw [minus]
    cases read : magnitude cs <;> simp only [read] <;> rfl

theorem parseSigned_spell {text : String} {sign : Sign} {amounts : List Amount}
    (spells : text.toList = spell sign amounts) :
    parseSigned text = (readFrom 0 amounts).map sign.apply := by
  have unsigned : sign = .none → Unsigned text := by
    rintro rfl
    exact unsigned_of_body spells
  rw [parseSigned_of_text spells unsigned, magnitude_body]

theorem exists_flatMap {fuel start n : Nat} {cs : List Char} (enough : cs.length ≤ fuel)
    (read : sum fuel start cs = .ok n) :
    ∃ amounts : List Amount, cs = amounts.flatMap Amount.text := by
  induction fuel generalizing start cs with
  | zero =>
    rw [List.length_eq_zero_iff.1 (Nat.le_zero.1 enough)]
    exact ⟨[], rfl⟩
  | succ fuel ih =>
    by_cases empty : cs = []
    · exact ⟨[], empty⟩
    rw [sum_of_ne_nil empty] at read
    split at read
    · cases read
    next nanos counts =>
      split_ifs at read
      obtain ⟨a, split⟩ := Amount.exists_amount Prod.mk.eta.symm (.inr ⟨nanos, counts⟩)
      have shorter := congrArg List.length split
      have nonempty := List.length_pos_iff.2 a.text_ne_nil
      rw [List.length_append] at shorter
      obtain ⟨rest, spells⟩ := ih (by omega) read
      rw [spells] at split
      exact ⟨a :: rest, split⟩

theorem exists_body {cs : List Char} {n : Nat} (read : magnitude cs = .ok n) :
    ∃ amounts, cs = body amounts := by
  rw [magnitude] at read
  split_ifs at read with zero empty
  · exact ⟨[], zero⟩
  · obtain ⟨amounts, spells⟩ := exists_flatMap (Nat.le_refl _) read
    cases amounts with
    | nil => exact absurd (List.isEmpty_iff.2 spells) empty
    | cons a rest => exact ⟨a :: rest, spells⟩

theorem exists_sign (text : String) : ∃ (sign : Sign) (cs : List Char),
    text.toList = sign.text ++ cs ∧ (sign = .none → Unsigned text) := by
  cases starts : text.toList with
  | nil => exact ⟨.none, [], rfl, fun _ c hc => by rw [starts] at hc; cases hc⟩
  | cons c cs =>
    by_cases plus : c = '+'
    · exact ⟨.plus, cs, by rw [plus]; rfl, nofun⟩
    by_cases minus : c = '-'
    · exact ⟨.minus, cs, by rw [minus]; rfl, nofun⟩
    refine ⟨.none, c :: cs, rfl, ?_⟩
    rintro - d hd
    rw [starts] at hd
    cases hd
    exact ⟨plus, minus⟩

theorem exists_spell {text : String} {z : Int} (read : parseSigned text = .ok z) :
    ∃ sign amounts, text.toList = spell sign amounts := by
  obtain ⟨sign, cs, starts, unsigned⟩ := exists_sign text
  rw [parseSigned_of_text starts unsigned] at read
  obtain ⟨n, read, -⟩ := map_eq_ok.1 read
  obtain ⟨amounts, spells⟩ := exists_body read
  rw [spells] at starts
  exact ⟨sign, amounts, starts⟩

theorem parseSigned_ok_iff {text : String} {z : Int} : parseSigned text = .ok z ↔
    ∃ sign amounts, text.toList = spell sign amounts ∧ total amounts ≤ limit ∧
      z = sign.apply (total amounts) := by
  have read {sign : Sign} {amounts : List Amount} :
      (readFrom 0 amounts).map sign.apply = .ok z ↔
        total amounts ≤ limit ∧ z = sign.apply (total amounts) := by
    rw [map_eq_ok]
    simp only [readFrom_ok_iff (Nat.zero_le _), Nat.zero_add, and_assoc, exists_and_left,
      exists_eq_left, eq_comm (b := z)]
  constructor
  · intro accepted
    obtain ⟨sign, amounts, spells⟩ := exists_spell accepted
    rw [parseSigned_spell spells, read] at accepted
    exact ⟨sign, amounts, spells, accepted⟩
  · rintro ⟨sign, amounts, spells, accepted⟩
    rw [parseSigned_spell spells, read]
    exact accepted

theorem parse_ok_iff {s : String} {d : Duration} :
    parse s = .ok d ↔ parseSigned s = .ok (d : Int) := by
  rw [parse]
  cases parseSigned s with
  | error fault => exact ⟨nofun, nofun⟩
  | ok n =>
    simp only [Except.ok.injEq]
    split_ifs with negative
    · refine ⟨nofun, ?_⟩
      rintro rfl
      exact absurd negative (Int.natCast_nonneg d).not_gt
    · rw [Except.ok.injEq]
      constructor
      · rintro rfl
        exact (Int.toNat_of_nonneg (Int.not_lt.1 negative)).symm
      · rintro rfl
        exact Int.toNat_natCast d

theorem isBlank_of_not_isUnitChar {c : Char} (opens : isUnitChar c = false) :
    Text.isBlank c = false := by
  have digit_or_point : c.isDigit = true ∨ c = '.' := by
    cases digit : c.isDigit with
    | true => exact .inl rfl
    | false => simpa [isUnitChar, digit] using opens
  rcases digit_or_point with digit | rfl
  · obtain ⟨low, high⟩ := Char.isDigit_iff_toNat.1 digit
    have low : 0x30 ≤ c.toNat := low
    have high : c.toNat ≤ 0x39 := high
    simp only [Text.isBlank, Bool.or_eq_false_iff, Bool.and_eq_false_iff, decide_eq_false_iff_not,
      beq_eq_false_iff_ne]
    omega
  · rfl

theorem not_allBlank_of_parse {text : String} {d : Duration} (read : parse text = .ok d) :
    Text.allBlank text = false := by
  obtain ⟨sign, amounts, spells, -⟩ := parseSigned_ok_iff.1 (parse_ok_iff.1 read)
  have opens := opens_body amounts
  rw [Text.allBlank, List.all_eq_false, spells, spell]
  cases starts : body amounts with
  | nil => exact absurd starts (body_ne_nil amounts)
  | cons c cs =>
    rw [starts] at opens
    refine ⟨c, List.mem_append_right _ List.mem_cons_self, ?_⟩
    rw [isBlank_of_not_isUnitChar (opens c rfl)]
    exact Bool.false_ne_true

end RoundTrip.Duration
