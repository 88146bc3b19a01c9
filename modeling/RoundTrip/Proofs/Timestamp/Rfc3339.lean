import Mathlib.Tactic.SplitIfs
import RoundTrip.Proofs.Result
import RoundTrip.Proofs.Text.Digits
import RoundTrip.Proofs.Text.Octets
import RoundTrip.Proofs.Timestamp.Calendar
import RoundTrip.Timestamp.Rfc3339

namespace RoundTrip.Timestamp

open Text

def Valid (t : Timestamp) : Prop :=
  t.nanos < leapNanos ∨ (t.nanos < 2 * leapNanos ∧ t.seconds % 60 = 59)

def date (t : Timestamp) : Date := Date.ofDays (t.seconds / daySeconds)

def FourDigitYear (t : Timestamp) : Prop := 0 ≤ t.date.year ∧ t.date.year ≤ 9999

theorem digits_append {ds : List Char} (isDigit : ∀ c ∈ ds, c.isDigit = true) (rest : List Char) :
    digits ds.length (ds ++ rest) = .ok (decimal ds, rest) := by
  rw [digits, List.take_left, List.drop_left, if_pos]
  exact ⟨List.all_eq_true.2 isDigit, rfl⟩

theorem digits_padded {width n : Nat} (positive : 0 < width) (fits : n < 10 ^ width)
    (rest : List Char) : digits width ((padded width n).toList ++ rest) = .ok (n, rest) := by
  have read := digits_append (fun c => @isDigit_of_mem_padded width n c) rest
  rwa [length_padded positive fits, decimal_padded] at read

theorem fraction_padded {width n nanos : Nat} (positive : 0 < width) (nine : width ≤ 9)
    (fits : n < 10 ^ width) (scaled : n * 10 ^ (9 - width) = nanos) {c : Char}
    (stop : c.isDigit = false) (rest : List Char) :
    fraction ((padded width n).toList ++ c :: rest) = .ok (nanos, c :: rest) := by
  have isDigit : ∀ c ∈ (padded width n).toList, c.isDigit = true :=
    fun c => isDigit_of_mem_padded
  have length := length_padded positive fits
  have ends : ∀ d ∈ (c :: rest).head?, d.isDigit = false := by
    rintro d ⟨⟩
    exact stop
  obtain ⟨taken, left⟩ := span_append isDigit ends
  have nonempty : (padded width n).toList ≠ [] := by
    rw [← List.length_pos_iff, length]
    exact positive
  rw [fraction, taken, left, List.take_of_length_le (by omega), decimal_padded, length, ← scaled]
  simp [nonempty]

theorem digits_two {n : Nat} (fits : n < 100) (rest : List Char) :
    digits 2 ((padded 2 n).toList ++ rest) = .ok (n, rest) :=
  digits_padded (by decide) fits rest

theorem parseDate_padded {year month day : Nat} (fits : year < 10000)
    (valid : (⟨year, month, day⟩ : Date).isValid = true) (rest : List Char) :
    parseDate ((padded 4 year).toList ++ '-' :: ((padded 2 month).toList ++ '-' ::
      ((padded 2 day).toList ++ rest))) = .ok (⟨year, month, day⟩, rest) := by
  have bounds := valid
  rw [Date.isValid, decide_eq_true_eq] at bounds
  obtain ⟨-, month12, -, dayLast⟩ := bounds
  have day31 : day ≤ 31 := by
    apply dayLast.trans
    simp only [Date.monthLength]
    split_ifs <;> decide
  simp only [parseDate, digits_padded (by decide : 0 < 4) fits,
    digits_two (Nat.lt_of_le_of_lt month12 (by decide)),
    digits_two (Nat.lt_of_le_of_lt day31 (by decide)), bind, Except.bind, expect, decide_true,
    if_true, valid]
  rfl

theorem fractionText_spec {nanos : Nat} (fits : nanos < leapNanos) :
    (nanos = 0 ∧ fractionText nanos = "") ∨
      ∃ ds, (fractionText nanos).toList = '.' :: ds ∧
        ∀ rest, fraction (ds ++ 'Z' :: rest) = .ok (nanos, 'Z' :: rest) := by
  have fits : nanos < 1000000000 := fits
  have written (width n : Nat) :
      ("." ++ padded width n).toList = '.' :: (padded width n).toList := by
    rw [String.toList_append]
    rfl
  rw [fractionText]
  split_ifs with none millis micros
  · exact .inl ⟨none, rfl⟩
  · exact .inr ⟨_, written 3 _, fraction_padded (by decide) (by decide) (by omega)
      (Nat.div_mul_cancel (Nat.dvd_of_mod_eq_zero millis)) (by decide)⟩
  · exact .inr ⟨_, written 6 _, fraction_padded (by decide) (by decide) (by omega)
      (Nat.div_mul_cancel (Nat.dvd_of_mod_eq_zero micros)) (by decide)⟩
  · exact .inr ⟨_, written 9 _, fraction_padded (by decide) (by decide) fits (Nat.mul_one nanos)
      (by decide)⟩

theorem parseClock_padded {hour minute second nanos : Nat} (hours : hour < 24)
    (minutes : minute < 60) (seconds : second ≤ 60) (fits : nanos < leapNanos)
    (rest : List Char) :
    parseClock ((padded 2 hour).toList ++ ':' :: ((padded 2 minute).toList ++ ':' ::
      ((padded 2 second).toList ++ ((fractionText nanos).toList ++ 'Z' :: rest)))) =
      .ok (hour * 3600 + minute * 60 + (if second = 60 then 59 else second),
        if second = 60 then nanos + leapNanos else nanos, 'Z' :: rest) := by
  -- Both forms of the second stay within the minute.
  have within : (if second = 60 then 59 else second) < 60 := by
    split_ifs <;> omega
  simp only [parseClock, digits_two (Nat.lt_trans hours (by decide)),
    digits_two (Nat.lt_trans minutes (by decide)),
    digits_two (Nat.lt_of_le_of_lt seconds (by decide)), bind, Except.bind, expect, decide_true,
    if_true]
  rcases fractionText_spec fits with ⟨rfl, none⟩ | ⟨ds, some, read⟩
  · rw [none]
    simp only [String.toList_empty, List.nil_append]
    split_ifs at within ⊢ <;> simp_all [pure, Except.pure]
  · rw [some]
    simp only [List.cons_append, read]
    split_ifs at within ⊢ <;> simp_all [pure, Except.pure]

def clock (second nanos : Nat) : List Char :=
  (padded 2 (second / 3600)).toList ++ ':' :: ((padded 2 (second / 60 % 60)).toList ++ ':' ::
    ((padded 2 (second % 60 + if leapNanos ≤ nanos then 1 else 0)).toList ++
      (fractionText (if leapNanos ≤ nanos then nanos - leapNanos else nanos)).toList))

theorem parseClock_clock {second nanos : Nat} (inDay : second < 86400)
    (valid : nanos < leapNanos ∨ (nanos < 2 * leapNanos ∧ second % 60 = 59)) :
    parseClock (clock second nanos ++ ['Z']) = .ok (second, nanos, ['Z']) := by
  have hours : second / 3600 < 24 := by omega
  have minutes : second / 60 % 60 < 60 := Nat.mod_lt _ (by decide)
  have whole : second / 3600 * 3600 + second / 60 % 60 * 60 + second % 60 = second := by omega
  by_cases leap : leapNanos ≤ nanos
  · obtain ⟨below, last⟩ := valid.resolve_left (Nat.not_lt_of_le leap)
    have read := parseClock_padded hours minutes (Nat.le_refl 60)
      (show nanos - leapNanos < leapNanos by omega) []
    rw [if_pos rfl, if_pos rfl, Nat.sub_add_cancel leap] at read
    simp only [clock, leap, if_true, last, List.append_assoc, List.cons_append]
    rw [read, ← last, whole]
  · have below : nanos < leapNanos := Nat.lt_of_not_le leap
    have apart : ¬ second % 60 = 60 := (Nat.mod_lt _ (by decide)).ne
    have seconds : second % 60 ≤ 60 := (Nat.mod_lt second (by decide : 60 > 0)).le
    have read := parseClock_padded hours minutes seconds below []
    rw [if_neg apart, if_neg apart, whole] at read
    simp only [clock, leap, if_false, Nat.add_zero, List.append_assoc, List.cons_append]
    exact read

theorem toList_text (t : Timestamp) :
    t.text.toList = (yearText t.date.year).toList ++ '-' :: ((padded 2 t.date.month).toList ++
      '-' :: ((padded 2 t.date.day).toList ++ 'T' ::
        (clock (t.seconds % daySeconds).toNat t.nanos ++ ['Z']))) := by
  simp [text, date, clock]

theorem leastLength_le_text (t : Timestamp) : leastLength ≤ t.text.utf8ByteSize := by
  have padding (width n : Nat) : width ≤ (padded width n).toList.length := by
    rw [toList_padded, List.length_append, List.length_replicate]
    omega
  have year : 4 ≤ (yearText t.date.year).toList.length := by
    rw [yearText]
    split
    · exact padding 4 _
    · rw [String.toList_append, List.length_append]
      exact (padding 4 _).trans (Nat.le_add_left _ _)
  have clock_le (second nanos : Nat) : 8 ≤ (clock second nanos).length := by
    have hour := padding 2 (second / 3600)
    have minute := padding 2 (second / 60 % 60)
    have rest := padding 2 (second % 60 + if leapNanos ≤ nanos then 1 else 0)
    simp only [clock, List.length_append, List.length_cons]
    omega
  have month := padding 2 t.date.month
  have day := padding 2 t.date.day
  have time := clock_le (t.seconds % daySeconds).toNat t.nanos
  apply le_trans _ (Utf8.length_le_utf8ByteSize t.text)
  rw [toList_text]
  simp only [List.length_append, List.length_cons, leastLength]
  omega

theorem parse_text {t : Timestamp} (valid : t.Valid) (year : t.FourDigitYear) :
    parse t.text = .ok t := by
  obtain ⟨year0, year9999⟩ := year
  have dateIs : (⟨(t.date.year.toNat : Int), t.date.month, t.date.day⟩ : Date) = t.date := by
    rw [Int.toNat_of_nonneg year0]
  have dateValid : Date.isValid ⟨(t.date.year.toNat : Int), t.date.month, t.date.day⟩ = true := by
    rw [dateIs]
    exact Date.isValid_ofDays _
  have dateRead := parseDate_padded (by omega) dateValid
    ('T' :: (clock (t.seconds % daySeconds).toNat t.nanos ++ ['Z']))
  have yearIs : yearText t.date.year = padded 4 t.date.year.toNat := if_pos ⟨year0, year9999⟩
  have secondIs : ((t.seconds % daySeconds).toNat : Int) = t.seconds % daySeconds :=
    Int.toNat_of_nonneg (Int.emod_nonneg _ (by decide))
  have clockRead : parseClock (clock (t.seconds % daySeconds).toNat t.nanos ++ ['Z']) =
      .ok ((t.seconds % daySeconds).toNat, t.nanos, ['Z']) := by
    rw [Valid] at valid
    simp only [daySeconds] at *
    apply parseClock_clock
    · omega
    · omega
  have days : t.date.toDays * daySeconds + t.seconds % daySeconds = t.seconds := by
    rw [date, Date.toDays_ofDays, Int.ediv_mul_add_emod]
  rw [dateIs] at dateRead
  rw [parse, if_neg (Nat.not_lt_of_le t.leastLength_le_text), toList_text, yearIs]
  simp only [dateRead, bind, Except.bind, expect, offset]
  simp [clockRead, secondIs, days, pure, Except.pure, offsetLimit]

theorem fraction_lt {cs rest : List Char} {nanos : Nat} (h : fraction cs = .ok (nanos, rest)) :
    nanos < leapNanos := by
  simp only [fraction] at h
  split_ifs at h
  cases h
  have isDigit : ∀ c ∈ (cs.takeWhile Char.isDigit).take 9, c.isDigit = true := by
    intro c hc
    exact isDigit_of_mem_takeWhile (List.mem_of_mem_take hc)
  have short : ((cs.takeWhile Char.isDigit).take 9).length ≤ 9 := List.length_take_le 9 _
  calc decimal ((cs.takeWhile Char.isDigit).take 9) *
        10 ^ (9 - ((cs.takeWhile Char.isDigit).take 9).length)
      < 10 ^ ((cs.takeWhile Char.isDigit).take 9).length *
          10 ^ (9 - ((cs.takeWhile Char.isDigit).take 9).length) :=
        Nat.mul_lt_mul_of_pos_right (decimal_lt isDigit) (Nat.pow_pos (by decide))
    _ = leapNanos := by rw [← Nat.pow_add, Nat.add_sub_cancel' short]; rfl

theorem parseClock_valid {cs rest : List Char} {second nanos : Nat}
    (h : parseClock cs = .ok (second, nanos, rest)) :
    nanos < leapNanos ∨ (nanos < 2 * leapNanos ∧ second % 60 = 59) := by
  obtain ⟨⟨hour, cs⟩, -, h⟩ := bind_eq_ok.1 h
  obtain ⟨cs, -, h⟩ := bind_eq_ok.1 h
  obtain ⟨⟨minute, cs⟩, -, h⟩ := bind_eq_ok.1 h
  obtain ⟨cs, -, h⟩ := bind_eq_ok.1 h
  obtain ⟨⟨last, cs⟩, -, h⟩ := bind_eq_ok.1 h
  have kept {n : Nat} (cs : List Char) (below : n < leapNanos)
      (h : (if last = 60 then
          if hour < 24 ∧ minute < 60 ∧ 59 < 60 then
            Except.ok (hour * 3600 + minute * 60 + 59, n + leapNanos, cs)
          else .error Fault.outOfRange
        else if hour < 24 ∧ minute < 60 ∧ last < 60 then
          .ok (hour * 3600 + minute * 60 + last, n, cs)
        else .error Fault.outOfRange) = .ok (second, nanos, rest)) :
      nanos < leapNanos ∨ (nanos < 2 * leapNanos ∧ second % 60 = 59) := by
    split_ifs at h
    · cases h
      exact .inr ⟨by omega, by omega⟩
    · cases h
      exact .inl below
  dsimp only at h
  split at h
  next =>
    obtain ⟨⟨n, cs⟩, read, h⟩ := bind_eq_ok.1 h
    apply kept cs (fraction_lt read)
    rw [← h]
    by_cases leap : last = 60 <;> simp only [leap, if_true, if_false] <;> rfl
  next =>
    apply kept cs (by decide : 0 < leapNanos)
    rw [← h]
    by_cases leap : last = 60 <;> simp only [leap, if_true, if_false] <;> rfl

theorem valid_of_parse {text : String} {t : Timestamp} (h : parse text = .ok t) : t.Valid := by
  rw [parse] at h
  split_ifs at h
  obtain ⟨⟨date, cs⟩, -, h⟩ := bind_eq_ok.1 h
  obtain ⟨cs, -, h⟩ := bind_eq_ok.1 h
  obtain ⟨⟨second, nanos, cs⟩, clock, h⟩ := bind_eq_ok.1 h
  obtain ⟨⟨minutes, cs⟩, -, h⟩ := bind_eq_ok.1 h
  dsimp only at h
  split_ifs at h
  cases h
  have valid := parseClock_valid clock
  simp only [Valid, daySeconds]
  omega

theorem not_parse_of_year {t : Timestamp} (year : ¬ t.FourDigitYear) (u : Timestamp) :
    parse t.text ≠ .ok u := by
  have signed : ∃ sign rest, (yearText t.date.year).toList = sign :: rest ∧
      sign.isDigit = false := by
    rw [yearText, if_neg (show ¬ (0 ≤ t.date.year ∧ t.date.year ≤ 9999) from year),
      String.toList_append]
    split
    · exact ⟨'-', _, rfl, rfl⟩
    · exact ⟨'+', _, rfl, rfl⟩
  obtain ⟨sign, rest, starts, noDigit⟩ := signed
  rw [parse, if_neg (Nat.not_lt_of_le t.leastLength_le_text), toList_text, starts]
  simp [parseDate, digits, noDigit, bind, Except.bind]

theorem parse_text_iff {t : Timestamp} (valid : t.Valid) :
    (∃ u, parse t.text = .ok u) ↔ t.FourDigitYear := by
  constructor
  · rintro ⟨u, read⟩
    by_contra year
    exact not_parse_of_year year u read
  · intro year
    exact ⟨t, parse_text valid year⟩

end RoundTrip.Timestamp
