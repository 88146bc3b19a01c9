import RoundTrip.Proofs.Json.Number

/-!
The text of a float is read as a float, in each of its forms: with a point among its digits, before
or behind them, and with an exponent.
-/

namespace RoundTrip.Json

open Text (decimal)
open Text.Utf8
open Decimal (Scientific digitLimit exponentText zeros)

def Reads (text : List Char) : Prop :=
  ∃ ds cs, text = ds ++ cs ∧ Numeral ds ∧ ∃ m : Double, m.Finite ∧
    ∀ negative rest, Ends rest →
      readMagnitude negative (octets text ++ rest) = .ok (.float (signed negative m), rest)

def Scales (significand : Nat) (exponent : Int) : Prop :=
  ∃ d, (∀ negative, floatOf negative significand exponent = .ok (.float (signed negative d))) ∧
    d.Finite

theorem reads_point {ds fs : List Char} (numeral : Numeral ds)
    (digits : ∀ c ∈ fs, c.isDigit = true) (some : fs ≠ [])
    (fits : decimal (ds ++ fs) < significandBound)
    (scales : Scales (decimal (ds ++ fs)) (-(fs.length : Int))) : Reads (ds ++ '.' :: fs) := by
  obtain ⟨m, read, finite⟩ := scales
  rw [Text.decimal_append] at fits read
  have head : decimal ds < significandBound := by
    apply Nat.lt_of_le_of_lt _ fits
    exact (Nat.le_mul_of_pos_right _ (Nat.pow_pos (by decide))).trans (Nat.le_add_right _ _)
  refine ⟨ds, _, rfl, numeral, m, finite, ?_⟩
  intro negative rest ends
  have point : octets ('.' :: fs) = 0x2E :: octets fs := octets_cons_ascii (by decide) fs
  rw [octets_append, point, List.append_assoc, List.cons_append,
    readMagnitude_numeral numeral head (by rfl)]
  change readFraction negative (decimal ds) 0 (octets fs ++ rest) = _
  rw [readFraction_digits digits some fits ends.stop, readScale_ends ends, read]
  rfl

theorem octets_exponentText (e : Int) (rest : Bytes) :
    octets (exponentText e) ++ rest =
      0x65 :: ((if decide (e < 0) then 0x2D else 0x2B) ::
        (octets (Nat.toDigits 10 e.natAbs) ++ rest)) := by
  rw [exponentText, octets_cons_ascii (by decide), List.cons_append]
  by_cases negative : e < 0
  · simp only [negative, if_true, decide_true]
    rw [octets_cons_ascii (by decide)]
    rfl
  · simp only [negative, if_false, decide_false, Bool.false_eq_true]
    rw [octets_cons_ascii (by decide)]
    rfl

theorem readExponent_text {significand : Nat} (shift : Int) {e : Int}
    (small : e ≤ exponentLimit) (scales : Scales significand (shift + e)) :
    ∃ m : Double, m.Finite ∧ ∀ negative rest, Ends rest →
      readExponent negative significand shift
          ((if decide (e < 0) then 0x2D else 0x2B) ::
            (octets (Nat.toDigits 10 e.natAbs) ++ rest)) =
        .ok (.float (signed negative m), rest) := by
  obtain ⟨m, read, finite⟩ := scales
  by_cases huge : exponentLimit < e.natAbs
  · have down : e < 0 := by omega
    refine ⟨.zero, Double.Finite.zero, ?_⟩
    intro negative rest ends
    rw [readExponent_digits ends.stop, if_pos huge]
    simp [down]
  · refine ⟨m, finite, ?_⟩
    intro negative rest ends
    have exponent : (if decide (e < 0) = true then shift - e.natAbs else shift + e.natAbs) =
        shift + e := by
      by_cases down : e < 0
      · rw [if_pos (decide_eq_true down)]
        omega
      · rw [if_neg (by simpa using down)]
        omega
    rw [readExponent_digits ends.stop, if_neg huge, exponent, read]
    rfl

theorem numeral_single {d : Char} (digit : d.isDigit = true) : Numeral [d] :=
  ⟨List.forall_mem_singleton.2 digit, d, [], rfl, fun _ => rfl⟩

theorem decimal_single_lt {d : Char} (digit : d.isDigit = true) :
    decimal [d] < significandBound :=
  (Text.decimal_lt (List.forall_mem_singleton.2 digit)).trans
    (show 10 ^ 1 < significandBound by decide)

theorem reads_exponent {d : Char} (digit : d.isDigit = true) {e : Int} (small : e ≤ exponentLimit)
    (scales : Scales (decimal [d]) e) : Reads ([d] ++ exponentText e) := by
  obtain ⟨m, finite, read⟩ := readExponent_text 0 small (by rwa [Int.zero_add])
  refine ⟨[d], _, rfl, numeral_single digit, m, finite, ?_⟩
  intro negative rest ends
  rw [octets_append, List.append_assoc, octets_exponentText,
    readMagnitude_numeral (numeral_single digit) (decimal_single_lt digit) (by rfl)]
  exact read negative rest ends

theorem reads_point_exponent {d : Char} {fs : List Char}
    (digits : ∀ c ∈ d :: fs, c.isDigit = true) (some : fs ≠ []) {e : Int}
    (small : e ≤ exponentLimit) (fits : decimal (d :: fs) < significandBound)
    (scales : Scales (decimal (d :: fs)) (-(fs.length : Int) + e)) :
    Reads ([d] ++ '.' :: (fs ++ exponentText e)) := by
  obtain ⟨digit, others⟩ := List.forall_mem_cons.1 digits
  obtain ⟨m, finite, read⟩ := readExponent_text _ small scales
  refine ⟨[d], _, rfl, numeral_single digit, m, finite, ?_⟩
  intro negative rest ends
  have point : octets ('.' :: (fs ++ exponentText e)) =
      0x2E :: octets (fs ++ exponentText e) := octets_cons_ascii (by decide) _
  rw [← List.singleton_append, Text.decimal_append] at fits read
  rw [octets_append, point, List.append_assoc, List.cons_append,
    readMagnitude_numeral (numeral_single digit) (decimal_single_lt digit) (by rfl)]
  change readFraction negative (decimal [d]) 0 (octets (fs ++ exponentText e) ++ rest) = _
  rw [octets_append, List.append_assoc, octets_exponentText,
    readFraction_digits others some fits (by rfl)]
  exact read negative rest ends

/-- A decimal whose text reads back. -/
structure Modest (s : Scientific) : Prop where
  zero : s.digits = 0 → s.exponent = 0
  digits : s.digits ≤ digitLimit
  exponent : s.exponent ≤ maxPower
  scales : Scales s.digits s.exponent

theorem digitLimit_lt : digitLimit < significandBound := by decide

theorem numeral_zeros {n : Nat} {e : Int} (zero : n = 0 → e = 0) :
    Numeral (Nat.toDigits 10 n ++ zeros e) := by
  obtain ⟨digits, -⟩ := numeral_toDigits n
  constructor
  · intro c hc
    rcases List.mem_append.1 hc with hc | hc
    · exact digits c hc
    · rw [List.eq_of_mem_replicate hc]
      rfl
  · rcases Nat.eq_zero_or_pos n with none | positive
    · rw [none, zero none]
      exact ⟨'0', [], rfl, fun _ => rfl⟩
    · obtain ⟨c, cs, starts, nonzero⟩ := toDigits_leading positive
      exact ⟨c, cs ++ zeros e, by rw [starts]; rfl, fun same => absurd same nonzero⟩

section

variable {s : Scientific}

theorem Modest.fits (modest : Modest s) :
    decimal (Nat.toDigits 10 s.digits) < significandBound := by
  rw [Text.decimal_toDigits]
  exact modest.digits.trans_lt digitLimit_lt

theorem Modest.reads_whole (modest : Modest s) {n : Nat} (exponent : s.exponent = n)
    (short : (Nat.toDigits 10 s.digits).length + n ≤ 16) :
    Reads (Nat.toDigits 10 s.digits ++ zeros s.exponent ++ '.' :: ['0']) := by
  have numeral := numeral_zeros modest.zero
  have digits : ∀ c ∈ Nat.toDigits 10 s.digits ++ zeros s.exponent ++ ['0'],
      c.isDigit = true := by
    intro c hc
    rcases List.mem_append.1 hc with hc | hc
    · exact numeral.digits c hc
    · rw [List.mem_singleton.1 hc]
      rfl
  have length : (Nat.toDigits 10 s.digits ++ zeros s.exponent ++ ['0']).length ≤ 17 := by
    rw [List.length_append, List.length_append, zeros, List.length_replicate, exponent,
      Int.toNat_natCast, List.length_singleton]
    omega
  have below : decimal (Nat.toDigits 10 s.digits ++ zeros s.exponent ++ ['0']) < 10 ^ 17 :=
    (Text.decimal_lt digits).trans_le (Nat.pow_le_pow_right (by decide) length)
  apply reads_point numeral (List.forall_mem_singleton.2 rfl) (by decide)
  · exact below.trans (by decide)
  · apply exists_floatOf
    · exact below.le.trans (by decide)
    · intro n negative
      exact absurd negative (by simp)

theorem Modest.reads_inside (modest : Modest s) {n : Nat} (positive : 0 < n)
    (point : ((Nat.toDigits 10 s.digits).length : Int) + s.exponent = n)
    (fraction : s.exponent < 0) :
    Reads ((Nat.toDigits 10 s.digits).take n ++ '.' :: (Nat.toDigits 10 s.digits).drop n) := by
  obtain ⟨digits, c, cs, starts, alone⟩ := numeral_toDigits s.digits
  have joined := List.take_append_drop n (Nat.toDigits 10 s.digits)
  have length : ((Nat.toDigits 10 s.digits).drop n).length =
      (Nat.toDigits 10 s.digits).length - n := List.length_drop
  obtain ⟨m, rfl⟩ := Nat.exists_eq_succ_of_ne_zero positive.ne'
  apply reads_point
  · refine ⟨fun c hc => digits c (List.mem_of_mem_take hc), c, cs.take m, ?_, ?_⟩
    · rw [starts, List.take_succ_cons]
    · intro zero
      rw [alone zero, List.take_nil]
  · exact fun c hc => digits c (List.mem_of_mem_drop hc)
  · intro none
    rw [none, List.length_nil] at length
    omega
  · rw [joined]
    exact modest.fits
  · have exponent : -(((Nat.toDigits 10 s.digits).drop (m + 1)).length : Int) = s.exponent := by
      rw [length]
      omega
    rw [joined, Text.decimal_toDigits, exponent]
    exact modest.scales

theorem Modest.reads_leading (modest : Modest s) {n : Nat}
    (point : ((Nat.toDigits 10 s.digits).length : Int) + s.exponent = -n) :
    Reads (['0'] ++ '.' :: (List.replicate n '0' ++ Nat.toDigits 10 s.digits)) := by
  have value : decimal (['0'] ++ (List.replicate n '0' ++ Nat.toDigits 10 s.digits)) =
      s.digits := by
    rw [Text.decimal_append, Text.decimal_append, Text.decimal_zeros, Text.decimal_toDigits]
    simp [decimal]
  apply reads_point (numeral_single (by decide))
  · intro c hc
    rcases List.mem_append.1 hc with hc | hc
    · rw [List.eq_of_mem_replicate hc]
      rfl
    · exact (numeral_toDigits s.digits).digits c hc
  · simp
  · rw [value]
    exact modest.digits.trans_lt digitLimit_lt
  · have exponent : -((List.replicate n '0' ++ Nat.toDigits 10 s.digits).length : Int) =
        s.exponent := by
      rw [List.length_append, List.length_replicate]
      omega
    rw [value, exponent]
    exact modest.scales

theorem Modest.reads_scientific (modest : Modest s) {e : Int}
    (point : ((Nat.toDigits 10 s.digits).length : Int) + s.exponent - 1 = e) :
    Reads (match Nat.toDigits 10 s.digits with
      | d :: r :: rest => d :: '.' :: r :: rest ++ exponentText e
      | _ => Nat.toDigits 10 s.digits ++ exponentText e) := by
  have short : (Nat.toDigits 10 s.digits).length ≤ 18 :=
    (Nat.length_toDigits_le_iff (by decide) (by decide)).2 (modest.digits.trans_lt (by decide))
  have small : e ≤ exponentLimit := by
    have exponent : s.exponent ≤ 308 := modest.exponent
    have limit : exponentLimit = 2147483647 := rfl
    omega
  obtain ⟨digits, d, ds, starts, -⟩ := numeral_toDigits s.digits
  have fits := modest.fits
  have scales := modest.scales
  rw [← Text.decimal_toDigits s.digits] at scales
  rw [starts] at point digits fits scales ⊢
  cases ds with
  | nil =>
    have exponent : s.exponent = e := by
      rw [List.length_singleton] at point
      omega
    rw [exponent] at scales
    exact reads_exponent (digits d List.mem_cons_self) small scales
  | cons r rest =>
    have exponent : s.exponent = -((r :: rest).length : Int) + e := by
      rw [List.length_cons] at point
      omega
    rw [exponent] at scales
    exact reads_point_exponent digits (List.cons_ne_nil r rest) small fits scales

theorem Modest.reads_digitsText (modest : Modest s) :
    Reads (floatFormat.digitsText s) := by
  rw [Decimal.Format.digitsText]
  split_ifs with whole inside leading
  · obtain ⟨n, exponent⟩ := Int.eq_ofNat_of_zero_le whole.1
    have short : _ ≤ (16 : Int) := whole.2
    exact modest.reads_whole exponent (by omega)
  · obtain ⟨n, point⟩ := Int.eq_ofNat_of_zero_le inside.1.le
    rw [point, Int.toNat_natCast]
    exact modest.reads_inside (by omega) point (by omega)
  · obtain ⟨n, point⟩ := Int.exists_eq_neg_ofNat leading.2
    rw [point, Int.neg_neg, zeros, Int.toNat_natCast]
    exact modest.reads_leading point
  · exact modest.reads_scientific rfl

end

theorem ceiling_cast : (ceiling : ℚ) = (2 ^ 54 - 3) * 2 ^ 970 := by
  rw [ceiling, Nat.cast_mul, Nat.cast_pow, Nat.cast_sub (by decide)]
  norm_num

theorem half_le_ceiling {d : Double} (finite : d.Finite)
    (below : d.significand ≠ Double.bound - 1 ∨ d.exponent ≠ Double.greatestExponent) :
    d.value + 2 ^ d.exponent / 2 ≤ ceiling := by
  have factor : d.value + 2 ^ d.exponent / 2 = (d.significand + 1 / 2) * 2 ^ d.exponent := by
    rw [Double.value]
    ring
  have bounded (m : Nat) (fits : d.significand ≤ m) {k : Nat} (range : d.exponent ≤ k) :
      d.value + 2 ^ d.exponent / 2 ≤ (m + 1 / 2) * 2 ^ k := by
    have significand : (d.significand : ℚ) ≤ m := Nat.cast_le.2 fits
    have grid : (2 : ℚ) ^ d.exponent ≤ 2 ^ k := by
      rw [← zpow_natCast]
      exact zpow_le_zpow_right₀ (by norm_num) range
    rw [factor]
    exact mul_le_mul (add_le_add_left significand _) grid (Double.two_zpow_pos _).le (by positivity)
  have significand : d.significand ≤ Double.bound - 1 := Nat.le_sub_one_of_lt finite.significand
  have range : d.exponent ≤ (971 : Nat) := finite.exponent
  rw [ceiling_cast]
  rcases Int.lt_or_eq_of_le range with lower | top
  · apply (bounded _ significand (show d.exponent ≤ (970 : Nat) by omega)).trans
    gcongr
    norm_num [Double.bound]
  · have other : d.significand ≠ Double.bound - 1 := below.resolve_right fun no => no top
    apply (bounded (Double.bound - 2) (by omega) range).trans
    rw [pow_succ, mul_comm _ 2, ← mul_assoc]
    gcongr
    norm_num [Double.bound]

theorem modest_of_le {s : Scientific} (zero : s.digits = 0 → s.exponent = 0)
    (digits : s.digits ≤ digitLimit) (value : s.value ≤ ceiling) : Modest s := by
  have scaled (n : Nat) (exponent : s.exponent = n) : s.digits * 10 ^ n ≤ ceiling := by
    rw [Scientific.value, exponent, zpow_natCast] at value
    exact_mod_cast value
  refine ⟨zero, digits, ?_, exists_floatOf digits scaled⟩
  by_contra above
  have maxPower_eq : maxPower = 308 := rfl
  have some : 0 < s.digits := by
    by_contra none
    have := zero (Nat.eq_zero_of_not_pos none)
    omega
  obtain ⟨n, exponent⟩ := Int.eq_ofNat_of_zero_le (show 0 ≤ s.exponent by omega)
  have top : ceiling < 10 ^ (maxPower + 1) := by decide +kernel
  have power : 10 ^ (maxPower + 1) ≤ 10 ^ n := Nat.pow_le_pow_right (by decide) (by omega)
  have := (Nat.le_mul_of_pos_left (10 ^ n) some).trans (scaled n exponent)
  omega

theorem modest_largest (negative : Bool) :
    Modest (Decimal.shortest ⟨negative, Double.bound - 1, Double.greatestExponent⟩) := by
  have same : Decimal.shortest ⟨negative, Double.bound - 1, Double.greatestExponent⟩ =
      ⟨17976931348623157, 292⟩ := by
    cases negative <;> decide +kernel
  have read : ((Double.ofNat 17976931348623157).bind fun d => scaleByPower d 292) =
      some ⟨false, Double.bound - 1, Double.greatestExponent⟩ := by decide +kernel
  rw [same]
  refine ⟨nofun, by decide, by decide, ⟨false, Double.bound - 1, Double.greatestExponent⟩, ?_, ?_⟩
  · intro negative
    rw [floatOf, read]
  · exact ⟨by decide, Int.le_refl _⟩

theorem modest_shortest {d : Double} (finite : d.Finite) (nonzero : 0 < d.significand) :
    Modest (Decimal.shortest d) := by
  by_cases largest : d.significand = Double.bound - 1 ∧ d.exponent = Double.greatestExponent
  · obtain ⟨negative, significand, exponent⟩ := d
    obtain ⟨rfl, rfl⟩ := largest
    exact modest_largest negative
  · obtain ⟨zero, digits, value⟩ := Decimal.short_shortest nonzero
    exact modest_of_le zero digits
      (value.trans (half_le_ceiling finite (Decidable.not_and_iff_or_not.1 largest)))

theorem reads_zero : Reads ['0', '.', '0'] :=
  reads_point (numeral_single rfl) (List.forall_mem_singleton.2 rfl) (by decide) (by decide)
    (exists_floatOf (Nat.zero_le _) fun n same => absurd same (by simp))

theorem finite_signed {d : Double} (finite : d.Finite) (negative : Bool) :
    (signed negative d).Finite := by
  cases negative with
  | false => exact finite
  | true => exact ⟨finite.significand, finite.exponent⟩

theorem exists_readNumber_float {d : Double} (finite : d.Finite) :
    ∃ m : Double, m.Finite ∧ ∀ rest, Ends rest →
      readNumber (octets (Number.float d).text ++ rest) = .ok (.float m, rest) := by
  have reads : Reads (if d.isZero then ['0', '.', '0']
      else floatFormat.digitsText (Decimal.shortest d)) := by
    split_ifs with zero
    · exact reads_zero
    · apply (modest_shortest finite _).reads_digitsText
      exact Nat.pos_of_ne_zero fun none => zero (decide_eq_true none)
  obtain ⟨ds, cs, text, numeral, m, magnitude, read⟩ := reads
  refine ⟨signed d.negative m, finite_signed magnitude d.negative, ?_⟩
  intro rest ends
  have read := read d.negative rest ends
  rw [text] at read
  rw [Number.text, Decimal.Format.text, text, readNumber_signed numeral, read]

/-- The number that the text of a number denotes. Of a float the last bits may be others. -/
def Number.reread (n : Number) : Number :=
  match readNumber (octets n.text) with
  | .ok (m, _) => m
  | .error _ => n

theorem readNumber_text {n : Number} (valid : n.Valid) {rest : Bytes} (ends : Ends rest) :
    readNumber (octets n.text ++ rest) = .ok (n.reread, rest) := by
  obtain ⟨m, read⟩ : ∃ m, ∀ rest, Ends rest →
      readNumber (octets n.text ++ rest) = .ok (m, rest) := by
    cases n with
    | int n => exact ⟨.int n, fun rest => readNumber_int valid⟩
    | float d =>
      obtain ⟨m, -, read⟩ := exists_readNumber_float valid
      exact ⟨.float m, read⟩
  have alone := read [] nofun
  rw [List.append_nil] at alone
  rw [read rest ends, Number.reread, alone]

end RoundTrip.Json
