import RoundTrip.Proofs.Json.Scale
import RoundTrip.Proofs.Result
import RoundTrip.Proofs.Text.Digits
import RoundTrip.Proofs.Text.Octets

namespace RoundTrip.Json

open Text (decimal)
open Text.Utf8

theorem decimal_cons (c : Char) (cs : List Char) :
    decimal (c :: cs) = (c.toNat - '0'.toNat) * 10 ^ cs.length + decimal cs := by
  have head : decimal [c] = c.toNat - '0'.toNat := Nat.zero_add _
  rw [← List.singleton_append, Text.decimal_append, head]

theorem octets_digit {c : Char} (digit : c.isDigit = true) (cs : List Char) :
    ∃ b, octets (c :: cs) = b :: octets cs ∧ isDigit b = true ∧
      digitValue b = c.toNat - '0'.toNat := by
  obtain ⟨low, high⟩ := Char.isDigit_iff_toNat.1 digit
  have low : 0x30 ≤ c.toNat := low
  have high : c.toNat ≤ 0x39 := high
  have toNat : (UInt8.ofNat c.toNat).toNat = c.toNat :=
    UInt8.toNat_ofNat_of_lt' (Nat.lt_of_le_of_lt high (by decide))
  refine ⟨_, octets_cons_ascii (by omega) cs, ?_, ?_⟩
  · simp only [isDigit, UInt8.le_iff_toNat_le, toNat, Bool.and_eq_true, decide_eq_true_eq]
    exact ⟨low, high⟩
  · rw [digitValue, toNat]
    rfl

theorem gather_digits {ds : List Char} (digits : ∀ c ∈ ds, c.isDigit = true) {significand : Nat}
    (fits : significand * 10 ^ ds.length + decimal ds < significandBound) (count : Nat)
    {rest : Bytes} (stop : startsWithDigit rest = false) :
    gather significand count (octets ds ++ rest) =
      (significand * 10 ^ ds.length + decimal ds, count + ds.length, rest) := by
  induction ds generalizing significand count with
  | nil =>
    have same : significand * 10 ^ 0 + decimal [] = significand := by simp [decimal]
    rw [List.length_nil, same, octets_nil, List.nil_append]
    cases rest with
    | nil => rfl
    | cons b rest =>
      have stop : isDigit b = false := stop
      simp [gather, stop]
  | cons c cs ih =>
    obtain ⟨first, others⟩ := List.forall_mem_cons.1 digits
    obtain ⟨b, written, digit, value⟩ := octets_digit first cs
    have split : significand * 10 ^ (c :: cs).length + decimal (c :: cs) =
        (significand * 10 + digitValue b) * 10 ^ cs.length + decimal cs := by
      rw [decimal_cons, value, List.length_cons, Nat.pow_succ]
      ring
    rw [split] at fits ⊢
    have bounded : significand * 10 + digitValue b < significandBound := by
      apply Nat.lt_of_le_of_lt _ fits
      exact (Nat.le_mul_of_pos_right _ (Nat.pow_pos (by decide))).trans (Nat.le_add_right _ _)
    rw [written, List.cons_append, gather, if_pos ⟨digit, bounded⟩, ih others fits,
      List.length_cons, Nat.add_right_comm, Nat.add_assoc]

/-- Digits as an integer part has them: no zero leads, unless it is alone. -/
structure Numeral (ds : List Char) : Prop where
  digits : ∀ c ∈ ds, c.isDigit = true
  leading : ∃ c cs, ds = c :: cs ∧ (c = '0' → cs = [])

theorem toDigits_leading {n : Nat} (positive : 0 < n) :
    ∃ c cs, Nat.toDigits 10 n = c :: cs ∧ c ≠ '0' := by
  induction n using Nat.strongRecOn with
  | ind n ih =>
    rw [Nat.toDigits_eq_if (by decide)]
    split
    next small =>
      refine ⟨n.digitChar, [], rfl, ?_⟩
      have nonzero : ∀ n < 10, 0 < n → n.digitChar ≠ '0' := by decide
      exact nonzero n small positive
    next large =>
      obtain ⟨c, cs, starts, nonzero⟩ := ih (n / 10) (by omega) (by omega)
      rw [starts]
      exact ⟨c, cs ++ [(n % 10).digitChar], rfl, nonzero⟩

theorem numeral_toDigits (n : Nat) : Numeral (Nat.toDigits 10 n) := by
  refine ⟨fun c => Text.isDigit_of_mem_toDigits, ?_⟩
  rcases Nat.eq_zero_or_pos n with rfl | positive
  · exact ⟨'0', [], rfl, fun _ => rfl⟩
  · obtain ⟨c, cs, starts, nonzero⟩ := toDigits_leading positive
    exact ⟨c, cs, starts, fun zero => absurd zero nonzero⟩

theorem readMagnitude_numeral {ds : List Char} (numeral : Numeral ds)
    (fits : decimal ds < significandBound) {rest : Bytes} (stop : startsWithDigit rest = false)
    (negative : Bool) :
    readMagnitude negative (octets ds ++ rest) = readRest negative (decimal ds) none rest := by
  obtain ⟨digits, c, cs, rfl, alone⟩ := numeral
  obtain ⟨first, others⟩ := List.forall_mem_cons.1 digits
  obtain ⟨b, written, digit, value⟩ := octets_digit first cs
  rw [decimal_cons, ← value] at fits ⊢
  rw [written, List.cons_append, readMagnitude]
  by_cases zero : b = 0x30
  · have isZero : c = '0' := by
      rw [zero] at value
      have low := (Char.isDigit_iff_toNat.1 first).1
      have low : 0x30 ≤ c.toNat := low
      have none : digitValue 0x30 = 0 := rfl
      have char : '0'.toNat = 0x30 := rfl
      apply Char.toNat_inj.1
      omega
    rw [alone isZero] at *
    simp [zero, stop, digitValue, decimal]
  · have gathered := gather_digits others fits 0 stop
    simp [zero, digit, gathered, stop]

/-- What may follow a number: nothing that reads on as part of it. -/
def Ends (rest : Bytes) : Prop :=
  ∀ b ∈ rest.head?, isDigit b = false ∧ b ≠ 0x2E ∧ b ≠ 0x65 ∧ b ≠ 0x45

theorem Ends.nil : Ends [] := nofun

theorem Ends.stop {rest : Bytes} (h : Ends rest) : startsWithDigit rest = false := by
  cases rest with
  | nil => rfl
  | cons b rest => exact (h b rfl).1

theorem readRest_ends {rest : Bytes} (h : Ends rest) (negative : Bool) (significand : Nat) :
    readRest negative significand none rest =
      (integerOf negative significand).map fun n => (n, rest) := by
  cases rest with
  | nil => rfl
  | cons b rest =>
    obtain ⟨-, noPoint, noExponent, noCapital⟩ := h b rfl
    simp [readRest, noExponent, noCapital]

theorem readScale_ends {rest : Bytes} (h : Ends rest) (negative : Bool) (significand : Nat)
    (shift : Int) :
    readScale negative significand shift rest =
      (floatOf negative significand shift).map fun n => (n, rest) := by
  cases rest with
  | nil => rfl
  | cons b rest =>
    obtain ⟨-, -, noExponent, noCapital⟩ := h b rfl
    simp [readScale, noExponent, noCapital]

theorem readFraction_digits {fs : List Char} (digits : ∀ c ∈ fs, c.isDigit = true)
    (some : fs ≠ []) {significand : Nat}
    (fits : significand * 10 ^ fs.length + decimal fs < significandBound) {rest : Bytes}
    (stop : startsWithDigit rest = false) (negative : Bool) :
    readFraction negative significand 0 (octets fs ++ rest) =
      readScale negative (significand * 10 ^ fs.length + decimal fs) (-(fs.length : Int)) rest := by
  have gathered := gather_digits digits fits 0 stop
  have count : fs.length ≠ 0 := fun none => some (List.length_eq_zero_iff.1 none)
  simp [readFraction, gathered, stop, count]

theorem foldl_digits {ds : List Char} (digits : ∀ c ∈ ds, c.isDigit = true) (n : Nat) :
    (octets ds).foldl (fun n b => n * 10 + digitValue b) n = n * 10 ^ ds.length + decimal ds := by
  induction ds generalizing n with
  | nil => simp [decimal]
  | cons c cs ih =>
    obtain ⟨first, others⟩ := List.forall_mem_cons.1 digits
    obtain ⟨b, written, -, value⟩ := octets_digit first cs
    rw [written, List.foldl_cons, ih others, decimal_cons, value, List.length_cons, Nat.pow_succ]
    ring

theorem isDigit_of_mem_octets {ds : List Char} (digits : ∀ c ∈ ds, c.isDigit = true) :
    ∀ b ∈ octets ds, isDigit b = true := by
  induction ds with
  | nil => nofun
  | cons c cs ih =>
    obtain ⟨first, others⟩ := List.forall_mem_cons.1 digits
    obtain ⟨b, written, digit, -⟩ := octets_digit first cs
    rw [written]
    exact List.forall_mem_cons.2 ⟨digit, ih others⟩

theorem readExponent_digits {n : Nat} {rest : Bytes} (stop : startsWithDigit rest = false)
    (negative : Bool) (significand : Nat) (shift : Int) (down : Bool) :
    readExponent negative significand shift
        ((if down then 0x2D else 0x2B) :: (octets (Nat.toDigits 10 n) ++ rest)) =
      if exponentLimit < n then
        if significand ≠ 0 ∧ !down then .error .numberOutOfRange
        else .ok (.float (signed negative .zero), rest)
      else (floatOf negative significand (if down then shift - n else shift + n)).map
        fun m => (m, rest) := by
  have digits := (numeral_toDigits n).digits
  have isDigit := isDigit_of_mem_octets digits
  have stops : ∀ b ∈ rest.head?, Json.isDigit b = false := by
    cases rest with
    | nil => nofun
    | cons b rest =>
      rintro _ ⟨⟩
      exact stop
  obtain ⟨taken, left⟩ := Text.span_append isDigit stops
  have left : dropDigits (octets (Nat.toDigits 10 n) ++ rest) = rest := left
  have value : (octets (Nat.toDigits 10 n)).foldl (fun n b => n * 10 + digitValue b) 0 = n := by
    rw [foldl_digits digits, Nat.zero_mul, Nat.zero_add, Text.decimal_toDigits]
  obtain ⟨c, cs, starts, -⟩ := (numeral_toDigits n).leading
  obtain ⟨b, written, digit, -⟩ := octets_digit (digits c (starts ▸ List.mem_cons_self)) cs
  rw [← starts] at written
  rw [written, List.cons_append] at taken left
  rw [written] at value
  have first : Json.isDigit b = true := digit
  rw [written, List.cons_append]
  cases down <;> simp [readExponent, first, taken, left, value]

def Number.Valid : Number → Prop
  | .int n => -2 ^ 63 ≤ n ∧ n < 2 ^ 64
  | .float d => d.Finite

theorem readNumber_digit {b : UInt8} (digit : isDigit b = true) (bytes : Bytes) :
    readNumber (b :: bytes) = readMagnitude false (b :: bytes) := by
  have unsigned : b ≠ 0x2D := by
    rintro rfl
    exact absurd digit (by decide)
  rw [readNumber]
  intro rest starts
  exact absurd (List.cons.inj starts).1 unsigned

theorem readNumber_signed {ds : List Char} (numeral : Numeral ds) (negative : Bool)
    (cs : List Char) (rest : Bytes) :
    readNumber (octets ((if negative then ['-'] else []) ++ (ds ++ cs)) ++ rest) =
      readMagnitude negative (octets (ds ++ cs) ++ rest) := by
  cases negative with
  | true =>
    rw [if_pos rfl, List.singleton_append, octets_cons_ascii (by decide)]
    rfl
  | false =>
    obtain ⟨digits, d, ds, rfl, -⟩ := numeral
    obtain ⟨b, written, digit, -⟩ := octets_digit (digits d List.mem_cons_self) (ds ++ cs)
    simp only [Bool.false_eq_true, if_false, List.nil_append, List.cons_append, written]
    exact readNumber_digit digit _

theorem readNumber_int {n : Int} (valid : (Number.int n).Valid) {rest : Bytes}
    (ends : Ends rest) :
    readNumber (octets (Number.int n).text ++ rest) = .ok (.int n, rest) := by
  obtain ⟨low, high⟩ := valid
  have numeral := numeral_toDigits n.natAbs
  have fits : decimal (Nat.toDigits 10 n.natAbs) < significandBound := by
    rw [Text.decimal_toDigits, significandBound, Nat.pow_eq]
    omega
  have signed := readNumber_signed numeral (decide (n < 0)) [] rest
  rw [List.append_nil] at signed
  simp only [decide_eq_true_eq] at signed
  rw [Number.text, intText, signed, readMagnitude_numeral numeral fits ends.stop,
    Text.decimal_toDigits, readRest_ends ends]
  have read : integerOf (decide (n < 0)) n.natAbs = .ok (.int n) := by
    by_cases negative : n < 0
    · have fits : ¬ (n.natAbs = 0 ∨ Nat.pow 2 63 < n.natAbs) := by
        rw [Nat.pow_eq]
        omega
      have same : -(n.natAbs : Int) = n := by omega
      rw [decide_eq_true negative, integerOf, if_neg (by decide), if_neg fits, same]
    · have same : (n.natAbs : Int) = n := by omega
      rw [decide_eq_false negative, integerOf, if_pos (by decide), same]
  rw [read]
  rfl

end RoundTrip.Json
