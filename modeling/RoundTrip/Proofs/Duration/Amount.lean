import Mathlib.Algebra.Order.Floor.Semifield
import Mathlib.Data.Rat.Floor
import Mathlib.Tactic.SplitIfs
import RoundTrip.Duration.Grammar
import RoundTrip.Proofs.Text.Digits

/-!
Amounts: the components that the grammar of durations has, with the nanoseconds that they stand for
and those that are counted for them. An amount is read off the text that it is spelled by.
-/

namespace RoundTrip.Duration

open Text (decimal)

def units : List (String × Nat) :=
  [("ns", 1), ("us", 10 ^ 3), ("\u00b5s", 10 ^ 3), ("\u03bcs", 10 ^ 3), ("ms", 10 ^ 6),
    ("s", 10 ^ 9), ("m", 60 * 10 ^ 9), ("h", 3600 * 10 ^ 9)]

theorem unitScale_eq_some_iff {unit : String} {scale : Nat} :
    unitScale unit = some scale ↔ (unit, scale) ∈ units := by
  constructor
  · intro h
    rw [unitScale] at h
    split_ifs at h with ns us ms s m hour
    all_goals cases h
    case pos => subst ns; decide
    case pos => rcases us with rfl | rfl | rfl <;> decide
    case pos => subst ms; decide
    case pos => subst s; decide
    case pos => subst m; decide
    case pos => subst hour; decide
  · simp only [units, List.mem_cons, Prod.mk.injEq, List.not_mem_nil, or_false]
    rintro (⟨rfl, rfl⟩ | ⟨rfl, rfl⟩ | ⟨rfl, rfl⟩ | ⟨rfl, rfl⟩ | ⟨rfl, rfl⟩ | ⟨rfl, rfl⟩ |
      ⟨rfl, rfl⟩ | ⟨rfl, rfl⟩) <;> rfl

/-- Digits, maybe a point with more digits, at least one digit in all, and a unit. -/
structure Amount where
  whole : List Char
  fraction : Option (List Char)
  unit : String
  scale : Nat
  isDigit : ∀ c ∈ whole ++ fraction.getD [], c.isDigit = true
  some_digit : whole ++ fraction.getD [] ≠ []
  known : (unit, scale) ∈ units

def portion (digits : List Char) : ℚ := decimal digits / 10 ^ digits.length

theorem floor_portion (digits : List Char) (scale : Nat) :
    ⌊portion digits * scale⌋₊ = decimal digits * scale / 10 ^ digits.length := by
  have same : portion digits * scale =
      ((decimal digits * scale : Nat) : ℚ) / ((10 ^ digits.length : Nat) : ℚ) := by
    rw [portion, div_mul_eq_mul_div]
    push_cast
    rfl
  rw [same, Nat.floor_div_eq_div]

namespace Amount

def text (a : Amount) : List Char :=
  a.whole ++ (a.fraction.elim [] ('.' :: ·) ++ a.unit.toList)

def digits (a : Amount) : List Char := a.fraction.getD []

def component (a : Amount) : Component := ⟨a.whole, a.digits, a.unit.toList⟩

def wholeNanos (a : Amount) : Nat := decimal a.whole * a.scale

def cut (a : Amount) : List Char := a.digits.take fractionDigits

def nanos (a : Amount) : Nat := a.wholeNanos + ⌊portion a.cut * a.scale⌋₊

/-- An intermediate result that is not checked does not fit. -/
def Overflows (a : Amount) : Prop :=
  a.wholeNanos < componentBound ∧
    (componentBound ≤ 10 ^ a.cut.length ∨ componentBound ≤ decimal a.cut * a.scale ∨
      componentBound ≤ a.nanos)

variable (a : Amount)

theorem unit_spec : a.unit.toList ≠ [] ∧ (∀ c ∈ a.unit.toList, isUnitChar c = true) ∧
    0 < a.scale ∧ a.scale ≤ 3600 * 10 ^ 9 := by
  have every : ∀ u ∈ units, u.1.toList ≠ [] ∧ u.1.toList.all isUnitChar = true ∧
      0 < u.2 ∧ u.2 ≤ 3600 * 10 ^ 9 := by decide
  obtain ⟨nonempty, unit, scale⟩ := every _ a.known
  exact ⟨nonempty, List.all_eq_true.1 unit, scale⟩

theorem whole_isDigit : ∀ c ∈ a.whole, c.isDigit = true :=
  fun c hc => a.isDigit c (List.mem_append_left _ hc)

theorem digits_isDigit : ∀ c ∈ a.digits, c.isDigit = true :=
  fun c hc => a.isDigit c (List.mem_append_right _ hc)

theorem cut_isDigit : ∀ c ∈ a.cut, c.isDigit = true :=
  fun c hc => a.digits_isDigit c (List.mem_of_mem_take hc)

theorem fractionNanos_digits : fractionNanos a.digits a.scale = ⌊portion a.cut * a.scale⌋₊ := by
  rw [floor_portion]
  rfl

theorem component_nanos : a.component.nanos =
    if componentBound ≤ a.wholeNanos then .error .outOfRange
    else if componentBound ≤ a.nanos then .error .overflow
    else .ok a.nanos := by
  obtain ⟨unit, -, scale, -⟩ := a.unit_spec
  have named : ¬ (a.component.whole.isEmpty = true ∧ a.component.fraction.isEmpty = true) := by
    rintro ⟨whole, fraction⟩
    apply a.some_digit
    rw [List.append_eq_nil_iff]
    exact ⟨List.isEmpty_iff.1 whole, List.isEmpty_iff.1 fraction⟩
  have measured : ¬ a.component.unit.isEmpty = true := fun empty => unit (List.isEmpty_iff.1 empty)
  have known : unitScale (String.ofList a.component.unit) = some a.scale := by
    rw [component, String.ofList_toList]
    exact unitScale_eq_some_iff.2 a.known
  have whole : (componentBound ≤ decimal a.whole ∨ componentBound ≤ decimal a.whole * a.scale) ↔
      componentBound ≤ a.wholeNanos :=
    or_iff_right_of_imp fun large => large.trans (Nat.le_mul_of_pos_right _ scale)
  rw [Component.nanos, if_neg named, if_neg measured, known]
  simp only [component, fractionNanos_digits, whole]
  rfl

theorem cut_length : a.cut.length ≤ fractionDigits := List.length_take_le _ _

theorem cut_fits : 10 ^ a.cut.length < componentBound ∧
    decimal a.cut * a.scale < componentBound := by
  obtain ⟨-, -, -, scale⟩ := a.unit_spec
  have power : 10 ^ a.cut.length ≤ 10 ^ 18 := Nat.pow_le_pow_right (by decide) a.cut_length
  constructor
  · exact power.trans_lt (by decide)
  · calc decimal a.cut * a.scale
        ≤ 10 ^ 18 * (3600 * 10 ^ 9) :=
          Nat.mul_le_mul ((Text.decimal_lt a.cut_isDigit).le.trans power) scale
      _ < componentBound := by decide

/-- Only the sum of the whole part and the fraction may not fit. -/
theorem overflows_iff :
    a.Overflows ↔ a.wholeNanos < componentBound ∧ componentBound ≤ a.nanos := by
  obtain ⟨power, product⟩ := a.cut_fits
  rw [Overflows, or_iff_right power.not_ge, or_iff_right product.not_ge]

theorem wholeNanos_le : a.wholeNanos ≤ a.nanos := Nat.le_add_right _ _

variable {a}

theorem text_ne_nil : a.text ≠ [] := by
  intro empty
  obtain ⟨-, rest⟩ := List.append_eq_nil_iff.1 empty
  exact a.unit_spec.1 (List.append_eq_nil_iff.1 rest).2

end Amount

def Opens (cs : List Char) : Prop := ∀ c ∈ cs.head?, isUnitChar c = false

namespace Amount

variable {a : Amount}

theorem isUnitChar_of_isDigit {c : Char} (digit : c.isDigit = true) : isUnitChar c = false := by
  simp [isUnitChar, digit]

theorem not_isDigit_of_isUnitChar {c : Char} (unit : isUnitChar c = true) :
    c.isDigit = false ∧ c ≠ '.' := by
  simpa [isUnitChar] using unit

theorem opens_text (rest : List Char) : Opens (a.text ++ rest) := by
  intro c first
  rw [text] at first
  cases whole : a.whole with
  | cons d ds =>
    rw [whole] at first
    cases first
    exact isUnitChar_of_isDigit (a.whole_isDigit c (whole ▸ List.mem_cons_self))
  | nil =>
    cases fraction : a.fraction with
    | some ds =>
      rw [whole, fraction] at first
      cases first
      rfl
    | none =>
      have no_digit := a.some_digit
      rw [whole, fraction] at no_digit
      exact absurd rfl no_digit

theorem span_whole {rest : List Char} (stop : ∀ c ∈ rest.head?, c.isDigit = false) :
    (a.whole ++ rest).takeWhile Char.isDigit = a.whole ∧
      (a.whole ++ rest).dropWhile Char.isDigit = rest :=
  Text.span_append a.whole_isDigit stop

theorem unit_opens (rest : List Char) :
    ∀ c ∈ (a.unit.toList ++ rest).head?, c.isDigit = false ∧ c ≠ '.' := by
  obtain ⟨nonempty, unit, -, -⟩ := a.unit_spec
  obtain ⟨d, ds, starts⟩ := List.exists_cons_of_ne_nil nonempty
  rw [starts] at unit ⊢
  rintro c ⟨⟩
  exact not_isDigit_of_isUnitChar (unit d List.mem_cons_self)

theorem take_text {rest : List Char} (opens : Opens rest) :
    Component.take (a.text ++ rest) = (a.component, rest) := by
  obtain ⟨unit, left⟩ := Text.span_append a.unit_spec.2.1 opens
  have stop := a.unit_opens rest
  cases fraction : a.fraction with
  | none =>
    obtain ⟨taken, after⟩ := a.span_whole fun c hc => (stop c hc).1
    have written : a.text ++ rest = a.whole ++ (a.unit.toList ++ rest) := by
      rw [text, fraction, List.append_assoc]
      rfl
    rw [written, Component.take, taken, after]
    split
    next pointed =>
      rw [pointed] at stop
      exact absurd rfl (stop '.' rfl).2
    next =>
      rw [unit, left, component, digits, fraction]
      rfl
  | some ds =>
    have digits : a.digits = ds := by
      rw [Amount.digits, fraction]
      rfl
    have point : ∀ c ∈ ('.' :: (ds ++ (a.unit.toList ++ rest))).head?, c.isDigit = false := by
      rintro c ⟨⟩
      rfl
    obtain ⟨taken, after⟩ := a.span_whole point
    obtain ⟨read, behind⟩ := Text.span_append a.digits_isDigit fun c hc => (stop c hc).1
    have written : a.text ++ rest = a.whole ++ '.' :: (ds ++ (a.unit.toList ++ rest)) := by
      simp [text, fraction]
    rw [digits] at read behind
    rw [written, Component.take, taken, after]
    simp only [read, behind, unit, left, component, digits]

theorem take_spec {cs rest : List Char} {c : Component} (taken : Component.take cs = (c, rest)) :
    ∃ point : Option (List Char), c.fraction = point.getD [] ∧
      cs = (c.whole ++ (point.elim [] ('.' :: ·) ++ c.unit)) ++ rest ∧
        ∀ d ∈ c.whole ++ point.getD [], d.isDigit = true := by
  have whole : cs.takeWhile Char.isDigit ++ cs.dropWhile Char.isDigit = cs :=
    List.takeWhile_append_dropWhile
  rw [Component.take] at taken
  split at taken
  next after pointed =>
    cases taken
    refine ⟨some (after.takeWhile Char.isDigit), rfl, ?_, ?_⟩
    · have fraction : after.takeWhile Char.isDigit ++ after.dropWhile Char.isDigit = after :=
        List.takeWhile_append_dropWhile
      have unit := List.takeWhile_append_dropWhile (p := isUnitChar)
        (l := after.dropWhile Char.isDigit)
      nth_rewrite 1 [← whole, pointed, ← fraction, ← unit]
      simp
    · intro d hd
      exact (List.mem_append.1 hd).elim Text.isDigit_of_mem_takeWhile Text.isDigit_of_mem_takeWhile
  next =>
    cases taken
    refine ⟨none, rfl, ?_, ?_⟩
    · have unit := List.takeWhile_append_dropWhile (p := isUnitChar)
        (l := cs.dropWhile Char.isDigit)
      nth_rewrite 1 [← whole, ← unit]
      simp
    · intro d hd
      exact Text.isDigit_of_mem_takeWhile (List.append_nil _ ▸ hd)

theorem exists_amount {cs rest : List Char} {c : Component}
    (taken : Component.take cs = (c, rest))
    (counts : c.nanos = .error .overflow ∨ ∃ n, c.nanos = .ok n) :
    ∃ a : Amount, cs = a.text ++ rest := by
  obtain ⟨point, fraction, split, isDigit⟩ := take_spec taken
  have known : ∃ scale, ¬ (c.whole.isEmpty = true ∧ c.fraction.isEmpty = true) ∧
      unitScale (String.ofList c.unit) = some scale := by
    rw [Component.nanos] at counts
    split_ifs at counts with unnamed unmeasured
    · rcases counts with ⟨⟨⟩⟩ | ⟨n, ⟨⟩⟩
    · rcases counts with ⟨⟨⟩⟩ | ⟨n, ⟨⟩⟩
    · split at counts
      · rcases counts with ⟨⟨⟩⟩ | ⟨n, ⟨⟩⟩
      next scale known => exact ⟨scale, unnamed, known⟩
  obtain ⟨scale, unnamed, known⟩ := known
  have some_digit : c.whole ++ point.getD [] ≠ [] := by
    rw [← fraction]
    intro empty
    obtain ⟨noWhole, noFraction⟩ := List.append_eq_nil_iff.1 empty
    exact unnamed ⟨List.isEmpty_iff.2 noWhole, List.isEmpty_iff.2 noFraction⟩
  refine ⟨⟨c.whole, point, String.ofList c.unit, scale, isDigit, some_digit,
    unitScale_eq_some_iff.1 known⟩, ?_⟩
  rw [text, String.toList_ofList]
  exact split

theorem opens_take {cs rest : List Char} {c : Component} (taken : Component.take cs = (c, rest)) :
    Opens rest := by
  have stops (ds : List Char) : Opens (ds.dropWhile isUnitChar) := by
    intro d first
    have stop := List.head?_dropWhile_not isUnitChar ds
    rwa [Option.mem_def.1 first] at stop
  rw [Component.take] at taken
  split at taken
  all_goals
    cases taken
    exact stops _

end Amount

end RoundTrip.Duration
