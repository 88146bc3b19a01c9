import RoundTrip.Decimal.Double

/-!
The shortest decimal of a binary64 number: the fewest digits that read back as the same number, and
of those the digits nearest to it.

A number stands for the interval of reals that round to it, whose ends belong to it when its
significand is even. If a decimal grid has a point in that interval, then one of the two grid points
next to the number itself lies in it, so only those two are looked at for each count of digits.
-/

namespace RoundTrip.Decimal

structure Scientific where
  digits : Nat
  exponent : Int
  deriving DecidableEq, Repr

/-- The reals between `low / den` and `high / den`, with the number itself at `value / den`. -/
structure Interval where
  low : Nat
  value : Nat
  high : Nat
  den : Nat
  closed : Bool

/-- The reals that round to a number. Below a power of two the next number is half as far. -/
def Interval.ofDouble (d : Double) : Interval :=
  let below := if d.significand = Nat.pow 2 52 ∧ Double.leastExponent < d.exponent then 1 else 2
  let (num, den) := Double.ratio ⟨false, 1, d.exponent - 2⟩
  { low := (4 * d.significand - below) * num
    value := 4 * d.significand * num
    high := (4 * d.significand + 2) * num
    den := den
    closed := d.significand % 2 = 0 }

def digitCount (n : Nat) : Nat := (Nat.toDigits 10 n).length

def magnitude (num den : Nat) : Int :=
  if den ≤ num then (digitCount (num / den) : Int) - 1
  else
    let n := digitCount (den / num)
    if den ≤ num * Nat.pow 10 (n - 1) then 1 - (n : Int) else -(n : Int)

def power : Int → Nat × Nat
  | .ofNat e => (Nat.pow 10 e, 1)
  | .negSucc e => (1, Nat.pow 10 (e + 1))

def Interval.holds (i : Interval) (p : Nat × Nat) (n : Nat) : Bool :=
  let x := n * p.1 * i.den
  if i.closed then i.low * p.2 ≤ x ∧ x ≤ i.high * p.2 else i.low * p.2 < x ∧ x < i.high * p.2

/-- The grid point in the interval that is nearest to the number; a tie goes to the even one. -/
def Interval.nearest? (i : Interval) (p : Nat × Nat) : Option Nat :=
  let num := i.value * p.2
  let step := i.den * p.1
  let n := num / step
  let twice := 2 * (num % step)
  let down := i.holds p n
  let up := i.holds p (n + 1)
  if down && (!up || twice < step || (twice = step && n % 2 = 0)) then some n
  else if up then some (n + 1)
  else none

/-- Tries `count` digits, then one more, as long as `fuel` lasts. -/
def search (i : Interval) (lead : Int) : Nat → Nat → Scientific
  | 0, _ => ⟨0, 0⟩
  | fuel + 1, count =>
    let exponent := lead - count + 1
    match i.nearest? (power exponent) with
    | some n => ⟨n, exponent⟩
    | none => search i lead fuel (count + 1)

def maxDigits : Nat := 17

def normalize : Nat → Scientific → Scientific
  | 0, s => s
  | fuel + 1, s =>
    if s.digits ≠ 0 ∧ s.digits % 10 = 0 then normalize fuel ⟨s.digits / 10, s.exponent + 1⟩ else s

def shortest (d : Double) : Scientific :=
  let i := Interval.ofDouble d
  normalize maxDigits (search i (magnitude i.value i.den) maxDigits 1)

/-- Where the text of a number turns to an exponent: the point may stand at most `maxPoint` digits
after the first, and at most `maxZeros` zeros may stand right after it. -/
structure Format where
  maxPoint : Int
  maxZeros : Int

def zeros (n : Int) : List Char := List.replicate n.toNat '0'

def exponentText (e : Int) : List Char :=
  'e' :: (if e < 0 then '-' else '+') :: Nat.toDigits 10 e.natAbs

/-- The text of `digits · 10^exponent`; `point` counts the digits before the decimal point. -/
def Format.digitsText (f : Format) (s : Scientific) : List Char :=
  let ds := Nat.toDigits 10 s.digits
  let point := (ds.length : Int) + s.exponent
  if 0 ≤ s.exponent ∧ point ≤ f.maxPoint then ds ++ zeros s.exponent ++ ['.', '0']
  else if 0 < point ∧ point ≤ f.maxPoint then ds.take point.toNat ++ '.' :: ds.drop point.toNat
  else if -f.maxZeros ≤ point ∧ point ≤ 0 then '0' :: '.' :: (zeros (-point) ++ ds)
  else
    match ds with
    | d :: r :: rest => d :: '.' :: r :: rest ++ exponentText (point - 1)
    | _ => ds ++ exponentText (point - 1)

def Format.text (f : Format) (d : Double) : List Char :=
  (if d.negative then ['-'] else []) ++
    if d.isZero then ['0', '.', '0'] else f.digitsText (shortest d)

end RoundTrip.Decimal
