/-!
Finite binary64 numbers in exact arithmetic: a sign, a significand below 2^53 and a power of two.
Every operation is the exact result rounded to the nearest number, a tie to the even significand;
`none` stands for a result beyond the largest finite number.
-/

namespace RoundTrip

/-- The number `± significand · 2^exponent`. -/
structure Double where
  negative : Bool
  significand : Nat
  exponent : Int
  deriving DecidableEq, Repr

namespace Double

def bound : Nat := Nat.pow 2 53

def leastExponent : Int := -1074

def greatestExponent : Int := 971

def zero : Double := ⟨false, 0, leastExponent⟩

def isZero (d : Double) : Bool := d.significand = 0

def neg (d : Double) : Double := { d with negative := !d.negative }

def scaled (num den : Nat) : Int → Nat × Nat
  | .ofNat e => (num, den * Nat.pow 2 e)
  | .negSucc e => (num * Nat.pow 2 (e + 1), den)

def nearest (num den : Nat) : Nat :=
  let q := num / den
  let twice := 2 * (num % den)
  if twice < den then q
  else if twice = den then q + q % 2
  else q + 1

/-- The exponent at which `num / den` has a significand of 53 bits, if it is not too small for
that. -/
def exponentOf (num den : Nat) : Int :=
  let e : Int := max ((num.log2 : Int) - den.log2 - 53) leastExponent
  let (n, d) := scaled num den e
  if n / d < bound then e else e + 1

def ofRatio (num den : Nat) : Option Double :=
  if num = 0 then some zero
  else
    let e := exponentOf num den
    let (n, d) := scaled num den e
    let s := nearest n d
    let (s, e) := if s = bound then (s / 2, e + 1) else (s, e)
    if greatestExponent < e then none else some ⟨false, s, e⟩

def ofNat (n : Nat) : Option Double := ofRatio n 1

def powTen (n : Nat) : Option Double := ofNat (Nat.pow 10 n)

def ratio (d : Double) : Nat × Nat :=
  match d.exponent with
  | .ofNat e => (d.significand * Nat.pow 2 e, 1)
  | .negSucc e => (d.significand, Nat.pow 2 (e + 1))

def mul (a b : Double) : Option Double :=
  ofRatio (a.ratio.1 * b.ratio.1) (a.ratio.2 * b.ratio.2)

def div (a b : Double) : Option Double :=
  ofRatio (a.ratio.1 * b.ratio.2) (a.ratio.2 * b.ratio.1)

end Double

end RoundTrip
