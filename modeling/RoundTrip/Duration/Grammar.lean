import RoundTrip.Duration.Basic
import RoundTrip.Text.Basic

/-!
The duration grammar of probe extensions and flags: an optional sign, then either a bare `0` or one
or more components, each a decimal number with an optional fraction and a unit (`1m30s`, `1.5h`,
`.5s`).

A component is counted in 128 bits and its fraction by the first 18 digits. The sum of the
components has to fit in 63 bits. Nobody checks that a whole part and its fraction fit in 128 bits
together: there the addition panics.
-/

namespace RoundTrip.Duration

inductive Fault
  | empty
  | noNumber
  | noUnit
  | unknownUnit (unit : String)
  | outOfRange
  | negative
  /-- No answer but a panic. -/
  | overflow
  deriving DecidableEq, Repr

def Fault.message : Fault → String
  | .empty => "empty duration"
  | .noNumber => "expected a number"
  | .noUnit => "missing unit"
  | .unknownUnit unit => "unknown unit '" ++ unit ++ "'"
  | .outOfRange => "value out of range"
  | .negative => "duration must not be negative"
  | .overflow => "attempt to add with overflow"

/-- Nanoseconds in one of a unit. Both the micro sign and the Greek mu spell microseconds. -/
def unitScale (unit : String) : Option Duration :=
  if unit = "ns" then some 1
  else if unit = "us" ∨ unit = "\u00b5s" ∨ unit = "\u03bcs" then some microsecond
  else if unit = "ms" then some millisecond
  else if unit = "s" then some second
  else if unit = "m" then some minute
  else if unit = "h" then some hour
  else none

/-- Fraction digits that are read; those after them are skipped. -/
def fractionDigits : Nat := 18

def limit : Nat := Nat.pow 2 63 - 1

def componentBound : Nat := Nat.pow 2 128

structure Component where
  whole : List Char
  fraction : List Char
  unit : List Char
  deriving DecidableEq, Repr

def isUnitChar (c : Char) : Bool := !c.isDigit && c ≠ '.'

/-- Splits the leading component off: digits, then a point with digits, then everything up to the
next digit or point. -/
def Component.take (cs : List Char) : Component × List Char :=
  let whole := cs.takeWhile Char.isDigit
  match cs.dropWhile Char.isDigit with
  | '.' :: rest =>
    let after := rest.dropWhile Char.isDigit
    (⟨whole, rest.takeWhile Char.isDigit, after.takeWhile isUnitChar⟩, after.dropWhile isUnitChar)
  | rest => (⟨whole, [], rest.takeWhile isUnitChar⟩, rest.dropWhile isUnitChar)

def fractionNanos (fraction : List Char) (scale : Nat) : Nat :=
  let digits := fraction.take fractionDigits
  Text.decimal digits * scale / Nat.pow 10 digits.length

def Component.nanos (c : Component) : Except Fault Nat :=
  if c.whole.isEmpty ∧ c.fraction.isEmpty then .error .noNumber
  else if c.unit.isEmpty then .error .noUnit
  else
    match unitScale (String.ofList c.unit) with
    | none => .error (.unknownUnit (String.ofList c.unit))
    | some scale =>
      let whole := Text.decimal c.whole
      let nanos := whole * scale + fractionNanos c.fraction scale
      if componentBound ≤ whole ∨ componentBound ≤ whole * scale then .error .outOfRange
      else if componentBound ≤ nanos then .error .overflow
      else .ok nanos

/-- Adds up components until the text ends; each takes at least one character, so the length of the
text bounds their number. -/
def sum : Nat → Nat → List Char → Except Fault Nat
  | _, total, [] => .ok total
  | 0, total, _ => .ok total
  | fuel + 1, total, cs =>
    match (Component.take cs).1.nanos with
    | .error fault => .error fault
    | .ok nanos =>
      if limit < total + nanos then .error .outOfRange
      else sum fuel (total + nanos) (Component.take cs).2

def magnitude (cs : List Char) : Except Fault Nat :=
  if cs = ['0'] then .ok 0
  else if cs.isEmpty then .error .empty
  else sum cs.length 0 cs

def parseSigned (text : String) : Except Fault Int :=
  match text.toList with
  | '-' :: cs => (magnitude cs).map fun n => -(n : Int)
  | '+' :: cs => (magnitude cs).map fun n => (n : Int)
  | cs => (magnitude cs).map fun n => (n : Int)

/-- Reads a duration that is not negative; a negated zero is zero. -/
def parse (text : String) : Except Fault Duration :=
  match parseSigned text with
  | .error fault => .error fault
  | .ok n => if n < 0 then .error .negative else .ok n.toNat

end RoundTrip.Duration
