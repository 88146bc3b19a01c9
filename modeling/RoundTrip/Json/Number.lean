import RoundTrip.Json.Basic
import RoundTrip.Json.Fault

/-!
Reading JSON numbers. Digits gather in a significand of 64 bits. Integer digits beyond it count as
powers of ten and fraction digits beyond it are skipped; the significand is then rounded to binary64
and multiplied or divided by a rounded power of ten.
-/

namespace RoundTrip.Json

def isDigit (b : UInt8) : Bool := 0x30 ≤ b && b ≤ 0x39

def digitValue (b : UInt8) : Nat := b.toNat - 0x30

def startsWithDigit : Bytes → Bool
  | b :: _ => isDigit b
  | [] => false

def significandBound : Nat := Nat.pow 2 64

/-- Takes digits as long as the significand stays in bounds; returns it with the number of digits
taken and the rest. -/
def gather : Nat → Nat → Bytes → Nat × Nat × Bytes
  | significand, count, [] => (significand, count, [])
  | significand, count, b :: rest =>
    if isDigit b ∧ significand * 10 + digitValue b < significandBound then
      gather (significand * 10 + digitValue b) (count + 1) rest
    else (significand, count, b :: rest)

def countDigits (bytes : Bytes) : Nat := (bytes.takeWhile isDigit).length

def dropDigits (bytes : Bytes) : Bytes := bytes.dropWhile isDigit

def maxPower : Nat := 308

def divideByPower : Nat → Double → Nat → Option Double
  | 0, d, _ => some d
  | fuel + 1, d, n =>
    if n ≤ maxPower then (Double.powTen n).bind d.div
    else if d.isZero then some d
    else ((Double.powTen maxPower).bind d.div).bind fun d => divideByPower fuel d (n - maxPower)

def multiplyByPower (d : Double) (n : Nat) : Option Double :=
  if n ≤ maxPower then (Double.powTen n).bind d.mul
  else if d.isZero then some d
  else none

def scaleByPower (d : Double) : Int → Option Double
  | .ofNat n => multiplyByPower d n
  | .negSucc n => divideByPower (n + 1) d (n + 1)

def signed (negative : Bool) (d : Double) : Double := if negative then d.neg else d

def floatOf (negative : Bool) (significand : Nat) (exponent : Int) : Except Fault Number :=
  match (Double.ofNat significand).bind fun d => scaleByPower d exponent with
  | some d => .ok (.float (signed negative d))
  | none => .error .numberOutOfRange

def exponentLimit : Nat := Nat.pow 2 31 - 1

/-- Reads what follows `e`. An exponent beyond the limit makes the number zero or too large. -/
def readExponent (negative : Bool) (significand : Nat) (shift : Int) (bytes : Bytes) :
    Except Fault (Number × Bytes) :=
  let (down, rest) := match bytes with
    | 0x2B :: rest => (false, rest)
    | 0x2D :: rest => (true, rest)
    | rest => (false, rest)
  match rest with
  | [] => .error .endInValue
  | b :: _ =>
    if !isDigit b then .error .invalidNumber
    else
      let exponent := (rest.takeWhile isDigit).foldl (fun n b => n * 10 + digitValue b) 0
      let rest := dropDigits rest
      if exponentLimit < exponent then
        if significand ≠ 0 ∧ !down then .error .numberOutOfRange
        else .ok (.float (signed negative .zero), rest)
      else
        (floatOf negative significand (if down then shift - exponent else shift + exponent)).map
          fun n => (n, rest)

def readScale (negative : Bool) (significand : Nat) (shift : Int) (bytes : Bytes) :
    Except Fault (Number × Bytes) :=
  match bytes with
  | b :: rest =>
    if b = 0x65 ∨ b = 0x45 then readExponent negative significand shift rest
    else (floatOf negative significand shift).map fun n => (n, bytes)
  | [] => (floatOf negative significand shift).map fun n => (n, bytes)

def readFraction (negative : Bool) (significand : Nat) (shift : Int) (bytes : Bytes) :
    Except Fault (Number × Bytes) :=
  let (significand, count, rest) := gather significand 0 bytes
  if startsWithDigit rest then readScale negative significand (shift - count) (dropDigits rest)
  else if count = 0 then .error (if rest.isEmpty then .endInValue else .invalidNumber)
  else readScale negative significand (shift - count) rest

/-- An integer without fraction and exponent. A negative zero and what does not fit are floats. -/
def integerOf (negative : Bool) (n : Nat) : Except Fault Number :=
  if !negative then .ok (.int n)
  else if n = 0 ∨ Nat.pow 2 63 < n then floatOf true n 0
  else .ok (.int (-(n : Int)))

/-- Reads on after the integer digits; `long` tells how many of them did not fit. -/
def readRest (negative : Bool) (significand : Nat) (long : Option Nat) (bytes : Bytes) :
    Except Fault (Number × Bytes) :=
  match bytes with
  | 0x2E :: rest => readFraction negative significand (long.getD 0) rest
  | b :: rest =>
    if b = 0x65 ∨ b = 0x45 then readExponent negative significand (long.getD 0) rest
    else
      match long with
      | some n => (floatOf negative significand n).map fun n => (n, b :: rest)
      | none => (integerOf negative significand).map fun n => (n, b :: rest)
  | [] =>
    match long with
    | some n => (floatOf negative significand n).map fun n => (n, [])
    | none => (integerOf negative significand).map fun n => (n, [])

def readMagnitude (negative : Bool) : Bytes → Except Fault (Number × Bytes)
  | [] => .error .endInValue
  | b :: rest =>
    if b = 0x30 then
      if startsWithDigit rest then .error .invalidNumber else readRest negative 0 none rest
    else if !isDigit b then .error .invalidNumber
    else
      let (significand, _, after) := gather (digitValue b) 0 rest
      if startsWithDigit after then
        readRest negative significand (some (countDigits after)) (dropDigits after)
      else readRest negative significand none after

def readNumber : Bytes → Except Fault (Number × Bytes)
  | 0x2D :: rest => readMagnitude true rest
  | bytes => readMagnitude false bytes

end RoundTrip.Json
