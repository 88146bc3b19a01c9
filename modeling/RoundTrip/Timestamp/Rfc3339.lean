import RoundTrip.Timestamp.Calendar
import RoundTrip.Text.Basic

/-!
Points in time and their RFC 3339 text. Reading takes any offset and keeps the instant in UTC;
writing uses `Z` and as few of zero, three, six or nine fraction digits as carry the value.
-/

namespace RoundTrip

/-- Unix seconds in UTC with nanoseconds. A leap second is the second before it with
`1000000000 ≤ nanos`. -/
structure Timestamp where
  seconds : Int
  nanos : Nat
  deriving DecidableEq, Repr

namespace Timestamp

inductive Fault
  | invalid
  | tooShort
  | outOfRange
  | trailing
  deriving DecidableEq, Repr

def Fault.message : Fault → String
  | .invalid => "input contains invalid characters"
  | .tooShort => "premature end of input"
  | .outOfRange => "input is out of range"
  | .trailing => "trailing input"

def daySeconds : Int := 86400

def leapNanos : Nat := 1000000000

def digits (count : Nat) (cs : List Char) : Except Fault (Nat × List Char) :=
  if (cs.take count).all Char.isDigit ∧ (cs.take count).length = count then
    .ok (Text.decimal (cs.take count), cs.drop count)
  else .error .invalid

def expect (p : Char → Bool) : List Char → Except Fault (List Char)
  | [] => .error .tooShort
  | c :: cs => if p c then .ok cs else .error .invalid

/-- Fraction digits after the point: at least one, of which nine count. -/
def fraction (cs : List Char) : Except Fault (Nat × List Char) :=
  let read := (cs.takeWhile Char.isDigit).take 9
  if cs.isEmpty then .error .tooShort
  else if read.isEmpty then .error .invalid
  else .ok (Text.decimal read * Nat.pow 10 (9 - read.length), cs.dropWhile Char.isDigit)

def minusSign : Char := Char.ofNat 0x2212

def offsetMinutes : List Char → Except Fault (Nat × List Char)
  | a :: b :: cs =>
    if a.isDigit && b.isDigit then
      if '6' ≤ a then .error .outOfRange else .ok (Text.decimal [a, b], cs)
    else .error .invalid
  | _ => .error .tooShort

def offsetAmount : List Char → Except Fault (Nat × List Char)
  | a :: b :: cs =>
    if a.isDigit && b.isDigit then do
      let cs ← expect (· = ':') cs
      let (minutes, cs) ← offsetMinutes cs
      return (Text.decimal [a, b] * 60 + minutes, cs)
    else .error .invalid
  | _ => .error .tooShort

/-- Minutes east of UTC. The sign may be a hyphen or the minus sign U+2212. -/
def offset : List Char → Except Fault (Int × List Char)
  | [] => .error .tooShort
  | c :: cs =>
    if c = 'Z' ∨ c = 'z' then .ok (0, cs)
    else if c = '+' then (offsetAmount cs).map fun p => ((p.1 : Int), p.2)
    else if c = '-' ∨ c = minusSign then (offsetAmount cs).map fun p => (-(p.1 : Int), p.2)
    else .error .invalid

def offsetLimit : Nat := 23 * 60 + 59

def leastLength : Nat := 19

def parseDate (cs : List Char) : Except Fault (Date × List Char) := do
  let (year, cs) ← digits 4 cs
  let cs ← expect (· = '-') cs
  let (month, cs) ← digits 2 cs
  let cs ← expect (· = '-') cs
  let (day, cs) ← digits 2 cs
  let date : Date := ⟨year, month, day⟩
  if date.isValid then return (date, cs) else .error .outOfRange

/-- Second of the day, nanoseconds and the rest. A second of 60 is the 59th with a second's worth of
nanoseconds more. -/
def parseClock (cs : List Char) : Except Fault (Nat × Nat × List Char) := do
  let (hour, cs) ← digits 2 cs
  let cs ← expect (· = ':') cs
  let (minute, cs) ← digits 2 cs
  let cs ← expect (· = ':') cs
  let (second, cs) ← digits 2 cs
  let (nanos, cs) ← match cs with
    | '.' :: cs => fraction cs
    | cs => .ok (0, cs)
  let (second, nanos) := if second = 60 then (59, nanos + leapNanos) else (second, nanos)
  if hour < 24 ∧ minute < 60 ∧ second < 60 then
    return (hour * 3600 + minute * 60 + second, nanos, cs)
  else .error .outOfRange

/-- Reads an RFC 3339 time. `T`, `t` or a space stands between date and clock. -/
def parse (text : String) : Except Fault Timestamp := do
  if text.utf8ByteSize < leastLength then .error .tooShort
  else
    let (date, cs) ← parseDate text.toList
    let cs ← expect (fun c => c = 'T' || c = 't' || c = ' ') cs
    let (second, nanos, cs) ← parseClock cs
    let (minutes, cs) ← offset cs
    if !cs.isEmpty then .error .trailing
    else if offsetLimit < minutes.natAbs then .error .outOfRange
    else return ⟨date.toDays * daySeconds + second - minutes * 60, nanos⟩

/-- Years of four digits stand alone; others carry a sign. -/
def yearText (year : Int) : String :=
  if 0 ≤ year ∧ year ≤ 9999 then Text.padded 4 year.toNat
  else (if year < 0 then "-" else "+") ++ Text.padded 4 year.natAbs

def fractionText (nanos : Nat) : String :=
  if nanos = 0 then ""
  else if nanos % 1000000 = 0 then "." ++ Text.padded 3 (nanos / 1000000)
  else if nanos % 1000 = 0 then "." ++ Text.padded 6 (nanos / 1000)
  else "." ++ Text.padded 9 nanos

def text (t : Timestamp) : String :=
  let date := Date.ofDays (t.seconds / daySeconds)
  let second := (t.seconds % daySeconds).toNat
  let leap := leapNanos ≤ t.nanos
  yearText date.year ++ "-" ++ Text.padded 2 date.month ++ "-" ++ Text.padded 2 date.day ++ "T" ++
    Text.padded 2 (second / 3600) ++ ":" ++ Text.padded 2 (second / 60 % 60) ++ ":" ++
    Text.padded 2 (second % 60 + if leap then 1 else 0) ++
    fractionText (if leap then t.nanos - leapNanos else t.nanos) ++ "Z"

end Timestamp

end RoundTrip
