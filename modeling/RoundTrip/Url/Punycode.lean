/-!
Punycode: labels of any characters as ASCII letters, digits and hyphens.

The ASCII characters come first. The others follow in the order of their code points, each as the
number of places and codes to skip since the one before, in digits of variable weight.
-/

namespace RoundTrip.Url.Punycode

def base : Nat := 36
def tMin : Nat := 1
def tMax : Nat := 26
def skew : Nat := 38
def damp : Nat := 700
def initialBias : Nat := 72

def initialCode : Nat := 0x80

def shrink (delta k : Nat) : Nat :=
  if 455 < delta then shrink (delta / 35) (k + base)
  else k + (base - tMin + 1) * delta / (delta + skew)
termination_by delta
decreasing_by exact Nat.div_lt_self (by omega) (by omega)

/-- The bias after a number has been coded in a label that now has `size` characters. -/
def adapt (delta size : Nat) (first : Bool) : Nat :=
  let delta := if first then delta / damp else delta / 2
  shrink (delta + delta / size) 0

/-- Digits below the threshold of their place end a number. -/
def threshold (k bias : Nat) : Nat := min tMax (max tMin (k - bias))

theorem threshold_bounds (k bias : Nat) : 1 ≤ threshold k bias ∧ threshold k bias ≤ 26 := by
  simp only [threshold, tMin, tMax]; omega

def digit (d : Nat) : Char := Char.ofNat (if d < 26 then 0x61 + d else 0x30 + d - 26)

def digitValue (c : Char) : Option Nat :=
  if 'a' ≤ c ∧ c ≤ 'z' then some (c.toNat - 0x61)
  else if 'A' ≤ c ∧ c ≤ 'Z' then some (c.toNat - 0x41)
  else if '0' ≤ c ∧ c ≤ '9' then some (c.toNat - 0x30 + 26)
  else none

def number (bias k q : Nat) : List Char :=
  if q < threshold k bias then [digit q]
  else
    digit (threshold k bias + (q - threshold k bias) % (base - threshold k bias)) ::
      number bias (k + base) ((q - threshold k bias) / (base - threshold k bias))
termination_by q
decreasing_by
  have := threshold_bounds k bias
  exact Nat.lt_of_le_of_lt (Nat.div_le_self _ _) (by omega)

structure Coder where
  code : Nat
  delta : Nat
  bias : Nat
  coded : Nat
  first : Bool
  out : List Char

/-- Counts a character that the decoder skips, or codes one that is due. -/
def Coder.pass (c : Coder) (x : Char) : Coder :=
  if x.toNat < c.code then { c with delta := c.delta + 1 }
  else if x.toNat = c.code then
    { c with
      out := c.out ++ number c.bias base c.delta
      bias := adapt c.delta (c.coded + 1) c.first
      delta := 0
      coded := c.coded + 1
      first := false }
  else c

def Coder.round (label : List Char) (c : Coder) (code : Nat) : Coder :=
  let c := { c with delta := c.delta + (code - c.code) * (c.coded + 1), code }
  let c := label.foldl Coder.pass c
  { c with delta := c.delta + 1, code := code + 1 }

def insertCode (n : Nat) : List Nat → List Nat
  | [] => [n]
  | m :: rest =>
    if n < m then n :: m :: rest else if n = m then m :: rest else m :: insertCode n rest

def codes (label : List Char) : List Nat :=
  ((label.map Char.toNat).filter fun n => initialCode ≤ n).foldr insertCode []

def encode (label : List Char) : List Char :=
  let basic := label.filter fun c => c.toNat < initialCode
  let start : Coder := ⟨initialCode, 0, initialBias, basic.length, true, []⟩
  basic ++ (if basic.isEmpty then [] else ['-']) ++
    ((codes label).foldl (Coder.round label) start).out

def readNumber (bias : Nat) : List Char → Nat → Nat → Nat → Option (Nat × List Char)
  | [], _, _, _ => none
  | c :: rest, value, weight, k =>
    match digitValue c with
    | none => none
    | some d =>
      if d < threshold k bias then some (value + d * weight, rest)
      else readNumber bias rest (value + d * weight) (weight * (base - threshold k bias)) (k + base)

theorem length_readNumber {bias : Nat} {cs rest : List Char} {value weight k v : Nat}
    (h : readNumber bias cs value weight k = some (v, rest)) : rest.length < cs.length := by
  induction cs generalizing value weight k with
  | nil => simp [readNumber] at h
  | cons c cs ih =>
    simp only [readNumber] at h
    split at h
    · simp at h
    · split at h
      · simp only [Option.some.injEq, Prod.mk.injEq] at h
        simp [h.2]
      · exact Nat.lt_succ_of_lt (ih h)

/-- Code points stop at this bound and leave out the surrogates. -/
def isScalar (code : Nat) : Bool := code < 0xD800 || (0xDFFF < code && code < 0x110000)

def readAll (cs : List Char) (code place bias : Nat) (first : Bool) (label : List Char) :
    Option (List Char) :=
  if cs.isEmpty then some label
  else
    match _h : readNumber bias cs place 1 base with
    | none => none
    | some (value, rest) =>
      let size := label.length + 1
      let code := code + value / size
      if isScalar code then
        readAll rest code (value % size + 1) (adapt (value - place) size first) false
          (label.take (value % size) ++ Char.ofNat code :: label.drop (value % size))
      else none
termination_by cs.length
decreasing_by exact length_readNumber _h

def splitLast (cs : List Char) : List Char × List Char :=
  let coded := (cs.reverse.takeWhile (· ≠ '-')).reverse
  (cs.take (cs.length - coded.length - 1), coded)

def decode? (cs : List Char) : Option (List Char) :=
  let (basic, coded) := splitLast cs
  if basic.all fun c => c.toNat < initialCode then
    readAll coded initialCode 0 initialBias true basic
  else none

end RoundTrip.Url.Punycode
