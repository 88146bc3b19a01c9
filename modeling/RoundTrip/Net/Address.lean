import RoundTrip.Text.Basic

namespace RoundTrip.Net

structure Ipv4 where
  octets : List Nat
  deriving DecidableEq, Repr

structure Ipv6 where
  groups : List Nat
  deriving DecidableEq, Repr

inductive Address
  | v4 (a : Ipv4)
  | v6 (a : Ipv6)
  deriving DecidableEq, Repr

def octet? (cs : List Char) : Option Nat :=
  if cs.isEmpty ∨ 3 < cs.length ∨ !cs.all Char.isDigit then none
  else if 1 < cs.length ∧ cs.head? = some '0' then none
  else if Text.decimal cs < 256 then some (Text.decimal cs) else none

def Ipv4.parse? (cs : List Char) : Option Ipv4 :=
  let parts := Text.splitOn '.' cs
  if parts.length = 4 then (parts.mapM octet?).map Ipv4.mk else none

def Ipv4.text (a : Ipv4) : String := String.intercalate "." (a.octets.map toString)

def group? (cs : List Char) : Option Nat :=
  if cs.isEmpty ∨ 4 < cs.length then none
  else (cs.mapM Text.hexValue).map fun ds => ds.foldl (fun n d => n * 16 + d) 0

/-- Groups between colons; where `tail` allows it the last may be an IPv4 address, which counts as
two. -/
def groups? (tail : Bool) : List (List Char) → Option (List Nat)
  | [] => some []
  | [part] =>
    match group? part with
    | some g => some [g]
    | none =>
      if tail then
        match Ipv4.parse? part with
        | some ⟨[a, b, c, d]⟩ => some [a * 256 + b, c * 256 + d]
        | _ => none
      else none
  | part :: rest => do return (← group? part) :: (← groups? tail rest)

def side? (tail : Bool) (cs : List Char) : Option (List Nat) :=
  if cs.isEmpty then some [] else groups? tail (Text.splitOn ':' cs)

def splitGap : List Char → Option (List Char × List Char)
  | ':' :: ':' :: rest => some ([], rest)
  | c :: rest => (splitGap rest).map fun p => (c :: p.1, p.2)
  | [] => none

def Ipv6.parse? (cs : List Char) : Option Ipv6 :=
  match splitGap cs with
  | none =>
    match side? true cs with
    | some groups => if groups.length = 8 then some ⟨groups⟩ else none
    | none => none
  | some (front, back) => do
    let front ← side? false front
    let back ← side? true back
    let size := front.length + back.length
    if size ≤ 7 then return ⟨front ++ List.replicate (8 - size) 0 ++ back⟩ else none

def hex (n : Nat) : String := String.ofList (Nat.toDigits 16 n)

def zeroRun (groups : List Nat) : Nat := (groups.takeWhile (· = 0)).length

def longestRun (groups : List Nat) : Nat × Nat :=
  (List.range groups.length).foldl (fun best i =>
    let run := zeroRun (groups.drop i)
    if best.2 < run then (i, run) else best) (0, 0)

def colons (groups : List Nat) : String := String.intercalate ":" (groups.map hex)

/-- The shortened text: the longest run of two or more zero groups becomes the gap. -/
def Ipv6.text (a : Ipv6) : String :=
  let (start, length) := longestRun a.groups
  if length < 2 then colons a.groups
  else colons (a.groups.take start) ++ "::" ++ colons (a.groups.drop (start + length))

namespace Address

def parse? (text : String) : Option Address :=
  match Ipv4.parse? text.toList with
  | some a => some (.v4 a)
  | none => (Ipv6.parse? text.toList).map .v6

/-- IPv4 addresses in the range `::ffff:0:0/96` are shown as such. -/
def v6Text (a : Ipv6) : String :=
  match a.groups with
  | [0, 0, 0, 0, 0, 65535, hi, lo] =>
    "::ffff:" ++ (Ipv4.mk [hi / 256, hi % 256, lo / 256, lo % 256]).text
  | _ => a.text

def withPort (port : Nat) : Address → String
  | .v4 a => a.text ++ ":" ++ toString port
  | .v6 a => "[" ++ v6Text a ++ "]:" ++ toString port

end Address

end RoundTrip.Net
