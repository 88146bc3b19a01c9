import RoundTrip.Net.Address
import RoundTrip.Url.Domain

/-!
Hosts of URLs. Where a scheme knows hosts, they are domain names and addresses; elsewhere a host is
text without delimiters. IPv4 addresses may leave out parts and write them in octal or hexadecimal.
-/

namespace RoundTrip.Url

inductive Fault
  | noScheme
  | emptyHost
  | invalidPort
  | invalidIpv4
  | invalidIpv6
  | invalidDomain
  | invalidHostCharacter
  deriving DecidableEq, Repr

def Fault.message : Fault → String
  | .noScheme => "relative URL without a base"
  | .emptyHost => "empty host"
  | .invalidPort => "invalid port number"
  | .invalidIpv4 => "invalid IPv4 address"
  | .invalidIpv6 => "invalid IPv6 address"
  | .invalidDomain => "invalid international domain name"
  | .invalidHostCharacter => "invalid domain character"

inductive Host
  /-- A domain name in ASCII, or text that is not interpreted. -/
  | domain (s : String)
  | v4 (a : Net.Ipv4)
  | v6 (a : Net.Ipv6)
  deriving DecidableEq, Repr

namespace Host

def text : Host → String
  | .domain s => s
  | .v4 a => a.text
  | .v6 a => "[" ++ a.text ++ "]"

def value (base : Nat) (digits : List Nat) : Nat := digits.foldl (fun n d => n * base + d) 0

def inBase (base : Nat) (cs : List Char) : Option Nat :=
  ((cs.mapM Text.hexValue).filter fun ds => ds.all (· < base)).map (value base)

/-- A part of an IPv4 address: hexadecimal after `0x`, octal after `0`, decimal else. -/
def part? : List Char → Option Nat
  | [] => none
  | '0' :: 'x' :: rest | '0' :: 'X' :: rest => inBase 16 rest
  | ['0'] => some 0
  | '0' :: rest => inBase 8 rest
  | cs => inBase 10 cs

def parts (name : List Char) : List (List Char) :=
  let all := Text.splitOn '.' name
  if 1 < all.length ∧ all.getLast? = some [] then all.dropLast else all

/-- Names whose last part is a number are addresses or nothing. -/
def endsInNumber (name : List Char) : Bool :=
  match (parts name).getLast? with
  | none => false
  | some last => (!last.isEmpty && last.all Char.isDigit) || (part? last).isSome

/-- All parts but the last one are octets; the last one fills the octets that are left. -/
def address? (numbers : List Nat) : Option Net.Ipv4 :=
  match numbers.getLast? with
  | none => none
  | some last =>
    let front := numbers.dropLast
    let left := 4 - front.length
    if 3 < front.length ∨ front.any (255 < ·) ∨ Nat.pow 256 left ≤ last then none
    else
      some ⟨front ++ (List.range left).map fun i => last / Nat.pow 256 (left - 1 - i) % 256⟩

def ipv4? (name : List Char) : Option Net.Ipv4 := ((parts name).mapM part?).bind address?

def bracketed (cs : List Char) : Except Fault Host :=
  match cs.getLast? with
  | some ']' =>
    match Net.Ipv6.parse? cs.dropLast with
    | some a => .ok (.v6 a)
    | none => .error .invalidIpv6
  | _ => .error .invalidIpv6

def parse : List Char → Except Fault Host
  | '[' :: rest => bracketed rest
  | cs =>
    match Domain.ofHost? cs with
    | none => .error .invalidDomain
    | some [] => .error .emptyHost
    | some name =>
      if endsInNumber name then
        match ipv4? name with
        | some a => .ok (.v4 a)
        | none => .error .invalidIpv4
      else .ok (.domain (String.ofList name))

def isForbidden (c : Char) : Bool :=
  c.toNat == 0 || "\t\n\r #/:<>?@[\\]^|".toList.contains c

def parsePlain : List Char → Except Fault Host
  | '[' :: rest => bracketed rest
  | cs =>
    if cs.any isForbidden then .error .invalidHostCharacter
    else .ok (.domain (String.ofList (Percent.encode Percent.isControl cs)))

end Host

end RoundTrip.Url
