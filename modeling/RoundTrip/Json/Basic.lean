import RoundTrip.Decimal.Shortest
import RoundTrip.Text.Utf8
import RoundTrip.Text.Entries

/-!
JSON values. Integers of 64 bits are kept exactly, all other numbers as binary64. The members of an
object stand in the order of their names.
-/

namespace RoundTrip

inductive Json.Number
  | int (n : Int)
  | float (d : Double)
  deriving DecidableEq, Repr

inductive Json
  | null
  | bool (b : Bool)
  | num (n : Json.Number)
  | str (s : String)
  | arr (items : List Json)
  | obj (members : List (String × Json))
  deriving Repr

namespace Json

def intText (n : Int) : List Char :=
  (if n < 0 then ['-'] else []) ++ Nat.toDigits 10 n.natAbs

/-- Up to sixteen digits stand before the point and up to four zeros after it. -/
def floatFormat : Decimal.Format := ⟨16, 4⟩

def Number.text : Number → List Char
  | .int n => intText n
  | .float d => floatFormat.text d

def boolText : Bool → List Char
  | true => ['t', 'r', 'u', 'e']
  | false => ['f', 'a', 'l', 's', 'e']

def hexDigit (n : Nat) : Char := Char.ofNat (if n < 10 then 0x30 + n else 0x57 + n)

def escape (c : Char) : List Char :=
  if c = '"' then ['\\', '"']
  else if c = '\\' then ['\\', '\\']
  else if c = '\n' then ['\\', 'n']
  else if c = '\r' then ['\\', 'r']
  else if c = '\t' then ['\\', 't']
  else if c.toNat = 8 then ['\\', 'b']
  else if c.toNat = 12 then ['\\', 'f']
  else if c.toNat < 0x20 then
    ['\\', 'u', '0', '0', hexDigit (c.toNat / 16), hexDigit (c.toNat % 16)]
  else [c]

def quote (s : String) : List Char := '"' :: s.toList.flatMap escape ++ ['"']

mutual

def chars : Json → List Char
  | .null => ['n', 'u', 'l', 'l']
  | .bool b => boolText b
  | .num n => n.text
  | .str s => quote s
  | .arr items => '[' :: itemChars items
  | .obj members => '{' :: memberChars members

def itemChars : List Json → List Char
  | [] => [']']
  | [v] => v.chars ++ [']']
  | v :: w :: rest => v.chars ++ ',' :: itemChars (w :: rest)

def memberChars : List (String × Json) → List Char
  | [] => ['}']
  | [(name, v)] => quote name ++ ':' :: v.chars ++ ['}']
  | (name, v) :: m :: rest => quote name ++ ':' :: v.chars ++ ',' :: memberChars (m :: rest)

end

def text (v : Json) : String := String.ofList v.chars

def bytes (v : Json) : Bytes := Text.Utf8.encode v.text

def object (members : List (String × Json)) : Json := .obj (Entries.ofList members)

end Json

end RoundTrip
