import RoundTrip.Url.Percent
import RoundTrip.Url.Punycode

/-!
Domain names in ASCII: every label in small letters, and those with other characters coded.

`fold` maps single characters as the compatibility mapping for domain names does, for ASCII, Latin,
Greek and Cyrillic letters, digits and signs of compatibility and the characters that are dropped.
Other assigned characters stay as they are. Names are taken to be composed already.
-/

namespace RoundTrip.Url.Domain

def isDot (n : Nat) : Bool := n == 0x2E || n == 0x3002 || n == 0xFF0E || n == 0xFF61

def isIgnored (n : Nat) : Bool :=
  n == 0xAD || n == 0x34F || (0x180B ≤ n && n ≤ 0x180F) || n == 0x200B || n == 0x2060 ||
    n == 0x2064 || (0xFE00 ≤ n && n ≤ 0xFE0F) || n == 0xFEFF || (0xE0100 ≤ n && n ≤ 0xE01EF)

def isWideSpace (n : Nat) : Bool :=
  n == 0xA0 || (0x2000 ≤ n && n ≤ 0x200A) || n == 0x202F || n == 0x205F || n == 0x3000

def isBarred (n : Nat) : Bool :=
  (0x80 ≤ n && n ≤ 0x9F) || (0x200C ≤ n && n ≤ 0x200F) || (0x2028 ≤ n && n ≤ 0x202E) ||
    (0x2061 ≤ n && n ≤ 0x206F) || (0xE000 ≤ n && n ≤ 0xF8FF) || (0xFDD0 ≤ n && n ≤ 0xFDEF) ||
    (0xFFF9 ≤ n && n ≤ 0xFFFF) || 0xE0000 ≤ n || n % 0x10000 ≥ 0xFFFE

/-- Blocks in which capitals at even code points precede their small letters. -/
def hasEvenCapitals (n : Nat) : Bool :=
  (0x100 ≤ n && n ≤ 0x12F) || (0x132 ≤ n && n ≤ 0x137) || (0x14A ≤ n && n ≤ 0x177) ||
    (0x1DE ≤ n && n ≤ 0x1EF) || (0x1F8 ≤ n && n ≤ 0x21F) || (0x222 ≤ n && n ≤ 0x233) ||
    (0x3D8 ≤ n && n ≤ 0x3EF) || (0x460 ≤ n && n ≤ 0x481) || (0x48A ≤ n && n ≤ 0x4BF) ||
    (0x4D0 ≤ n && n ≤ 0x52F) || (0x1E00 ≤ n && n ≤ 0x1E95) || (0x1EA0 ≤ n && n ≤ 0x1EFF)

/-- Blocks in which capitals stand at odd code points. -/
def hasOddCapitals (n : Nat) : Bool :=
  (0x139 ≤ n && n ≤ 0x148) || (0x179 ≤ n && n ≤ 0x17E) || (0x1CD ≤ n && n ≤ 0x1DC) ||
    (0x4C1 ≤ n && n ≤ 0x4CE)

def small (n : Nat) : Nat :=
  if hasEvenCapitals n then n + (1 - n % 2)
  else if hasOddCapitals n then n + n % 2
  else if 0x41 ≤ n ∧ n ≤ 0x5A then n + 0x20
  else if 0xC0 ≤ n ∧ n ≤ 0xDE ∧ n ≠ 0xD7 then n + 0x20
  else if n = 0x178 then 0xFF
  else if n = 0x386 then 0x3AC
  else if 0x388 ≤ n ∧ n ≤ 0x38A then n + 0x25
  else if n = 0x38C then 0x3CC
  else if n = 0x38E ∨ n = 0x38F then n + 0x3F
  else if 0x391 ≤ n ∧ n ≤ 0x3AB then n + 0x20
  else if 0x400 ≤ n ∧ n ≤ 0x40F then n + 0x50
  else if 0x410 ≤ n ∧ n ≤ 0x42F then n + 0x20
  else if 0x531 ≤ n ∧ n ≤ 0x556 then n + 0x30
  else n

def compatible : List (Nat × String) :=
  [(0xAA, "a"), (0xB2, "2"), (0xB3, "3"), (0xB5, "\u03bc"), (0xB9, "1"), (0xBA, "o"),
    (0xBC, "1\u20444"), (0xBD, "1\u20442"), (0xBE, "3\u20444"), (0x130, "i\u0307"), (0x132, "ij"),
    (0x133, "ij"), (0x13F, "l\u00b7"), (0x140, "l\u00b7"), (0x149, "\u02bcn"), (0x17F, "s"),
    (0x1E9E, "ss"), (0x2025, ".."), (0x2026, "..."), (0x2070, "0"), (0x2071, "i"), (0x207F, "n"),
    (0x2116, "no"), (0x2120, "sm"), (0x2122, "tm"), (0x2126, "\u03c9"), (0x212A, "k"),
    (0x212B, "\u00e5"), (0xFB00, "ff"), (0xFB01, "fi"), (0xFB02, "fl"), (0xFB03, "ffi"),
    (0xFB04, "ffl"), (0xFB05, "st"), (0xFB06, "st"), (0xFF5F, "\u2985"), (0xFF60, "\u2986")]

/-- What a character becomes; `none` where no name may hold it. -/
def fold (c : Char) : Option (List Char) :=
  let n := c.toNat
  if n < 0x80 then some [c.toLower]
  else if isDot n then some ['.']
  else if isIgnored n then some []
  else if isWideSpace n then some [' ']
  else if isBarred n then none
  else
    match compatible.lookup n with
    | some s => some s.toList
    | none =>
      if 0xFF01 ≤ n ∧ n ≤ 0xFF5E then some [(Char.ofNat (n - 0xFEE0)).toLower]
      else if 0x24B6 ≤ n ∧ n ≤ 0x24CF then some [Char.ofNat (n - 0x24B6 + 0x61)]
      else if 0x24D0 ≤ n ∧ n ≤ 0x24E9 then some [Char.ofNat (n - 0x24D0 + 0x61)]
      else if 0x2460 ≤ n ∧ n ≤ 0x2468 then some [Char.ofNat (n - 0x2460 + 0x31)]
      else if 0x2074 ≤ n ∧ n ≤ 0x2079 then some [Char.ofNat (n - 0x2070 + 0x30)]
      else if 0x2080 ≤ n ∧ n ≤ 0x2089 then some [Char.ofNat (n - 0x2080 + 0x30)]
      else some [Char.ofNat (small n)]

def isDenied (c : Char) : Bool :=
  c.toNat ≤ 0x20 || c.toNat == 0x7F || "%#/:<>?@[\\]^|".toList.contains c

def isAscii (c : Char) : Bool := c.toNat < 0x80

def isMark (c : Char) : Bool :=
  (0x300 ≤ c.toNat && c.toNat ≤ 0x36F) || (0x483 ≤ c.toNat && c.toNat ≤ 0x489) ||
    (0x591 ≤ c.toNat && c.toNat ≤ 0x5BD) || (0x64B ≤ c.toNat && c.toNat ≤ 0x65F) ||
    (0x20D0 ≤ c.toNat && c.toNat ≤ 0x20F0)

def codedMark : List Char := ['x', 'n', '-', '-']

/-- A coded label has to decode to a label that would be coded in just this way. -/
def isSoundCoded (label : List Char) : Bool :=
  match Punycode.decode? (label.drop codedMark.length) with
  | none => false
  | some decoded =>
    !decoded.all isAscii && decoded.mapM fold == some (decoded.map fun c => [c]) &&
      !(decoded.head?.any isMark) && !decoded.any isDenied &&
      codedMark ++ Punycode.encode decoded == label

def label? (label : List Char) : Option (List Char) :=
  if label.any isDenied then none
  else if label.all isAscii then
    if codedMark.isPrefixOf label && !isSoundCoded label then none else some label
  else if codedMark.isPrefixOf label || label.head?.any isMark then none
  else some (codedMark ++ Punycode.encode label)

def toAscii? (name : List Char) : Option (List Char) := do
  let folded ← name.mapM fold
  let labels ← (Text.splitOn '.' folded.flatten).mapM label?
  return ['.'].intercalate labels

/-- The name that a host is written with: its escapes are undone, and what they give has to be
UTF-8. -/
def ofHost? (host : List Char) : Option (List Char) :=
  (Text.Utf8.decode? (Percent.decode host)).bind fun name => toAscii? name.toList

end RoundTrip.Url.Domain
