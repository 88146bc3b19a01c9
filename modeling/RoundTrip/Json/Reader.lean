import RoundTrip.Json.Number

/-!
Reading JSON from octets. Arrays and objects nest at most 127 deep. Strings are checked as UTF-8
where they end; of several members of a name the last stays.
-/

namespace RoundTrip.Json

def isSpace (b : UInt8) : Bool := b == 0x20 || b == 0x0A || b == 0x09 || b == 0x0D

def skipSpace : Bytes → Bytes
  | [] => []
  | b :: rest => if isSpace b then skipSpace rest else b :: rest

def hexUnit? (a b c d : UInt8) : Option Nat := do
  let digit (x : UInt8) : Option Nat := Text.hexValue (Char.ofNat x.toNat)
  return (((← digit a) * 16 + (← digit b)) * 16 + (← digit c)) * 16 + (← digit d)

def isTrailSurrogate (n : Nat) : Bool := 0xDC00 ≤ n && n ≤ 0xDFFF

def isLeadSurrogate (n : Nat) : Bool := 0xD800 ≤ n && n ≤ 0xDBFF

def readHex : Bytes → Except Fault (Nat × Bytes)
  | a :: b :: c :: d :: rest =>
    match hexUnit? a b c d with
    | some n => .ok (n, rest)
    | none => .error .invalidEscape
  | _ => .error .endInString

def readTrail (lead : Nat) : Bytes → Except Fault (Char × Bytes)
  | [] => .error .endInString
  | b :: rest =>
    if b ≠ 0x5C then .error .brokenHexEscape
    else
      match rest with
      | [] => .error .endInString
      | u :: rest =>
        if u ≠ 0x75 then .error .brokenHexEscape
        else do
          let (trail, rest) ← readHex rest
          if isTrailSurrogate trail then
            return (Char.ofNat ((lead - 0xD800) * 0x400 + (trail - 0xDC00) + 0x10000), rest)
          else .error .loneSurrogate

def readUnicode (bytes : Bytes) : Except Fault (Char × Bytes) := do
  let (n, rest) ← readHex bytes
  if isTrailSurrogate n then .error .loneSurrogate
  else if isLeadSurrogate n then readTrail n rest
  else return (Char.ofNat n, rest)

def shortEscape? (b : UInt8) : Option Char :=
  if b = 0x22 then some '"'
  else if b = 0x5C then some '\\'
  else if b = 0x2F then some '/'
  else if b = 0x62 then some (Char.ofNat 8)
  else if b = 0x66 then some (Char.ofNat 12)
  else if b = 0x6E then some '\n'
  else if b = 0x72 then some '\r'
  else if b = 0x74 then some '\t'
  else none

def readEscape : Bytes → Except Fault (Char × Bytes)
  | [] => .error .endInString
  | b :: rest =>
    if b = 0x75 then readUnicode rest
    else
      match shortEscape? b with
      | some c => .ok (c, rest)
      | none => .error .invalidEscape

/-- Gathers the octets of a string up to its closing quote, last first. Each round takes at least
one octet, so `fuel` is enough when it is at least the number of octets. -/
def gatherString : Nat → Bytes → Bytes → Except Fault (Bytes × Bytes)
  | 0, _, _ => .error .endInString
  | _, _, [] => .error .endInString
  | fuel + 1, acc, b :: rest =>
    if b = 0x22 then .ok (acc, rest)
    else if b = 0x5C then
      match readEscape rest with
      | .error fault => .error fault
      | .ok (c, rest) => gatherString fuel ((String.utf8EncodeChar c).reverse ++ acc) rest
    else if b < 0x20 then .error .controlCharacter
    else gatherString fuel (b :: acc) rest

def readString (fuel : Nat) (bytes : Bytes) : Except Fault (String × Bytes) :=
  match gatherString fuel [] bytes with
  | .error fault => .error fault
  | .ok (acc, rest) =>
    match Text.Utf8.decode? acc.reverse with
    | some s => .ok (s, rest)
    | none => .error .invalidCodePoint

def readWord (value : Json) : Bytes → Bytes → Except Fault (Json × Bytes)
  | [], rest => .ok (value, rest)
  | _ :: _, [] => .error .endInValue
  | w :: word, b :: rest => if b = w then readWord value word rest else .error .expectedWord

abbrev ValueReader := Bytes → Except Fault (Json × Bytes)

def readItems (read : ValueReader) : Nat → List Json → Bytes → Except Fault (Json × Bytes)
  | 0, _, _ => .error .endInArray
  | fuel + 1, acc, bytes =>
    match skipSpace bytes with
    | [] => .error .endInArray
    | b :: rest =>
      if b = 0x5D then .ok (.arr acc.reverse, rest)
      else if b ≠ 0x2C then .error .expectedCommaInArray
      else
        match skipSpace rest with
        | [] => .error .endInValue
        | b :: rest =>
          if b = 0x5D then .error .trailingComma
          else
            match read (b :: rest) with
            | .error fault => .error fault
            | .ok (v, rest) => readItems read fuel (v :: acc) rest

def readArray (read : ValueReader) (fuel : Nat) (bytes : Bytes) : Except Fault (Json × Bytes) :=
  match skipSpace bytes with
  | [] => .error .endInArray
  | b :: rest =>
    if b = 0x5D then .ok (.arr [], rest)
    else
      match read (b :: rest) with
      | .error fault => .error fault
      | .ok (v, rest) => readItems read fuel [v] rest

def readMember (read : ValueReader) (fuel : Nat) (bytes : Bytes) :
    Except Fault ((String × Json) × Bytes) :=
  match readString fuel bytes with
  | .error fault => .error fault
  | .ok (name, rest) =>
    match skipSpace rest with
    | [] => .error .endInObject
    | b :: rest =>
      if b ≠ 0x3A then .error .expectedColon
      else
        match skipSpace rest with
        | [] => .error .endInValue
        | b :: rest =>
          match read (b :: rest) with
          | .error fault => .error fault
          | .ok (v, rest) => .ok ((name, v), rest)

def readMembers (read : ValueReader) (size : Nat) :
    Nat → List (String × Json) → Bytes → Except Fault (Json × Bytes)
  | 0, _, _ => .error .endInObject
  | fuel + 1, acc, bytes =>
    match skipSpace bytes with
    | [] => .error .endInObject
    | b :: rest =>
      if b = 0x7D then .ok (.obj acc, rest)
      else if b ≠ 0x2C then .error .expectedCommaInObject
      else
        match skipSpace rest with
        | [] => .error .endInValue
        | b :: rest =>
          if b = 0x7D then .error .trailingComma
          else if b ≠ 0x22 then .error .keyNotString
          else
            match readMember read size rest with
            | .error fault => .error fault
            | .ok ((name, v), rest) =>
              readMembers read size fuel (Entries.put name v acc) rest

def readObject (read : ValueReader) (fuel : Nat) (bytes : Bytes) : Except Fault (Json × Bytes) :=
  match skipSpace bytes with
  | [] => .error .endInObject
  | b :: rest =>
    if b = 0x7D then .ok (.obj [], rest)
    else if b ≠ 0x22 then .error .keyNotString
    else
      match readMember read fuel rest with
      | .error fault => .error fault
      | .ok ((name, v), rest) => readMembers read fuel fuel [(name, v)] rest

/-- Reads a value whose first octet is not space. `size` bounds the octets and `depth` the arrays
and objects that may still open. -/
def readValue (size : Nat) : Nat → ValueReader
  | _, [] => .error .endInValue
  | depth, b :: rest =>
    if b = 0x6E then readWord .null [0x75, 0x6C, 0x6C] rest
    else if b = 0x74 then readWord (.bool true) [0x72, 0x75, 0x65] rest
    else if b = 0x66 then readWord (.bool false) [0x61, 0x6C, 0x73, 0x65] rest
    else if b = 0x22 then (readString size rest).map fun p => (.str p.1, p.2)
    else if b = 0x5B then
      match depth with
      | 0 => .error .tooDeep
      | depth + 1 => readArray (readValue size depth) size rest
    else if b = 0x7B then
      match depth with
      | 0 => .error .tooDeep
      | depth + 1 => readObject (readValue size depth) size rest
    else if b = 0x2D ∨ isDigit b then (readNumber (b :: rest)).map fun p => (.num p.1, p.2)
    else .error .expectedValue

def maxDepth : Nat := 127

def parse (bytes : Bytes) : Except Fault Json :=
  match readValue (bytes.length + 1) maxDepth (skipSpace bytes) with
  | .error fault => .error fault
  | .ok (v, rest) => if (skipSpace rest).isEmpty then .ok v else .error .trailingCharacters

end RoundTrip.Json
