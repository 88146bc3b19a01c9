import RoundTrip.Url.Percent

namespace RoundTrip.Url.Form

def isPlain (b : UInt8) : Bool :=
  let c := Char.ofNat b.toNat
  b < 0x80 && (c.isAlphanum || c == '*' || c == '-' || c == '.' || c == '_')

def encodeByte (b : UInt8) : List Char :=
  if isPlain b then [Char.ofNat b.toNat]
  else if b = 0x20 then ['+']
  else Percent.encodeByte b

def encode (s : String) : String := String.ofList ((Text.Utf8.encode s).flatMap encodeByte)

def append (query : String) (pair : String × String) : String :=
  (if query = "" then "" else query ++ "&") ++ encode pair.1 ++ "=" ++ encode pair.2

def decodeComponent (cs : List Char) : Bytes :=
  Percent.decode (cs.map fun c => if c = '+' then ' ' else c)

def splitPair (cs : List Char) : List Char × List Char :=
  (cs.takeWhile (· ≠ '='), (cs.dropWhile (· ≠ '=')).drop 1)

/-- The pairs of a query; empty parts between ampersands give none. -/
def decode (query : String) : List (String × String) :=
  ((Text.splitOn '&' query.toList).filter fun part => !part.isEmpty).map fun part =>
    let (name, value) := splitPair part
    (Text.Utf8.decodeLossy (decodeComponent name), Text.Utf8.decodeLossy (decodeComponent value))

end RoundTrip.Url.Form
