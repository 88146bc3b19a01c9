import RoundTrip.Text.Utf8

/-!
HTTP header fields: a multimap from names to octet strings. Names fold their letters; the values of
a name stay together, and names stand in the order in which they first appeared.
-/

namespace RoundTrip

namespace Header

def isTokenByte (b : UInt8) : Bool :=
  let c := Char.ofNat b.toNat
  c.isAlphanum || "!#$%&*+-.^_|~".toList.contains c || b == 0x27 || b == 0x60

def maxNameLength : Nat := 65535

/-- The folded name, if the text is a token of at most `maxNameLength` octets. -/
def name? (text : String) : Option String :=
  let bytes := Text.Utf8.encode text
  if bytes.isEmpty ∨ maxNameLength < bytes.length then none
  else if bytes.all isTokenByte then some (Text.lower text) else none

def isValueByte (b : UInt8) : Bool := (0x20 ≤ b && b != 0x7F) || b == 9

def value? (text : String) : Option Bytes :=
  let bytes := Text.Utf8.encode text
  if bytes.all isValueByte then some bytes else none

/-- Visible ASCII, the space and the tab: what a value may hold to be read as text. -/
def isTextByte (b : UInt8) : Bool := (0x20 ≤ b && b < 0x7F) || b == 9

def text? (value : Bytes) : Option String :=
  if value.all isTextByte then some (String.ofList (value.map fun b => Char.ofNat b.toNat))
  else none

end Header

structure Headers where
  groups : List (String × List Bytes)
  deriving DecidableEq, Repr

namespace Headers

def empty : Headers := ⟨[]⟩

def appendGroup (name : String) (value : Bytes) :
    List (String × List Bytes) → List (String × List Bytes)
  | [] => [(name, [value])]
  | (n, values) :: rest =>
    if n = name then (n, values ++ [value]) :: rest
    else (n, values) :: appendGroup name value rest

def append (h : Headers) (name : String) (value : Bytes) : Headers :=
  ⟨appendGroup (Text.lower name) value h.groups⟩

def putGroup (name : String) (value : Bytes) :
    List (String × List Bytes) → List (String × List Bytes)
  | [] => [(name, [value])]
  | (n, values) :: rest =>
    if n = name then (n, [value]) :: rest else (n, values) :: putGroup name value rest

def put (h : Headers) (name : String) (value : Bytes) : Headers :=
  ⟨putGroup (Text.lower name) value h.groups⟩

def ofList (fields : List (String × Bytes)) : Headers :=
  fields.foldl (fun h f => h.append f.1 f.2) empty

def fields (h : Headers) : List (String × Bytes) :=
  h.groups.flatMap fun g => g.2.map fun v => (g.1, v)

def values (h : Headers) (name : String) : List Bytes :=
  match h.groups.find? fun g => g.1 = Text.lower name with
  | none => []
  | some g => g.2

def first? (h : Headers) (name : String) : Option Bytes := (h.values name).head?

end Headers

end RoundTrip
