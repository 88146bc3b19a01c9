import RoundTrip.Text.Utf8

namespace RoundTrip.Url.Percent

def isControl (c : Char) : Bool := c.toNat < 0x20 || 0x7E < c.toNat

def grave : Char := Char.ofNat 0x60

def apostrophe : Char := Char.ofNat 0x27

def inFragment (c : Char) : Bool :=
  isControl c || c == ' ' || c == '"' || c == '<' || c == '>' || c == grave

def inQuery (c : Char) : Bool :=
  isControl c || c == ' ' || c == '"' || c == '#' || c == '<' || c == '>'

def inSpecialQuery (c : Char) : Bool := inQuery c || c == apostrophe

def inPath (c : Char) : Bool := inFragment c || c == '#' || c == '?' || c == '\x7b' || c == '\x7d'

/-- A segment that is appended on its own also escapes what would divide or decode it. -/
def inSegment (c : Char) : Bool := inPath c || c == '/' || c == '%'

def inSpecialSegment (c : Char) : Bool := inSegment c || c == '\\'

def inUserinfo (c : Char) : Bool :=
  inPath c || c == '/' || c == ':' || c == ';' || c == '=' || c == '@' || c == '[' || c == '\\' ||
    c == ']' || c == '^' || c == '|'

def hexDigit (n : Nat) : Char := Char.ofNat (if n < 10 then 0x30 + n else 0x37 + n)

def encodeByte (b : UInt8) : List Char := ['%', hexDigit (b.toNat / 16), hexDigit (b.toNat % 16)]

def encode (escaped : Char → Bool) (cs : List Char) : List Char :=
  cs.flatMap fun c =>
    if escaped c then (String.utf8EncodeChar c).flatMap encodeByte else [c]

/-- The octets of a text with its escapes undone. A percent sign that starts no escape is itself. -/
def decode : List Char → Bytes
  | [] => []
  | '%' :: a :: b :: rest =>
    match Text.hexValue a, Text.hexValue b with
    | some x, some y => UInt8.ofNat (x * 16 + y) :: decode rest
    | _, _ => 0x25 :: decode (a :: b :: rest)
  | c :: rest => String.utf8EncodeChar c ++ decode rest

theorem hexValue_hexDigit : ∀ n < 16, Text.hexValue (hexDigit n) = some n := by decide

@[simp] theorem decode_encodeByte_append (b : UInt8) (rest : List Char) :
    decode (encodeByte b ++ rest) = b :: decode rest := by
  have hb := b.toNat_lt
  have hn : b.toNat / 16 * 16 + b.toNat % 16 = b.toNat := by omega
  simp only [encodeByte, List.cons_append, List.nil_append, decode]
  rw [hexValue_hexDigit _ (by omega), hexValue_hexDigit _ (by omega)]
  simp [hn]

@[simp] theorem decode_flatMap_encodeByte_append (bytes : Bytes) (rest : List Char) :
    decode (bytes.flatMap encodeByte ++ rest) = bytes ++ decode rest := by
  induction bytes with
  | nil => rfl
  | cons b bytes ih => simp [ih]

theorem decode_cons_of_ne {c : Char} (h : c ≠ '%') (rest : List Char) :
    decode (c :: rest) = String.utf8EncodeChar c ++ decode rest := by
  rw [decode.eq_def]
  split <;> simp_all

theorem decode_encode {escaped : Char → Bool} (h : escaped '%' = true) (cs : List Char) :
    decode (encode escaped cs) = cs.flatMap String.utf8EncodeChar := by
  induction cs with
  | nil => rfl
  | cons c cs ih =>
    simp only [encode, List.flatMap_cons] at ih ⊢
    split
    · simp [ih]
    · have hc : c ≠ '%' := by rintro rfl; simp_all
      simp [decode_cons_of_ne hc, ih]

end RoundTrip.Url.Percent
