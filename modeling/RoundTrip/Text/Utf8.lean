import RoundTrip.Text.Basic

/-!
Octets and their reading as UTF-8. `encode` writes a text; `decode?` reads it back and refuses
anything else; `decodeLossy` reads every octet sequence and puts U+FFFD where no character can be.
-/

namespace RoundTrip

abbrev Bytes := List UInt8

namespace Text.Utf8

def encode (s : String) : Bytes := s.toList.flatMap String.utf8EncodeChar

def decode? (bytes : Bytes) : Option String := String.fromUTF8? bytes.toByteArray

theorem toByteArray_encode (s : String) : (encode s).toByteArray = s.toByteArray := by
  conv => rhs; rw [← String.ofList_toList (s := s)]
  rfl

@[simp] theorem decode?_encode (s : String) : decode? (encode s) = some s := by
  unfold decode? String.fromUTF8?
  rw [toByteArray_encode, dif_pos s.isValidUTF8]
  rfl

/-- What a character that has begun still owes: how many octets, the range of the next one, and the
value of those read. -/
structure Owed where
  count : Nat
  low : UInt8
  high : UInt8
  value : Nat

def lead (b : UInt8) : Option Owed :=
  let n := b.toNat
  if n ≤ 0x7F then some ⟨0, 0x80, 0xBF, n⟩
  else if 0xC2 ≤ n ∧ n ≤ 0xDF then some ⟨1, 0x80, 0xBF, n % 32⟩
  else if n = 0xE0 then some ⟨2, 0xA0, 0xBF, 0⟩
  else if n = 0xED then some ⟨2, 0x80, 0x9F, 13⟩
  else if 0xE1 ≤ n ∧ n ≤ 0xEF then some ⟨2, 0x80, 0xBF, n % 16⟩
  else if n = 0xF0 then some ⟨3, 0x90, 0xBF, 0⟩
  else if 0xF1 ≤ n ∧ n ≤ 0xF3 then some ⟨3, 0x80, 0xBF, n % 8⟩
  else if n = 0xF4 then some ⟨3, 0x80, 0x8F, 4⟩
  else none

def replacement : Char := Char.ofNat 0xFFFD

/-- Reads on with the octets still owed. A character that breaks off becomes one U+FFFD, and the
octet that broke it is read again as the first of the next. -/
def lossy : Option Owed → List Char → Bytes → List Char
  | none, acc, [] => acc.reverse
  | some _, acc, [] => (replacement :: acc).reverse
  | none, acc, b :: rest =>
    match lead b with
    | none => lossy none (replacement :: acc) rest
    | some o =>
      if o.count = 0 then lossy none (Char.ofNat o.value :: acc) rest
      else lossy (some o) acc rest
  | some o, acc, b :: rest =>
    if o.low ≤ b ∧ b ≤ o.high then
      let value := o.value * 64 + b.toNat % 64
      if o.count ≤ 1 then lossy none (Char.ofNat value :: acc) rest
      else lossy (some ⟨o.count - 1, 0x80, 0xBF, value⟩) acc rest
    else
      match lead b with
      | none => lossy none (replacement :: replacement :: acc) rest
      | some o' =>
        if o'.count = 0 then lossy none (Char.ofNat o'.value :: replacement :: acc) rest
        else lossy (some o') (replacement :: acc) rest

def decodeLossy (bytes : Bytes) : String := String.ofList (lossy none [] bytes)

end Text.Utf8

end RoundTrip
