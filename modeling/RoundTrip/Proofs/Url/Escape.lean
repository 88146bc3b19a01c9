import Mathlib.Tactic.Tauto
import RoundTrip.Proofs.Text.Octets
import RoundTrip.Url.Extend

namespace RoundTrip.Url

open Text.Utf8 (octets)

namespace Percent

theorem mem_encodeByte {b : UInt8} {c : Char} (h : c ∈ encodeByte b) :
    c = '%' ∨ ∃ n < 16, c = hexDigit n := by
  have := b.toNat_lt
  simp only [encodeByte, List.mem_cons, List.not_mem_nil, or_false] at h
  rcases h with rfl | rfl | rfl
  · exact .inl rfl
  · exact .inr ⟨_, by omega, rfl⟩
  · exact .inr ⟨_, by omega, rfl⟩

theorem mem_encode {escaped : Char → Bool} {cs : List Char} {c : Char}
    (h : c ∈ encode escaped cs) :
    (c ∈ cs ∧ escaped c = false) ∨ c = '%' ∨ ∃ n < 16, c = hexDigit n := by
  obtain ⟨d, hd, h⟩ := List.mem_flatMap.1 h
  split at h
  next =>
    obtain ⟨b, -, hc⟩ := List.mem_flatMap.1 h
    exact .inr (mem_encodeByte hc)
  next plain =>
    rw [List.mem_singleton] at h
    exact .inl ⟨h ▸ hd, h ▸ Bool.eq_false_iff.2 plain⟩

theorem slash_ne_hexDigit : ∀ n < 16, '/' ≠ hexDigit n := by decide

theorem slash_not_mem_encode {escaped : Char → Bool} {cs : List Char}
    (apart : '/' ∈ cs → escaped '/' = true) : '/' ∉ encode escaped cs := by
  intro slash
  rcases mem_encode slash with ⟨mem, plain⟩ | percent | ⟨n, small, digit⟩
  · rw [apart mem] at plain
    cases plain
  · exact absurd percent (by decide)
  · exact slash_ne_hexDigit n small digit

/-- Text within one segment: nothing in it divides or ends a path, and every percent sign begins an
escape. -/
inductive Sealed : List Char → Prop
  | nil : Sealed []
  | escape {a b : Char} {rest : List Char} : (Text.hexValue a).isSome → (Text.hexValue b).isSome →
      Sealed rest → Sealed ('%' :: a :: b :: rest)
  | plain {c : Char} {rest : List Char} : c ∉ ['/', '\\', '?', '#', '%', ' '] →
      isControl c = false → Sealed rest → Sealed (c :: rest)

theorem Sealed.octets {rest : List Char} (h : Sealed rest) (bytes : Bytes) :
    Sealed (bytes.flatMap encodeByte ++ rest) := by
  induction bytes with
  | nil => exact h
  | cons b bytes ih =>
    have := b.toNat_lt
    have isDigit {n : Nat} (small : n < 16) : (Text.hexValue (hexDigit n)).isSome := by
      rw [hexValue_hexDigit n small]
      rfl
    exact .escape (isDigit (by omega)) (isDigit (by omega)) ih

theorem plain_of_inSpecialSegment {c : Char} (h : inSpecialSegment c = false) :
    c ∉ ['/', '\\', '?', '#', '%', ' '] ∧ isControl c = false := by
  simp only [inSpecialSegment, inSegment, inPath, inFragment, Bool.or_eq_false_iff,
    beq_eq_false_iff_ne] at h
  simp only [List.mem_cons, List.not_mem_nil, or_false, not_or]
  tauto

theorem sealed_encode (cs : List Char) : Sealed (encode inSpecialSegment cs) := by
  induction cs with
  | nil => exact .nil
  | cons c rest ih =>
    rw [encode, List.flatMap_cons]
    split
    next => exact ih.octets _
    next unescaped =>
      obtain ⟨apart, visible⟩ := plain_of_inSpecialSegment (Bool.eq_false_iff.2 unescaped)
      exact .plain apart visible ih

end Percent

theorem toNat_toLower (c : Char) : c.toLower.toNat = c.toNat ∨
    65 ≤ c.toNat ∧ c.toNat ≤ 90 ∧ c.toLower.toNat = c.toNat + 32 := by
  cases capital : c.isUpper with
  | false => exact .inl (congrArg Char.toNat (Text.toLower_of_not_isUpper capital))
  | true =>
    have bounds : 'A'.val ≤ c.val ∧ c.val ≤ 'Z'.val := of_decide_eq_true capital
    have raised : c.toLower.val = c.val + ('a'.val - 'A'.val) := congrArg Char.val (dif_pos bounds)
    have number := congrArg UInt32.toNat raised
    obtain ⟨low, high⟩ := bounds
    simp only [UInt32.le_iff_toNat_le, UInt32.toNat_add, Char.toNat_val, Char.reduceVal,
      UInt32.reduceToNat, UInt32.reduceSub, Nat.reducePow] at low high number
    omega

theorem eq_of_toLower {c d : Char} (h : c.toLower = d) (fixed : d.toNat < 97) : c = d := by
  subst h
  apply Char.ext
  rw [← UInt32.toNat_inj]
  have := toNat_toLower c
  change c.toNat = c.toLower.toNat
  omega

theorem hexValue_of_toLower {c : Char} (h : c.toLower = 'e') : Text.hexValue c = some 14 := by
  have number : c.toLower.toNat = 101 := congrArg Char.toNat h
  have cases : c.toNat = 101 ∨ c.toNat = 69 := by
    have := toNat_toLower c
    omega
  rcases cases with small | capital
  · obtain rfl : c = 'e' := Char.toNat_inj.1 small
    rfl
  · obtain rfl : c = 'E' := Char.toNat_inj.1 capital
    rfl

/-- Small letters apart, a dot is written in two ways. -/
def IsDot (cs : List Char) : Prop :=
  cs.map Char.toLower = ['.'] ∨ cs.map Char.toLower = ['%', '2', 'e']

theorem IsDot.decode {dot : List Char} (h : IsDot dot) (rest : List Char) :
    Percent.decode (dot ++ rest) = 0x2E :: Percent.decode rest := by
  rcases h with plain | escaped
  · obtain ⟨c, rfl, same⟩ := List.map_eq_singleton_iff.1 plain
    obtain rfl := eq_of_toLower same (by decide)
    exact Percent.decode_cons_of_ne (by decide) rest
  · obtain ⟨c, _, rfl, first, escaped⟩ := List.map_eq_cons_iff.1 escaped
    obtain ⟨d, _, rfl, second, escaped⟩ := List.map_eq_cons_iff.1 escaped
    obtain ⟨e, rfl, third⟩ := List.map_eq_singleton_iff.1 escaped
    obtain rfl := eq_of_toLower first (by decide)
    obtain rfl := eq_of_toLower second (by decide)
    simp only [List.cons_append, List.nil_append, Percent.decode, hexValue_of_toLower third]
    rfl

theorem IsDot.decode_one {cs : List Char} (h : IsDot cs) : Percent.decode cs = [0x2E] := by
  have read := h.decode []
  rwa [List.append_nil] at read

theorem decode_of_dots {segment : String} {d : Dots} (h : dots? segment = some d) :
    Percent.decode segment.toList = [0x2E] ∨ Percent.decode segment.toList = [0x2E, 0x2E] := by
  have lowered {t : String} (same : Text.lower segment = t) :
      segment.toList.map Char.toLower = t.toList := by
    rw [← Text.toList_lower, same]
  have two (first second : List Char)
      (same : segment.toList.map Char.toLower = first ++ second)
      (isFirst : first = ['.'] ∨ first = ['%', '2', 'e'])
      (isSecond : second = ['.'] ∨ second = ['%', '2', 'e']) :
      Percent.decode segment.toList = [0x2E, 0x2E] := by
    obtain ⟨xs, ys, divided, front, back⟩ := List.map_eq_append_iff.1 same
    have dot : IsDot xs := isFirst.imp front.trans front.trans
    have dot' : IsDot ys := isSecond.imp back.trans back.trans
    rw [divided, dot.decode, dot'.decode_one]
  rw [dots?] at h
  split at h
  next here =>
    have one : IsDot segment.toList := here.imp lowered lowered
    exact .inl one.decode_one
  next =>
    split at h
    next up =>
      right
      rcases up with up | up | up | up
      · exact two ['.'] ['.'] (lowered up) (.inl rfl) (.inl rfl)
      · exact two ['.'] ['%', '2', 'e'] (lowered up) (.inl rfl) (.inr rfl)
      · exact two ['%', '2', 'e'] ['.'] (lowered up) (.inr rfl) (.inl rfl)
      · exact two ['%', '2', 'e'] ['%', '2', 'e'] (lowered up) (.inr rfl) (.inr rfl)
    next => cases h

end RoundTrip.Url
