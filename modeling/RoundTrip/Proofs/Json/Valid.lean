import RoundTrip.Json.Reader
import RoundTrip.Proofs.Json.Float
import RoundTrip.Proofs.Text.Entries

namespace RoundTrip.Json

theorem finite_multiplyByPower {d r : Double} {n : Nat} (finite : d.Finite)
    (h : multiplyByPower d n = some r) : r.Finite := by
  rw [multiplyByPower] at h
  split_ifs at h
  · obtain ⟨p, -, product⟩ := Option.bind_eq_some_iff.1 h
    exact Double.finite_of_ofRatio (Nat.mul_pos d.ratio_pos p.ratio_pos) product
  · cases h
    exact finite

theorem finite_scaleByPower {d r : Double} {e : Int} (finite : d.Finite)
    (h : scaleByPower d e = some r) : r.Finite := by
  cases e with
  | ofNat n => exact finite_multiplyByPower finite h
  | negSucc n =>
    obtain ⟨q, same, finite⟩ := exists_divide (n + 1) finite (Nat.le_refl _)
    cases h.symm.trans same
    exact finite

theorem valid_floatOf {negative : Bool} {significand : Nat} {exponent : Int} {n : Number}
    (h : floatOf negative significand exponent = .ok n) : n.Valid := by
  rw [floatOf] at h
  split at h
  next r scaled =>
    cases h
    obtain ⟨d, rounds, scaled⟩ := Option.bind_eq_some_iff.1 scaled
    exact finite_signed
      (finite_scaleByPower (Double.finite_of_ofRatio Nat.one_pos rounds) scaled) negative
  next => cases h

theorem valid_integerOf {negative : Bool} {m : Nat} {n : Number} (fits : m < significandBound)
    (h : integerOf negative m = .ok n) : n.Valid := by
  rw [significandBound, Nat.pow_eq] at fits
  rw [integerOf] at h
  split_ifs at h with unsigned beyond
  · cases h
    exact ⟨by omega, by omega⟩
  · exact valid_floatOf h
  · cases h
    rw [Nat.pow_eq] at beyond
    exact ⟨by omega, by omega⟩

theorem gather_lt {significand : Nat} (fits : significand < significandBound) (count : Nat)
    (bytes : Bytes) : (gather significand count bytes).1 < significandBound := by
  induction bytes generalizing significand count with
  | nil => exact fits
  | cons b rest ih =>
    rw [gather]
    split_ifs with more
    · exact ih more.2 (count + 1)
    · exact fits

section

variable {negative : Bool} {significand : Nat} {shift : Int} {bytes rest : Bytes} {n : Number}

theorem valid_of_map {x : Except Fault Number} {left : Bytes} (valid : ∀ m, x = .ok m → m.Valid)
    (h : (x.map fun m => (m, left)) = .ok (n, rest)) : n.Valid := by
  obtain ⟨_, read, same⟩ := map_eq_ok.1 h
  cases same
  exact valid n read

theorem valid_scaled {exponent : Int} {left : Bytes}
    (h : ((floatOf negative significand exponent).map fun m => (m, left)) = .ok (n, rest)) :
    n.Valid :=
  valid_of_map (fun _ => valid_floatOf) h

theorem valid_readExponent (h : readExponent negative significand shift bytes = .ok (n, rest)) :
    n.Valid := by
  rw [readExponent.eq_def] at h
  split at h
  dsimp only at h
  split at h
  · cases h
  · split_ifs at h
    · cases h
      exact finite_signed Double.Finite.zero negative
    · exact valid_scaled h
    · exact valid_scaled h

theorem valid_readScale (h : readScale negative significand shift bytes = .ok (n, rest)) :
    n.Valid := by
  rw [readScale.eq_def] at h
  split at h
  · split_ifs at h
    · exact valid_readExponent h
    · exact valid_scaled h
  · exact valid_scaled h

theorem valid_readFraction (h : readFraction negative significand shift bytes = .ok (n, rest)) :
    n.Valid := by
  simp only [readFraction] at h
  split_ifs at h
  · exact valid_readScale h
  · exact valid_readScale h

theorem valid_readRest (fits : significand < significandBound) {long : Option Nat}
    (h : readRest negative significand long bytes = .ok (n, rest)) : n.Valid := by
  rw [readRest.eq_def] at h
  split at h
  · exact valid_readFraction h
  · split_ifs at h
    · exact valid_readExponent h
    · split at h
      · exact valid_scaled h
      · exact valid_of_map (fun _ => valid_integerOf fits) h
  · split at h
    · exact valid_scaled h
    · exact valid_of_map (fun _ => valid_integerOf fits) h

theorem valid_readMagnitude (h : readMagnitude negative bytes = .ok (n, rest)) : n.Valid := by
  have zero : 0 < significandBound := by decide
  cases bytes with
  | nil => cases h
  | cons b bytes =>
    have digit : digitValue b < significandBound := by
      have byte : b.toNat < 256 := b.toNat_lt
      have bound : significandBound = 18446744073709551616 := rfl
      rw [digitValue]
      omega
    have gathered := gather_lt digit 0 bytes
    simp only [readMagnitude] at h
    split_ifs at h
    · exact valid_readRest zero h
    · exact valid_readRest gathered h
    · exact valid_readRest gathered h

theorem valid_readNumber (h : readNumber bytes = .ok (n, rest)) : n.Valid := by
  rw [readNumber.eq_def] at h
  split at h
  · exact valid_readMagnitude h
  · exact valid_readMagnitude h

end

inductive Valid : Json → Prop
  | null : Valid .null
  | bool (b : Bool) : Valid (.bool b)
  | num {n : Number} (number : n.Valid) : Valid (.num n)
  | str (s : String) : Valid (.str s)
  | arr {items : List Json} (all : ∀ v ∈ items, Valid v) : Valid (.arr items)
  | obj {members : List (String × Json)} (sorted : Entries.Sorted members)
      (all : ∀ m ∈ members, Valid m.2) : Valid (.obj members)

def Sound (read : ValueReader) : Prop := ∀ bytes v rest, read bytes = .ok (v, rest) → v.Valid

theorem valid_readWord {value v : Json} (valid : value.Valid) {word bytes rest : Bytes}
    (h : readWord value word bytes = .ok (v, rest)) : v.Valid := by
  induction word generalizing bytes with
  | nil =>
    cases h
    exact valid
  | cons w word ih =>
    cases bytes with
    | nil => cases h
    | cons b bytes =>
      rw [readWord] at h
      split_ifs at h
      exact ih h

section

variable {read : ValueReader} (sound : Sound read) {bytes rest : Bytes} {v : Json}

include sound

theorem Sound.readItems {fuel : Nat} {acc : List Json} (valid : ∀ v ∈ acc, v.Valid)
    (h : readItems read fuel acc bytes = .ok (v, rest)) : v.Valid := by
  induction fuel generalizing acc bytes with
  | zero => cases h
  | succ fuel ih =>
    rw [Json.readItems] at h
    split at h
    · cases h
    · split_ifs at h
      · cases h
        exact .arr fun v hv => valid v (List.mem_reverse.1 hv)
      · split at h
        · cases h
        · split_ifs at h
          split at h
          · cases h
          next item _ one => exact ih (List.forall_mem_cons.2 ⟨sound _ _ _ one, valid⟩) h

theorem Sound.readArray {fuel : Nat} (h : readArray read fuel bytes = .ok (v, rest)) :
    v.Valid := by
  rw [Json.readArray] at h
  split at h
  · cases h
  · split_ifs at h
    · cases h
      exact .arr nofun
    · split at h
      · cases h
      next one => exact sound.readItems (List.forall_mem_singleton.2 (sound _ _ _ one)) h

theorem Sound.readMember {fuel : Nat} {name : String}
    (h : readMember read fuel bytes = .ok ((name, v), rest)) : v.Valid := by
  rw [Json.readMember] at h
  split at h
  · cases h
  · split at h
    · cases h
    · split_ifs at h
      split at h
      · cases h
      · split at h
        · cases h
        next one =>
          cases h
          exact sound _ _ _ one

theorem Sound.readMembers {size fuel : Nat} {acc : List (String × Json)}
    (sorted : Entries.Sorted acc) (valid : ∀ m ∈ acc, m.2.Valid)
    (h : readMembers read size fuel acc bytes = .ok (v, rest)) : v.Valid := by
  induction fuel generalizing acc bytes with
  | zero => cases h
  | succ fuel ih =>
    rw [Json.readMembers] at h
    split at h
    · cases h
    · split_ifs at h
      · cases h
        exact .obj sorted valid
      · split at h
        · cases h
        · split_ifs at h
          split at h
          · cases h
          next name item _ one =>
            apply ih (sorted.put name item) _ h
            intro m hm
            rcases Entries.mem_put hm with rfl | hm
            · exact sound.readMember one
            · exact valid m hm

theorem Sound.readObject {fuel : Nat} (h : readObject read fuel bytes = .ok (v, rest)) :
    v.Valid := by
  rw [Json.readObject] at h
  split at h
  · cases h
  · split_ifs at h
    · cases h
      exact .obj List.Pairwise.nil nofun
    · split at h
      · cases h
      next one =>
        exact sound.readMembers (List.pairwise_singleton _ _)
          (List.forall_mem_singleton.2 (sound.readMember one)) h

end

theorem sound_step {size depth : Nat} (deeper : ∀ d, depth = d + 1 → Sound (readValue size d)) :
    Sound (readValue size depth) := by
  intro bytes v rest h
  rw [readValue.eq_def] at h
  split at h
  · cases h
  · split_ifs at h
    · exact valid_readWord .null h
    · exact valid_readWord (.bool true) h
    · exact valid_readWord (.bool false) h
    · obtain ⟨p, -, same⟩ := map_eq_ok.1 h
      cases same
      exact .str p.1
    · split at h
      · cases h
      next d => exact (deeper d rfl).readArray h
    · split at h
      · cases h
      next d => exact (deeper d rfl).readObject h
    · obtain ⟨p, number, same⟩ := map_eq_ok.1 h
      cases same
      exact .num (valid_readNumber number)

theorem sound_readValue (size depth : Nat) : Sound (readValue size depth) := by
  induction depth with
  | zero => exact sound_step nofun
  | succ depth ih =>
    apply sound_step
    rintro d ⟨⟩
    exact ih

theorem valid_of_parse {bytes : Bytes} {v : Json} (h : parse bytes = .ok v) : v.Valid := by
  rw [parse] at h
  split at h
  · cases h
  next one =>
    split_ifs at h
    cases h
    exact sound_readValue _ _ _ _ _ one

end RoundTrip.Json
