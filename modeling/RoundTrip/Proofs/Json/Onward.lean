import RoundTrip.Json.Reader
import RoundTrip.Proofs.Json.Number

/-!
A text that goes on is read as before: what was read stays, and what was left goes on. Only behind a
number something may follow that belongs to it.
-/

namespace RoundTrip.Json

theorem startsWithDigit_append {bytes more : Bytes}
    (stop : bytes = [] → startsWithDigit more = false) :
    startsWithDigit (bytes ++ more) = startsWithDigit bytes := by
  cases bytes with
  | nil => exact stop rfl
  | cons b bytes => rfl

def Halts (left more : Bytes) : Prop := left = [] → Ends more

section

variable {negative : Bool} {significand count : Nat} {shift : Int} {bytes left more : Bytes}
  {n : Number}

theorem gather_append (significand count : Nat)
    (stop : (gather significand count bytes).2.2 = [] → startsWithDigit more = false) :
    gather significand count (bytes ++ more) =
      ((gather significand count bytes).1, (gather significand count bytes).2.1,
        (gather significand count bytes).2.2 ++ more) := by
  induction bytes generalizing significand count with
  | nil =>
    have stop := stop rfl
    cases more with
    | nil => rfl
    | cons b more =>
      have stop : isDigit b = false := stop
      simp [gather, stop]
  | cons b bytes ih =>
    rw [List.cons_append, gather, gather]
    rw [gather] at stop
    split_ifs at stop ⊢ with fits
    · exact ih _ _ stop
    · rfl

theorem dropDigits_append (bytes : Bytes)
    (stop : dropDigits bytes = [] → startsWithDigit more = false) :
    dropDigits (bytes ++ more) = dropDigits bytes ++ more ∧
      (bytes ++ more).takeWhile isDigit = bytes.takeWhile isDigit := by
  induction bytes with
  | nil =>
    have stop := stop rfl
    cases more with
    | nil => exact ⟨rfl, rfl⟩
    | cons b more =>
      have stop : isDigit b = false := stop
      simp [dropDigits, stop]
  | cons b bytes ih =>
    simp only [dropDigits, List.cons_append, List.dropWhile_cons, List.takeWhile_cons] at *
    split_ifs at * with digit
    · obtain ⟨dropped, taken⟩ := ih stop
      exact ⟨dropped, by rw [taken]⟩
    · exact ⟨rfl, rfl⟩

theorem left_of_map {x : Except Fault Number} {rest : Bytes}
    (h : (x.map fun m => (m, rest)) = .ok (n, left)) : rest = left := by
  obtain ⟨m, -, same⟩ := map_eq_ok.1 h
  cases same
  rfl

theorem map_append {x : Except Fault Number} {rest : Bytes}
    (h : (x.map fun m => (m, rest)) = .ok (n, left)) (more : Bytes) :
    (x.map fun m => (m, rest ++ more)) = .ok (n, left ++ more) := by
  obtain ⟨m, rfl, same⟩ := map_eq_ok.1 h
  cases same
  rfl

def power (negative : Bool) (significand : Nat) (shift : Int) (down : Bool) (digits : Bytes) :
    Except Fault Number :=
  let exponent := digits.foldl (fun n b => n * 10 + digitValue b) 0
  if exponentLimit < exponent then
    if significand ≠ 0 ∧ !down then .error .numberOutOfRange
    else .ok (.float (signed negative .zero))
  else floatOf negative significand (if down then shift - exponent else shift + exponent)

def readPower (negative : Bool) (significand : Nat) (shift : Int) (down : Bool) :
    Bytes → Except Fault (Number × Bytes)
  | [] => .error .endInValue
  | b :: rest =>
    if !isDigit b then .error .invalidNumber
    else
      (power negative significand shift down ((b :: rest).takeWhile isDigit)).map fun n =>
        (n, dropDigits (b :: rest))

theorem readExponent_plus (negative : Bool) (significand : Nat) (shift : Int) (rest : Bytes) :
    readExponent negative significand shift (0x2B :: rest) =
      readPower negative significand shift false rest := by
  cases rest with
  | nil => rfl
  | cons b rest =>
    simp only [readExponent, readPower, power]
    split_ifs <;> rfl

theorem readExponent_minus (negative : Bool) (significand : Nat) (shift : Int) (rest : Bytes) :
    readExponent negative significand shift (0x2D :: rest) =
      readPower negative significand shift true rest := by
  cases rest with
  | nil => rfl
  | cons b rest =>
    simp only [readExponent, readPower, power]
    split_ifs <;> rfl

theorem readExponent_bare {b : UInt8} (noPlus : b ≠ 0x2B) (noMinus : b ≠ 0x2D) (negative : Bool)
    (significand : Nat) (shift : Int) (rest : Bytes) :
    readExponent negative significand shift (b :: rest) =
      readPower negative significand shift false (b :: rest) := by
  rw [readExponent.eq_def]
  split
  next down digits sign =>
    obtain ⟨rfl, rfl⟩ : down = false ∧ digits = b :: rest := by
      split at sign
      next same => exact absurd (List.cons.inj same).1 noPlus
      next same => exact absurd (List.cons.inj same).1 noMinus
      next =>
        cases sign
        exact ⟨rfl, rfl⟩
    simp only [readPower, power]
    split_ifs <;> rfl

theorem readPower_append {down : Bool}
    (h : readPower negative significand shift down bytes = .ok (n, left))
    (halts : Halts left more) :
    readPower negative significand shift down (bytes ++ more) = .ok (n, left ++ more) := by
  cases bytes with
  | nil => cases h
  | cons b bytes =>
    rw [List.cons_append]
    rw [readPower] at h ⊢
    split_ifs at h ⊢
    obtain ⟨dropped, taken⟩ := dropDigits_append (b :: bytes) fun none =>
      (halts ((left_of_map h).symm.trans none)).stop
    rw [← List.cons_append, dropped, taken]
    exact map_append h more

theorem readExponent_append (h : readExponent negative significand shift bytes = .ok (n, left))
    (halts : Halts left more) :
    readExponent negative significand shift (bytes ++ more) = .ok (n, left ++ more) := by
  cases bytes with
  | nil => cases h
  | cons b bytes =>
    rw [List.cons_append]
    by_cases plus : b = 0x2B
    · subst plus
      rw [readExponent_plus] at h ⊢
      exact readPower_append h halts
    · by_cases minus : b = 0x2D
      · subst minus
        rw [readExponent_minus] at h ⊢
        exact readPower_append h halts
      · rw [readExponent_bare plus minus] at h ⊢
        rw [← List.cons_append]
        exact readPower_append h halts

theorem readScale_append (h : readScale negative significand shift bytes = .ok (n, left))
    (halts : Halts left more) :
    readScale negative significand shift (bytes ++ more) = .ok (n, left ++ more) := by
  cases bytes with
  | nil =>
    obtain rfl := left_of_map h
    rw [List.nil_append, readScale_ends (halts rfl)]
    exact map_append h more
  | cons b bytes =>
    rw [List.cons_append]
    rw [readScale] at h ⊢
    split_ifs at h ⊢
    · exact readExponent_append h halts
    · exact map_append h more

theorem readScale_nil (h : readScale negative significand shift [] = .ok (n, left)) : left = [] :=
  (left_of_map h).symm

theorem readFraction_append (h : readFraction negative significand shift bytes = .ok (n, left))
    (halts : Halts left more) :
    readFraction negative significand shift (bytes ++ more) = .ok (n, left ++ more) := by
  simp only [readFraction] at h ⊢
  have stop : (gather significand 0 bytes).2.2 = [] → startsWithDigit more = false := by
    intro none
    rw [none] at h
    simp only [startsWithDigit, Bool.false_eq_true, if_false] at h
    split_ifs at h
    exact (halts (readScale_nil h)).stop
  rw [gather_append significand 0 stop, startsWithDigit_append stop]
  dsimp only
  split_ifs at h ⊢
  · have stop : dropDigits (gather significand 0 bytes).2.2 = [] →
        startsWithDigit more = false := by
      intro none
      rw [none] at h
      exact (halts (readScale_nil h)).stop
    rw [(dropDigits_append _ stop).1]
    exact readScale_append h halts
  · exact readScale_append h halts

theorem readRest_nil {long : Option Nat}
    (h : readRest negative significand long [] = .ok (n, left)) : left = [] := by
  cases long <;> exact (left_of_map h).symm

theorem readRest_append {long : Option Nat}
    (h : readRest negative significand long bytes = .ok (n, left)) (halts : Halts left more) :
    readRest negative significand long (bytes ++ more) = .ok (n, left ++ more) := by
  cases bytes with
  | nil =>
    have ends := halts (readRest_nil h)
    cases more with
    | nil =>
      rw [List.append_nil, List.append_nil]
      exact h
    | cons b more =>
      obtain ⟨-, noPoint, noExponent, noCapital⟩ := ends b rfl
      rw [List.nil_append]
      cases long with
      | none => simpa [readRest, noExponent, noCapital] using map_append h (b :: more)
      | some k => simpa [readRest, noExponent, noCapital] using map_append h (b :: more)
  | cons b bytes =>
    by_cases point : b = 0x2E
    · subst point
      exact readFraction_append h halts
    · rw [List.cons_append]
      simp only [readRest] at h ⊢
      split_ifs at h ⊢
      · exact readExponent_append h halts
      · cases long with
        | none => exact map_append h more
        | some k => exact map_append h more

theorem readMagnitude_append (h : readMagnitude negative bytes = .ok (n, left))
    (halts : Halts left more) : readMagnitude negative (bytes ++ more) = .ok (n, left ++ more) := by
  cases bytes with
  | nil => cases h
  | cons b bytes =>
    simp only [List.cons_append, readMagnitude] at h ⊢
    by_cases zero : b = 0x30
    · simp only [zero, if_true] at h ⊢
      split_ifs at h with other
      have stop : bytes = [] → startsWithDigit more = false := by
        rintro rfl
        exact (halts (readRest_nil h)).stop
      rw [startsWithDigit_append stop, if_neg other]
      exact readRest_append h halts
    · simp only [zero, if_false] at h ⊢
      split_ifs at h with other long
      · -- more digits than the significand holds
        have more_digits : (gather (digitValue b) 0 bytes).2.2 ≠ [] := by
          intro none
          rw [none] at long
          cases long
        have stop : dropDigits (gather (digitValue b) 0 bytes).2.2 = [] →
            startsWithDigit more = false := by
          intro none
          rw [none] at h
          exact (halts (readRest_nil h)).stop
        obtain ⟨dropped, taken⟩ := dropDigits_append _ stop
        rw [gather_append _ _ fun none => absurd none more_digits,
          startsWithDigit_append fun none => absurd none more_digits]
        rw [if_neg other, if_pos long, countDigits, taken, dropped]
        exact readRest_append h halts
      · have stop : (gather (digitValue b) 0 bytes).2.2 = [] → startsWithDigit more = false := by
          intro none
          rw [none] at h
          exact (halts (readRest_nil h)).stop
        rw [gather_append _ _ stop, startsWithDigit_append stop, if_neg other, if_neg long]
        exact readRest_append h halts

theorem readNumber_append (h : readNumber bytes = .ok (n, left)) (halts : Halts left more) :
    readNumber (bytes ++ more) = .ok (n, left ++ more) := by
  cases bytes with
  | nil => cases h
  | cons b bytes =>
    rw [List.cons_append]
    by_cases minus : b = 0x2D
    · subst minus
      exact readMagnitude_append h halts
    · have bare (rest : Bytes) : readNumber (b :: rest) = readMagnitude false (b :: rest) := by
        rw [readNumber]
        intro _ same
        exact minus (List.cons.inj same).1
      rw [bare] at h ⊢
      exact readMagnitude_append h halts

end

section

variable {bytes left : Bytes}

theorem readHex_append {n : Nat} (h : readHex bytes = .ok (n, left)) (more : Bytes) :
    readHex (bytes ++ more) = .ok (n, left ++ more) := by
  rw [readHex.eq_def] at h
  split at h
  next a b c d rest =>
    simp only [List.cons_append, readHex]
    split at h
    · cases h
      rfl
    · cases h
  next => cases h

theorem readTrail_append {lead : Nat} {c : Char} (h : readTrail lead bytes = .ok (c, left))
    (more : Bytes) : readTrail lead (bytes ++ more) = .ok (c, left ++ more) := by
  cases bytes with
  | nil => cases h
  | cons b bytes =>
    rw [List.cons_append]
    simp only [readTrail] at h ⊢
    split_ifs at h ⊢
    cases bytes with
    | nil => cases h
    | cons u bytes =>
      dsimp only [List.cons_append] at h ⊢
      split_ifs at h ⊢
      obtain ⟨⟨n, rest⟩, hex, h⟩ := bind_eq_ok.1 h
      refine bind_eq_ok.2 ⟨_, readHex_append hex more, ?_⟩
      dsimp only at h ⊢
      split at h
      next trail =>
        rw [if_pos trail]
        obtain ⟨rfl, rfl⟩ := Prod.mk.inj (Except.ok.inj h)
        rfl
      next => cases h

theorem readUnicode_append {c : Char} (h : readUnicode bytes = .ok (c, left)) (more : Bytes) :
    readUnicode (bytes ++ more) = .ok (c, left ++ more) := by
  obtain ⟨⟨n, rest⟩, hex, h⟩ := bind_eq_ok.1 h
  refine bind_eq_ok.2 ⟨_, readHex_append hex more, ?_⟩
  dsimp only at h ⊢
  split_ifs at h ⊢
  · exact readTrail_append h more
  · cases h
    rfl

theorem readEscape_append {c : Char} (h : readEscape bytes = .ok (c, left)) (more : Bytes) :
    readEscape (bytes ++ more) = .ok (c, left ++ more) := by
  cases bytes with
  | nil => cases h
  | cons b bytes =>
    rw [List.cons_append]
    rw [readEscape] at h ⊢
    split_ifs at h ⊢
    · exact readUnicode_append h more
    · split at h
      · cases h
        rfl
      · cases h

theorem gatherString_append {fuel fuel' : Nat} (enough : fuel ≤ fuel') {acc out : Bytes}
    (h : gatherString fuel acc bytes = .ok (out, left)) (more : Bytes) :
    gatherString fuel' acc (bytes ++ more) = .ok (out, left ++ more) := by
  induction fuel generalizing fuel' acc bytes with
  | zero => cases h
  | succ fuel ih =>
    obtain ⟨fuel', rfl⟩ := Nat.exists_eq_add_of_le' enough
    have enough : fuel ≤ fuel' + fuel := Nat.le_add_left _ _
    cases bytes with
    | nil => cases h
    | cons b bytes =>
      rw [List.cons_append, ← Nat.add_assoc]
      rw [gatherString] at h ⊢
      split_ifs at h ⊢
      · cases h
        rfl
      · split at h
        · cases h
        next escape =>
          rw [readEscape_append escape more]
          exact ih enough h
      · exact ih enough h

theorem readString_append {fuel fuel' : Nat} (enough : fuel ≤ fuel') {s : String}
    (h : readString fuel bytes = .ok (s, left)) (more : Bytes) :
    readString fuel' (bytes ++ more) = .ok (s, left ++ more) := by
  rw [readString] at h ⊢
  split at h
  · cases h
  next gathered =>
    rw [gatherString_append enough gathered more]
    split at h
    next decoded =>
      cases h
      simp only [decoded]
    next => cases h

theorem readWord_append {value v : Json} {word : Bytes}
    (h : readWord value word bytes = .ok (v, left)) (more : Bytes) :
    readWord value word (bytes ++ more) = .ok (v, left ++ more) := by
  induction word generalizing bytes with
  | nil =>
    cases h
    rfl
  | cons w word ih =>
    cases bytes with
    | nil => cases h
    | cons b bytes =>
      rw [List.cons_append]
      rw [readWord] at h ⊢
      split_ifs at h ⊢
      exact ih h

theorem skipSpace_append {b : UInt8} (h : skipSpace bytes = b :: left) (more : Bytes) :
    skipSpace (bytes ++ more) = b :: (left ++ more) := by
  induction bytes with
  | nil => cases h
  | cons c bytes ih =>
    rw [List.cons_append]
    rw [skipSpace] at h ⊢
    split_ifs at h ⊢
    · exact ih h
    · cases h
      rfl

end

/-- What `read` makes of a text `read'` makes of it too when it goes on. -/
def GoesOn (read read' : ValueReader) : Prop :=
  ∀ bytes v left more, read bytes = .ok (v, left) → Halts left more →
    read' (bytes ++ more) = .ok (v, left ++ more)

section

variable {read read' : ValueReader} (goesOn : GoesOn read read') {bytes left : Bytes}
  {fuel fuel' : Nat} {v : Json}

theorem readItems_nil (read : ValueReader) (fuel : Nat) (acc : List Json) :
    readItems read fuel acc [] = .error .endInArray := by
  cases fuel <;> rfl

theorem readMembers_nil (read : ValueReader) (size fuel : Nat) (acc : List (String × Json)) :
    readMembers read size fuel acc [] = .error .endInObject := by
  cases fuel <;> rfl

include goesOn

theorem GoesOn.cons {b : UInt8} (h : read (b :: bytes) = .ok (v, left)) (more : Bytes)
    (halts : Halts left more) : read' (b :: (bytes ++ more)) = .ok (v, left ++ more) :=
  goesOn _ _ _ more h halts

theorem GoesOn.readItems (enough : fuel ≤ fuel') {acc : List Json}
    (h : readItems read fuel acc bytes = .ok (v, left)) (more : Bytes) :
    readItems read' fuel' acc (bytes ++ more) = .ok (v, left ++ more) := by
  induction fuel generalizing fuel' acc bytes with
  | zero => cases h
  | succ fuel ih =>
    obtain ⟨fuel', rfl⟩ := Nat.exists_eq_add_of_le' enough
    have enough : fuel ≤ fuel' + fuel := Nat.le_add_left _ _
    rw [← Nat.add_assoc]
    rw [Json.readItems] at h ⊢
    split at h
    · cases h
    next mark rest skipped =>
      rw [skipSpace_append skipped more]
      dsimp only
      split_ifs at h ⊢
      · cases h
        rfl
      · split at h
        · cases h
        next first rest skipped =>
          rw [skipSpace_append skipped more]
          dsimp only
          split_ifs at h ⊢
          split at h
          · cases h
          next one =>
            have read := goesOn.cons one more fun none => by
              rw [none, readItems_nil] at h
              cases h
            rw [read]
            exact ih enough h

theorem GoesOn.readArray (enough : fuel ≤ fuel')
    (h : readArray read fuel bytes = .ok (v, left)) (more : Bytes) :
    readArray read' fuel' (bytes ++ more) = .ok (v, left ++ more) := by
  rw [Json.readArray] at h ⊢
  split at h
  · cases h
  next first rest skipped =>
    rw [skipSpace_append skipped more]
    dsimp only
    split_ifs at h ⊢
    · cases h
      rfl
    · split at h
      · cases h
      next one =>
        have read := goesOn.cons one more fun none => by
          rw [none, readItems_nil] at h
          cases h
        rw [read]
        exact goesOn.readItems enough h more

theorem GoesOn.readMember (enough : fuel ≤ fuel') {m : String × Json}
    (h : readMember read fuel bytes = .ok (m, left)) (more : Bytes) (halts : Halts left more) :
    readMember read' fuel' (bytes ++ more) = .ok (m, left ++ more) := by
  rw [Json.readMember] at h ⊢
  split at h
  · cases h
  next name =>
    rw [readString_append enough name more]
    dsimp only
    split at h
    · cases h
    next colon rest skipped =>
      rw [skipSpace_append skipped more]
      dsimp only
      split_ifs at h ⊢
      split at h
      · cases h
      next first rest skipped =>
        rw [skipSpace_append skipped more]
        dsimp only
        split at h
        · cases h
        next one =>
          cases h
          rw [goesOn.cons one more halts]

theorem GoesOn.readMembers {size size' : Nat} (larger : size ≤ size') (enough : fuel ≤ fuel')
    {acc : List (String × Json)} (h : readMembers read size fuel acc bytes = .ok (v, left))
    (more : Bytes) :
    readMembers read' size' fuel' acc (bytes ++ more) = .ok (v, left ++ more) := by
  induction fuel generalizing fuel' acc bytes with
  | zero => cases h
  | succ fuel ih =>
    obtain ⟨fuel', rfl⟩ := Nat.exists_eq_add_of_le' enough
    have enough : fuel ≤ fuel' + fuel := Nat.le_add_left _ _
    rw [← Nat.add_assoc]
    rw [Json.readMembers] at h ⊢
    split at h
    · cases h
    next mark rest skipped =>
      rw [skipSpace_append skipped more]
      dsimp only
      split_ifs at h ⊢
      · cases h
        rfl
      · split at h
        · cases h
        next first rest skipped =>
          rw [skipSpace_append skipped more]
          dsimp only
          split_ifs at h ⊢
          split at h
          · cases h
          next one =>
            have read := goesOn.readMember larger one more fun none => by
              rw [none, readMembers_nil] at h
              cases h
            rw [read]
            exact ih enough h

theorem GoesOn.readObject (enough : fuel ≤ fuel')
    (h : readObject read fuel bytes = .ok (v, left)) (more : Bytes) :
    readObject read' fuel' (bytes ++ more) = .ok (v, left ++ more) := by
  rw [Json.readObject] at h ⊢
  split at h
  · cases h
  next first rest skipped =>
    rw [skipSpace_append skipped more]
    dsimp only
    split_ifs at h ⊢
    · cases h
      rfl
    · split at h
      · cases h
      next one =>
        have read := goesOn.readMember enough one more fun none => by
          rw [none, readMembers_nil] at h
          cases h
        rw [read]
        exact goesOn.readMembers enough enough h more

end

theorem goesOn_step {size size' depth : Nat} (larger : size ≤ size')
    (deeper : ∀ d, depth = d + 1 → GoesOn (readValue size d) (readValue size' d)) :
    GoesOn (readValue size depth) (readValue size' depth) := by
  intro bytes v left more h halts
  cases bytes with
  | nil =>
    rw [readValue.eq_def] at h
    cases h
  | cons b rest =>
    rw [List.cons_append]
    rw [readValue.eq_def] at h ⊢
    dsimp only at h ⊢
    split_ifs at h ⊢
    · exact readWord_append h more
    · exact readWord_append h more
    · exact readWord_append h more
    · obtain ⟨p, text, same⟩ := map_eq_ok.1 h
      cases same
      rw [readString_append larger text more]
      rfl
    · cases depth with
      | zero => cases h
      | succ d => exact (deeper d rfl).readArray larger h more
    · cases depth with
      | zero => cases h
      | succ d => exact (deeper d rfl).readObject larger h more
    · obtain ⟨p, number, same⟩ := map_eq_ok.1 h
      cases same
      have read := readNumber_append number halts
      rw [List.cons_append] at read
      rw [read]
      rfl

theorem goesOn_readValue {size size' : Nat} (larger : size ≤ size') (depth : Nat) :
    GoesOn (readValue size depth) (readValue size' depth) := by
  induction depth with
  | zero => exact goesOn_step larger nofun
  | succ depth ih =>
    apply goesOn_step larger
    rintro d ⟨⟩
    exact ih

end RoundTrip.Json
