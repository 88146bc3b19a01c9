import RoundTrip.Proofs.Json.Reread

/-!
What is left of a value that is written and read twice. Only floats can change on the way, and a
string whose own characters are read as JSON is never read as itself.
-/

namespace RoundTrip.Json

open Text.Utf8

/-- Its floats are what they were after two readings. -/
inductive Steady : Json → Prop
  | null : Steady .null
  | bool (b : Bool) : Steady (.bool b)
  | num {n : Number} (same : n.reread.reread = n) : Steady (.num n)
  | str (s : String) : Steady (.str s)
  | arr {items : List Json} (all : ∀ v ∈ items, Steady v) : Steady (.arr items)
  | obj {members : List (String × Json)} (all : ∀ m ∈ members, Steady m.2) : Steady (.obj members)

theorem reread_items_iff (items : List Json) :
    (arr items).reread.reread = .arr items ↔ ∀ v ∈ items, v.reread.reread = v := by
  have twice : (arr items).reread.reread = .arr (items.map fun v => v.reread.reread) := by
    rw [reread, reread, rereadItems_eq, rereadItems_eq, List.map_map]
    rfl
  rw [twice, arr.injEq]
  conv_lhs => rhs; rw [← List.map_id items]
  exact List.map_inj_left

theorem reread_members_iff (members : List (String × Json)) :
    (obj members).reread.reread = .obj members ↔ ∀ m ∈ members, m.2.reread.reread = m.2 := by
  have twice : (obj members).reread.reread =
      .obj (members.map fun m => (m.1, m.2.reread.reread)) := by
    rw [reread, reread, rereadMembers_eq, rereadMembers_eq, List.map_map]
    rfl
  rw [twice, obj.injEq]
  conv_lhs => rhs; rw [← List.map_id members]
  rw [List.map_inj_left]
  simp [Prod.ext_iff]

theorem Valid.reread_reread_iff {v : Json} (valid : v.Valid) :
    v.reread.reread = v ↔ v.Steady := by
  induction valid with
  | null => exact ⟨fun _ => .null, fun _ => rfl⟩
  | bool b => exact ⟨fun _ => .bool b, fun _ => rfl⟩
  | num number =>
    constructor
    · intro same
      exact .num (num.inj same)
    · rintro (_ | _ | same)
      rw [reread, reread, same]
  | str s => exact ⟨fun _ => .str s, fun _ => rfl⟩
  | arr all ih =>
    rw [reread_items_iff]
    constructor
    · intro same
      exact .arr fun v hv => (ih v hv).1 (same v hv)
    · rintro (_ | _ | _ | _ | steady) v hv
      exact (ih v hv).2 (steady v hv)
  | obj sorted all ih =>
    rw [reread_members_iff]
    constructor
    · intro same
      exact .obj fun m hm => (ih m hm).1 (same m hm)
    · rintro (_ | _ | _ | _ | _ | steady) m hm
      exact (ih m hm).2 (steady m hm)

example :
    let n : Number := .float ⟨false, 8271806125530276, 79⟩
    n.reread.reread ≠ n := by
  decide +kernel

theorem Valid.depth_reread {v : Json} (valid : v.Valid) : v.reread.depth = v.depth := by
  induction valid with
  | null => rfl
  | bool b => rfl
  | num number => rfl
  | str s => rfl
  | arr all ih =>
    rw [reread, depth, depth, rereadItems_eq, Nat.add_right_cancel_iff]
    apply eq_of_forall_ge_iff
    intro n
    rw [itemsDepth_le_iff, itemsDepth_le_iff, List.forall_mem_map]
    exact forall₂_congr fun v hv => by rw [ih v hv]
  | obj sorted all ih =>
    rw [reread, depth, depth, rereadMembers_eq, Nat.add_right_cancel_iff]
    apply eq_of_forall_ge_iff
    intro n
    rw [membersDepth_le_iff, membersDepth_le_iff, List.forall_mem_map]
    exact forall₂_congr fun m hm => by rw [ih m hm]

section

variable {bytes rest : Bytes} {c : Char}

theorem length_readHex {n : Nat} (h : readHex bytes = .ok (n, rest)) :
    rest.length + 4 = bytes.length := by
  rw [readHex.eq_def] at h
  split at h
  · split at h
    · cases h
      rfl
    · cases h
  · cases h

theorem length_readTrail {lead : Nat} (h : readTrail lead bytes = .ok (c, rest)) :
    rest.length ≤ bytes.length := by
  cases bytes with
  | nil => cases h
  | cons b bytes =>
    simp only [readTrail] at h
    split_ifs at h
    split at h
    · cases h
    · split_ifs at h
      obtain ⟨⟨n, left⟩, hex, h⟩ := bind_eq_ok.1 h
      have taken := length_readHex hex
      split at h
      · obtain ⟨-, rfl⟩ := Prod.mk.inj (Except.ok.inj h)
        simp only [List.length_cons]
        omega
      · cases h

theorem length_readUnicode (h : readUnicode bytes = .ok (c, rest)) :
    rest.length + 4 ≤ bytes.length := by
  obtain ⟨⟨n, left⟩, hex, h⟩ := bind_eq_ok.1 h
  have taken := length_readHex hex
  dsimp only at h
  split at h
  · cases h
  · split at h
    · have trail := length_readTrail h
      omega
    · cases h
      omega

theorem utf8Size_shortEscape {b : UInt8} (h : shortEscape? b = some c) : c.utf8Size = 1 := by
  rw [shortEscape?] at h
  split_ifs at h <;> cases h <;> rfl

theorem length_readEscape (h : readEscape bytes = .ok (c, rest)) :
    c.utf8Size + rest.length ≤ bytes.length := by
  cases bytes with
  | nil => cases h
  | cons b bytes =>
    rw [readEscape] at h
    rw [List.length_cons]
    split_ifs at h
    · have taken := length_readUnicode h
      have small := c.utf8Size_le_four
      omega
    · split at h
      next short =>
        cases h
        have single := utf8Size_shortEscape short
        omega
      next => cases h

theorem length_gatherString {fuel : Nat} {acc out : Bytes}
    (h : gatherString fuel acc bytes = .ok (out, rest)) :
    out.length + rest.length < acc.length + bytes.length := by
  induction fuel generalizing acc bytes with
  | zero => cases h
  | succ fuel ih =>
    cases bytes with
    | nil => cases h
    | cons b bytes =>
      rw [gatherString] at h
      rw [List.length_cons]
      split_ifs at h
      · cases h
        omega
      · split at h
        · cases h
        next c left escape =>
          have taken := length_readEscape escape
          have later := ih h
          rw [List.length_append, List.length_reverse, String.length_utf8EncodeChar] at later
          omega
      · have later := ih h
        rw [List.length_cons] at later
        omega

theorem encode_of_decode? {s : String} (h : decode? bytes = some s) : encode s = bytes := by
  rw [decode?, String.fromUTF8?] at h
  split_ifs at h with valid
  have same : s.toByteArray = bytes.toByteArray := by
    cases h
    rfl
  have octets := congrArg ByteArray.data ((toByteArray_encode s).trans same)
  rw [List.data_toByteArray, List.data_toByteArray] at octets
  exact List.toArray_inj octets

theorem length_readString {fuel : Nat} {s : String} (h : readString fuel bytes = .ok (s, rest)) :
    (encode s).length + rest.length < bytes.length := by
  rw [readString] at h
  split at h
  · cases h
  next acc left gathered =>
    have taken := length_gatherString gathered
    split at h
    next decoded =>
      cases h
      rw [List.length_nil, Nat.zero_add] at taken
      rwa [encode_of_decode? decoded, List.length_reverse]
    next => cases h

theorem length_skipSpace (bytes : Bytes) : (skipSpace bytes).length ≤ bytes.length := by
  induction bytes with
  | nil => exact Nat.le_refl 0
  | cons b bytes ih =>
    rw [skipSpace]
    split_ifs
    · exact ih.trans (Nat.le_succ _)
    · exact Nat.le_refl _

theorem readWord_value {value v : Json} {word : Bytes}
    (h : readWord value word bytes = .ok (v, rest)) : v = value := by
  induction word generalizing bytes with
  | nil =>
    cases h
    rfl
  | cons w word ih =>
    cases bytes with
    | nil => cases h
    | cons b bytes =>
      rw [readWord] at h
      split_ifs at h
      exact ih h

theorem readItems_arr {read : ValueReader} {fuel : Nat} {acc : List Json} {v : Json}
    (h : readItems read fuel acc bytes = .ok (v, rest)) : ∃ items, v = .arr items := by
  induction fuel generalizing acc bytes with
  | zero => cases h
  | succ fuel ih =>
    rw [readItems] at h
    split at h
    · cases h
    · split_ifs at h
      · cases h
        exact ⟨_, rfl⟩
      · split at h
        · cases h
        · split_ifs at h
          split at h
          · cases h
          · exact ih h

theorem readArray_arr {read : ValueReader} {fuel : Nat} {v : Json}
    (h : readArray read fuel bytes = .ok (v, rest)) : ∃ items, v = .arr items := by
  rw [readArray] at h
  split at h
  · cases h
  · split_ifs at h
    · cases h
      exact ⟨_, rfl⟩
    · split at h
      · cases h
      · exact readItems_arr h

theorem readMembers_obj {read : ValueReader} {size fuel : Nat} {acc : List (String × Json)}
    {v : Json} (h : readMembers read size fuel acc bytes = .ok (v, rest)) :
    ∃ members, v = .obj members := by
  induction fuel generalizing acc bytes with
  | zero => cases h
  | succ fuel ih =>
    rw [readMembers] at h
    split at h
    · cases h
    · split_ifs at h
      · cases h
        exact ⟨_, rfl⟩
      · split at h
        · cases h
        · split_ifs at h
          split at h
          · cases h
          · exact ih h

theorem readObject_obj {read : ValueReader} {fuel : Nat} {v : Json}
    (h : readObject read fuel bytes = .ok (v, rest)) : ∃ members, v = .obj members := by
  rw [readObject] at h
  split at h
  · cases h
  · split_ifs at h
    · cases h
      exact ⟨_, rfl⟩
    · split at h
      · cases h
      · exact readMembers_obj h

theorem readValue_str {size depth : Nat} {s : String}
    (h : readValue size depth bytes = .ok (.str s, rest)) :
    ∃ left, bytes = 0x22 :: left ∧ readString size left = .ok (s, rest) := by
  rw [readValue.eq_def] at h
  split at h
  · cases h
  next b left =>
    split_ifs at h with null true false quote bracket brace number
    · cases readWord_value h
    · cases readWord_value h
    · cases readWord_value h
    · obtain ⟨p, read, same⟩ := map_eq_ok.1 h
      cases same
      exact ⟨left, by rw [quote], read⟩
    · split at h
      · cases h
      · obtain ⟨items, ⟨⟩⟩ := readArray_arr h
    · split at h
      · cases h
      · obtain ⟨members, ⟨⟩⟩ := readObject_obj h
    · obtain ⟨p, -, same⟩ := map_eq_ok.1 h
      cases same

end

theorem parse_encode_ne (s : String) : parse (encode s) ≠ .ok (.str s) := by
  intro h
  rw [parse] at h
  split at h
  · cases h
  next v rest read =>
    split_ifs at h
    cases h
    obtain ⟨left, starts, read⟩ := readValue_str read
    have shorter := length_readString read
    have skipped := length_skipSpace (encode s)
    rw [starts, List.length_cons] at skipped
    omega

end RoundTrip.Json
