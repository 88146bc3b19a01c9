import RoundTrip.Proofs.Json.Quote
import RoundTrip.Proofs.Json.Valid

/-!
The text of a value is read as that value, with its floats as their own texts denote them, unless
arrays and objects nest too deep.
-/

namespace RoundTrip.Json

open Text.Utf8

mutual

def reread : Json → Json
  | .num n => .num n.reread
  | .arr items => .arr (rereadItems items)
  | .obj members => .obj (rereadMembers members)
  | v => v

def rereadItems : List Json → List Json
  | [] => []
  | v :: rest => v.reread :: rereadItems rest

def rereadMembers : List (String × Json) → List (String × Json)
  | [] => []
  | (name, v) :: rest => (name, v.reread) :: rereadMembers rest

end

mutual

def depth : Json → Nat
  | .arr items => itemsDepth items + 1
  | .obj members => membersDepth members + 1
  | _ => 0

def itemsDepth : List Json → Nat
  | [] => 0
  | v :: rest => max v.depth (itemsDepth rest)

def membersDepth : List (String × Json) → Nat
  | [] => 0
  | (_, v) :: rest => max v.depth (membersDepth rest)

end

theorem rereadItems_eq (items : List Json) : rereadItems items = items.map reread := by
  induction items with
  | nil => rfl
  | cons v rest ih => rw [rereadItems, ih, List.map_cons]

theorem rereadMembers_eq (members : List (String × Json)) :
    rereadMembers members = members.map fun m => (m.1, m.2.reread) := by
  induction members with
  | nil => rfl
  | cons m rest ih => rw [rereadMembers, ih, List.map_cons]

theorem itemsDepth_le_iff (items : List Json) (n : Nat) :
    itemsDepth items ≤ n ↔ ∀ v ∈ items, v.depth ≤ n := by
  induction items with
  | nil => simp [itemsDepth]
  | cons v rest ih => rw [itemsDepth, max_le_iff, ih, List.forall_mem_cons]

theorem membersDepth_le_iff (members : List (String × Json)) (n : Nat) :
    membersDepth members ≤ n ↔ ∀ m ∈ members, m.2.depth ≤ n := by
  induction members with
  | nil => simp [membersDepth]
  | cons m rest ih => rw [membersDepth, max_le_iff, ih, List.forall_mem_cons]

def more (close : Char) : List (List Char) → List Char
  | [] => [close]
  | text :: rest => ',' :: (text ++ more close rest)

def listed (close : Char) : List (List Char) → List Char
  | [] => [close]
  | text :: rest => text ++ more close rest

theorem itemChars_eq (items : List Json) : itemChars items = listed ']' (items.map chars) := by
  have cons (v : Json) (rest : List Json) :
      itemChars (v :: rest) = v.chars ++ more ']' (rest.map chars) := by
    induction rest generalizing v with
    | nil => rfl
    | cons w rest ih => rw [itemChars, ih, List.map_cons, more]
  cases items with
  | nil => rfl
  | cons v rest => exact cons v rest

def memberText (m : String × Json) : List Char := quote m.1 ++ ':' :: m.2.chars

theorem memberChars_eq (members : List (String × Json)) :
    memberChars members = listed '}' (members.map memberText) := by
  have cons (m : String × Json) (rest : List (String × Json)) :
      memberChars (m :: rest) = memberText m ++ more '}' (rest.map memberText) := by
    induction rest generalizing m with
    | nil => simp [memberChars, memberText, more]
    | cons n rest ih => simp [memberChars, ih, more, memberText]
  cases members with
  | nil => rfl
  | cons m rest => exact cons m rest

theorem octets_more (close : Char) (text : List Char) (rest : List (List Char)) :
    octets (more close (text :: rest)) = 0x2C :: (octets text ++ octets (more close rest)) := by
  rw [more, octets_cons_ascii (by decide), octets_append]
  rfl

theorem ends_more {close : Char} (closes : close = ']' ∨ close = '}') (texts : List (List Char))
    (rest : Bytes) : Ends (octets (more close texts) ++ rest) := by
  cases texts with
  | nil =>
    rcases closes with rfl | rfl
    all_goals
      rintro b ⟨⟩
      decide
  | cons text texts =>
    rw [octets_more]
    rintro b ⟨⟩
    decide

theorem length_more (close : Char) (texts : List (List Char)) :
    texts.length < (octets (more close texts)).length ∧
      ∀ text ∈ texts, (octets text).length < (octets (more close texts)).length := by
  induction texts with
  | nil => exact ⟨length_le_octets [close], nofun⟩
  | cons text texts ih =>
    obtain ⟨count, sizes⟩ := ih
    rw [octets_more, List.length_cons, List.length_cons, List.length_append]
    refine ⟨by omega, List.forall_mem_cons.2 ⟨by omega, ?_⟩⟩
    intro other mem
    have := sizes other mem
    omega

theorem length_listed (close : Char) (texts : List (List Char)) :
    texts.length ≤ (octets (listed close texts)).length ∧
      ∀ text ∈ texts, (octets text).length ≤ (octets (listed close texts)).length := by
  cases texts with
  | nil => exact ⟨Nat.zero_le _, nofun⟩
  | cons text texts =>
    obtain ⟨count, sizes⟩ := length_more close texts
    rw [listed, octets_append, List.length_append, List.length_cons]
    refine ⟨by omega, List.forall_mem_cons.2 ⟨by omega, ?_⟩⟩
    intro other mem
    have := sizes other mem
    omega

/-- The first octet of a value is no space and closes no array. -/
def Starts (bytes : Bytes) : Prop :=
  ∃ b rest, bytes = b :: rest ∧ isSpace b = false ∧ b ≠ 0x5D

def MarksNumber (b : UInt8) : Prop := b = 0x2D ∨ isDigit b = true

theorem marksNumber_of_readNumber {bytes : Bytes} {p : Number × Bytes}
    (h : readNumber bytes = .ok p) : ∃ b rest, bytes = b :: rest ∧ MarksNumber b := by
  rw [readNumber.eq_def] at h
  split at h
  next rest => exact ⟨_, rest, rfl, .inl rfl⟩
  next =>
    cases bytes with
    | nil => cases h
    | cons b rest =>
      refine ⟨b, rest, rfl, .inr ?_⟩
      simp only [readMagnitude] at h
      split_ifs at h with zero _ other
      · rw [zero]
        rfl
      all_goals simpa using other

theorem number_starts {n : Number} (valid : n.Valid) :
    ∃ b rest, octets n.text = b :: rest ∧ MarksNumber b := by
  have read := readNumber_text valid Ends.nil
  rw [List.append_nil] at read
  exact marksNumber_of_readNumber read

theorem MarksNumber.ne {b c : UInt8} (mark : MarksNumber b) (high : c < 0x2D ∨ 0x39 < c) :
    b ≠ c := by
  rintro rfl
  rcases mark with rfl | digit
  · exact absurd high (by decide)
  · simp only [isDigit, Bool.and_eq_true, decide_eq_true_eq, UInt8.le_iff_toNat_le] at digit
    simp only [UInt8.lt_iff_toNat_lt] at high
    simp only [UInt8.reduceToNat] at digit high
    omega

theorem chars_start {v : Json} (valid : v.Valid) : Starts (octets v.chars) := by
  cases valid with
  | null => exact ⟨_, _, octets_cons_ascii (by decide) _, by decide, by decide⟩
  | bool b => cases b <;> exact ⟨_, _, octets_cons_ascii (by decide) _, by decide, by decide⟩
  | num number =>
    obtain ⟨b, rest, starts, mark⟩ := number_starts number
    refine ⟨b, rest, starts, ?_, mark.ne (by decide)⟩
    simp [isSpace, mark.ne]
  | str s => exact ⟨_, _, octets_cons_ascii (by decide) _, by decide, by decide⟩
  | arr => exact ⟨_, _, octets_cons_ascii (by decide) _, by decide, by decide⟩
  | obj => exact ⟨_, _, octets_cons_ascii (by decide) _, by decide, by decide⟩

theorem skipSpace_start {bytes : Bytes} (starts : Starts bytes) (rest : Bytes) :
    ∃ b left, bytes ++ rest = b :: left ∧ skipSpace (b :: left) = b :: left ∧ b ≠ 0x5D := by
  obtain ⟨b, left, rfl, noSpace, noEnd⟩ := starts
  exact ⟨b, left ++ rest, rfl, by simp [skipSpace, noSpace], noEnd⟩

/-- The reader gives back the value, unless it nests deeper than `d`. -/
def Denotes (read : ValueReader) (d : Nat) (v : Json) : Prop :=
  ∀ rest, Ends rest →
    read (octets v.chars ++ rest) = if v.depth ≤ d then .ok (v.reread, rest) else .error .tooDeep

section

variable {read : ValueReader} {d : Nat}

theorem readItems_more {items : List Json} (denotes : ∀ v ∈ items, Denotes read d v)
    (starts : ∀ v ∈ items, Starts (octets v.chars)) {fuel : Nat} (enough : items.length < fuel)
    (acc : List Json) (rest : Bytes) :
    readItems read fuel acc (octets (more ']' (items.map chars)) ++ rest) =
      if itemsDepth items ≤ d then .ok (.arr (acc.reverse ++ rereadItems items), rest)
      else .error .tooDeep := by
  induction items generalizing fuel acc with
  | nil =>
    obtain ⟨fuel, rfl⟩ := Nat.exists_eq_succ_of_ne_zero (Nat.ne_zero_of_lt enough)
    rw [itemsDepth, if_pos (Nat.zero_le d), rereadItems, List.append_nil]
    rfl
  | cons v items ih =>
    obtain ⟨fuel, rfl⟩ := Nat.exists_eq_succ_of_ne_zero (Nat.ne_zero_of_lt enough)
    obtain ⟨first, others⟩ := List.forall_mem_cons.1 denotes
    obtain ⟨start, starts⟩ := List.forall_mem_cons.1 starts
    have one := first _ (ends_more (.inl rfl) (items.map chars) rest)
    obtain ⟨b, left, written, kept, noEnd⟩ :=
      skipSpace_start start (octets (more ']' (items.map chars)) ++ rest)
    rw [written] at one
    have comma : skipSpace (0x2C :: b :: left) = 0x2C :: b :: left := rfl
    rw [List.map_cons, octets_more, List.cons_append, List.append_assoc, written, readItems, comma]
    simp only [kept, one, noEnd, if_false, itemsDepth, max_le_iff]
    by_cases shallow : v.depth ≤ d
    · rw [List.length_cons] at enough
      simp only [shallow, if_true, true_and, ih others starts (Nat.lt_of_succ_lt_succ enough),
        List.reverse_cons, List.append_assoc, rereadItems]
      rfl
    · simp only [shallow, if_false, false_and]
      rfl

theorem readArray_items {items : List Json} (denotes : ∀ v ∈ items, Denotes read d v)
    (starts : ∀ v ∈ items, Starts (octets v.chars)) {fuel : Nat} (enough : items.length < fuel)
    (rest : Bytes) :
    readArray read fuel (octets (itemChars items) ++ rest) =
      if itemsDepth items ≤ d then .ok (.arr (rereadItems items), rest)
      else .error .tooDeep := by
  cases items with
  | nil =>
    rw [itemsDepth, if_pos (Nat.zero_le d)]
    rfl
  | cons v items =>
    obtain ⟨first, others⟩ := List.forall_mem_cons.1 denotes
    obtain ⟨start, starts⟩ := List.forall_mem_cons.1 starts
    have one := first _ (ends_more (.inl rfl) (items.map chars) rest)
    obtain ⟨b, left, written, kept, noEnd⟩ :=
      skipSpace_start start (octets (more ']' (items.map chars)) ++ rest)
    rw [written] at one
    rw [itemChars_eq, List.map_cons, listed, octets_append, List.append_assoc, written, readArray,
      kept]
    simp only [one, noEnd, if_false, itemsDepth, max_le_iff]
    by_cases shallow : v.depth ≤ d
    · simp only [shallow, if_true, true_and,
        readItems_more others starts (Nat.lt_of_succ_lt enough)]
      rfl
    · simp only [shallow, if_false, false_and]

theorem octets_memberText (m : String × Json) (rest : Bytes) :
    octets (memberText m) ++ rest =
      0x22 :: (octets (m.1.toList.flatMap escape) ++
        0x22 :: 0x3A :: (octets m.2.chars ++ rest)) := by
  rw [memberText, octets_append, List.append_assoc, octets_cons_ascii (by decide), octets_quote]
  rfl

theorem readMember_text {m : String × Json} (denotes : Denotes read d m.2)
    (start : Starts (octets m.2.chars)) {size : Nat}
    (enough : (octets (quote m.1)).length < size) {rest : Bytes} (ends : Ends rest) :
    readMember read size (octets (m.1.toList.flatMap escape) ++
        0x22 :: 0x3A :: (octets m.2.chars ++ rest)) =
      if m.2.depth ≤ d then .ok ((m.1, m.2.reread), rest) else .error .tooDeep := by
  have value := denotes rest ends
  obtain ⟨b, left, written, kept, -⟩ := skipSpace_start start rest
  rw [written] at value
  have colon : skipSpace (0x3A :: b :: left) = 0x3A :: b :: left := rfl
  rw [readMember, readString_quote m.1 enough, written]
  simp only [colon, kept, value]
  by_cases shallow : m.2.depth ≤ d
  · simp only [shallow, if_true]
    rfl
  · simp only [shallow, if_false]
    rfl

theorem readMembers_more {members : List (String × Json)}
    (denotes : ∀ m ∈ members, Denotes read d m.2)
    (starts : ∀ m ∈ members, Starts (octets m.2.chars)) {size : Nat}
    (names : ∀ m ∈ members, (octets (quote m.1)).length < size)
    (sorted : Entries.Sorted members) {fuel : Nat} (enough : members.length < fuel)
    {acc : List (String × Json)} (after : ∀ a ∈ acc, ∀ m ∈ members, a.1 < m.1) (rest : Bytes) :
    readMembers read size fuel acc (octets (more '}' (members.map memberText)) ++ rest) =
      if membersDepth members ≤ d then .ok (.obj (acc ++ rereadMembers members), rest)
      else .error .tooDeep := by
  induction members generalizing fuel acc with
  | nil =>
    obtain ⟨fuel, rfl⟩ := Nat.exists_eq_succ_of_ne_zero (Nat.ne_zero_of_lt enough)
    rw [membersDepth, if_pos (Nat.zero_le d), rereadMembers, List.append_nil]
    rfl
  | cons m members ih =>
    obtain ⟨fuel, rfl⟩ := Nat.exists_eq_succ_of_ne_zero (Nat.ne_zero_of_lt enough)
    obtain ⟨first, others⟩ := List.forall_mem_cons.1 denotes
    obtain ⟨start, starts⟩ := List.forall_mem_cons.1 starts
    obtain ⟨name, names⟩ := List.forall_mem_cons.1 names
    obtain ⟨least, sorted⟩ := List.pairwise_cons.1 sorted
    have one := readMember_text first start name
      (ends_more (.inr rfl) (members.map memberText) rest)
    have comma (rest : Bytes) : skipSpace (0x2C :: rest) = 0x2C :: rest := rfl
    have mark (rest : Bytes) : skipSpace (0x22 :: rest) = 0x22 :: rest := rfl
    rw [List.map_cons, octets_more, List.cons_append, List.append_assoc, octets_memberText,
      readMembers, comma]
    simp only [mark, one, membersDepth, max_le_iff]
    by_cases shallow : m.2.depth ≤ d
    · have put : Entries.put m.1 m.2.reread acc = acc ++ [(m.1, m.2.reread)] :=
        Entries.put_last fun a ha => after a ha m List.mem_cons_self
      have after : ∀ a ∈ acc ++ [(m.1, m.2.reread)], ∀ n ∈ members, a.1 < n.1 := by
        intro a ha n hn
        rcases List.mem_append.1 ha with ha | ha
        · exact after a ha n (List.mem_cons_of_mem _ hn)
        · rw [List.mem_singleton.1 ha]
          exact least n hn
      rw [List.length_cons] at enough
      have next := ih others starts names sorted (Nat.lt_of_succ_lt_succ enough) after
      simp only [shallow, if_true, true_and, put, next, List.append_assoc, rereadMembers]
      rfl
    · simp only [shallow, if_false, false_and]
      rfl

theorem readObject_members {members : List (String × Json)}
    (denotes : ∀ m ∈ members, Denotes read d m.2)
    (starts : ∀ m ∈ members, Starts (octets m.2.chars)) {size : Nat}
    (names : ∀ m ∈ members, (octets (quote m.1)).length < size)
    (sorted : Entries.Sorted members) (enough : members.length < size) (rest : Bytes) :
    readObject read size (octets (memberChars members) ++ rest) =
      if membersDepth members ≤ d then .ok (.obj (rereadMembers members), rest)
      else .error .tooDeep := by
  cases members with
  | nil =>
    rw [membersDepth, if_pos (Nat.zero_le d)]
    rfl
  | cons m members =>
    obtain ⟨first, others⟩ := List.forall_mem_cons.1 denotes
    obtain ⟨start, starts⟩ := List.forall_mem_cons.1 starts
    obtain ⟨name, names⟩ := List.forall_mem_cons.1 names
    obtain ⟨least, sorted⟩ := List.pairwise_cons.1 sorted
    have one := readMember_text first start name
      (ends_more (.inr rfl) (members.map memberText) rest)
    have mark (rest : Bytes) : skipSpace (0x22 :: rest) = 0x22 :: rest := rfl
    rw [memberChars_eq, List.map_cons, listed, octets_append, List.append_assoc, octets_memberText,
      readObject, mark]
    simp only [one, membersDepth, max_le_iff]
    by_cases shallow : m.2.depth ≤ d
    · have after : ∀ a ∈ [(m.1, m.2.reread)], ∀ n ∈ members, a.1 < n.1 := by
        intro a ha
        rw [List.mem_singleton.1 ha]
        exact least
      have next := readMembers_more others starts names sorted (Nat.lt_of_succ_lt enough) after
      simp only [shallow, if_true, true_and, next, rereadMembers]
      rfl
    · simp only [shallow, if_false, false_and]
      rfl

end

theorem length_memberText (m : String × Json) :
    (octets (memberText m)).length =
      (octets (quote m.1)).length + (octets m.2.chars).length + 1 := by
  rw [memberText, octets_append, List.length_append, octets_cons_ascii (by decide),
    List.length_cons, Nat.add_assoc]

theorem denotes {v : Json} (valid : v.Valid) {size : Nat} (enough : (octets v.chars).length < size)
    (d : Nat) : Denotes (readValue size d) d v := by
  induction valid generalizing size d with
  | null =>
    intro rest _
    cases d <;> rfl
  | bool b =>
    intro rest _
    cases d <;> cases b <;> rfl
  | @num n number =>
    intro rest ends
    obtain ⟨b, left, starts, mark⟩ := number_starts number
    have read := readNumber_text number ends
    rw [starts, List.cons_append] at read
    have flat : (num n).depth ≤ d := Nat.zero_le d
    rw [chars, starts, List.cons_append, readValue.eq_def, if_pos flat]
    have number : b = 0x2D ∨ isDigit b = true := mark
    simp [mark.ne, number, read, reread, Except.map]
  | str s =>
    intro rest _
    have read := readString_quote s enough rest
    have flat : (str s).depth ≤ d := Nat.zero_le d
    rw [chars, octets_quote, readValue.eq_def, if_pos flat]
    simp [read, reread, Except.map]
  | @arr items all ih =>
    intro rest _
    rw [chars, octets_cons_ascii (by decide), List.length_cons] at enough
    rw [chars, octets_cons_ascii (by decide), List.cons_append, depth]
    obtain ⟨count, sizes⟩ := length_listed ']' (items.map chars)
    rw [← itemChars_eq, List.length_map] at count
    rw [← itemChars_eq, List.forall_mem_map] at sizes
    cases d with
    | zero => rfl
    | succ d =>
      have each : ∀ v ∈ items, Denotes (readValue size d) d v := by
        intro v hv
        have := sizes v hv
        exact ih v hv (by omega) d
      have items := readArray_items each (fun v hv => chars_start (all v hv))
        (show items.length < size by omega) rest
      simp only [Nat.add_le_add_iff_right]
      exact items
  | @obj members sorted all ih =>
    intro rest _
    rw [chars, octets_cons_ascii (by decide), List.length_cons] at enough
    rw [chars, octets_cons_ascii (by decide), List.cons_append, depth]
    obtain ⟨count, sizes⟩ := length_listed '}' (members.map memberText)
    rw [← memberChars_eq, List.length_map] at count
    rw [← memberChars_eq, List.forall_mem_map] at sizes
    simp only [length_memberText] at sizes
    cases d with
    | zero => rfl
    | succ d =>
      have each : ∀ m ∈ members, Denotes (readValue size d) d m.2 := by
        intro m hm
        have := sizes m hm
        exact ih m hm (by omega) d
      have names : ∀ m ∈ members, (octets (quote m.1)).length < size := by
        intro m hm
        have := sizes m hm
        omega
      have members := readObject_members each (fun m hm => chars_start (all m hm)) names sorted
        (by omega) rest
      simp only [Nat.add_le_add_iff_right]
      exact members

theorem parse_bytes {v : Json} (valid : v.Valid) :
    parse v.bytes = if v.depth ≤ maxDepth then .ok v.reread else .error .tooDeep := by
  have written : v.bytes = octets v.chars := by rw [bytes, text, encode_ofList]
  obtain ⟨b, left, starts, kept, -⟩ := skipSpace_start (chars_start valid) []
  have read := denotes valid (Nat.lt_succ_self _) maxDepth [] nofun
  rw [starts] at read
  rw [List.append_nil] at starts
  rw [starts] at read written
  rw [parse, written, kept, read]
  split_ifs <;> rfl

end RoundTrip.Json
