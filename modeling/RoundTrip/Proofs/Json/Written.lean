import RoundTrip.Proofs.Json.Onward
import RoundTrip.Proofs.Json.Steady

/-!
Objects as they are written: members in any order and some perhaps twice, with texts that are read
as they are alone, and space wherever it may stand.
-/

namespace RoundTrip.Json

/-- The whole text is read as the value, with `depth` arrays and objects inside each other at
most. -/
def ReadsAs (depth : Nat) (text : Bytes) (v : Json) : Prop :=
  ∃ left, readValue (text.length + 1) depth (skipSpace text) = .ok (v, left) ∧ skipSpace left = []

theorem parse_of_readsAs {text : Bytes} {v : Json} (h : ReadsAs maxDepth text v) :
    parse text = .ok v := by
  obtain ⟨left, read, space⟩ := h
  simp only [parse, read, space]
  rfl

theorem skipSpace_of_space {left : Bytes} (space : skipSpace left = []) (more : Bytes) :
    skipSpace (left ++ more) = skipSpace more := by
  induction left with
  | nil => rfl
  | cons b left ih =>
    rw [skipSpace] at space
    split_ifs at space with isSpace
    rw [List.cons_append, skipSpace, if_pos isSpace, ih space]

theorem ReadsAs.onward {depth : Nat} {text : Bytes} {v : Json} (h : ReadsAs depth text v)
    {size : Nat} (larger : text.length < size) {more : Bytes} (ends : Ends more) :
    ∃ b rest left, skipSpace (text ++ more) = b :: rest ∧
      readValue size depth (b :: rest) = .ok (v, left ++ more) ∧ skipSpace left = [] := by
  obtain ⟨left, read, space⟩ := h
  cases skipped : skipSpace text with
  | nil =>
    rw [skipped, readValue.eq_def] at read
    cases read
  | cons b rest =>
    rw [skipped] at read
    exact ⟨b, rest ++ more, left, skipSpace_append skipped more,
      goesOn_readValue larger depth _ _ _ more read fun _ => ends, space⟩

theorem readsAs_bytes {v : Json} (valid : v.Valid) {depth : Nat} (flat : v.depth ≤ depth) :
    ReadsAs depth v.bytes v.reread := by
  have written : v.bytes = Text.Utf8.octets v.chars := by
    rw [bytes, Json.text, Text.Utf8.encode_ofList]
  obtain ⟨b, rest, starts, kept, -⟩ := skipSpace_start (chars_start valid) []
  have read := denotes valid (Nat.lt_succ_self _) depth [] .nil
  rw [if_pos flat] at read
  rw [List.append_nil] at starts read
  refine ⟨[], ?_, rfl⟩
  rw [written, starts, kept, ← starts]
  exact read

structure Written (depth : Nat) where
  name : String
  value : Json
  nameText : Bytes
  valueText : Bytes
  named : ReadsAs 0 nameText (.str name)
  valued : ReadsAs depth valueText value

namespace Written

variable {depth : Nat}

def ofStrings (depth : Nat) (name value : String) : Written depth where
  name := name
  value := .str value
  nameText := (Json.str name).bytes
  valueText := (Json.str value).bytes
  named := readsAs_bytes (.str name) (Nat.zero_le _)
  valued := readsAs_bytes (.str value) (Nat.zero_le _)

def member (w : Written depth) : String × Json := (w.name, w.value)

def text (w : Written depth) : Bytes := w.nameText ++ 0x3A :: w.valueText

def moreText : List (Written depth) → Bytes
  | [] => [0x7D]
  | w :: ws => 0x2C :: (w.text ++ moreText ws)

def objectText : List (Written depth) → Bytes
  | [] => [0x7B, 0x7D]
  | w :: ws => 0x7B :: (w.text ++ moreText ws)

theorem ends_moreText (ws : List (Written depth)) : Ends (moreText ws) := by
  cases ws with
  | nil =>
    rintro b ⟨⟩
    decide
  | cons w ws =>
    rintro b ⟨⟩
    decide

theorem length_moreText (ws : List (Written depth)) :
    ws.length < (moreText ws).length ∧ ∀ w ∈ ws, w.text.length < (moreText ws).length := by
  induction ws with
  | nil => exact ⟨Nat.one_pos, nofun⟩
  | cons w ws ih =>
    obtain ⟨count, sizes⟩ := ih
    rw [moreText, List.length_cons, List.length_cons, List.length_append]
    refine ⟨by omega, List.forall_mem_cons.2 ⟨by omega, ?_⟩⟩
    intro other mem
    have := sizes other mem
    omega

section

variable {size : Nat}

theorem readMember (w : Written depth) (larger : w.text.length < size) {more : Bytes}
    (ends : Ends more) :
    ∃ inner left, skipSpace (w.text ++ more) = 0x22 :: inner ∧
      Json.readMember (readValue size depth) size inner = .ok (w.member, left ++ more) ∧
        skipSpace left = [] := by
  have colon (rest : Bytes) : Ends (0x3A :: rest) := by
    rintro b ⟨⟩
    decide
  rw [text, List.length_append, List.length_cons] at larger
  obtain ⟨mark, inner, space, opens, name, blank⟩ :=
    w.named.onward (show w.nameText.length < size by omega) (colon (w.valueText ++ more))
  obtain ⟨_, ⟨⟩, name⟩ := readValue_str name
  obtain ⟨b, rest, left, begins, value, after⟩ :=
    w.valued.onward (show w.valueText.length < size by omega) ends
  refine ⟨inner, left, ?_, ?_, after⟩
  · rw [text, List.append_assoc, List.cons_append]
    exact opens
  · have atColon : skipSpace (0x3A :: (w.valueText ++ more)) =
        0x3A :: (w.valueText ++ more) := rfl
    rw [Json.readMember, name]
    simp only [skipSpace_of_space blank, atColon, begins, value]
    rfl

theorem readMembers {ws : List (Written depth)} (sizes : ∀ w ∈ ws, w.text.length < size)
    {fuel : Nat} (enough : ws.length < fuel) (acc : List (String × Json)) {left : Bytes}
    (space : skipSpace left = []) :
    Json.readMembers (readValue size depth) size fuel acc (left ++ moreText ws) =
      .ok (.obj ((ws.map member).foldl (fun entries p => Entries.put p.1 p.2 entries) acc),
        []) := by
  induction ws generalizing fuel acc left with
  | nil =>
    obtain ⟨fuel, rfl⟩ := Nat.exists_eq_succ_of_ne_zero (Nat.ne_zero_of_lt enough)
    have close : skipSpace (left ++ moreText ([] : List (Written depth))) = [0x7D] :=
      skipSpace_of_space space _
    rw [Json.readMembers, close]
    rfl
  | cons w ws ih =>
    obtain ⟨fuel, rfl⟩ := Nat.exists_eq_succ_of_ne_zero (Nat.ne_zero_of_lt enough)
    obtain ⟨first, others⟩ := List.forall_mem_cons.1 sizes
    obtain ⟨inner, after, opens, one, blank⟩ := w.readMember first (ends_moreText ws)
    have comma : skipSpace (left ++ moreText (w :: ws)) = 0x2C :: (w.text ++ moreText ws) :=
      skipSpace_of_space space _
    rw [List.length_cons] at enough
    rw [Json.readMembers, comma]
    simp only [opens, one, List.map_cons, List.foldl_cons, member,
      ← ih others (Nat.lt_of_succ_lt_succ enough) _ blank]
    rfl

theorem readsAs_objectText (ws : List (Written depth)) :
    ReadsAs (depth + 1) (objectText ws) (.obj (Entries.ofList (ws.map member))) := by
  cases ws with
  | nil => exact ⟨[], rfl, rfl⟩
  | cons w ws =>
    obtain ⟨count, sizes⟩ := length_moreText ws
    have length : (objectText (w :: ws)).length + 1 =
        w.text.length + (moreText ws).length + 2 := by
      rw [objectText, List.length_cons, List.length_append]
    refine ⟨[], ?_, rfl⟩
    rw [length]
    generalize larger : w.text.length + (moreText ws).length + 2 = size
    obtain ⟨inner, left, opens, one, space⟩ :=
      w.readMember (show w.text.length < size by omega) (ends_moreText ws)
    have sizes : ∀ v ∈ ws, v.text.length < size := by
      intro v hv
      have := sizes v hv
      omega
    have rest := readMembers sizes (show ws.length < size by omega) [w.member] space
    have atBrace : skipSpace (objectText (w :: ws)) = 0x7B :: (w.text ++ moreText ws) := rfl
    have object : readValue size (depth + 1) (0x7B :: (w.text ++ moreText ws)) =
        readObject (readValue size depth) size (w.text ++ moreText ws) := rfl
    rw [atBrace, object, readObject, opens]
    simp only [one]
    exact rest

end

end Written

theorem parse_objectText (ws : List (Written 126)) :
    parse (Written.objectText ws) = .ok (.obj (Entries.ofList (ws.map Written.member))) :=
  parse_of_readsAs (Written.readsAs_objectText ws)

end RoundTrip.Json
