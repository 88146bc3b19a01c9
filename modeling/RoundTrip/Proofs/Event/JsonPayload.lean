import RoundTrip.Proofs.Event.Envelope
import RoundTrip.Proofs.Json.Steady

namespace RoundTrip.Event

open Entries

section

variable {e : Event} {data : Bytes} {v : Json}

theorem mem_enclosed {m : String × Json} (h : m ∈ Entries.put "data" v e.members) :
    m = ("data", v) ∨ ∃ s, m.2 = .str s := by
  refine (mem_put h).imp_right fun old => ?_
  rw [members_eq] at old
  obtain ⟨x, -, rfl⟩ := List.mem_map.1 (mem_of_mem_ofList old)
  exact ⟨x.2, rfl⟩

theorem valid_enclosed (valid : v.Valid) : (Json.obj (Entries.put "data" v e.members)).Valid := by
  have sorted : Sorted e.members := by
    rw [members_eq]
    exact sorted_ofList _
  refine .obj (sorted.put "data" v) ?_
  intro m hm
  rcases mem_enclosed hm with rfl | ⟨s, text⟩
  · exact valid
  · rw [text]
    exact .str s

theorem dataValue_json (typed : isJsonType e.contentType = true) (json : Json.parse data = .ok v) :
    dataValue e.contentType data = .ok v := by
  simp only [dataValue, typed, json, if_true]

theorem dataOf_reread (some : v ≠ .null) (noText : ∀ s, v ≠ .str s) :
    dataOf v.reread = v.reread.bytes := by
  cases v with
  | null => exact absurd rfl some
  | str s => exact absurd rfl (noText s)
  | _ => rfl

section

variable {e' : Event} {bytes : Bytes} (typed : isJsonType e.contentType = true)
  (given : e.data = some data) (json : Json.parse data = .ok v) (sent : e.toStructured = .ok bytes)
  (read : ofStructured bytes = .ok e')

include typed given json sent read

theorem data_of_envelope : v.depth < Json.maxDepth ∧ e'.data = dataOf v.reread := by
  have envelope : e.envelope = .ok (Entries.put "data" v e.members) := by
    rw [Event.envelope, given]
    simp only [dataValue_json typed json, Except.map]
  rw [toStructured_eq] at sent
  obtain ⟨ms, enclosed, rfl⟩ := map_eq_ok.1 sent
  obtain rfl := Except.ok.inj (envelope.symm.trans enclosed)
  rw [ofStructured_bytes (valid_enclosed (Json.valid_of_parse json))] at read
  split_ifs at read with flat
  have payload : get? "data" (Entries.put "data" v e.members) = some v := get?_put_self _ _ _
  constructor
  · rw [Json.depth, Json.maxDepth, Nat.add_le_add_iff_right (n := 1) (k := 126),
      Json.membersDepth_le_iff] at flat
    exact Nat.lt_succ_of_le (flat ("data", v) (mem_of_get? payload))
  · rw [(ofMembers_ok_iff.1 read).data, get?_reread, payload]
    rfl

/-- A JSON payload comes back as the same value, unless it is a string or `null`, or has a float
that changes when it is written and read again. -/
theorem json_kept_iff :
    e'.data = dataOf v.reread ∧
      ((∃ kept, e'.data = some kept ∧ Json.parse kept = .ok v) ↔
        v ≠ .null ∧ (∀ s, v ≠ .str s) ∧ v.Steady) := by
  obtain ⟨flat, payload⟩ := data_of_envelope typed given json sent read
  have valid := Json.valid_of_parse json
  refine ⟨payload, ?_⟩
  rw [payload]
  by_cases none : v = .null
  · subst none
    constructor
    · rintro ⟨_, ⟨⟩, -⟩
    · rintro ⟨some, -⟩
      exact absurd rfl some
  by_cases text : ∃ s, v = .str s
  · obtain ⟨s, rfl⟩ := text
    constructor
    · rintro ⟨_, ⟨⟩, same⟩
      exact absurd same (Json.parse_encode_ne s)
    · rintro ⟨-, noText, -⟩
      exact absurd rfl (noText s)
  · have noText : ∀ s, v ≠ .str s := fun s same => text ⟨s, same⟩
    have again : Json.parse v.reread.bytes = .ok v.reread.reread := by
      have once : Json.parse v.bytes = .ok v.reread := by
        rw [Json.parse_bytes valid, if_pos flat.le]
      rw [Json.parse_bytes (Json.valid_of_parse once), if_pos (valid.depth_reread.trans_le flat.le)]
    rw [dataOf_reread none noText, ← valid.reread_reread_iff]
    constructor
    · rintro ⟨_, ⟨⟩, same⟩
      rw [again] at same
      exact ⟨none, noText, Except.ok.inj same⟩
    · rintro ⟨-, -, same⟩
      exact ⟨_, rfl, by rw [again, same]⟩

end

end

def listed : Event :=
  (bare "1" "t" "s").withData "application/json" (Text.Utf8.encode "[\"x\",null]")

def listedBody : Bytes :=
  Text.Utf8.encode ("\x7b\"data\":[\"x\",null],\"datacontenttype\":\"application/json\"," ++
    "\"id\":\"1\",\"source\":\"s\",\"specversion\":\"1.0\",\"type\":\"t\"\x7d")

theorem json_kept_listed :
    isJsonType listed.contentType = true ∧ listed.toStructured = .ok listedBody ∧
      ofStructured listedBody = .ok listed ∧
        ∃ kept, listed.data = some kept ∧ Json.parse kept = .ok (.arr [.str "x", .null]) := by
  have valid : (Json.arr [.str "x", .null]).Valid :=
    .arr (List.forall_mem_cons.2 ⟨.str "x", List.forall_mem_singleton.2 .null⟩)
  have text : (Json.arr [.str "x", .null]).bytes = Text.Utf8.encode "[\"x\",null]" := by
    decide +kernel
  have json : Json.parse (Text.Utf8.encode "[\"x\",null]") = .ok (.arr [.str "x", .null]) := by
    rw [← text, Json.parse_bytes valid, if_pos (by decide)]
    rfl
  have sent : listed.toStructured = .ok listedBody := by decide +kernel
  have read : ofStructured listedBody = .ok listed :=
    toOption_eq_some_iff.1 (by decide +kernel)
  have steady : (Json.arr [.str "x", .null]).Steady :=
    .arr (List.forall_mem_cons.2 ⟨.str "x", List.forall_mem_singleton.2 .null⟩)
  exact ⟨rfl, sent, read, (json_kept_iff rfl rfl json sent read).2.2 ⟨nofun, nofun, steady⟩⟩

def quoted : Event :=
  (bare "1" "t" "s").withData "application/json" (Text.Utf8.encode "\"x\"")

def quotedBody : Bytes :=
  Text.Utf8.encode ("\x7b\"data\":\"x\",\"datacontenttype\":\"application/json\"," ++
    "\"id\":\"1\",\"source\":\"s\",\"specversion\":\"1.0\",\"type\":\"t\"\x7d")

/-- Not every JSON payload is kept: a string loses its quotes. -/
theorem not_every_json_kept :
    ¬ ∀ (e e' : Event) (data bytes : Bytes) (v : Json), isJsonType e.contentType = true →
      e.data = some data → Json.parse data = .ok v → e.toStructured = .ok bytes →
        ofStructured bytes = .ok e' → ∃ kept, e'.data = some kept ∧ Json.parse kept = .ok v := by
  intro every
  have text : (Json.str "x").bytes = Text.Utf8.encode "\"x\"" := by decide +kernel
  have json : Json.parse (Text.Utf8.encode "\"x\"") = .ok (.str "x") := by
    rw [← text, Json.parse_bytes (.str "x"), if_pos (by decide)]
    rfl
  have sent : quoted.toStructured = .ok quotedBody := by decide +kernel
  have read : ofStructured quotedBody = .ok { quoted with data := some (Text.Utf8.encode "x") } :=
    toOption_eq_some_iff.1 (by decide +kernel)
  obtain ⟨_, ⟨⟩, kept⟩ := every quoted _ _ _ _ rfl rfl json sent read
  exact Json.parse_encode_ne "x" kept

end RoundTrip.Event
