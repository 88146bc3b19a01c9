import RoundTrip.Proofs.Event.Envelope
import RoundTrip.Proofs.Event.Headers
import RoundTrip.Proofs.Timestamp.Rfc3339

namespace RoundTrip.Event

open Entries

def Dated (time : Option Timestamp) : Prop := ∀ t, time = some t → t.Valid

theorem valid_of_parseTime {text : String} {t : Timestamp} (h : parseTime text = .ok t) :
    t.Valid := by
  rw [parseTime] at h
  split at h
  next parsed =>
    cases h
    exact Timestamp.valid_of_parse parsed
  next => cases h

theorem Draft.Took.dated {d d' : Draft} {attr value : String} (h : d.Took attr value d')
    (dated : Dated d.time) : Dated d'.time := by
  cases h with
  | time t _ parsed =>
    rintro _ ⟨⟩
    exact valid_of_parseTime parsed
  | _ => exact dated

theorem dated_ofStructured {bytes : Bytes} {e : Event} (h : ofStructured bytes = .ok e) :
    Dated e.time := by
  rw [ofStructured] at h
  split at h
  · cases h
  next members _ =>
    have timed := (ofMembers_ok_iff.1 h).time
    intro t given
    rw [given, timeMember] at timed
    split at timed
    · cases timed
    · cases timed
    · obtain ⟨u, parsed, same⟩ := map_eq_ok.1 timed
      cases same
      exact valid_of_parseTime parsed
  · cases h

def Received (headers : Headers) (body : Bytes) (e : Event) : Prop :=
  ofHttp headers body = .ok e ∨ ofStructured body = .ok e

theorem Received.dated {headers : Headers} {body : Bytes} {e : Event}
    (h : Received headers body e) : Dated e.time := by
  rcases h with read | read
  · obtain ⟨-, read⟩ := ofHttp_ok_iff.1 read
    split at read
    · exact dated_ofStructured read
    · obtain ⟨d, drafted, finishes⟩ := ofBinary_ok_iff.1 read
      rw [finishes.time]
      exact Draft.readAll_keeps (P := fun d => Dated d.time) Draft.Took.dated drafted nofun
  · exact dated_ofStructured read

theorem Received.tidy {headers : Headers} {body : Bytes} {e : Event}
    (h : Received headers body e) : Tidy e.extensions :=
  h.elim ofHttp_tidy ofStructured_tidy

structure Understood (e : Event) : Prop where
  version : ∀ text, get? "specversion" e.extensions = some text → text = specVersion
  time : ∀ text, get? "time" e.extensions = some text → ∃ t, parseTime text = .ok t
  year : get? "time" e.extensions = none → ∀ t, e.time = some t → t.FourDigitYear

theorem parseTime_ok_iff (text : String) :
    (∃ t, parseTime text = .ok t) ↔ ∃ t, Timestamp.parse text = .ok t := by
  rw [parseTime]
  cases Timestamp.parse text with
  | ok t => exact iff_of_true ⟨t, rfl⟩ ⟨t, rfl⟩
  | error fault =>
    constructor
    · rintro ⟨t, ⟨⟩⟩
    · rintro ⟨t, ⟨⟩⟩

theorem understood_iff {e : Event} (dated : Dated e.time) : e.Understood ↔ e.Carries := by
  obtain ⟨version, -, -, -, time, -⟩ := e.get?_ownAttributes
  rw [Carries, carried?, carried?, ← e.get?_ownAttributes_core (by decide), version,
    ← e.get?_ownAttributes_core (by decide), time]
  constructor
  · rintro ⟨extVersion, extTime, year⟩
    constructor
    · cases given : get? "specversion" e.extensions with
      | none => rfl
      | some text => rw [extVersion text given]; rfl
    · intro text carried
      cases given : get? "time" e.extensions with
      | some s =>
        rw [given] at carried
        cases carried
        exact extTime text given
      | none =>
        rw [given, Option.none_or, Option.map_eq_some_iff] at carried
        obtain ⟨t, timed, rfl⟩ := carried
        rw [parseTime_ok_iff, Timestamp.parse_text_iff (dated t timed)]
        exact year given t timed
  · rintro ⟨carriedVersion, carriedTime⟩
    refine ⟨?_, ?_, ?_⟩
    · intro text given
      rw [given] at carriedVersion
      exact Option.some.inj carriedVersion
    · intro text given
      apply carriedTime
      rw [given]
      rfl
    · intro given t timed
      rw [← Timestamp.parse_text_iff (dated t timed), ← parseTime_ok_iff]
      apply carriedTime
      rw [given, timed]
      rfl

/-- What makes an event readable from its own headers. -/
structure RereadsHeaders (e : Event) : Prop where
  mode : e.looksStructured = false
  size : (e.data.getD []).length ≤ maxBytes
  readable : ∀ name value, e.carried? name = some value → Header.readable value = true
  understood : e.Understood

/-- What makes an event readable from its own envelope. -/
structure RereadsEnvelope (e : Event) : Prop where
  base64 : get? "data_base64" e.extensions = none
  depth : ∀ data v, e.data = some data → dataValue e.contentType data = .ok v →
    v.depth < Json.maxDepth
  understood : e.Understood

namespace Encloses

variable {e : Event} {ms : Members} (encloses : e.Encloses ms)

include encloses

theorem reread_core {name : String} (core : name ∈ coreNames) :
    get? name (Json.rereadMembers ms) = (e.carried? name).map .str := by
  have others : ∀ name ∈ coreNames, name ≠ "data" ∧ name ≠ "datacontenttype" := by decide
  obtain ⟨noData, noType⟩ := others name core
  rw [encloses.reread noData, e.member?_eq_carried? noType]

theorem reread_base64 :
    get? "data_base64" (Json.rereadMembers ms) = none ↔
      get? "data_base64" e.extensions = none := by
  rw [encloses.reread (by decide), member?, e.get?_ownAttributes_fresh (by decide),
    Option.or_none, Option.map_eq_none_iff]

theorem reread_version_iff :
    (∃ v, stringMember (Json.rereadMembers ms) "specversion" = .ok v ∧
        checkVersion v = .ok ()) ↔
      e.carried? "specversion" = some specVersion := by
  have core : get? "specversion" (Json.rereadMembers ms) =
      (e.carried? "specversion").map .str := encloses.reread_core (by decide)
  obtain ⟨w, carried⟩ := e.carried?_required "specversion" (by decide)
  rw [stringMember_text core, carried]
  constructor
  · rintro ⟨_, ⟨⟩, supported⟩
    rw [checkVersion_some supported]
  · intro same
    exact ⟨_, rfl, by rw [same]; rfl⟩

theorem reread_required (name : String) (core : name ∈ coreNames)
    (required : name ∈ ["specversion", "id", "type", "source"]) :
    ∃ value, requiredMember (Json.rereadMembers ms) name = .ok value := by
  obtain ⟨value, carried⟩ := e.carried?_required name required
  refine ⟨value, requiredMember_text ?_⟩
  rw [encloses.reread_core core, carried]
  rfl

theorem reread_time_iff :
    (∃ time, timeMember (Json.rereadMembers ms) = .ok time) ↔
      ∀ text, e.carried? "time" = some text → ∃ t, parseTime text = .ok t := by
  have core : get? "time" (Json.rereadMembers ms) = (e.carried? "time").map .str :=
    encloses.reread_core (by decide)
  have read := timeMember_text core
  constructor
  · rintro ⟨time, given⟩ text carried
    rcases (read time).1 given with ⟨none, -⟩ | ⟨text', t, some, parsed, -⟩
    · rw [none] at carried
      cases carried
    · rw [some] at carried
      cases carried
      exact ⟨t, parsed⟩
  · intro parses
    cases carried : e.carried? "time" with
    | none => exact ⟨none, (read none).2 (.inl ⟨carried, rfl⟩)⟩
    | some text =>
      obtain ⟨t, parsed⟩ := parses text carried
      exact ⟨some t, (read (some t)).2 (.inr ⟨text, t, carried, parsed, rfl⟩)⟩

theorem gives_reread_iff (tidy : Tidy e.extensions) :
    (∃ e', Gives (Json.rereadMembers ms) e') ↔
      get? "data_base64" e.extensions = none ∧ e.Carries := by
  constructor
  · rintro ⟨e', gives⟩
    exact ⟨encloses.reread_base64.1 gives.base64, encloses.reread_version_iff.1 gives.version,
      encloses.reread_time_iff.1 ⟨e'.time, gives.time⟩⟩
  · rintro ⟨base64, version, time⟩
    obtain ⟨id, hasId⟩ := encloses.reread_required "id" (by decide) (by decide)
    obtain ⟨kind, hasKind⟩ := encloses.reread_required "type" (by decide) (by decide)
    obtain ⟨source, hasSource⟩ := encloses.reread_required "source" (by decide) (by decide)
    obtain ⟨t, hasTime⟩ := encloses.reread_time_iff.2 time
    refine ⟨⟨id, kind, source, t, e.carried? "subject", e.member? "datacontenttype",
      dataOf (get? "data" (Json.rereadMembers ms)),
      e.extensions.filter fun x => !coreMembers.contains x.1⟩, ?_⟩
    constructor
    · exact encloses.reread_version_iff.2 version
    · exact hasId
    · exact hasKind
    · exact hasSource
    · exact hasTime
    · exact stringMember_text (encloses.reread_core (by decide))
    · exact stringMember_text (encloses.reread (by decide))
    · exact encloses.reread_base64.2 base64
    · rfl
    · exact encloses.extensions tidy

end Encloses

theorem depth_iff {e : Event} {ms : Members} (encloses : e.Encloses ms) :
    (Json.obj ms).depth ≤ Json.maxDepth ↔
      ∀ data v, e.data = some data → dataValue e.contentType data = .ok v →
        v.depth < Json.maxDepth := by
  have inner : (Json.obj ms).depth ≤ Json.maxDepth ↔ Json.membersDepth ms ≤ 126 :=
    Nat.add_le_add_iff_right (n := 1)
  rw [inner, encloses.depth_le_iff]
  have payload := encloses.payload
  generalize get? "data" ms = p at payload
  cases payload with
  | absent none =>
    constructor
    · intro _ data v some
      rw [none] at some
      cases some
    · intro _ v hv
      obtain ⟨s, -, rfl⟩ := Option.map_eq_some_iff.1 hv
      exact Nat.zero_le _
  | @given data v some value =>
    constructor
    · intro shallow data' v' some' value'
      rw [some] at some'
      cases some'
      rw [value] at value'
      cases value'
      exact Nat.lt_succ_of_le (shallow v rfl)
    · rintro deep _ ⟨⟩
      exact Nat.le_of_lt_succ (deep data v some value)

/-- A received event is accepted again, in either mode, exactly when it rereads. -/
theorem accepted_again_iff {headers : Headers} {body : Bytes} {e : Event}
    (received : Received headers body e) :
    (∀ sent payload, e.toBinary = .ok (sent, payload) →
      ((isStructured sent = false ∧ ∃ e', ofHttp sent payload = .ok e') ↔ e.RereadsHeaders)) ∧
    ∀ bytes, e.toStructured = .ok bytes →
      ((∃ e', ofStructured bytes = .ok e') ↔ e.RereadsEnvelope) := by
  constructor
  · intro sent payload written
    obtain ⟨rfl, rfl⟩ := toBinary_eq received.tidy written
    simp only [isStructured_headers, ofHttp_ok_iff, exists_and_left]
    constructor
    · rintro ⟨binary, size, read⟩
      rw [binary] at read
      obtain ⟨readable, carries⟩ := (ofBinary_headers_ok_iff received.tidy _).1 read
      exact ⟨binary, size, readable, (understood_iff received.dated).2 carries⟩
    · rintro ⟨binary, size, readable, understood⟩
      rw [binary]
      exact ⟨rfl, size, (ofBinary_headers_ok_iff received.tidy _).2
        ⟨readable, (understood_iff received.dated).1 understood⟩⟩
  · intro bytes written
    rw [toStructured_eq] at written
    obtain ⟨ms, envelope, rfl⟩ := map_eq_ok.1 written
    have encloses := encloses_of_envelope received.tidy envelope
    have gives := encloses.gives_reread_iff received.tidy
    rw [← understood_iff received.dated] at gives
    rw [ofStructured_bytes encloses.valid]
    split_ifs with shallow
    · simp only [ofMembers_ok_iff, gives]
      have depth := (depth_iff encloses).1 shallow
      constructor
      · rintro ⟨base64, understood⟩
        exact ⟨base64, depth, understood⟩
      · rintro ⟨base64, -, understood⟩
        exact ⟨base64, understood⟩
    · constructor
      · rintro ⟨e', ⟨⟩⟩
      · intro rereads
        exact absurd ((depth_iff encloses).2 rereads.depth) shallow

def dated : Event := (bare "1" "t" "s").withTime ⟨1704164645, 0⟩

theorem accepted_again_dated :
    Received (Headers.ofList (dated.attributes.map field)) [] dated ∧
      (isStructured dated.headers = false ∧ ∃ e', ofHttp dated.headers [] = .ok e') ∧
        ∃ bytes, dated.toStructured = .ok bytes ∧ ∃ e', ofStructured bytes = .ok e' := by
  have read : ofHttp (Headers.ofList (dated.attributes.map field)) [] = .ok dated := by
    decide +kernel
  have sent : dated.toBinary = .ok (dated.headers, []) := by decide +kernel
  have ascii : ∀ a ∈ dated.coreAttributes, Header.readable a.2 = true := by decide +kernel
  have understood : dated.Understood := by
    refine ⟨nofun, nofun, ?_⟩
    rintro - t ⟨⟩
    exact ⟨by decide, by decide⟩
  have received : Received (Headers.ofList (dated.attributes.map field)) [] dated := .inl read
  obtain ⟨headers, envelope⟩ := accepted_again_iff received
  refine ⟨received, (headers _ _ sent).2 ⟨rfl, by decide, ?_, understood⟩,
    _, rfl, (envelope _ rfl).2 ⟨rfl, nofun, understood⟩⟩
  intro name value carried
  exact ascii (name, value) (mem_of_get? carried)

def accentBody : Bytes :=
  Text.Utf8.encode "\x7b\"id\":\"1\",\"type\":\"t\",\"source\":\"s\",\"subject\":\"é\"\x7d"

def accent : Event := (bare "1" "t" "s").withSubject "é"

/-- Not every received event is accepted again: a subject beyond ASCII is written and not read. -/
theorem not_every_accepted_again :
    ¬ ∀ (headers : Headers) (body : Bytes) (e : Event), Received headers body e →
      (∀ sent payload, e.toBinary = .ok (sent, payload) →
        isStructured sent = false ∧ ∃ e', ofHttp sent payload = .ok e') ∧
      ∀ bytes, e.toStructured = .ok bytes → ∃ e', ofStructured bytes = .ok e' := by
  intro every
  have read : ofHttp (Headers.ofList [(contentTypeHeader, Text.Utf8.encode structuredType)])
      accentBody = .ok accent := by decide +kernel
  have sent : accent.toBinary = .ok (accent.headers, []) := by decide +kernel
  have refused : ofHttp accent.headers [] =
      .error (Malformed.headerNotText "ce-subject").toTransport := by decide +kernel
  obtain ⟨-, e', again⟩ := (every _ _ _ (.inl read)).1 _ _ sent
  rw [refused] at again
  cases again

end RoundTrip.Event
