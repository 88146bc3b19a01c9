import RoundTrip.Proofs.Event.Headers
import RoundTrip.Proofs.Probe.Broker

/-!
A broker that returns a probe as it was sent. The receiver does not always know its own probe
again: what may be written in a header may not be read from one, and an extension may be written
over a core attribute.
-/

namespace RoundTrip.Event

open Entries

/-- Read from its own headers, the event is the request of a broker probe again. -/
structure Survives (e : Event) : Prop where
  readable : ∀ name value, e.carried? name = some value → Header.readable value = true
  time : ∀ text, e.carried? "time" = some text → ∃ t, parseTime text = .ok t
  version : e.carried? "specversion" = some specVersion
  kind : e.carried? "type" = some Kind.broker.name

/-- The message of the event, sent back as it is, carries `key`. Where its content type is that of
an envelope, the payload of the event is read as one. -/
def Returns (e : Event) (key : Key) : Prop :=
  (e.data.getD []).length ≤ maxBytes ∧
    if e.looksStructured then
      ∃ inner, ofStructured (e.data.getD []) = .ok inner ∧ Delivered.key? inner = some key
    else e.Survives

theorem key?_of_same {e echo : Event} {ns name : String}
    (key : Delivered.key? e = some (.broker ns name)) (kind : echo.kind = Kind.broker.name)
    (namespaces : echo.extension? "namespace" = e.extension? "namespace")
    (brokers : echo.extension? "broker" = e.extension? "broker") :
    Delivered.key? echo = some (.broker ns name) := by
  obtain ⟨-, filled, named⟩ := Delivered.key?_eq_broker_iff.1 key
  rw [filledExtension?, ← namespaces] at filled
  rw [Probe.brokerName, filledExtension?, ← brokers] at named
  exact Delivered.key?_eq_broker_iff.2 ⟨kind, filled, named⟩

theorem ofBinary_headers_iff {e : Event} (tidy : Tidy e.extensions) {ns name : String}
    (key : Delivered.key? e = some (.broker ns name)) (body : Bytes) :
    (∃ echo, ofBinary e.headers body = .ok echo ∧
      Delivered.key? echo = some (.broker ns name)) ↔ e.Survives := by
  constructor
  · rintro ⟨echo, read, key'⟩
    obtain ⟨readable, version, time⟩ := (ofBinary_headers_ok_iff tidy body).1 ⟨echo, read⟩
    obtain ⟨isBroker, -⟩ := Delivered.key?_eq_broker_iff.1 key'
    refine ⟨readable, time, version, ?_⟩
    rw [kind_of_headers tidy read, isBroker]
  · intro survives
    obtain ⟨echo, read⟩ := (ofBinary_headers_ok_iff tidy body).2
      ⟨survives.readable, survives.version, survives.time⟩
    refine ⟨echo, read, ?_⟩
    apply key?_of_same key
    · exact Option.some.inj ((kind_of_headers tidy read).symm.trans survives.kind)
    · exact extension_of_headers tidy read "namespace" (by decide)
    · exact extension_of_headers tidy read "broker" (by decide)

theorem echo_key_iff {e : Event} (tidy : Tidy e.extensions) {ns name : String}
    (key : Delivered.key? e = some (.broker ns name)) :
    (∃ echo, ofHttp e.headers (e.data.getD []) = .ok echo ∧
      Delivered.key? echo = some (.broker ns name)) ↔ e.Returns (.broker ns name) := by
  simp only [Returns, ofHttp_ok_iff, isStructured_headers, and_assoc, exists_and_left]
  apply and_congr_right'
  cases e.looksStructured with
  | true => rfl
  | false => exact ofBinary_headers_iff tidy key _

theorem survives_iff_of_binary {fields : List (String × Bytes)} {body : Bytes} {e : Event}
    (read : ofBinary (Headers.ofList fields) body = .ok e) (kind : e.kind = Kind.broker.name) :
    e.Survives ↔ ∀ t, e.time = some t → ∃ u, parseTime t.text = .ok u := by
  obtain ⟨readable, core⟩ := plain_carried read
  have carried_time : e.carried? "time" = e.time.map Timestamp.text := by
    rw [core "time" (by decide), coreAttributes]
    cases e.time <;> cases e.subject <;> rfl
  constructor
  · intro survives t timed
    apply survives.time
    rw [carried_time, timed, Option.map_some]
  · intro time
    refine ⟨readable, ?_, ?_, ?_⟩
    · intro text carried
      rw [carried_time, Option.map_eq_some_iff] at carried
      obtain ⟨t, timed, rfl⟩ := carried
      exact time t timed
    · rw [core "specversion" (by decide)]
      rfl
    · rw [core "type" (by decide), ← kind]
      rfl

theorem looksStructured_of_binary {headers : Headers} {body : Bytes} {e : Event}
    (read : ofBinary headers body = .ok e) (binary : isStructured headers = false) :
    e.looksStructured = false := by
  obtain ⟨d, -, finishes⟩ := ofBinary_ok_iff.1 read
  rw [looksStructured, finishes.contentType]
  split
  · rw [isStructured, Option.any_eq_false] at binary
    rw [Option.any_eq_false]
    intro t kept
    exact binary t (Option.mem_filter_iff.1 kept).1
  · rfl

theorem data_of_binary {headers : Headers} {body : Bytes} {e : Event}
    (read : ofBinary headers body = .ok e) : e.data.getD [] = body := by
  obtain ⟨d, -, finishes⟩ := ofBinary_ok_iff.1 read
  rw [finishes.data]
  cases body <;> rfl

/-- When a broker returns a probe as it was sent, the probe is acknowledged. Of a probe in binary
mode only the time can stand against it; of one in structured mode what its headers carry can. -/
theorem echo_acknowledges_iff {fields : List (String × Bytes)} {body : Bytes} {e : Event}
    {policy : DeadlinePolicy} {pods : PodTarget} {nonce : Nonce} {a : Admission}
    {ns name : String} {sent : Headers} {payload : Bytes}
    (accepted : ofHttp (Headers.ofList fields) body = .ok e)
    (admitted : Admission.ofEvent policy pods nonce e = .ok a)
    (broker : a.probe = .broker ns name)
    (forwarded : e.toBinary = .ok (sent, payload)) :
    (∃ echo, ofHttp sent payload = .ok echo ∧ Delivered.key? echo = some a.key) ↔
      if isStructured (Headers.ofList fields) then e.Returns a.key
      else ∀ t, e.time = some t → ∃ u, parseTime t.text = .ok u := by
  have tidy := ofHttp_tidy accepted
  have key := Admission.key?_of_broker admitted broker
  have a_key : a.key = .broker ns name := by
    rw [Admission.key, broker, Probe.key]
  obtain ⟨rfl, rfl⟩ := toBinary_eq tidy forwarded
  obtain ⟨short, read⟩ := ofHttp_ok_iff.1 accepted
  rw [a_key, echo_key_iff tidy key]
  cases structured : isStructured (Headers.ofList fields) with
  | true => rfl
  | false =>
    rw [structured] at read
    obtain ⟨kind, -⟩ := Delivered.key?_eq_broker_iff.1 key
    simp only [Returns, data_of_binary read, looksStructured_of_binary read structured,
      survives_iff_of_binary read kind, short, true_and, Bool.false_eq_true, if_false]

def timedProbe : Event :=
  ((bare "1" Kind.broker.name "s").setExtension "namespace" "n").withTime ⟨1704164645, 0⟩

theorem echo_acknowledges_timedProbe :
    ofHttp (Headers.ofList (timedProbe.attributes.map field)) [] = .ok timedProbe ∧
      Admission.ofEvent {} {} 0 timedProbe =
        .ok ⟨.broker "n" Probe.defaultBroker, 2 * Duration.minute⟩ ∧
      timedProbe.toBinary = .ok (timedProbe.headers, []) ∧
      ∃ echo, ofHttp timedProbe.headers [] = .ok echo ∧
        Delivered.key? echo = some (.broker "n" Probe.defaultBroker) := by
  have accepted : ofHttp (Headers.ofList (timedProbe.attributes.map field)) [] =
      .ok timedProbe := by decide +kernel
  have admitted : Admission.ofEvent {} {} 0 timedProbe =
      .ok ⟨.broker "n" Probe.defaultBroker, 2 * Duration.minute⟩ := by decide +kernel
  have forwarded : timedProbe.toBinary = .ok (timedProbe.headers, []) := by decide +kernel
  have binary : isStructured (Headers.ofList (timedProbe.attributes.map field)) = false := by
    decide +kernel
  refine ⟨accepted, admitted, forwarded, ?_⟩
  apply (echo_acknowledges_iff accepted admitted rfl forwarded).2
  rw [binary]
  rintro t ⟨⟩
  have parsed : Timestamp.parse (Timestamp.mk 1704164645 0).text = .ok ⟨1704164645, 0⟩ := by
    decide +kernel
  exact ⟨_, by rw [parseTime, parsed]⟩

def accented : Event := (bare "é" Kind.broker.name "s").setExtension "namespace" "n"

def accentedBody : Bytes :=
  Text.Utf8.encode ("\x7b\"id\":\"é\",\"type\":\"broker-e2e-delivery-probe\"," ++
    "\"source\":\"s\",\"namespace\":\"n\"\x7d")

/-- Not every echo is acknowledged: an identifier beyond ASCII is written and not read. -/
theorem not_every_echo_acknowledges :
    ¬ ∀ (fields : List (String × Bytes)) (body : Bytes) (e : Event) (policy : DeadlinePolicy)
      (pods : PodTarget) (nonce : Nonce) (a : Admission) (ns name : String) (sent : Headers)
      (payload : Bytes),
      ofHttp (Headers.ofList fields) body = .ok e →
        Admission.ofEvent policy pods nonce e = .ok a → a.probe = .broker ns name →
          e.toBinary = .ok (sent, payload) →
            ∃ echo, ofHttp sent payload = .ok echo ∧ Delivered.key? echo = some a.key := by
  intro every
  obtain ⟨echo, read, -⟩ := every [(contentTypeHeader, Text.Utf8.encode structuredType)]
    accentedBody accented {} {} 0 ⟨.broker "n" Probe.defaultBroker, 2 * Duration.minute⟩ "n"
    Probe.defaultBroker accented.headers [] (by decide +kernel) (by decide +kernel) rfl
    (by decide +kernel)
  have refused : ofHttp accented.headers [] =
      .error (Malformed.headerNotText "ce-id").toTransport := by decide +kernel
  rw [refused] at read
  cases read

end RoundTrip.Event
