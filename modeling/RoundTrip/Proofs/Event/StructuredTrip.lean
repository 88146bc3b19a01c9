import RoundTrip.Proofs.Event.Envelope
import RoundTrip.Proofs.Timestamp.Rfc3339

/-!
An event comes back from its own envelope as it was, unless an extension has the name of a core
attribute, its year has not four digits, or its payload is read as JSON.
-/

namespace RoundTrip.Event

open Entries

/-- What an envelope carries unchanged. -/
structure Enclosable (e : Event) : Prop where
  tidy : Tidy e.extensions
  names : ∀ x ∈ e.extensions, x.1 ∉ coreMembers ∧ x.1 ≠ "data_base64"
  time : ∀ t, e.time = some t → t.Valid ∧ t.FourDigitYear
  data : ∀ data, e.data = some data →
    (∃ s, data = Text.Utf8.encode s) ∧
      (isJsonType e.contentType = false ∨ ∃ fault, Json.parse data = .error fault)

theorem dataValue_text {contentType : Option String} {s : String}
    (plain : isJsonType contentType = false ∨
      ∃ fault, Json.parse (Text.Utf8.encode s) = .error fault) :
    dataValue contentType (Text.Utf8.encode s) = .ok (.str s) := by
  simp only [dataValue, Text.Utf8.decode?_encode]
  rcases plain with plain | ⟨fault, broken⟩
  · simp [plain]
  · simp [broken]

namespace Enclosable

variable {e : Event} (h : e.Enclosable)

include h

theorem member? {name : String} (core : name ∈ coreMembers ++ ["data_base64"]) :
    e.member? name = get? name e.ownAttributes := by
  have fresh : get? name e.extensions = none := by
    apply get?_eq_none
    rintro x hx rfl
    obtain ⟨fresh, other⟩ := h.names x hx
    rcases List.mem_append.1 core with core | core
    · exact fresh core
    · exact other (List.mem_singleton.1 core)
  rw [Event.member?, fresh, Option.none_or]

theorem envelope : ∃ (ms : Members) (text : Option String), e.envelope = .ok ms ∧ e.Encloses ms ∧
    e.data = text.map Text.Utf8.encode ∧ get? "data" ms = text.map .str := by
  cases given : e.data with
  | none =>
    have envelope : e.envelope = .ok e.members := by rw [Event.envelope, given]
    refine ⟨e.members, none, envelope, encloses_of_envelope h.tidy envelope, rfl, ?_⟩
    obtain ⟨-, -, -, -, -, -, -, data⟩ := e.get?_ownAttributes
    rw [get?_members h.tidy, h.member? (by decide), data]
  | some data =>
    obtain ⟨⟨s, rfl⟩, plain⟩ := h.data data given
    have envelope : e.envelope = .ok (Entries.put "data" (.str s) e.members) := by
      rw [Event.envelope, given]
      simp only [dataValue_text plain, Except.map]
    exact ⟨_, some s, envelope, encloses_of_envelope h.tidy envelope, rfl, get?_put_self _ _ _⟩

theorem gives {ms : Members} (encloses : e.Encloses ms) {text : Option String}
    (data : e.data = text.map Text.Utf8.encode) (payload : get? "data" ms = text.map .str) :
    Gives (Json.rereadMembers ms) e := by
  obtain ⟨version, id, kind, source, time, subject, contentType, -⟩ := e.get?_ownAttributes
  have own {name : String} (core : name ∈ coreMembers ++ ["data_base64"])
      (other : name ≠ "data") :
      get? name (Json.rereadMembers ms) = (get? name e.ownAttributes).map .str := by
    rw [encloses.reread other, h.member? core]
  constructor
  · refine ⟨some specVersion, stringMember_text ?_, rfl⟩
    rw [own (by decide) (by decide), version]
  · apply requiredMember_text
    rw [own (by decide) (by decide), id]
    rfl
  · apply requiredMember_text
    rw [own (by decide) (by decide), kind]
    rfl
  · apply requiredMember_text
    rw [own (by decide) (by decide), source]
    rfl
  · rw [timeMember_text (own (by decide) (by decide)), time]
    cases timed : e.time with
    | none => exact .inl ⟨rfl, rfl⟩
    | some t =>
      obtain ⟨valid, year⟩ := h.time t timed
      have read : parseTime t.text = .ok t := by
        rw [parseTime, Timestamp.parse_text valid year]
      exact .inr ⟨t.text, t, rfl, read, rfl⟩
  · apply stringMember_text
    rw [own (by decide) (by decide), subject]
  · apply stringMember_text
    rw [own (by decide) (by decide), contentType]
  · rw [own (by decide) (by decide), e.get?_ownAttributes_fresh (by decide)]
    rfl
  · rw [get?_reread, payload, data]
    cases text <;> rfl
  · rw [encloses.extensions h.tidy, List.filter_eq_self.2]
    intro x hx
    simpa using (h.names x hx).1

end Enclosable

def leapNote : Event :=
  { id := "é"
    kind := "note"
    source := "s"
    time := some ⟨1483228799, 1500000000⟩
    subject := some "\"\n"
    contentType := some "application/json"
    data := some (Text.Utf8.encode "not")
    extensions := [("namespace", "n")] }

end RoundTrip.Event
