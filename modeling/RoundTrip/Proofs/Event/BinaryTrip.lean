import RoundTrip.Proofs.Event.Envelope
import RoundTrip.Proofs.Event.Headers
import RoundTrip.Proofs.Timestamp.Rfc3339

/-!
An event comes back from its own headers and body as it was, when all of it is ASCII text that
headers may hold and its payload is not empty.
-/

namespace RoundTrip.Event

open Entries

/-- A name that makes a header name when it is marked. -/
structure NamesHeader (name : String) : Prop where
  token : (Text.Utf8.encode name).all Header.isTokenByte = true
  short : (Text.Utf8.encode (headerMark ++ name)).length ≤ Header.maxNameLength

theorem namesHeader_core : ∀ name ∈ coreNames, NamesHeader name := by
  have checked : ∀ name ∈ coreNames, (Text.Utf8.encode name).all Header.isTokenByte = true ∧
      (Text.Utf8.encode (headerMark ++ name)).length ≤ Header.maxNameLength := by decide
  exact fun name core => ⟨(checked name core).1, (checked name core).2⟩

theorem NamesHeader.name? {name : String} (h : NamesHeader name) :
    ∃ header, Header.name? (headerMark ++ name) = some header := by
  have split : Text.Utf8.encode (headerMark ++ name) =
      Text.Utf8.encode headerMark ++ Text.Utf8.encode name := by
    rw [Text.Utf8.encode_eq, String.toList_append, Text.Utf8.octets_append]
    rfl
  have mark : (Text.Utf8.encode headerMark).all Header.isTokenByte = true := by decide
  have some : Text.Utf8.encode headerMark ≠ [] := by decide
  have fits : ¬ ((Text.Utf8.encode (headerMark ++ name)).isEmpty = true ∨
      Header.maxNameLength < (Text.Utf8.encode (headerMark ++ name)).length) := by
    rintro (none | long)
    · rw [split, List.isEmpty_iff, List.append_eq_nil_iff] at none
      exact some none.1
    · exact absurd h.short (Nat.not_le_of_lt long)
  have token : (Text.Utf8.encode (headerMark ++ name)).all Header.isTokenByte = true := by
    rw [split, List.all_append, mark, h.token]
    rfl
  exact ⟨_, by rw [Header.name?, if_neg fits, if_pos token]⟩

theorem value?_of_readable {text : String} (h : Header.readable text = true) :
    Header.value? text = some (Text.Utf8.encode text) := by
  apply if_pos
  rw [List.all_eq_true]
  intro b hb
  rw [← Header.encode_all, List.all_eq_true] at h
  have textByte := h b hb
  simp only [Header.isTextByte, Header.isValueByte, Bool.or_eq_true, Bool.and_eq_true,
    decide_eq_true_eq, bne_iff_ne, ne_eq, UInt8.lt_iff_toNat_lt, ← UInt8.toNat_inj] at textByte ⊢
  exact textByte.imp_left fun visible => ⟨visible.1, Nat.ne_of_lt visible.2⟩

theorem putAttributes_ok {pairs : List (String × String)}
    (names : ∀ a ∈ pairs, NamesHeader a.1) (values : ∀ a ∈ pairs, Header.readable a.2 = true)
    (headers : Headers) : ∃ h, putAttributes headers pairs = .ok h := by
  induction pairs generalizing headers with
  | nil => exact ⟨headers, rfl⟩
  | cons a rest ih =>
    obtain ⟨name, names⟩ := List.forall_mem_cons.1 names
    obtain ⟨value, values⟩ := List.forall_mem_cons.1 values
    obtain ⟨header, named⟩ := name.name?
    obtain ⟨h, put⟩ := ih names values (headers.put header (Text.Utf8.encode a.2))
    refine ⟨h, ?_⟩
    simp only [putAttributes, putAttribute, named, value?_of_readable value]
    exact put

def Draft.Timed (d : Draft) (text : Option String) (d' : Draft) : Prop :=
  match text with
  | none => d'.time = d.time
  | some s => ∃ t, parseTime s = .ok t ∧ d'.time = some t

theorem Draft.timed_set {d d' : Draft} {attr value : String} (h : d.set attr value = .ok d') :
    d.Timed (get? "time" [(attr, value)]) d' := by
  cases took_of_set h with
  | time t time parsed =>
    rw [time]
    exact ⟨t, parsed, rfl⟩
  | extension fresh =>
    have other : "time" ≠ attr := by
      rintro rfl
      exact fresh (by decide)
    simp [get?, other, Timed]
  | _ other =>
    rw [other]
    exact rfl

theorem Draft.timed_readAll {d d' : Draft} {attrs : List (String × String)}
    (h : d.readAll (attrs.map field) = .ok d') : d.Timed (get? "time" attrs.reverse) d' := by
  induction attrs generalizing d with
  | nil =>
    cases h
    exact rfl
  | cons a rest ih =>
    rw [List.map_cons, readAll] at h
    split at h
    · cases h
    next next one =>
      rw [read_field] at one
      split at one
      · have first := timed_set one
        have later := ih h
        rw [List.reverse_cons, get?_append]
        cases found : get? "time" rest.reverse with
        | some s =>
          rw [found] at later
          exact later
        | none =>
          rw [found] at later
          rw [Option.none_or]
          have same : d'.time = next.time := later
          cases given : get? "time" [a] with
          | none =>
            rw [given] at first
            exact same.trans first
          | some s =>
            rw [given] at first
            obtain ⟨t, parsed, timed⟩ := first
            exact ⟨t, parsed, same.trans timed⟩
      · cases one

/-- What headers and a body carry unchanged. -/
structure Sendable (e : Event) : Prop where
  tidy : Tidy e.extensions
  id : Header.readable e.id = true
  kind : Header.readable e.kind = true
  source : Header.readable e.source = true
  subject : ∀ s, e.subject = some s → Header.readable s = true
  contentType : ∀ t, e.contentType = some t →
    Header.readable t = true ∧ isStructuredType t = false
  names : ∀ x ∈ e.extensions, NamesHeader x.1 ∧ x.1 ∉ coreNames
  values : ∀ x ∈ e.extensions, Header.readable x.2 = true
  time : ∀ t, e.time = some t → t.Valid ∧ t.FourDigitYear
  data : (e.data = none ∧ e.contentType = none) ∨
    ∃ body, e.data = some body ∧ body ≠ [] ∧ body.length ≤ maxBytes

namespace Sendable

variable {e : Event} (h : e.Sendable)

include h

theorem extension?_core {name : String} (core : name ∈ coreNames) :
    get? name e.extensions = none := by
  apply get?_eq_none
  rintro x hx rfl
  exact (h.names x hx).2 core

theorem carried? {name : String} (core : name ∈ coreNames) :
    e.carried? name = get? name e.coreAttributes := by
  rw [Event.carried?, h.extension?_core core, Option.none_or]

theorem readable_attributes : ∀ a ∈ e.attributes, Header.readable a.2 = true := by
  intro a ha
  rcases List.mem_append.1 ha with core | extension
  · exact readable_coreAttributes h.id h.kind h.source h.subject a core
  · exact h.values a extension

theorem toBinary : e.toBinary = .ok (e.headers, e.data.getD []) := by
  have names : ∀ a ∈ e.attributes, NamesHeader a.1 := by
    intro a ha
    rcases List.mem_append.1 ha with core | extension
    · exact namesHeader_core _ (mem_coreNames core)
    · exact (h.names a extension).1
  obtain ⟨attrs, put⟩ := putAttributes_ok names h.readable_attributes .empty
  obtain ⟨⟨headers, body⟩, sent⟩ : ∃ sent, e.toBinary = .ok sent := by
    rw [Event.toBinary, put]
    cases typed : e.contentType with
    | none => exact ⟨_, rfl⟩
    | some t =>
      simp only [value?_of_readable (h.contentType t typed).1]
      exact ⟨_, rfl⟩
  obtain ⟨rfl, rfl⟩ := toBinary_eq h.tidy sent
  exact sent

theorem isStructured : isStructured e.headers = false := by
  rw [isStructured_headers, looksStructured, Option.any_eq_false]
  intro t kept
  obtain ⟨typed, -⟩ := Option.mem_filter_iff.1 kept
  exact (h.contentType t typed).2

theorem readable_carried {name value : String} (carried : e.carried? name = some value) :
    Header.readable value = true := by
  apply h.readable_attributes (name, value)
  rcases Option.or_eq_some_iff.1 carried with found | ⟨-, found⟩
  · exact List.mem_append_right _ (mem_of_get? found)
  · exact List.mem_append_left _ (mem_of_get? found)

theorem carried?_time : e.carried? "time" = e.time.map Timestamp.text := by
  obtain ⟨-, -, -, -, time, -⟩ := e.get?_ownAttributes
  rw [h.carried? (by decide), ← time, e.get?_ownAttributes_core (by decide)]

theorem parse_time {t : Timestamp} (timed : e.time = some t) : parseTime t.text = .ok t := by
  obtain ⟨valid, year⟩ := h.time t timed
  rw [parseTime, Timestamp.parse_text valid year]

theorem drafts : ∃ d, Draft.readAll {} e.headers.fields = .ok d := by
  rw [readAll_headers, Draft.readAll_ok_iff, accepts_written_iff h.tidy]
  refine ⟨fun _ _ => h.readable_carried, ?_⟩
  intro text carried
  rw [h.carried?_time, Option.map_eq_some_iff] at carried
  obtain ⟨t, timed, rfl⟩ := carried
  exact ⟨t, h.parse_time timed⟩

theorem time_of_draft {d : Draft} (drafted : Draft.readAll {} e.headers.fields = .ok d) :
    e.time = d.time := by
  rw [readAll_headers] at drafted
  have timed := Draft.timed_readAll drafted
  rw [e.distinct_written.get?_reverse, get?_written h.tidy, h.carried?_time] at timed
  cases own : e.time with
  | none =>
    rw [own] at timed
    exact timed.symm
  | some t =>
    rw [own] at timed
    obtain ⟨u, parsed, timed⟩ := timed
    cases parsed.symm.trans (h.parse_time own)
    exact timed.symm

theorem folded_fields : ∀ f ∈ e.headers.fields, Text.lower f.1 = f.1 := by
  intro f hf
  rw [fields_headers, List.mem_append] at hf
  rcases hf with attr | contentType
  · obtain ⟨⟨name, value⟩, ha, rfl⟩ := List.mem_map.1 attr
    exact lower_mark (folded_carried h.tidy ((mem_written_iff h.tidy name value).1 ha))
  · obtain ⟨t, -, rfl⟩ := Option.map_eq_some_iff.1 (Option.mem_toList.1 contentType)
    exact lower_contentType

theorem extensions_of_draft {d : Draft} (drafted : Draft.readAll {} e.headers.fields = .ok d) :
    e.extensions = d.extensions := by
  have plain := Draft.Plain.empty.readAll drafted h.folded_fields
  apply Sorted.ext h.tidy.sorted (Draft.readAll_tidy drafted Tidy.nil).sorted
  intro name
  by_cases core : name ∈ coreNames
  · rw [h.extension?_core core, get?_eq_none]
    rintro x hx rfl
    exact plain.fresh x hx core
  · have untimed : name ≠ "time" := by
      rintro rfl
      exact core (by decide)
    rw [← d.attr?_of_fresh core, attr?_headers h.tidy drafted untimed, carried?_of_fresh e core]

theorem finishes {d : Draft} (drafted : Draft.readAll {} e.headers.fields = .ok d) :
    d.Finishes e.headers (e.data.getD []) e := by
  have kept (name : String) (core : name ∈ coreNames) (untimed : name ≠ "time") :
      d.attr? name = get? name e.ownAttributes := by
    have other : name ≠ "datacontenttype" := by
      rintro rfl
      exact absurd core (by decide)
    rw [attr?_headers h.tidy drafted untimed, h.carried? core, e.get?_ownAttributes_core other]
  obtain ⟨version, id, kind, source, -, subject, -⟩ := e.get?_ownAttributes
  have hasVersion : d.version = some specVersion :=
    (kept "specversion" (by decide) (by decide)).trans version
  have typed : contentTypeText? e.headers = e.contentType := by
    rw [contentTypeText?_headers]
    cases given : e.contentType with
    | none => rfl
    | some t => exact if_pos (h.contentType t given).1
  constructor
  · rw [hasVersion]
    rfl
  · exact (kept "id" (by decide) (by decide)).trans id
  · exact (kept "type" (by decide) (by decide)).trans kind
  · exact (kept "source" (by decide) (by decide)).trans source
  · exact h.time_of_draft drafted
  · exact ((kept "subject" (by decide) (by decide)).trans subject).symm
  · rw [typed]
    rcases h.data with ⟨noData, noType⟩ | ⟨body, data, some, -⟩
    · rw [noData, noType]
      rfl
    · simp [data, some]
  · rcases h.data with ⟨noData, -⟩ | ⟨body, data, some, -⟩
    · rw [noData]
      rfl
    · simp [data, some]
  · exact h.extensions_of_draft drafted

end Sendable

/-- Written in a leap second; its payload is no text. -/
def leapBlob : Event :=
  { id := "1"
    kind := "blob"
    source := "s"
    time := some ⟨1483228799, 1500000000⟩
    subject := some "a b"
    contentType := some "application/octet-stream"
    data := some [0xFF]
    extensions := [("namespace", "n")] }

end RoundTrip.Event
