import RoundTrip.Proofs.Event.Plain

namespace RoundTrip.Event

open Entries

def looksStructured (e : Event) : Bool :=
  (e.contentType.filter Header.readable).any isStructuredType

theorem isStructured_headers (e : Event) : isStructured e.headers = e.looksStructured := by
  rw [isStructured, contentTypeText?_headers, looksStructured]

theorem carried?_of_fresh (e : Event) {name : String} (fresh : name ∉ coreNames) :
    e.carried? name = get? name e.extensions := by
  have no_core : get? name e.coreAttributes = none := by
    apply get?_eq_none
    rintro a ha rfl
    exact fresh (mem_coreNames ha)
  rw [carried?, no_core, Option.or_none]

theorem carried?_required (e : Event) (name : String)
    (required : name ∈ ["specversion", "id", "type", "source"]) :
    ∃ value, e.carried? name = some value := by
  have core : (get? name e.coreAttributes).isSome := by
    rw [coreAttributes, List.append_assoc, get?_append, Option.isSome_or]
    simp only [List.mem_cons, List.not_mem_nil, or_false] at required
    rcases required with rfl | rfl | rfl | rfl <;> rfl
  rw [← Option.isSome_iff_exists, carried?, Option.isSome_or, core, Bool.or_true]

theorem accepts_written_iff {e : Event} (tidy : Tidy e.extensions) :
    (∀ a ∈ e.written, Accepts a.1 a.2) ↔
      (∀ name value, e.carried? name = some value → Header.readable value = true) ∧
        ∀ text, e.carried? "time" = some text → ∃ t, parseTime text = .ok t := by
  constructor
  · intro h
    constructor
    · intro name value carried
      exact (h (name, value) ((mem_written_iff tidy _ _).2 carried)).1
    · intro text carried
      exact (h ("time", text) ((mem_written_iff tidy _ _).2 carried)).2 rfl
  · rintro ⟨readable, time⟩ ⟨name, value⟩ ha
    have carried := (mem_written_iff tidy name value).1 ha
    refine ⟨readable name value carried, ?_⟩
    rintro rfl
    exact time value carried

theorem Draft.read_contentType (d : Draft) (bytes : Bytes) :
    d.read (contentTypeHeader, bytes) = .ok d := by
  have unmarked : attributeOf? contentTypeHeader = none := by decide
  rw [read, unmarked]

theorem readAll_headers (e : Event) :
    Draft.readAll {} e.headers.fields = Draft.readAll {} (e.written.map field) := by
  rw [fields_headers, Draft.readAll_append]
  cases Draft.readAll {} (e.written.map field) with
  | error m => rfl
  | ok d =>
    cases e.contentType with
    | none => rfl
    | some t =>
      simp only [Option.map_some, Option.toList_some, Except.bind, Draft.readAll,
        Draft.read_contentType]

theorem attr?_headers {e : Event} (tidy : Tidy e.extensions) {d : Draft}
    (read : Draft.readAll {} e.headers.fields = .ok d) {name : String} (untimed : name ≠ "time") :
    d.attr? name = e.carried? name := by
  have folded : ∀ a ∈ e.written, Text.lower a.1 = a.1 := by
    intro a ha
    exact folded_carried tidy ((mem_written_iff tidy a.1 a.2).1 ha)
  have nothing : ({} : Draft).attr? name = none := by
    simp [Draft.attr?]
  rw [readAll_headers] at read
  rw [Draft.attr?_readAll read folded untimed, nothing, Option.or_none,
    e.distinct_written.get?_reverse, get?_written tidy]

theorem checkVersion_some {v : String} (h : checkVersion (some v) = .ok ()) : v = specVersion := by
  rw [checkVersion] at h
  split at h
  next same => exact same
  next => cases h

/-- What is read of the version and the time that headers or an envelope carry. -/
def Carries (e : Event) : Prop :=
  e.carried? "specversion" = some specVersion ∧
    ∀ text, e.carried? "time" = some text → ∃ t, parseTime text = .ok t

theorem ofBinary_headers_ok_iff {e : Event} (tidy : Tidy e.extensions) (body : Bytes) :
    (∃ e', ofBinary e.headers body = .ok e') ↔
      (∀ name value, e.carried? name = some value → Header.readable value = true) ∧
        e.Carries := by
  have kept {d : Draft} (drafted : Draft.readAll {} e.headers.fields = .ok d) (name : String)
      (untimed : name ≠ "time") : d.attr? name = e.carried? name :=
    attr?_headers tidy drafted untimed
  constructor
  · rintro ⟨e', read⟩
    obtain ⟨d, drafted, finishes⟩ := ofBinary_ok_iff.1 read
    have accepts : ∀ a ∈ e.written, Accepts a.1 a.2 := by
      rw [← Draft.readAll_ok_iff {}, ← readAll_headers]
      exact ⟨d, drafted⟩
    obtain ⟨readable, time⟩ := (accepts_written_iff tidy).1 accepts
    refine ⟨readable, ?_, time⟩
    obtain ⟨v, carried⟩ := e.carried?_required "specversion" (by decide)
    have hasVersion : d.version = some v :=
      (kept drafted "specversion" (by decide)).trans carried
    have supported := finishes.version
    rw [hasVersion] at supported
    rw [carried, checkVersion_some supported]
  · rintro ⟨readable, version, time⟩
    obtain ⟨d, drafted⟩ : ∃ d, Draft.readAll {} e.headers.fields = .ok d := by
      rw [readAll_headers, Draft.readAll_ok_iff]
      exact (accepts_written_iff tidy).2 ⟨readable, time⟩
    obtain ⟨id, hasId⟩ := e.carried?_required "id" (by decide)
    obtain ⟨kind, hasKind⟩ := e.carried?_required "type" (by decide)
    obtain ⟨source, hasSource⟩ := e.carried?_required "source" (by decide)
    have hasVersion : d.version = some specVersion :=
      (kept drafted "specversion" (by decide)).trans version
    have supported : checkVersion d.version = .ok () := by
      rw [hasVersion]
      rfl
    obtain ⟨e', finishes⟩ := Draft.finishes_of_required
      ((kept drafted "id" (by decide)).trans hasId)
      ((kept drafted "type" (by decide)).trans hasKind)
      ((kept drafted "source" (by decide)).trans hasSource) supported e.headers body
    exact ⟨e', ofBinary_ok_iff.2 ⟨d, drafted, finishes⟩⟩

section

variable {e e' : Event} (tidy : Tidy e.extensions) {body : Bytes}
  (read : ofBinary e.headers body = .ok e')

include tidy read

theorem kind_of_headers : e.carried? "type" = some e'.kind := by
  obtain ⟨d, drafted, finishes⟩ := ofBinary_ok_iff.1 read
  have kept : d.attr? "type" = e.carried? "type" := attr?_headers tidy drafted (by decide)
  exact kept.symm.trans finishes.kind

theorem extension_of_headers (name : String) (fresh : name ∉ coreNames) :
    get? name e'.extensions = get? name e.extensions := by
  obtain ⟨d, drafted, finishes⟩ := ofBinary_ok_iff.1 read
  have untimed : name ≠ "time" := by
    rintro rfl
    exact fresh (by decide)
  rw [finishes.extensions, ← d.attr?_of_fresh fresh, attr?_headers tidy drafted untimed,
    carried?_of_fresh e fresh]

end

end RoundTrip.Event
