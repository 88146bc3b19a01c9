import RoundTrip.Proofs.Event.Envelope

namespace RoundTrip.Event

open Entries

/-- Events as they come about: decoded, or built from core attributes and extensions. -/
inductive Made : Event → Prop
  | core {e : Event} : e.extensions = [] → Made e
  | ofHttp {headers : Headers} {body : Bytes} {e : Event} :
      ofHttp headers body = .ok e → Made e
  | ofStructured {bytes : Bytes} {e : Event} : ofStructured bytes = .ok e → Made e
  | setExtension {e : Event} (name value : String) : Made e → Made (e.setExtension name value)
  | update {e e' : Event} : Made e → e'.extensions = e.extensions → Made e'

theorem Made.tidy {e : Event} (h : e.Made) : Tidy e.extensions := by
  induction h with
  | core none => exact none ▸ Tidy.nil
  | ofHttp read => exact ofHttp_tidy read
  | ofStructured read => exact ofStructured_tidy read
  | setExtension name value _ ih => exact ih.put name value
  | update _ same ih => exact same ▸ ih

/-- The headers have the core attributes of the event. -/
@[mk_iff]
structure HeadersTell (e : Event) (h : Headers) : Prop where
  version : h.values "ce-specversion" = [Text.Utf8.encode "1.0"]
  id : h.values "ce-id" = [Text.Utf8.encode e.id]
  kind : h.values "ce-type" = [Text.Utf8.encode e.kind]
  source : h.values "ce-source" = [Text.Utf8.encode e.source]
  time : h.values "ce-time" = (e.time.map fun t => Text.Utf8.encode t.text).toList
  subject : h.values "ce-subject" = (e.subject.map Text.Utf8.encode).toList

/-- The envelope has the core attributes and the payload of the event. -/
@[mk_iff]
structure MembersTell (e : Event) (ms : Members) : Prop where
  version : get? "specversion" ms = some (.str "1.0")
  id : get? "id" ms = some (.str e.id)
  kind : get? "type" ms = some (.str e.kind)
  source : get? "source" ms = some (.str e.source)
  time : get? "time" ms = e.time.map fun t => .str t.text
  subject : get? "subject" ms = e.subject.map .str
  contentType : get? "datacontenttype" ms = e.contentType.map .str
  data :
    match e.data with
    | none => get? "data" ms = none
    | some data => ∃ v, dataValue e.contentType data = .ok v ∧ get? "data" ms = some v

/-- The extensions leave the attributes of `names` as they are in `own`. -/
def Spares (extensions own : List (String × String)) (names : List String) : Prop :=
  ∀ x ∈ extensions, x.1 ∈ names → get? x.1 own = some x.2

theorem spares_iff {extensions : List (String × String)} (sorted : Sorted extensions)
    (own : List (String × String)) (names : List String) :
    Spares extensions own names ↔
      ∀ name ∈ names, (get? name extensions).or (get? name own) = get? name own := by
  constructor
  · intro spares name core
    cases found : get? name extensions with
    | none => rfl
    | some value => exact (spares (name, value) (mem_of_get? found) core).symm
  · rintro same ⟨name, value⟩ hx core
    have same := same name core
    rw [sorted.distinct.get? hx] at same
    exact same.symm

theorem find?_group (attrs : List (String × String)) (name : String) :
    (attrs.map group).find? (fun g => g.1 = headerMark ++ name) =
      (get? name attrs).map fun value => group (name, value) := by
  induction attrs with
  | nil => rfl
  | cons a rest ih =>
    rw [List.map_cons, List.find?_cons, ih, get?]
    by_cases same : name = a.1
    · subst same
      simp [group]
    · have other : headerMark ++ a.1 ≠ headerMark ++ name := fun marked =>
        same (mark_inj.1 marked).symm
      simp [group, other, same]

theorem values_headers {e : Event} (tidy : Tidy e.extensions) {name : String}
    (folded : Text.lower name = name) :
    e.headers.values (headerMark ++ name) =
      ((e.carried? name).map Text.Utf8.encode).toList := by
  have unmarked : ((e.contentType.map fun t => (contentTypeHeader, [Text.Utf8.encode t])).toList
      ).find? (fun g => g.1 = headerMark ++ name) = none := by
    rw [List.find?_eq_none]
    intro g hg
    obtain ⟨t, -, rfl⟩ := Option.map_eq_some_iff.1 (Option.mem_toList.1 hg)
    rw [decide_eq_true_eq]
    exact (mark_ne_contentType name).symm
  rw [Headers.values, headers, lower_mark folded, List.find?_append, find?_group, unmarked,
    Option.or_none, get?_written tidy]
  cases e.carried? name <;> rfl

theorem toList_encode_inj {a b : Option String} :
    (a.map Text.Utf8.encode).toList = (b.map Text.Utf8.encode).toList ↔ a = b := by
  cases a <;> cases b <;> simp [Text.Utf8.encode_inj]

theorem headersTell_headers_iff {e : Event} (tidy : Tidy e.extensions) :
    HeadersTell e e.headers ↔ Spares e.extensions e.ownAttributes coreNames := by
  have told {header name : String} (marked : header = headerMark ++ name)
      (core : name ∈ coreNames) {own : Option String} (owns : get? name e.ownAttributes = own) :
      e.headers.values header = (own.map Text.Utf8.encode).toList ↔
        (get? name e.extensions).or (get? name e.ownAttributes) = get? name e.ownAttributes := by
    have other : name ≠ "datacontenttype" := by
      rintro rfl
      exact absurd core (by decide)
    rw [marked, values_headers tidy (folded_coreNames name core), toList_encode_inj, ← owns,
      carried?, e.get?_ownAttributes_core other]
  have textual : (e.time.map fun t => Text.Utf8.encode t.text) =
      (e.time.map Timestamp.text).map Text.Utf8.encode := by
    simp only [Option.map_map, Function.comp_def]
  obtain ⟨version, id, kind, source, time, subject, -⟩ := e.get?_ownAttributes
  rw [headersTell_iff, spares_iff tidy.sorted, textual, coreNames]
  simp only [List.forall_mem_cons, List.not_mem_nil, false_implies, implies_true, and_true]
  exact and_congr (told (by decide) (by decide) version) <|
    and_congr (told (by decide) (by decide) id) <|
    and_congr (told (by decide) (by decide) kind) <|
    and_congr (told (by decide) (by decide) source) <|
    and_congr (told (by decide) (by decide) time) (told (by decide) (by decide) subject)

theorem membersTell_envelope_iff {e : Event} (tidy : Tidy e.extensions) {ms : Members}
    (envelope : e.envelope = .ok ms) :
    MembersTell e ms ↔
      Spares e.extensions e.ownAttributes (coreNames ++ ["datacontenttype"]) ∧
        (e.data = none → get? "data" e.extensions = none) := by
  have encloses := encloses_of_envelope tidy envelope
  have told {name : String} (other : name ≠ "data") {own : Option String}
      (owns : get? name e.ownAttributes = own) :
      get? name ms = own.map .str ↔
        (get? name e.extensions).or (get? name e.ownAttributes) = get? name e.ownAttributes := by
    rw [encloses.text name other, member?, owns]
    exact (Option.map_injective fun s t => Json.str.inj).eq_iff
  have textual : (e.time.map fun t => Json.str t.text) =
      (e.time.map Timestamp.text).map Json.str := by
    simp only [Option.map_map, Function.comp_def]
  obtain ⟨version, id, kind, source, time, subject, contentType, data⟩ := e.get?_ownAttributes
  rw [membersTell_iff, spares_iff tidy.sorted, textual, coreNames]
  simp only [List.cons_append, List.nil_append, List.forall_mem_cons, List.not_mem_nil,
    false_implies, implies_true, and_true, and_assoc]
  refine and_congr (told (by decide) version) <|
    and_congr (told (by decide) id) <|
    and_congr (told (by decide) kind) <|
    and_congr (told (by decide) source) <|
    and_congr (told (by decide) time) <|
    and_congr (told (by decide) subject) <|
    and_congr (told (by decide) contentType) ?_
  have payload := encloses.payload
  generalize get? "data" ms = p at payload
  cases payload with
  | absent none =>
    rw [none, member?, data, Option.or_none]
    simp
  | @given bytes v some value =>
    rw [some]
    simp [value]

/-- Headers and envelope have the core attributes of the event exactly when no extension of the name
of one has another value. The payload is never displaced, but its place is not kept free. -/
theorem core_kept_iff {e : Event} (made : e.Made) :
    (∀ h body, e.toBinary = .ok (h, body) →
      (HeadersTell e h ↔ Spares e.extensions e.ownAttributes coreNames)) ∧
    ∀ bytes, e.toStructured = .ok bytes →
      ∃ ms, e.envelope = .ok ms ∧ bytes = (Json.obj ms).bytes ∧
        (MembersTell e ms ↔
          Spares e.extensions e.ownAttributes (coreNames ++ ["datacontenttype"]) ∧
            (e.data = none → get? "data" e.extensions = none)) := by
  constructor
  · intro h body sent
    obtain ⟨rfl, -⟩ := toBinary_eq made.tidy sent
    exact headersTell_headers_iff made.tidy
  · intro bytes sent
    rw [toStructured_eq] at sent
    obtain ⟨ms, envelope, rfl⟩ := map_eq_ok.1 sent
    exact ⟨ms, envelope, rfl, membersTell_envelope_iff made.tidy envelope⟩

def tagged : Event := (bare "1" "t" "s").setExtension "Tag" "x"

theorem core_kept_tagged :
    tagged.Made ∧ tagged.toBinary = .ok (tagged.headers, []) ∧
      HeadersTell tagged tagged.headers := by
  have made : tagged.Made := (Made.core rfl).setExtension "Tag" "x"
  have sent : tagged.toBinary = .ok (tagged.headers, []) := by decide +kernel
  have spares : ∀ x ∈ tagged.extensions, x.1 ∈ coreNames →
      get? x.1 tagged.ownAttributes = some x.2 := by decide
  exact ⟨made, sent, ((core_kept_iff made).1 _ _ sent).2 spares⟩

def retypedBody : Bytes :=
  Text.Utf8.encode "\x7b\"id\":\"1\",\"type\":\"t\",\"source\":\"s\",\"Type\":\"x\"\x7d"

def retyped : Event := (bare "1" "t" "s").setExtension "Type" "x"

/-- Not every core attribute is kept: the folded name of an extension can be that of one. -/
theorem not_every_core_kept :
    ¬ ∀ e : Event, e.Made →
      (∀ h body, e.toBinary = .ok (h, body) → HeadersTell e h) ∧
        ∀ bytes ms, e.toStructured = .ok bytes → e.envelope = .ok ms → MembersTell e ms := by
  intro every
  have read : ofHttp (Headers.ofList [(contentTypeHeader, Text.Utf8.encode structuredType)])
      retypedBody = .ok retyped := by decide +kernel
  have sent : retyped.toBinary = .ok (retyped.headers, []) := by decide +kernel
  have kind := ((every retyped (.ofHttp read)).1 _ _ sent).kind
  have other : retyped.headers.values "ce-type" = [Text.Utf8.encode "x"] := by decide +kernel
  rw [other] at kind
  exact absurd kind (by decide)

end RoundTrip.Event
