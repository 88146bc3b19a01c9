import RoundTrip.Proofs.Event.BinaryTrip
import RoundTrip.Proofs.Event.Reentry

namespace RoundTrip

open Entries

namespace Headers

def valuesOf (fields : List (String × Bytes)) (name : String) : List Bytes :=
  (fields.filter fun f => Text.lower f.1 = name).map Prod.snd

theorem valuesOf_cons (f : String × Bytes) (fields : List (String × Bytes)) (name : String) :
    valuesOf (f :: fields) name =
      if Text.lower f.1 = name then f.2 :: valuesOf fields name else valuesOf fields name := by
  rw [valuesOf, List.filter_cons]
  simp only [decide_eq_true_eq]
  split_ifs <;> rfl

theorem valuesOf_append (xs ys : List (String × Bytes)) (name : String) :
    valuesOf (xs ++ ys) name = valuesOf xs name ++ valuesOf ys name := by
  rw [valuesOf, List.filter_append, List.map_append]
  rfl

theorem mem_valuesOf {fields : List (String × Bytes)} {name : String} {v : Bytes} :
    v ∈ valuesOf fields name ↔ ∃ n, Text.lower n = name ∧ (n, v) ∈ fields := by
  simp [valuesOf, and_comm]

theorem appendGroup_eq (name : String) (value : Bytes) (groups : List (String × List Bytes)) :
    appendGroup name value groups = place name ((get? name groups).getD [] ++ [value]) groups := by
  induction groups with
  | nil => rfl
  | cons g rest ih =>
    rw [appendGroup, place, get?, ih]
    by_cases same : g.1 = name
    · simp [same]
    · simp [same, Ne.symm same]

theorem get?_foldl_append (fields : List (String × Bytes)) (h : Headers) (name : String) :
    (get? name (fields.foldl (fun h f => h.append f.1 f.2) h).groups).getD [] =
      (get? name h.groups).getD [] ++ valuesOf fields name := by
  induction fields generalizing h with
  | nil => exact (List.append_nil _).symm
  | cons f rest ih =>
    rw [List.foldl_cons, ih, append, appendGroup_eq, get?_place, valuesOf_cons]
    by_cases same : name = Text.lower f.1
    · subst same
      simp
    · rw [if_neg same, if_neg (Ne.symm same)]

theorem get?_ofList (fields : List (String × Bytes)) (name : String) :
    (get? name (ofList fields).groups).getD [] = valuesOf fields name :=
  get?_foldl_append fields empty name

theorem distinct_ofList (fields : List (String × Bytes)) : Distinct (ofList fields).groups := by
  have general {h : Headers} (distinct : Distinct h.groups) :
      Distinct (fields.foldl (fun h f => h.append f.1 f.2) h).groups := by
    induction fields generalizing h with
    | nil => exact distinct
    | cons f rest ih =>
      apply ih
      have placed := distinct.place (Text.lower f.1)
        ((get? (Text.lower f.1) h.groups).getD [] ++ [f.2])
      rwa [← appendGroup_eq] at placed
  exact general Distinct.nil

theorem values_ofList (fields : List (String × Bytes)) (name : String) :
    (ofList fields).values name = valuesOf fields (Text.lower name) := by
  rw [← get?_ofList, get?_eq_find?, values]
  cases (ofList fields).groups.find? fun g => g.1 = Text.lower name <;> rfl

theorem valuesOf_group (g : String × List Bytes) (name : String) :
    valuesOf (g.2.map fun v => (g.1, v)) name = if Text.lower g.1 = name then g.2 else [] := by
  have second : (Prod.snd ∘ fun v : Bytes => (g.1, v)) = id := rfl
  rw [valuesOf, List.filter_map, List.map_map, second, List.map_id]
  split_ifs with same
  · exact List.filter_eq_self.2 fun v _ => decide_eq_true same
  · exact List.filter_eq_nil_iff.2 fun v _ => by simpa using same

theorem valuesOf_fields {h : Headers} (distinct : Distinct h.groups)
    (folded : ∀ g ∈ h.groups, Text.lower g.1 = g.1) (name : String) :
    valuesOf h.fields name = (get? name h.groups).getD [] := by
  obtain ⟨groups⟩ := h
  induction groups with
  | nil => rfl
  | cons g rest ih =>
    obtain ⟨fresh, others⟩ := List.nodup_cons.1 distinct
    obtain ⟨first, folded⟩ := List.forall_mem_cons.1 folded
    have split : fields ⟨g :: rest⟩ = (g.2.map fun v => (g.1, v)) ++ fields ⟨rest⟩ :=
      List.flatMap_cons
    rw [split, valuesOf_append, valuesOf_group, ih others folded, first, get?]
    by_cases same : name = g.1
    · subst same
      have none : get? g.1 rest = none :=
        get?_eq_none fun x hx again => fresh (List.mem_map.2 ⟨x, hx, again⟩)
      simp [none]
    · rw [if_neg same, if_neg (Ne.symm same), List.nil_append]

theorem valuesOf_fields_ofList (fields : List (String × Bytes)) (name : String) :
    valuesOf (ofList fields).fields name = valuesOf fields name := by
  rw [valuesOf_fields (distinct_ofList fields)
    (foldl_append_folded fields (h := empty) nofun), get?_ofList]

end Headers

namespace Event

open Headers (valuesOf)

def last? (values : String → List Bytes) (attr : String) : Option String :=
  (values (headerMark ++ attr)).getLast?.bind Header.text?

def texts (fields : List (String × Bytes)) : List (String × String) :=
  fields.filterMap fun f =>
    (attributeOf? f.1).bind fun attr => (Header.text? f.2).map fun text => (attr, text)

def Textual (fields : List (String × Bytes)) : Prop :=
  ∀ f ∈ fields, ∀ attr, attributeOf? f.1 = some attr → ∃ text, Header.text? f.2 = some text

theorem text?_isSome_iff (value : Bytes) :
    (∃ text, Header.text? value = some text) ↔ value.all Header.isTextByte = true := by
  rw [Header.text?]
  split_ifs with ascii
  · exact iff_of_true ⟨_, rfl⟩ ascii
  · exact iff_of_false (by rintro ⟨_, ⟨⟩⟩) ascii

theorem Draft.read_text (d : Draft) {f : String × Bytes} {attr text : String}
    (marked : attributeOf? f.1 = some attr) (read : Header.text? f.2 = some text) :
    d.read f = d.read (field (attr, text)) := by
  rw [read_field, if_pos (Header.readable_of_text? read), Draft.read, marked]
  simp only [read]

theorem Draft.readAll_texts {fields : List (String × Bytes)} (textual : Textual fields)
    (d : Draft) : d.readAll fields = d.readAll ((texts fields).map field) := by
  induction fields generalizing d with
  | nil => rfl
  | cons f rest ih =>
    obtain ⟨first, others⟩ := List.forall_mem_cons.1 textual
    rw [texts, List.filterMap_cons]
    cases marked : attributeOf? f.1 with
    | none =>
      rw [readAll, Draft.read, marked]
      exact ih others d
    | some attr =>
      obtain ⟨text, read⟩ := first attr marked
      simp only [read, Option.bind_some, Option.map_some, List.map_cons]
      rw [readAll, readAll, d.read_text marked read]
      cases d.read (field (attr, text)) with
      | error m => rfl
      | ok next => exact ih others next

theorem textual_of_readAll {fields : List (String × Bytes)} {d d' : Draft}
    (h : d.readAll fields = .ok d') : Textual fields := by
  induction fields generalizing d with
  | nil => nofun
  | cons f rest ih =>
    rw [Draft.readAll] at h
    split at h
    · cases h
    next next one =>
      refine List.forall_mem_cons.2 ⟨?_, ih h⟩
      intro attr marked
      rw [Draft.read, marked] at one
      cases read : Header.text? f.2 with
      | none =>
        rw [read] at one
        cases one
      | some text => exact ⟨text, rfl⟩

theorem Draft.readAll_fields_iff (fields : List (String × Bytes)) :
    (∃ d, Draft.readAll {} fields = .ok d) ↔
      Textual fields ∧ ∀ a ∈ texts fields, a.1 = "time" → ∃ t, parseTime a.2 = .ok t := by
  have readable : ∀ a ∈ texts fields, Header.readable a.2 = true := by
    intro a ha
    obtain ⟨f, -, ha⟩ := List.mem_filterMap.1 ha
    obtain ⟨attr, -, ha⟩ := Option.bind_eq_some_iff.1 ha
    obtain ⟨text, read, rfl⟩ := Option.map_eq_some_iff.1 ha
    exact Header.readable_of_text? read
  constructor
  · rintro ⟨d, read⟩
    have textual := textual_of_readAll read
    rw [readAll_texts textual] at read
    exact ⟨textual, fun a ha => ((readAll_ok_iff {} _).1 ⟨d, read⟩ a ha).2⟩
  · rintro ⟨textual, timed⟩
    rw [readAll_texts textual]
    exact (readAll_ok_iff {} _).2 fun a ha => ⟨readable a ha, timed a ha⟩

theorem attributeOf?_eq_some_iff {header attr : String} :
    attributeOf? header = some attr ↔ header = headerMark ++ attr := by
  constructor
  · exact eq_mark_of_attributeOf?
  · rintro rfl
    exact attributeOf?_mark attr

section

variable {fields : List (String × Bytes)} (folded : ∀ f ∈ fields, Text.lower f.1 = f.1)

include folded

theorem text_of_mem (textual : Textual fields) {attr : String} {v : Bytes}
    (h : v ∈ valuesOf fields (headerMark ++ attr)) : ∃ text, Header.text? v = some text := by
  obtain ⟨n, same, hf⟩ := Headers.mem_valuesOf.1 h
  have marked : n = headerMark ++ attr := (folded _ hf).symm.trans same
  exact textual (n, v) hf attr (attributeOf?_eq_some_iff.2 marked)

theorem textual_iff :
    Textual fields ↔
      ∀ attr, ∀ v ∈ valuesOf fields (headerMark ++ attr), v.all Header.isTextByte = true := by
  simp only [← text?_isSome_iff]
  constructor
  · intro textual attr v hv
    exact text_of_mem folded textual hv
  · rintro textual ⟨n, v⟩ hf attr marked
    obtain rfl := eq_mark_of_attributeOf? marked
    exact textual attr v (Headers.mem_valuesOf.2 ⟨_, folded _ hf, hf⟩)

theorem mem_texts_iff (attr text : String) :
    (attr, text) ∈ texts fields ↔
      ∃ v ∈ valuesOf fields (headerMark ++ attr), Header.text? v = some text := by
  simp only [texts, List.mem_filterMap, Option.bind_eq_some_iff, Option.map_eq_some_iff,
    attributeOf?_eq_some_iff, Headers.mem_valuesOf, Prod.mk.injEq]
  constructor
  · rintro ⟨⟨n, v⟩, hf, _, rfl, _, read, rfl, rfl⟩
    exact ⟨v, ⟨_, folded _ hf, hf⟩, read⟩
  · rintro ⟨v, ⟨n, same, hf⟩, read⟩
    have marked : n = headerMark ++ attr := (folded _ hf).symm.trans same
    exact ⟨(n, v), hf, attr, marked, text, read, rfl, rfl⟩

theorem get?_texts (textual : Textual fields) (attr : String) :
    get? attr (texts fields).reverse = last? (valuesOf fields) attr := by
  induction fields with
  | nil => rfl
  | cons f rest ih =>
    obtain ⟨first, folded⟩ := List.forall_mem_cons.1 folded
    obtain ⟨head, others⟩ := List.forall_mem_cons.1 textual
    have ih := ih folded others
    rw [last?] at ih ⊢
    rw [texts, List.filterMap_cons, Headers.valuesOf_cons, first]
    cases marked : attributeOf? f.1 with
    | none =>
      have other : f.1 ≠ headerMark ++ attr := by
        intro same
        rw [same, attributeOf?_mark] at marked
        cases marked
      rw [if_neg other]
      exact ih
    | some name =>
      obtain ⟨text, read⟩ := head name marked
      simp only [read, Option.bind_some, Option.map_some, List.reverse_cons, get?_append]
      rw [← texts, ih]
      have named := eq_mark_of_attributeOf? marked
      by_cases same : attr = name
      · subst same
        rw [if_pos named, get?, if_pos rfl, List.getLast?_cons]
        cases last : (valuesOf rest (headerMark ++ attr)).getLast? with
        | none => simp [read]
        | some v =>
          obtain ⟨later, read⟩ := text_of_mem folded others (List.mem_of_getLast? last)
          simp [read]
      · rw [if_neg (fun again => same (mark_inj.1 (again.symm.trans named))), get?, if_neg same,
          get?_nil, Option.or_none]

theorem reads_iff :
    (∃ d, Draft.readAll {} fields = .ok d) ↔
      (∀ attr, ∀ v ∈ valuesOf fields (headerMark ++ attr), v.all Header.isTextByte = true) ∧
        ∀ v ∈ valuesOf fields (headerMark ++ "time"), ∀ text, Header.text? v = some text →
          ∃ t, Timestamp.parse text = .ok t := by
  rw [Draft.readAll_fields_iff, textual_iff folded]
  simp only [parseTime_ok_iff]
  refine and_congr_right fun _ => ?_
  constructor
  · intro timed v hv text read
    exact timed ("time", text) ((mem_texts_iff folded _ _).2 ⟨v, hv, read⟩) rfl
  · rintro timed ⟨attr, text⟩ ha rfl
    obtain ⟨v, hv, read⟩ := (mem_texts_iff folded _ _).1 ha
    exact timed v hv text read

section

variable {d : Draft} (read : Draft.readAll {} fields = .ok d)

include read

theorem attr?_eq_last? {name : String} (untimed : name ≠ "time") :
    d.attr? name = last? (valuesOf fields) name := by
  have textual := textual_of_readAll read
  have names : ∀ a ∈ texts fields, Text.lower a.1 = a.1 := by
    rintro ⟨attr, text⟩ ha
    obtain ⟨v, hv, -⟩ := (mem_texts_iff folded _ _).1 ha
    obtain ⟨n, same, hf⟩ := Headers.mem_valuesOf.1 hv
    apply folded_of_mark
    rw [← same, Text.lower_lower]
  have nothing : ({} : Draft).attr? name = none := by simp [Draft.attr?]
  rw [Draft.readAll_texts textual] at read
  rw [Draft.attr?_readAll read names untimed, nothing, Option.or_none, get?_texts folded textual]

theorem time_eq_last? :
    d.time = (last? (valuesOf fields) "time").bind fun text => (Timestamp.parse text).toOption := by
  have textual := textual_of_readAll read
  rw [Draft.readAll_texts textual] at read
  have timed := Draft.timed_readAll read
  rw [get?_texts folded textual] at timed
  cases last : last? (valuesOf fields) "time" with
  | none =>
    rw [last] at timed
    exact timed
  | some text =>
    rw [last] at timed
    obtain ⟨t, parsed, timed⟩ := timed
    rw [timed, Option.bind_some, eq_comm, toOption_eq_some_iff]
    rw [parseTime] at parsed
    split at parsed
    next parsed' =>
      cases parsed
      exact parsed'
    next => cases parsed

end

end

/-- What the values of headers have to be to make an event. -/
structure Legible (values : String → List Bytes) : Prop where
  text : ∀ attr, ∀ v ∈ values (headerMark ++ attr), v.all Header.isTextByte = true
  time : ∀ v ∈ values (headerMark ++ "time"), ∀ text, Header.text? v = some text →
    ∃ t, Timestamp.parse text = .ok t
  version : ∀ text, last? values "specversion" = some text → text = specVersion
  id : values (headerMark ++ "id") ≠ []
  kind : values (headerMark ++ "type") ≠ []
  source : values (headerMark ++ "source") ≠ []

/-- The event that the values of headers and a body make. -/
structure Tells (values : String → List Bytes) (body : Bytes) (e : Event) : Prop where
  id : last? values "id" = some e.id
  kind : last? values "type" = some e.kind
  source : last? values "source" = some e.source
  time : e.time = (last? values "time").bind fun text => (Timestamp.parse text).toOption
  subject : e.subject = last? values "subject"
  sorted : Sorted e.extensions
  extensions : ∀ name, get? name e.extensions =
    if name ∈ coreNames then none else last? values name
  contentType : e.contentType =
    if body.isEmpty then none else (values contentTypeHeader).head?.bind Header.text?
  data : e.data = if body.isEmpty then none else some body

theorem Tells.unique {values : String → List Bytes} {body : Bytes} {e e' : Event}
    (h : Tells values body e) (h' : Tells values body e') : e = e' := by
  have extensions : e.extensions = e'.extensions := by
    apply h.sorted.ext h'.sorted
    intro name
    rw [h.extensions, h'.extensions]
  have id := Option.some.inj (h.id.symm.trans h'.id)
  have kind := Option.some.inj (h.kind.symm.trans h'.kind)
  have source := Option.some.inj (h.source.symm.trans h'.source)
  cases e with | mk _ _ _ _ _ _ _ _ =>
  cases e' with | mk _ _ _ _ _ _ _ _ =>
  simp only [mk.injEq]
  exact ⟨id, kind, source, h.time.trans h'.time.symm, h.subject.trans h'.subject.symm,
    h.contentType.trans h'.contentType.symm, h.data.trans h'.data.symm, extensions⟩

theorem last?_eq_none_iff {values : String → List Bytes}
    (text : ∀ attr, ∀ v ∈ values (headerMark ++ attr), v.all Header.isTextByte = true)
    (attr : String) : last? values attr = none ↔ values (headerMark ++ attr) = [] := by
  rw [last?]
  cases last : (values (headerMark ++ attr)).getLast? with
  | none => exact iff_of_true rfl (List.getLast?_eq_none_iff.1 last)
  | some v =>
    obtain ⟨t, read⟩ := (text?_isSome_iff v).2 (text attr v (List.mem_of_getLast? last))
    rw [Option.bind_some, read]
    refine iff_of_false nofun fun none => ?_
    rw [none] at last
    cases last

theorem contentTypeText?_ofList (fields : List (String × Bytes)) :
    contentTypeText? (Headers.ofList fields) =
      (valuesOf fields contentTypeHeader).head?.bind Header.text? := by
  rw [contentTypeText?, Headers.first?, Headers.values_ofList, lower_contentType]

section

variable {fields : List (String × Bytes)} {body : Bytes}

theorem values_fields (fields : List (String × Bytes)) :
    valuesOf (Headers.ofList fields).fields = valuesOf fields :=
  funext (Headers.valuesOf_fields_ofList fields)

theorem attr?_ofList {d : Draft} (read : Draft.readAll {} (Headers.ofList fields).fields = .ok d)
    (name : String) (untimed : name ≠ "time") : d.attr? name = last? (valuesOf fields) name := by
  rw [← values_fields]
  exact attr?_eq_last? (Headers.fields_folded fields) read untimed

theorem legible_iff :
    (∃ e, ofBinary (Headers.ofList fields) body = .ok e) ↔ Legible (valuesOf fields) := by
  have reads := reads_iff (Headers.fields_folded fields)
  rw [values_fields] at reads
  constructor
  · rintro ⟨e, made⟩
    obtain ⟨d, read, finishes⟩ := ofBinary_ok_iff.1 made
    obtain ⟨text, time⟩ := reads.1 ⟨d, read⟩
    have given (name : String) (untimed : name ≠ "time") {value : String}
        (has : d.attr? name = some value) : valuesOf fields (headerMark ++ name) ≠ [] := by
      rw [ne_eq, ← last?_eq_none_iff text, ← attr?_ofList read name untimed, has]
      exact nofun
    refine ⟨text, time, ?_, given "id" (by decide) finishes.id,
      given "type" (by decide) finishes.kind, given "source" (by decide) finishes.source⟩
    intro version has
    have supported := finishes.version
    have hasVersion : d.version = some version :=
      (attr?_ofList read "specversion" (by decide)).trans has
    rw [hasVersion] at supported
    exact checkVersion_some supported
  · intro legible
    obtain ⟨d, read⟩ := reads.2 ⟨legible.text, legible.time⟩
    have has (name : String) (untimed : name ≠ "time")
        (given : valuesOf fields (headerMark ++ name) ≠ []) :
        ∃ value, d.attr? name = some value := by
      rw [attr?_ofList read name untimed]
      exact Option.ne_none_iff_exists'.1 fun none =>
        given ((last?_eq_none_iff legible.text name).1 none)
    obtain ⟨id, hasId⟩ := has "id" (by decide) legible.id
    obtain ⟨kind, hasKind⟩ := has "type" (by decide) legible.kind
    obtain ⟨source, hasSource⟩ := has "source" (by decide) legible.source
    have supported : checkVersion d.version = .ok () := by
      have version : d.version = last? (valuesOf fields) "specversion" :=
        attr?_ofList read "specversion" (by decide)
      rw [version]
      cases last : last? (valuesOf fields) "specversion" with
      | none => rfl
      | some v =>
        rw [legible.version v last]
        rfl
    obtain ⟨e, finishes⟩ := Draft.finishes_of_required hasId hasKind hasSource supported
      (Headers.ofList fields) body
    exact ⟨e, ofBinary_ok_iff.2 ⟨d, read, finishes⟩⟩

theorem tells_of_ofBinary {e : Event} (made : ofBinary (Headers.ofList fields) body = .ok e) :
    Tells (valuesOf fields) body e := by
  have folded := Headers.fields_folded fields
  obtain ⟨d, read, finishes⟩ := ofBinary_ok_iff.1 made
  have plain := Draft.Plain.empty.readAll read folded
  constructor
  · exact (attr?_ofList read "id" (by decide)).symm.trans finishes.id
  · exact (attr?_ofList read "type" (by decide)).symm.trans finishes.kind
  · exact (attr?_ofList read "source" (by decide)).symm.trans finishes.source
  · rw [finishes.time, ← values_fields]
    exact time_eq_last? folded read
  · rw [finishes.subject]
    exact attr?_ofList read "subject" (by decide)
  · rw [finishes.extensions]
    exact (Draft.readAll_tidy read Tidy.nil).sorted
  · intro name
    rw [finishes.extensions]
    split_ifs with core
    · exact get?_eq_none fun x hx same => plain.fresh x hx (same ▸ core)
    · have untimed : name ≠ "time" := by
        rintro rfl
        exact core (by decide)
      rw [← d.attr?_of_fresh core, attr?_ofList read name untimed]
  · rw [finishes.contentType, contentTypeText?_ofList]
    cases body <;> rfl
  · rw [finishes.data]
    cases body <;> rfl

theorem isStructured_congr {fields' : List (String × Bytes)}
    (same : valuesOf fields' = valuesOf fields) :
    isStructured (Headers.ofList fields') = isStructured (Headers.ofList fields) := by
  rw [isStructured, isStructured, contentTypeText?_ofList, contentTypeText?_ofList, same]

section

variable (binary : isStructured (Headers.ofList fields) = false)

include binary

theorem accepted_iff_legible :
    (∃ e, ofHttp (Headers.ofList fields) body = .ok e) ↔
      body.length ≤ maxBytes ∧ Legible (valuesOf fields) := by
  simp only [ofHttp_ok_iff, binary, Bool.false_eq_true, if_false, exists_and_left, legible_iff]

theorem tells_of_ofHttp {e : Event} (made : ofHttp (Headers.ofList fields) body = .ok e) :
    Tells (valuesOf fields) body e := by
  obtain ⟨-, made⟩ := ofHttp_ok_iff.1 made
  rw [binary] at made
  exact tells_of_ofBinary made

theorem ofHttp_congr {fields' : List (String × Bytes)} (same : valuesOf fields' = valuesOf fields)
    {e : Event} (made : ofHttp (Headers.ofList fields) body = .ok e) :
    ofHttp (Headers.ofList fields') body = .ok e := by
  have binary' := (isStructured_congr same).trans binary
  have accepted := (accepted_iff_legible binary).1 ⟨e, made⟩
  rw [← same] at accepted
  obtain ⟨e', made'⟩ := (accepted_iff_legible binary').2 accepted
  have told := tells_of_ofHttp binary' made'
  rw [same] at told
  obtain rfl := (tells_of_ofHttp binary made).unique told
  exact made'

/-- Which fields make an event and which event it is. Fields whose names have the same values, each
name in its own order, make the same. -/
theorem binary_told_by_values (body : Bytes) :
    ((∃ e, ofHttp (Headers.ofList fields) body = .ok e) ↔
      body.length ≤ maxBytes ∧ Legible (valuesOf fields)) ∧
    (∀ e, ofHttp (Headers.ofList fields) body = .ok e → Tells (valuesOf fields) body e) ∧
    ∀ fields', (∀ name, valuesOf fields' name = valuesOf fields name) →
      (ofHttp (Headers.ofList fields') body).toOption =
        (ofHttp (Headers.ofList fields) body).toOption := by
  refine ⟨accepted_iff_legible binary, fun e => tells_of_ofHttp binary, ?_⟩
  intro fields' same
  have same : valuesOf fields' = valuesOf fields := funext same
  have binary' := (isStructured_congr same).trans binary
  apply Option.ext
  intro e
  rw [toOption_eq_some_iff, toOption_eq_some_iff]
  exact ⟨ofHttp_congr binary' same.symm, ofHttp_congr binary same⟩

end

end

def scattered : List (String × Bytes) :=
  [("ce-tag", Text.Utf8.encode "a"), ("ce-id", Text.Utf8.encode "1"),
    ("ce-type", Text.Utf8.encode "t"), ("CE-Tag", Text.Utf8.encode "b"),
    ("ce-source", Text.Utf8.encode "s")]

def collected : List (String × Bytes) :=
  [("ce-source", Text.Utf8.encode "s"), ("ce-type", Text.Utf8.encode "t"),
    ("ce-id", Text.Utf8.encode "1"), ("Ce-Tag", Text.Utf8.encode "a"),
    ("ce-tag", Text.Utf8.encode "b")]

theorem binary_told_scattered :
    isStructured (Headers.ofList scattered) = false ∧ Legible (valuesOf scattered) ∧
      Tells (valuesOf scattered) [] ((bare "1" "t" "s").setExtension "tag" "b") ∧
        (ofHttp (Headers.ofList collected) []).toOption =
          (ofHttp (Headers.ofList scattered) []).toOption := by
  have binary : isStructured (Headers.ofList scattered) = false := by decide
  have made : ofHttp (Headers.ofList scattered) [] =
      .ok ((bare "1" "t" "s").setExtension "tag" "b") := by decide +kernel
  have same : ∀ name, valuesOf collected name = valuesOf scattered name := by
    have folded : Text.lower "ce-tag" = "ce-tag" ∧ Text.lower "CE-Tag" = "ce-tag" ∧
        Text.lower "Ce-Tag" = "ce-tag" ∧ Text.lower "ce-id" = "ce-id" ∧
        Text.lower "ce-type" = "ce-type" ∧ Text.lower "ce-source" = "ce-source" := by decide
    intro name
    simp only [scattered, collected, Headers.valuesOf_cons, folded]
    split_ifs <;> subst_vars <;> first | rfl | contradiction
  obtain ⟨accepted, told, reordered⟩ := binary_told_by_values binary []
  exact ⟨binary, (accepted.1 ⟨_, made⟩).2, told _ made, reordered collected same⟩

end Event

end RoundTrip
