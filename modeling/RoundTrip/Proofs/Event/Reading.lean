import Mathlib.Tactic.SplitIfs
import RoundTrip.Event.Http
import RoundTrip.Proofs.Event.Field
import RoundTrip.Proofs.Result
import RoundTrip.Proofs.Text.Entries

/-!
What one attribute does to a draft, and what a draft is after all of them. Every attribute is kept
as the text it came with, except the time, which is kept as the instant that its text names.
-/

namespace RoundTrip.Event

open Entries

def coreNames : List String := ["specversion", "id", "type", "source", "time", "subject"]

inductive Draft.Took (d : Draft) (attr value : String) : Draft → Prop
  | id : attr = "id" → Took d attr value { d with id := some value }
  | kind : attr = "type" → Took d attr value { d with kind := some value }
  | source : attr = "source" → Took d attr value { d with source := some value }
  | version : attr = "specversion" → Took d attr value { d with version := some value }
  | time (t : Timestamp) : attr = "time" → parseTime value = .ok t →
      Took d attr value { d with time := some t }
  | subject : attr = "subject" → Took d attr value { d with subject := some value }
  | extension : attr ∉ coreNames →
      Took d attr value { d with extensions := put (Text.lower attr) value d.extensions }

theorem Draft.took_of_set {d d' : Draft} {attr value : String} (h : d.set attr value = .ok d') :
    d.Took attr value d' := by
  simp only [Draft.set] at h
  split_ifs at h with id kind source version time subject
  case pos => cases h; exact .id id
  case pos => cases h; exact .kind kind
  case pos => cases h; exact .source source
  case pos => cases h; exact .version version
  case pos =>
    cases parsed : parseTime value with
    | error m => rw [parsed] at h; cases h
    | ok t => rw [parsed] at h; cases h; exact .time t time parsed
  case pos => cases h; exact .subject subject
  case neg =>
    cases h
    apply Took.extension
    simp only [coreNames, List.mem_cons, List.not_mem_nil, or_false, not_or]
    exact ⟨version, id, kind, source, time, subject⟩

theorem Draft.set_ok_iff (d : Draft) (attr value : String) :
    (∃ d', d.set attr value = .ok d') ↔ (attr = "time" → ∃ t, parseTime value = .ok t) := by
  constructor
  · rintro ⟨d', h⟩ time
    cases took_of_set h with
    | time t _ parsed => exact ⟨t, parsed⟩
    | extension fresh => exact absurd (time ▸ by decide) fresh
    | _ other => exact absurd (time.symm.trans other) (by decide)
  · intro h
    by_cases time : attr = "time"
    · obtain ⟨t, parsed⟩ := h time
      subst time
      exact ⟨{ d with time := some t }, by simp [Draft.set, parsed, Except.map]⟩
    · simp only [Draft.set, time, if_false]
      split_ifs
      all_goals exact ⟨_, rfl⟩

def Draft.attr? (d : Draft) (name : String) : Option String :=
  if name = "id" then d.id
  else if name = "type" then d.kind
  else if name = "source" then d.source
  else if name = "specversion" then d.version
  else if name = "subject" then d.subject
  else get? name d.extensions

theorem Draft.attr?_of_fresh (d : Draft) {name : String} (fresh : name ∉ coreNames) :
    d.attr? name = get? name d.extensions := by
  simp only [coreNames, List.mem_cons, List.not_mem_nil, or_false, not_or] at fresh
  simp [attr?, fresh]

theorem Draft.attr?_set {d d' : Draft} {attr value : String} (h : d.set attr value = .ok d')
    (folded : Text.lower attr = attr) {name : String} (untimed : name ≠ "time") :
    d'.attr? name = if name = attr then some value else d.attr? name := by
  cases took_of_set h with
  | extension fresh =>
    by_cases same : name = attr
    · rw [attr?_of_fresh _ (same ▸ fresh), folded, get?_put, if_pos same, if_pos same]
    · simp only [attr?, folded, get?_put, same, if_false]
  | time t time _ =>
    rw [if_neg (fun same => untimed (same.trans time))]
    rfl
  | _ named =>
    subst named
    split
    next same => simp [attr?, same]
    next other => simp [attr?, other]

def field (a : String × String) : String × Bytes := (headerMark ++ a.1, Text.Utf8.encode a.2)

@[simp] theorem attributeOf?_mark (name : String) :
    attributeOf? (headerMark ++ name) = some name := by
  simp [attributeOf?, headerMark, String.toList_append]

theorem eq_mark_of_attributeOf? {header attr : String} (h : attributeOf? header = some attr) :
    header = headerMark ++ attr := by
  rw [attributeOf?] at h
  split at h
  next cs marked =>
    cases h
    rw [← String.toList_inj, String.toList_append, String.toList_ofList, marked]
    rfl
  next => cases h

def Accepts (name value : String) : Prop :=
  Header.readable value = true ∧ (name = "time" → ∃ t, parseTime value = .ok t)

theorem Draft.read_field (d : Draft) (a : String × String) :
    d.read (field a) =
      if Header.readable a.2 then d.set a.1 a.2 else .error (.headerNotText (field a).1) := by
  simp only [Draft.read, field, attributeOf?_mark, Header.text?_encode]
  cases Header.readable a.2 <;> rfl

theorem Draft.read_field_ok_iff (d : Draft) (a : String × String) :
    (∃ d', d.read (field a) = .ok d') ↔ Accepts a.1 a.2 := by
  rw [read_field, Accepts]
  split
  next readable =>
    rw [set_ok_iff]
    exact (and_iff_right readable).symm
  next unreadable =>
    constructor
    · rintro ⟨d', ⟨⟩⟩
    · rintro ⟨readable, -⟩
      exact absurd readable unreadable

theorem Draft.readAll_ok_iff (d : Draft) (attrs : List (String × String)) :
    (∃ d', d.readAll (attrs.map field) = .ok d') ↔ ∀ a ∈ attrs, Accepts a.1 a.2 := by
  induction attrs generalizing d with
  | nil => exact ⟨fun _ => nofun, fun _ => ⟨d, rfl⟩⟩
  | cons a rest ih =>
    rw [List.forall_mem_cons, ← read_field_ok_iff d, List.map_cons, readAll]
    cases d.read (field a) with
    | error m => exact ⟨nofun, nofun⟩
    | ok next =>
      rw [ih next]
      exact ⟨fun h => ⟨⟨next, rfl⟩, h⟩, And.right⟩

theorem Draft.readAll_keeps {P : Draft → Prop}
    (step : ∀ {d d' : Draft} {attr value : String}, d.Took attr value d' → P d → P d')
    {fields : List (String × Bytes)} {d d' : Draft} (h : d.readAll fields = .ok d')
    (holds : P d) : P d' := by
  induction fields generalizing d with
  | nil =>
    cases h
    exact holds
  | cons field rest ih =>
    rw [readAll] at h
    split at h
    · cases h
    next next one =>
      apply ih h
      rw [read] at one
      split at one
      · cases one
        exact holds
      · split at one
        · cases one
        · exact step (took_of_set one) holds

theorem Draft.attr?_readAll {d d' : Draft} {attrs : List (String × String)}
    (h : d.readAll (attrs.map field) = .ok d') (folded : ∀ a ∈ attrs, Text.lower a.1 = a.1)
    {name : String} (untimed : name ≠ "time") :
    d'.attr? name = (get? name attrs.reverse).or (d.attr? name) := by
  induction attrs generalizing d with
  | nil =>
    cases h
    rfl
  | cons a rest ih =>
    rw [List.map_cons, readAll] at h
    cases read : d.read (field a) with
    | error m =>
      rw [read] at h
      cases h
    | ok next =>
      rw [read] at h
      rw [read_field] at read
      split at read
      · obtain ⟨first, others⟩ := List.forall_mem_cons.1 folded
        rw [ih h others, attr?_set read first untimed, List.reverse_cons, get?_append,
          Option.or_assoc]
        congr 1
        by_cases same : name = a.1 <;> simp [get?, same]
      · cases read

theorem Draft.readAll_append (d : Draft) (xs ys : List (String × Bytes)) :
    d.readAll (xs ++ ys) = (d.readAll xs).bind fun d => d.readAll ys := by
  induction xs generalizing d with
  | nil => rfl
  | cons x rest ih =>
    rw [List.cons_append, readAll, readAll]
    cases d.read x with
    | error m => rfl
    | ok next => exact ih next

structure Draft.Finishes (d : Draft) (headers : Headers) (body : Bytes) (e : Event) : Prop where
  version : checkVersion d.version = .ok ()
  id : d.id = some e.id
  kind : d.kind = some e.kind
  source : d.source = some e.source
  time : e.time = d.time
  subject : e.subject = d.subject
  contentType : e.contentType = if !body.isEmpty then contentTypeText? headers else none
  data : e.data = if !body.isEmpty then some body else none
  extensions : e.extensions = d.extensions

theorem Draft.finish_ok_iff {d : Draft} {headers : Headers} {body : Bytes} {e : Event} :
    d.finish headers body = .ok e ↔ d.Finishes headers body e := by
  constructor
  · intro h
    obtain ⟨_, version, h⟩ := bind_eq_ok.1 h
    split at h
    next id =>
      split at h
      next kind =>
        split at h
        next source =>
          cases h
          exact ⟨version, id, kind, source, rfl, rfl, rfl, rfl, rfl⟩
        next => cases h
      next => cases h
    next => cases h
  · rintro ⟨version, id, kind, source, time, subject, contentType, data, extensions⟩
    simp only [finish, bind, Except.bind, version, id, kind, source, ← time, ← subject,
      ← contentType, ← data, ← extensions]
    rfl

theorem Draft.finishes_of_required {d : Draft} {id kind source : String} (hasId : d.id = some id)
    (hasKind : d.kind = some kind) (hasSource : d.source = some source)
    (version : checkVersion d.version = .ok ()) (headers : Headers) (body : Bytes) :
    ∃ e, d.Finishes headers body e :=
  ⟨⟨id, kind, source, d.time, d.subject, _, _, d.extensions⟩, version, hasId, hasKind, hasSource,
    rfl, rfl, rfl, rfl, rfl⟩

theorem ofBinary_ok_iff {headers : Headers} {body : Bytes} {e : Event} :
    ofBinary headers body = .ok e ↔
      ∃ d, Draft.readAll {} headers.fields = .ok d ∧ d.Finishes headers body e := by
  have composed : ofBinary headers body =
      Draft.readAll {} headers.fields >>= fun d => d.finish headers body := by
    rw [ofBinary]
    cases Draft.readAll {} headers.fields <;> rfl
  rw [composed, bind_eq_ok]
  simp only [Draft.finish_ok_iff]

theorem ofHttp_ok_iff {headers : Headers} {body : Bytes} {e : Event} :
    ofHttp headers body = .ok e ↔
      body.length ≤ maxBytes ∧
        (if isStructured headers then ofStructured body else ofBinary headers body) = .ok e := by
  rw [ofHttp]
  split
  next long => exact ⟨nofun, fun h => absurd h.1 (Nat.not_le_of_lt long)⟩
  next short =>
    rw [and_iff_right (Nat.le_of_not_lt short)]
    split
    next read => rw [read, Except.ok.injEq, Except.ok.injEq]
    next read => rw [read]; exact ⟨nofun, nofun⟩

end RoundTrip.Event
