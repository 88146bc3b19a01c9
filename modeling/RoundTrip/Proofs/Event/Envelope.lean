import RoundTrip.Proofs.Event.Carried
import RoundTrip.Proofs.Json.Reread

/-!
The envelope of an event in structured mode, and what reading one takes. An extension whose name is
that of a core attribute stands in its place.
-/

namespace RoundTrip.Event

open Entries

def ownAttributes (e : Event) : List (String × String) :=
  e.coreAttributes ++ (e.contentType.map fun t => ("datacontenttype", t)).toList

theorem ownAttributes_names (e : Event) :
    (e.ownAttributes.map Prod.fst).Sublist (coreNames ++ ["datacontenttype"]) := by
  rw [ownAttributes, List.map_append]
  apply e.coreAttributes_names.append
  cases e.contentType with
  | none => exact List.nil_sublist _
  | some t => exact List.Sublist.refl _

theorem distinct_ownAttributes (e : Event) : Distinct e.ownAttributes :=
  e.ownAttributes_names.nodup (by decide)

theorem get?_ownAttributes (e : Event) :
    get? "specversion" e.ownAttributes = some specVersion ∧
      get? "id" e.ownAttributes = some e.id ∧
      get? "type" e.ownAttributes = some e.kind ∧
      get? "source" e.ownAttributes = some e.source ∧
      get? "time" e.ownAttributes = e.time.map Timestamp.text ∧
      get? "subject" e.ownAttributes = e.subject ∧
      get? "datacontenttype" e.ownAttributes = e.contentType ∧
      get? "data" e.ownAttributes = none := by
  obtain ⟨id, kind, source, time, subject, contentType, data, extensions⟩ := e
  cases time <;> cases subject <;> cases contentType <;>
    exact ⟨rfl, rfl, rfl, rfl, rfl, rfl, rfl, rfl⟩

theorem get?_ownAttributes_core (e : Event) {name : String}
    (other : name ≠ "datacontenttype") :
    get? name e.ownAttributes = get? name e.coreAttributes := by
  have typed : get? name (e.contentType.map fun t => ("datacontenttype", t)).toList = none := by
    apply get?_eq_none
    intro x hx same
    obtain ⟨t, -, rfl⟩ := Option.map_eq_some_iff.1 (Option.mem_toList.1 hx)
    exact other same.symm
  rw [ownAttributes, get?_append, typed, Option.or_none]

theorem get?_ownAttributes_fresh (e : Event) {name : String}
    (fresh : name ∉ coreNames ++ ["datacontenttype"]) : get? name e.ownAttributes = none := by
  apply get?_eq_none
  rintro x hx rfl
  exact fresh (e.ownAttributes_names.subset (List.mem_map_of_mem hx))

def textMembers (texts : List (String × String)) : Members := texts.map fun x => (x.1, .str x.2)

theorem get?_textMembers (texts : List (String × String)) (name : String) :
    get? name (textMembers texts) = (get? name texts).map .str :=
  get?_map _ texts name

theorem sorted_textMembers {texts : List (String × String)} (h : Sorted texts) :
    Sorted (textMembers texts) :=
  List.pairwise_map.2 h

theorem members_eq (e : Event) :
    e.members = ofList (textMembers (e.ownAttributes ++ e.extensions)) := by
  obtain ⟨id, kind, source, time, subject, contentType, data, extensions⟩ := e
  cases time <;> cases subject <;> cases contentType <;> rfl

def member? (e : Event) (name : String) : Option String :=
  (get? name e.extensions).or (get? name e.ownAttributes)

theorem get?_members {e : Event} (tidy : Tidy e.extensions) (name : String) :
    get? name e.members = (e.member? name).map .str := by
  have backwards (texts : List (String × String)) :
      (textMembers texts).reverse = textMembers texts.reverse := List.map_reverse.symm
  rw [members_eq, get?_ofList, backwards, get?_textMembers, List.reverse_append, get?_append,
    tidy.sorted.distinct.get?_reverse, e.distinct_ownAttributes.get?_reverse, member?]

theorem member?_eq_carried? (e : Event) {name : String} (other : name ≠ "datacontenttype") :
    e.member? name = e.carried? name := by
  rw [member?, carried?, e.get?_ownAttributes_core other]

def envelope (e : Event) : Except TransportError Members :=
  match e.data with
  | none => .ok e.members
  | some data => (dataValue e.contentType data).map fun v => Entries.put "data" v e.members

theorem toStructured_eq (e : Event) :
    e.toStructured = e.envelope.map fun ms => (Json.obj ms).bytes := by
  rw [toStructured, envelope]
  cases e.data with
  | none => rfl
  | some data =>
    simp only
    cases dataValue e.contentType data <;> rfl

theorem valid_dataValue {contentType : Option String} {data : Bytes} {v : Json}
    (h : dataValue contentType data = .ok v) : v.Valid := by
  simp only [dataValue] at h
  split_ifs at h
  · split at h
    next parsed =>
      cases h
      exact Json.valid_of_parse parsed
    next =>
      split at h
      · cases h
        exact .str _
      · cases h
  · split at h
    · cases h
      exact .str _
    · cases h

inductive Payload (e : Event) : Option Json → Prop
  | absent : e.data = none → Payload e ((e.member? "data").map .str)
  | given {data : Bytes} {v : Json} :
      e.data = some data → dataValue e.contentType data = .ok v → Payload e (some v)

structure Encloses (e : Event) (ms : Members) : Prop where
  sorted : Sorted ms
  payload : e.Payload (get? "data" ms)
  text : ∀ name, name ≠ "data" → get? name ms = (e.member? name).map .str

theorem encloses_of_envelope {e : Event} (tidy : Tidy e.extensions) {ms : Members}
    (h : e.envelope = .ok ms) : e.Encloses ms := by
  have sorted : Sorted e.members := by
    rw [members_eq]
    exact sorted_ofList _
  rw [envelope] at h
  split at h
  next none =>
    cases h
    refine ⟨sorted, ?_, fun name _ => get?_members tidy name⟩
    rw [get?_members tidy]
    exact .absent none
  next data some =>
    obtain ⟨v, value, rfl⟩ := map_eq_ok.1 h
    refine ⟨sorted.put "data" v, ?_, ?_⟩
    · rw [get?_put_self]
      exact .given some value
    · intro name other
      rw [get?_put, if_neg other, get?_members tidy]

section

variable {e : Event} {ms : Members}

theorem Payload.valid {p : Option Json} (h : e.Payload p) : ∀ v ∈ p, v.Valid := by
  intro v hv
  cases h with
  | absent =>
    obtain ⟨s, -, rfl⟩ := Option.map_eq_some_iff.1 hv
    exact .str s
  | given _ value =>
    cases hv
    exact valid_dataValue value

theorem Encloses.valid (h : e.Encloses ms) : (Json.obj ms).Valid := by
  refine .obj h.sorted ?_
  rintro ⟨name, v⟩ hm
  have found := h.sorted.distinct.get? hm
  by_cases data : name = "data"
  · subst data
    exact h.payload.valid v found
  · rw [h.text name data] at found
    obtain ⟨s, -, rfl⟩ := Option.map_eq_some_iff.1 found
    exact .str s

end

structure Gives (ms : Members) (e : Event) : Prop where
  version : ∃ v, stringMember ms "specversion" = .ok v ∧ checkVersion v = .ok ()
  id : requiredMember ms "id" = .ok e.id
  kind : requiredMember ms "type" = .ok e.kind
  source : requiredMember ms "source" = .ok e.source
  time : timeMember ms = .ok e.time
  subject : stringMember ms "subject" = .ok e.subject
  contentType : stringMember ms "datacontenttype" = .ok e.contentType
  base64 : get? "data_base64" ms = none
  data : e.data = dataOf (get? "data" ms)
  extensions :
    readExtensions [] (ms.filter fun m => !coreMembers.contains m.1) = .ok e.extensions

theorem ofMembers_ok_iff {ms : Members} {e : Event} : ofMembers ms = .ok e ↔ Gives ms e := by
  constructor
  · intro h
    obtain ⟨v, version, h⟩ := bind_eq_ok.1 h
    obtain ⟨_, supported, h⟩ := bind_eq_ok.1 h
    obtain ⟨id, hasId, h⟩ := bind_eq_ok.1 h
    obtain ⟨kind, hasKind, h⟩ := bind_eq_ok.1 h
    obtain ⟨source, hasSource, h⟩ := bind_eq_ok.1 h
    obtain ⟨time, hasTime, h⟩ := bind_eq_ok.1 h
    obtain ⟨subject, hasSubject, h⟩ := bind_eq_ok.1 h
    obtain ⟨contentType, hasType, h⟩ := bind_eq_ok.1 h
    split at h
    · cases h
    next base64 =>
      obtain ⟨extensions, read, h⟩ := bind_eq_ok.1 h
      cases h
      exact ⟨⟨v, version, supported⟩, hasId, hasKind, hasSource, hasTime, hasSubject, hasType,
        by simpa using base64, rfl, read⟩
  · rintro ⟨⟨v, version, supported⟩, id, kind, source, time, subject, contentType, base64, data,
      extensions⟩
    simp only [ofMembers, bind, Except.bind, version, supported, id, kind, source, time, subject,
      contentType, base64, Option.isSome_none, Bool.false_eq_true, if_false, extensions, ← data]
    rfl

section

variable {ms : Members} {name : String}

theorem stringMember_text {text : Option String} (h : get? name ms = text.map .str) :
    stringMember ms name = .ok text := by
  rw [stringMember, h]
  cases text <;> rfl

theorem requiredMember_text {s : String} (h : get? name ms = some (.str s)) :
    requiredMember ms name = .ok s := by
  have text : get? name ms = (some s).map .str := h
  rw [requiredMember, stringMember_text text]

theorem timeMember_text {text : Option String} (h : get? "time" ms = text.map .str)
    (time : Option Timestamp) :
    timeMember ms = .ok time ↔
      (text = none ∧ time = none) ∨
        ∃ s t, text = some s ∧ parseTime s = .ok t ∧ time = some t := by
  rw [timeMember, stringMember_text h]
  cases text with
  | none => simp [eq_comm]
  | some s =>
    cases parsed : parseTime s with
    | error m => simp [parsed, Except.map]
    | ok t => simp [parsed, Except.map, eq_comm]

end

theorem ofStructured_bytes {ms : Members} (valid : (Json.obj ms).Valid) :
    ofStructured (Json.obj ms).bytes =
      if (Json.obj ms).depth ≤ Json.maxDepth then ofMembers (Json.rereadMembers ms)
      else .error (.invalidJson .tooDeep) := by
  rw [ofStructured, Json.parse_bytes valid]
  split_ifs <;> rfl

theorem get?_reread (ms : Members) (name : String) :
    get? name (Json.rereadMembers ms) = (get? name ms).map Json.reread := by
  rw [Json.rereadMembers_eq, get?_map]

theorem sorted_reread {ms : Members} (h : Sorted ms) : Sorted (Json.rereadMembers ms) := by
  rw [Json.rereadMembers_eq]
  exact List.pairwise_map.2 h

theorem Encloses.reread {e : Event} {ms : Members} (h : e.Encloses ms) {name : String}
    (other : name ≠ "data") :
    get? name (Json.rereadMembers ms) = (e.member? name).map .str := by
  rw [get?_reread, h.text name other, Option.map_map]
  rfl

theorem Encloses.depth_le_iff {e : Event} {ms : Members} (h : e.Encloses ms) (n : Nat) :
    Json.membersDepth ms ≤ n ↔ ∀ v ∈ get? "data" ms, v.depth ≤ n := by
  rw [Json.membersDepth_le_iff]
  constructor
  · intro all v hv
    exact all ("data", v) (mem_of_get? hv)
  · rintro payload ⟨name, v⟩ hm
    have found := h.sorted.distinct.get? hm
    by_cases data : name = "data"
    · exact payload v (data ▸ found)
    · rw [h.text name data] at found
      obtain ⟨s, -, rfl⟩ := Option.map_eq_some_iff.1 found
      exact Nat.zero_le n

theorem readExtensions_textMembers {texts acc : List (String × String)}
    (folded : ∀ x ∈ texts, Text.lower x.1 = x.1) (sorted : Sorted texts)
    (after : ∀ a ∈ acc, ∀ x ∈ texts, a.1 < x.1) :
    readExtensions acc (textMembers texts) = .ok (acc ++ texts) := by
  induction texts generalizing acc with
  | nil =>
    rw [List.append_nil]
    rfl
  | cons x rest ih =>
    obtain ⟨first, folded⟩ := List.forall_mem_cons.1 folded
    obtain ⟨least, sorted⟩ := List.pairwise_cons.1 sorted
    have put : Entries.put (Text.lower x.1) x.2 acc = acc ++ [x] := by
      rw [first]
      exact put_last fun a ha => after a ha x List.mem_cons_self
    have next : ∀ a ∈ acc ++ [x], ∀ y ∈ rest, a.1 < y.1 := by
      intro a ha y hy
      rcases List.mem_append.1 ha with ha | ha
      · exact after a ha y (List.mem_cons_of_mem _ hy)
      · rw [List.mem_singleton.1 ha]
        exact least y hy
    have step : readExtensions acc (textMembers (x :: rest)) =
        readExtensions (Entries.put (Text.lower x.1) x.2 acc) (textMembers rest) := rfl
    rw [step, put, ih folded sorted next, List.append_assoc, List.singleton_append]

theorem Encloses.extensions {e : Event} {ms : Members} (h : e.Encloses ms)
    (tidy : Tidy e.extensions) :
    readExtensions [] ((Json.rereadMembers ms).filter fun m => !coreMembers.contains m.1) =
      .ok (e.extensions.filter fun x => !coreMembers.contains x.1) := by
  have sorted : Sorted (e.extensions.filter fun x => !coreMembers.contains x.1) :=
    List.Pairwise.filter _ tidy.sorted
  have same : ((Json.rereadMembers ms).filter fun m => !coreMembers.contains m.1) =
      textMembers (e.extensions.filter fun x => !coreMembers.contains x.1) := by
    apply Sorted.ext (List.Pairwise.filter _ (sorted_reread h.sorted)) (sorted_textMembers sorted)
    intro name
    rw [get?_filter fun n => !coreMembers.contains n, get?_textMembers,
      get?_filter fun n => !coreMembers.contains n]
    split_ifs with fresh
    · have fresh : name ∉ coreMembers := by simpa using fresh
      have other : name ≠ "data" := by
        rintro rfl
        exact fresh (by decide)
      have own := e.get?_ownAttributes_fresh fun named =>
        fresh ((by decide : coreNames ++ ["datacontenttype"] ⊆ coreMembers) named)
      rw [h.reread other, member?, own, Option.or_none]
    · rfl
  rw [same]
  apply readExtensions_textMembers _ sorted (List.forall_mem_nil _)
  intro x hx
  exact tidy.folded x (List.mem_of_mem_filter hx)

end RoundTrip.Event
