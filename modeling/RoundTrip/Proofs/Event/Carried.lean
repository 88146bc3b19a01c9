import RoundTrip.Proofs.Event.Reading

/-!
What the headers of a written event carry. An extension whose name is that of a core attribute is
written over it.
-/

namespace RoundTrip.Event

open Entries

structure Tidy (extensions : List (String × String)) : Prop where
  folded : ∀ x ∈ extensions, Text.lower x.1 = x.1
  sorted : Sorted extensions

theorem Tidy.nil : Tidy [] := ⟨nofun, List.Pairwise.nil⟩

theorem Tidy.put {extensions : List (String × String)} (h : Tidy extensions)
    (name value : String) : Tidy (Entries.put (Text.lower name) value extensions) := by
  refine ⟨?_, h.sorted.put _ _⟩
  intro x hx
  rcases mem_put hx with rfl | hx
  · exact Text.lower_lower name
  · exact h.folded x hx

theorem Draft.Took.tidy {d d' : Draft} {attr value : String} (h : d.Took attr value d')
    (tidy : Tidy d.extensions) : Tidy d'.extensions := by
  cases h with
  | extension => exact tidy.put _ _
  | _ => exact tidy

theorem Draft.readAll_tidy {fields : List (String × Bytes)} {d d' : Draft}
    (h : d.readAll fields = .ok d') (tidy : Tidy d.extensions) : Tidy d'.extensions :=
  readAll_keeps (P := fun d => Tidy d.extensions) Took.tidy h tidy

theorem readExtensions_tidy {members : Members} {acc extensions : List (String × String)}
    (h : readExtensions acc members = .ok extensions) (tidy : Tidy acc) : Tidy extensions := by
  induction members generalizing acc with
  | nil =>
    cases h
    exact tidy
  | cons member rest ih =>
    simp only [readExtensions] at h
    split at h
    · exact ih h tidy
    · split at h
      · cases h
      · exact ih h (tidy.put _ _)

theorem ofBinary_tidy {headers : Headers} {body : Bytes} {e : Event}
    (h : ofBinary headers body = .ok e) : Tidy e.extensions := by
  obtain ⟨d, read, finishes⟩ := ofBinary_ok_iff.1 h
  rw [finishes.extensions]
  exact Draft.readAll_tidy read Tidy.nil

theorem ofMembers_tidy {members : Members} {e : Event} (h : ofMembers members = .ok e) :
    Tidy e.extensions := by
  obtain ⟨_, _, h⟩ := bind_eq_ok.1 h
  obtain ⟨_, _, h⟩ := bind_eq_ok.1 h
  obtain ⟨id, _, h⟩ := bind_eq_ok.1 h
  obtain ⟨kind, _, h⟩ := bind_eq_ok.1 h
  obtain ⟨source, _, h⟩ := bind_eq_ok.1 h
  obtain ⟨time, _, h⟩ := bind_eq_ok.1 h
  obtain ⟨subject, _, h⟩ := bind_eq_ok.1 h
  obtain ⟨contentType, _, h⟩ := bind_eq_ok.1 h
  split at h
  · cases h
  · obtain ⟨extensions, read, h⟩ := bind_eq_ok.1 h
    cases h
    exact readExtensions_tidy read Tidy.nil

theorem ofStructured_tidy {body : Bytes} {e : Event} (h : ofStructured body = .ok e) :
    Tidy e.extensions := by
  rw [ofStructured] at h
  split at h
  · cases h
  · exact ofMembers_tidy h
  · cases h

theorem ofHttp_tidy {headers : Headers} {body : Bytes} {e : Event}
    (h : ofHttp headers body = .ok e) : Tidy e.extensions := by
  obtain ⟨-, h⟩ := ofHttp_ok_iff.1 h
  split at h
  · exact ofStructured_tidy h
  · exact ofBinary_tidy h

theorem coreAttributes_names (e : Event) :
    (e.coreAttributes.map Prod.fst).Sublist coreNames := by
  cases e with | mk id kind source time subject contentType data extensions =>
  cases time with
  | none =>
    cases subject with
    | none => exact (by decide : ["specversion", "id", "type", "source"].Sublist coreNames)
    | some s =>
      exact (by decide : ["specversion", "id", "type", "source", "subject"].Sublist coreNames)
  | some t =>
    cases subject with
    | none =>
      exact (by decide : ["specversion", "id", "type", "source", "time"].Sublist coreNames)
    | some s => exact List.Sublist.refl coreNames

theorem distinct_coreAttributes (e : Event) : Distinct e.coreAttributes :=
  e.coreAttributes_names.nodup (by decide)

theorem mem_coreNames {e : Event} {a : String × String} (h : a ∈ e.coreAttributes) :
    a.1 ∈ coreNames :=
  e.coreAttributes_names.subset (List.mem_map.2 ⟨a, h, rfl⟩)

theorem readable_coreAttributes {e : Event} (id : Header.readable e.id = true)
    (kind : Header.readable e.kind = true) (source : Header.readable e.source = true)
    (subject : ∀ s, e.subject = some s → Header.readable s = true) :
    ∀ a ∈ e.coreAttributes, Header.readable a.2 = true := by
  rintro ⟨name, value⟩ core
  simp only [coreAttributes, List.mem_append, List.mem_cons, List.not_mem_nil, or_false,
    Option.mem_toList, Option.map_eq_some_iff, Prod.mk.injEq] at core
  rcases core with ((⟨-, rfl⟩ | ⟨-, rfl⟩ | ⟨-, rfl⟩ | ⟨-, rfl⟩) | ⟨t, -, -, rfl⟩) |
    ⟨s, given, -, rfl⟩
  · exact (by decide : Header.readable specVersion = true)
  · exact id
  · exact kind
  · exact source
  · exact Header.readable_time t
  · exact subject _ given

theorem folded_coreNames : ∀ n ∈ coreNames, Text.lower n = n := by decide

def carried? (e : Event) (name : String) : Option String :=
  (get? name e.extensions).or (get? name e.coreAttributes)

/-- The attributes that the headers carry, each with the value last written for it. -/
def written (e : Event) : List (String × String) := placeAll [] e.attributes

theorem get?_written {e : Event} (tidy : Tidy e.extensions) (name : String) :
    get? name e.written = e.carried? name := by
  rw [written, get?_placeAll, attributes, List.reverse_append, get?_append,
    tidy.sorted.distinct.get?_reverse, e.distinct_coreAttributes.get?_reverse, get?_nil,
    Option.or_none, carried?]

theorem distinct_written (e : Event) : Distinct e.written := Distinct.nil.placeAll _

theorem mem_written_iff {e : Event} (tidy : Tidy e.extensions) (name value : String) :
    (name, value) ∈ e.written ↔ e.carried? name = some value := by
  rw [← e.distinct_written.get?_iff, get?_written tidy]

theorem folded_carried {e : Event} (tidy : Tidy e.extensions) {name value : String}
    (h : e.carried? name = some value) : Text.lower name = name := by
  rcases Option.or_eq_some_iff.1 h with h | ⟨-, h⟩
  · exact tidy.folded (name, value) (mem_of_get? h)
  · exact folded_coreNames name (mem_coreNames (mem_of_get? h))

def group (a : String × String) : String × List Bytes :=
  (headerMark ++ a.1, [Text.Utf8.encode a.2])

theorem mark_inj {m n : String} : headerMark ++ m = headerMark ++ n ↔ m = n := by
  rw [← String.toList_inj, ← String.toList_inj, String.toList_append, String.toList_append,
    List.append_cancel_left_eq]

theorem lower_mark {name : String} (folded : Text.lower name = name) :
    Text.lower (headerMark ++ name) = headerMark ++ name := by
  rw [← String.toList_inj, Text.toList_lower] at folded ⊢
  rw [String.toList_append, List.map_append, folded]
  rfl

theorem putGroup_mark (name value : String) (attrs : List (String × String)) :
    Headers.putGroup (headerMark ++ name) (Text.Utf8.encode value) (attrs.map group) =
      (place name value attrs).map group := by
  induction attrs with
  | nil => rfl
  | cons a rest ih =>
    simp only [List.map_cons, group, Headers.putGroup, place, mark_inj]
    split
    · rfl
    · exact congrArg _ ih

theorem putAttribute_mark {attrs : List (String × String)} {name value : String} {h : Headers}
    (put : putAttribute ⟨attrs.map group⟩ name value = .ok h)
    (folded : Text.lower name = name) : h = ⟨(place name value attrs).map group⟩ := by
  rw [putAttribute] at put
  split at put
  · cases put
  next header isName =>
    split at put
    · cases put
    next bytes isValue =>
      have header_eq : headerMark ++ name = header := by
        simp only [Header.name?, lower_mark folded] at isName
        split_ifs at isName
        exact Option.some.inj isName
      have bytes_eq : Text.Utf8.encode value = bytes := by
        simp only [Header.value?] at isValue
        split_ifs at isValue
        exact Option.some.inj isValue
      cases put
      rw [Headers.put, ← header_eq, lower_mark folded, ← bytes_eq, putGroup_mark]

theorem putAttributes_mark {attrs pairs : List (String × String)} {h : Headers}
    (put : putAttributes ⟨attrs.map group⟩ pairs = .ok h)
    (folded : ∀ a ∈ pairs, Text.lower a.1 = a.1) : h = ⟨(placeAll attrs pairs).map group⟩ := by
  induction pairs generalizing attrs with
  | nil =>
    cases put
    rfl
  | cons a rest ih =>
    rw [putAttributes] at put
    split at put
    · cases put
    next next =>
      obtain ⟨first, others⟩ := List.forall_mem_cons.1 folded
      rw [putAttribute_mark next first] at put
      exact ih put others

def headers (e : Event) : Headers :=
  ⟨e.written.map group ++
    (e.contentType.map fun t => (contentTypeHeader, [Text.Utf8.encode t])).toList⟩

theorem mark_ne_contentType (name : String) : headerMark ++ name ≠ contentTypeHeader := by
  rw [ne_eq, ← String.toList_inj, String.toList_append]
  simp [headerMark, contentTypeHeader]

theorem putGroup_contentType (bytes : Bytes) (attrs : List (String × String)) :
    Headers.putGroup contentTypeHeader bytes (attrs.map group) =
      attrs.map group ++ [(contentTypeHeader, [bytes])] := by
  induction attrs with
  | nil => rfl
  | cons a rest ih =>
    rw [List.map_cons, group, Headers.putGroup, if_neg (mark_ne_contentType a.1), ih,
      List.cons_append]

theorem lower_contentType : Text.lower contentTypeHeader = contentTypeHeader := by decide

theorem toBinary_eq {e : Event} (tidy : Tidy e.extensions) {h : Headers} {body : Bytes}
    (sent : e.toBinary = .ok (h, body)) : h = e.headers ∧ body = e.data.getD [] := by
  have folded : ∀ a ∈ e.attributes, Text.lower a.1 = a.1 := by
    intro a ha
    rcases List.mem_append.1 ha with ha | ha
    · exact folded_coreNames _ (mem_coreNames ha)
    · exact tidy.folded a ha
  rw [toBinary] at sent
  split at sent
  · cases sent
  next attrs put =>
    have attrs_eq : attrs = ⟨e.written.map group⟩ := putAttributes_mark put folded
    rw [attrs_eq] at sent
    cases contentType : e.contentType with
    | none =>
      rw [contentType] at sent
      cases sent
      rw [headers, contentType, Option.map_none, Option.toList_none, List.append_nil]
      exact ⟨rfl, rfl⟩
    | some t =>
      simp only [contentType, Header.value?] at sent
      split_ifs at sent
      cases sent
      rw [headers, contentType, Option.map_some, Option.toList_some, Headers.put,
        lower_contentType, putGroup_contentType]
      exact ⟨rfl, rfl⟩

theorem fields_headers (e : Event) :
    e.headers.fields = e.written.map field ++
      (e.contentType.map fun t => (contentTypeHeader, Text.Utf8.encode t)).toList := by
  rw [headers, Headers.fields, List.flatMap_append, List.flatMap_map]
  congr 1
  · exact List.flatMap_pure_eq_map field e.written
  · cases e.contentType <;> rfl

theorem contentTypeText?_headers (e : Event) :
    contentTypeText? e.headers = e.contentType.filter Header.readable := by
  have others : (e.written.map group).find? (fun g => g.1 = contentTypeHeader) = none := by
    rw [List.find?_eq_none]
    intro g hg
    obtain ⟨a, -, rfl⟩ := List.mem_map.1 hg
    rw [decide_eq_true_eq]
    exact mark_ne_contentType a.1
  rw [contentTypeText?, Headers.first?, Headers.values, headers, lower_contentType,
    List.find?_append, others, Option.none_or]
  cases e.contentType with
  | none => rfl
  | some t =>
    simp [Header.text?_encode, Option.filter]

end RoundTrip.Event
