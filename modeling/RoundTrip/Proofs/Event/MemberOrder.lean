import RoundTrip.Proofs.Event.Reentry
import RoundTrip.Proofs.Json.Written
import RoundTrip.Proofs.Text.Order

namespace RoundTrip

namespace Json

inductive Flat : Json → Prop
  | null : Flat .null
  | bool (b : Bool) : Flat (.bool b)
  | num (n : Number) : Flat (.num n)
  | str (s : String) : Flat (.str s)

def isNull : Json → Bool
  | .null => true
  | _ => false

theorem isNull_iff {v : Json} : v.isNull = true ↔ v = .null := by
  cases v <;> simp [isNull]

theorem reread_eq_null_iff {v : Json} : v.reread = .null ↔ v = .null := by
  cases v <;> simp [reread]

theorem reread_eq_str_iff {v : Json} {s : String} : v.reread = .str s ↔ v = .str s := by
  cases v <;> simp [reread]

theorem flat_reread_iff {v : Json} : v.reread.Flat ↔ v.Flat := by
  cases v with
  | null => exact iff_of_true .null .null
  | bool b => exact iff_of_true (.bool b) (.bool b)
  | num n => exact iff_of_true (.num _) (.num n)
  | str s => exact iff_of_true (.str s) (.str s)
  | arr items => exact iff_of_false nofun nofun
  | obj members => exact iff_of_false nofun nofun

end Json

namespace Event

open Entries

theorem scalarText?_isSome_iff {v : Json} : (∃ text, scalarText? v = some text) ↔ v.Flat := by
  cases v with
  | null => exact iff_of_true ⟨_, rfl⟩ .null
  | bool b => exact iff_of_true ⟨_, rfl⟩ (.bool b)
  | num n => exact iff_of_true ⟨_, rfl⟩ (.num n)
  | str s => exact iff_of_true ⟨s, rfl⟩ (.str s)
  | arr items => exact iff_of_false (by rintro ⟨_, ⟨⟩⟩) nofun
  | obj members => exact iff_of_false (by rintro ⟨_, ⟨⟩⟩) nofun

def text? (ms : Members) (name : String) : Option String :=
  match get? name ms with
  | some (.str s) => some s
  | _ => none

theorem stringMember_ok_iff {ms : Members} {name : String} {text : Option String} :
    stringMember ms name = .ok text ↔
      (∀ v, get? name ms = some v → v = .null ∨ ∃ s, v = .str s) ∧ text = text? ms name := by
  rw [stringMember, text?]
  cases get? name ms with
  | none => simp [eq_comm]
  | some v => cases v <;> simp [eq_comm]

theorem requiredMember_ok_iff {ms : Members} {name s : String} :
    requiredMember ms name = .ok s ↔ get? name ms = some (.str s) := by
  rw [requiredMember, stringMember]
  cases get? name ms with
  | none => simp
  | some v => cases v <;> simp

theorem version_ok_iff {ms : Members} :
    (∃ v, stringMember ms "specversion" = .ok v ∧ checkVersion v = .ok ()) ↔
      ∀ v, get? "specversion" ms = some v → v = .null ∨ v = .str specVersion := by
  rw [stringMember]
  cases get? "specversion" ms with
  | none => simp [checkVersion]
  | some v =>
    cases v with
    | str s =>
      constructor
      · rintro ⟨_, ⟨⟩, supported⟩ _ ⟨⟩
        exact .inr (by rw [checkVersion_some supported])
      · intro h
        rcases h _ rfl with ⟨⟨⟩⟩ | ⟨⟨⟩⟩
        exact ⟨_, rfl, rfl⟩
    | null => simp [checkVersion]
    | _ => simp

theorem timeMember_ok_iff {ms : Members} {time : Option Timestamp} :
    timeMember ms = .ok time ↔
      (∀ v, get? "time" ms = some v →
        v = .null ∨ ∃ s t, v = .str s ∧ Timestamp.parse s = .ok t) ∧
      time = (text? ms "time").bind fun text => (Timestamp.parse text).toOption := by
  rw [timeMember, stringMember, text?]
  cases get? "time" ms with
  | none => simp [eq_comm]
  | some v =>
    cases v with
    | str s =>
      cases parsed : Timestamp.parse s with
      | error fault => simp [parseTime, parsed, Except.map]
      | ok t => simp [parseTime, parsed, Except.map, Except.toOption, eq_comm]
    | null => simp [eq_comm]
    | _ => simp

theorem readExtensions_ok_iff (acc : List (String × String)) (ms : Members) :
    (∃ extensions, readExtensions acc ms = .ok extensions) ↔ ∀ m ∈ ms, m.2.Flat := by
  induction ms generalizing acc with
  | nil => exact ⟨fun _ => nofun, fun _ => ⟨acc, rfl⟩⟩
  | cons m rest ih =>
    obtain ⟨name, v⟩ := m
    rw [List.forall_mem_cons, ← scalarText?_isSome_iff]
    cases v with
    | null => exact (ih acc).trans (and_iff_right ⟨_, rfl⟩).symm
    | bool b => exact (ih _).trans (and_iff_right ⟨_, rfl⟩).symm
    | num n => exact (ih _).trans (and_iff_right ⟨_, rfl⟩).symm
    | str s => exact (ih _).trans (and_iff_right ⟨_, rfl⟩).symm
    | arr items => exact iff_of_false (by rintro ⟨_, ⟨⟩⟩) (by rintro ⟨⟨_, ⟨⟩⟩, -⟩)
    | obj members => exact iff_of_false (by rintro ⟨_, ⟨⟩⟩) (by rintro ⟨⟨_, ⟨⟩⟩, -⟩)

def sets (name : String) (m : String × Json) : Bool :=
  decide (Text.lower m.1 = name) && !m.2.isNull

def extensionText (m : String × Json) : String := (scalarText? m.2).getD ""

theorem readExtensions_cons (acc : List (String × String)) (m : String × Json) (rest : Members) :
    readExtensions acc (m :: rest) =
      if m.2.isNull then readExtensions acc rest
      else
        match scalarText? m.2 with
        | none => .error (.extensionNotScalar m.1)
        | some text => readExtensions (Entries.put (Text.lower m.1) text acc) rest := by
  obtain ⟨name, v⟩ := m
  cases v <;> rfl

theorem get?_readExtensions {acc extensions : List (String × String)} {ms : Members}
    (h : readExtensions acc ms = .ok extensions) (name : String) :
    get? name extensions =
      ((ms.reverse.find? (sets name)).map extensionText).or (get? name acc) := by
  induction ms generalizing acc with
  | nil =>
    cases h
    rfl
  | cons m rest ih =>
    rw [readExtensions_cons] at h
    rw [List.reverse_cons, List.find?_append, Option.map_or, Option.or_assoc, List.find?_singleton]
    by_cases null : m.2.isNull
    · rw [if_pos null] at h
      rw [ih h, if_neg (by simp [sets, null]), Option.map_none, Option.none_or]
    · rw [if_neg null] at h
      split at h
      · cases h
      next text scalar =>
        rw [ih h, get?_put]
        congr 1
        by_cases same : name = Text.lower m.1
        · rw [if_pos same, if_pos (by simp [sets, null, same])]
          simp [extensionText, scalar]
        · rw [if_neg same, if_neg (by simp [sets, Ne.symm same]), Option.map_none, Option.none_or]

/-- What the members of an envelope have to be to make an event. -/
@[mk_iff]
structure Acceptable (ms : Members) : Prop where
  version : ∀ v, get? "specversion" ms = some v → v = .null ∨ v = .str specVersion
  id : ∃ s, get? "id" ms = some (.str s)
  kind : ∃ s, get? "type" ms = some (.str s)
  source : ∃ s, get? "source" ms = some (.str s)
  time : ∀ v, get? "time" ms = some v →
    v = .null ∨ ∃ s t, v = .str s ∧ Timestamp.parse s = .ok t
  subject : ∀ v, get? "subject" ms = some v → v = .null ∨ ∃ s, v = .str s
  contentType : ∀ v, get? "datacontenttype" ms = some v → v = .null ∨ ∃ s, v = .str s
  base64 : get? "data_base64" ms = none
  extensions : ∀ m ∈ ms, m.1 ∉ coreMembers → m.2.Flat

structure Sets (ms : Members) (name : String) (m : String × Json) : Prop where
  mem : m ∈ ms
  fresh : m.1 ∉ coreMembers
  folds : Text.lower m.1 = name
  given : m.2 ≠ .null

/-- The event that the members of an envelope make. -/
structure Makes (ms : Members) (e : Event) : Prop where
  id : get? "id" ms = some (.str e.id)
  kind : get? "type" ms = some (.str e.kind)
  source : get? "source" ms = some (.str e.source)
  time : e.time = (text? ms "time").bind fun text => (Timestamp.parse text).toOption
  subject : e.subject = text? ms "subject"
  contentType : e.contentType = text? ms "datacontenttype"
  data : e.data = dataOf (get? "data" ms)
  sorted : Sorted e.extensions
  /-- Of the members that set an extension the one with the greatest octets in its name counts. -/
  extensions : ∀ name text, get? name e.extensions = some text ↔
    ∃ m, Sets ms name m ∧ scalarText? m.2 = some text ∧
      ∀ other, Sets ms name other → other ≠ m →
        Text.Utf8.encode other.1 < Text.Utf8.encode m.1

def ownMembers (ms : Members) : Members := ms.filter fun m => !coreMembers.contains m.1

theorem mem_ownMembers {ms : Members} {m : String × Json} :
    m ∈ ownMembers ms ↔ m ∈ ms ∧ m.1 ∉ coreMembers := by
  simp [ownMembers, List.mem_filter]

theorem sets_iff {ms : Members} {name : String} {m : String × Json} :
    Sets ms name m ↔ m ∈ ownMembers ms ∧ sets name m = true := by
  rw [mem_ownMembers, sets, Bool.and_eq_true, decide_eq_true_eq, Bool.not_eq_true',
    ← Bool.not_eq_true, Json.isNull_iff]
  constructor
  · rintro ⟨mem, fresh, folds, given⟩
    exact ⟨⟨mem, fresh⟩, folds, given⟩
  · rintro ⟨⟨mem, fresh⟩, folds, given⟩
    exact ⟨mem, fresh, folds, given⟩

section

variable {ms : Members} {e : Event}

theorem ofMembers_iff_acceptable : (∃ e, ofMembers ms = .ok e) ↔ Acceptable ms := by
  simp only [ofMembers_ok_iff]
  constructor
  · rintro ⟨e, gives⟩
    refine ⟨version_ok_iff.1 gives.version, ⟨_, requiredMember_ok_iff.1 gives.id⟩,
      ⟨_, requiredMember_ok_iff.1 gives.kind⟩, ⟨_, requiredMember_ok_iff.1 gives.source⟩,
      (timeMember_ok_iff.1 gives.time).1, (stringMember_ok_iff.1 gives.subject).1,
      (stringMember_ok_iff.1 gives.contentType).1, gives.base64, ?_⟩
    intro m hm fresh
    exact (readExtensions_ok_iff [] _).1 ⟨_, gives.extensions⟩ m (mem_ownMembers.2 ⟨hm, fresh⟩)
  · intro h
    obtain ⟨id, hasId⟩ := h.id
    obtain ⟨kind, hasKind⟩ := h.kind
    obtain ⟨source, hasSource⟩ := h.source
    obtain ⟨extensions, read⟩ := (readExtensions_ok_iff [] (ownMembers ms)).2 fun m hm =>
      h.extensions m (mem_ownMembers.1 hm).1 (mem_ownMembers.1 hm).2
    exact ⟨⟨id, kind, source, _, _, _, _, extensions⟩, version_ok_iff.2 h.version,
      requiredMember_ok_iff.2 hasId, requiredMember_ok_iff.2 hasKind,
      requiredMember_ok_iff.2 hasSource, timeMember_ok_iff.2 ⟨h.time, rfl⟩,
      stringMember_ok_iff.2 ⟨h.subject, rfl⟩, stringMember_ok_iff.2 ⟨h.contentType, rfl⟩, h.base64,
      rfl, read⟩

theorem extension_of_members (sorted : Sorted ms)
    (read : readExtensions [] (ownMembers ms) = .ok e.extensions) (name text : String) :
    get? name e.extensions = some text ↔
      ∃ m, Sets ms name m ∧ scalarText? m.2 = some text ∧
        ∀ other, Sets ms name other → other ≠ m →
          Text.Utf8.encode other.1 < Text.Utf8.encode m.1 := by
  have ordered : Sorted (ownMembers ms) := List.Pairwise.filter _ sorted
  have flat := (readExtensions_ok_iff [] (ownMembers ms)).1 ⟨_, read⟩
  have texts (m : String × Json) (hm : m ∈ ownMembers ms) :
      extensionText m = text ↔ scalarText? m.2 = some text := by
    obtain ⟨t, scalar⟩ := scalarText?_isSome_iff.2 (flat m hm)
    simp [extensionText, scalar]
  rw [get?_readExtensions read, get?_nil, Option.or_none, Option.map_eq_some_iff]
  simp only [ordered.find?_reverse_iff, sets_iff, Text.Utf8.encode_lt_iff]
  apply exists_congr
  intro m
  constructor
  · rintro ⟨⟨hm, holds, above⟩, same⟩
    exact ⟨⟨hm, holds⟩, (texts m hm).1 same, fun other found => above other found.1 found.2⟩
  · rintro ⟨⟨hm, holds⟩, same, above⟩
    exact ⟨⟨hm, holds, fun other own found => above other ⟨own, found⟩⟩, (texts m hm).2 same⟩

theorem makes_of_ofMembers (sorted : Sorted ms) (made : ofMembers ms = .ok e) : Makes ms e := by
  have gives := ofMembers_ok_iff.1 made
  exact ⟨requiredMember_ok_iff.1 gives.id, requiredMember_ok_iff.1 gives.kind,
    requiredMember_ok_iff.1 gives.source, (timeMember_ok_iff.1 gives.time).2,
    (stringMember_ok_iff.1 gives.subject).2, (stringMember_ok_iff.1 gives.contentType).2,
    gives.data, (ofMembers_tidy made).sorted, extension_of_members sorted gives.extensions⟩

theorem acceptable_reread_iff : Acceptable (Json.rereadMembers ms) ↔ Acceptable ms := by
  have given (name : String) {P : Json → Prop} (same : ∀ v, P v.reread ↔ P v) :
      (∀ v, get? name (Json.rereadMembers ms) = some v → P v) ↔
        ∀ v, get? name ms = some v → P v := by
    rw [get?_reread]
    cases get? name ms with
    | none => simp
    | some v => simp [same]
  have required (name : String) :
      (∃ s, get? name (Json.rereadMembers ms) = some (.str s)) ↔
        ∃ s, get? name ms = some (.str s) := by
    simp only [get?_reread, Option.map_eq_some_iff, Json.reread_eq_str_iff, exists_eq_right]
  rw [acceptable_iff, acceptable_iff]
  refine and_congr (given _ fun v => ?_) <| and_congr (required _) <| and_congr (required _) <|
    and_congr (required _) <| and_congr (given _ fun v => ?_) <| and_congr (given _ fun v => ?_) <|
    and_congr (given _ fun v => ?_) <| and_congr ?_ ?_
  · rw [Json.reread_eq_null_iff, Json.reread_eq_str_iff]
  · simp only [Json.reread_eq_null_iff, Json.reread_eq_str_iff]
  · simp only [Json.reread_eq_null_iff, Json.reread_eq_str_iff]
  · simp only [Json.reread_eq_null_iff, Json.reread_eq_str_iff]
  · rw [get?_reread, Option.map_eq_none_iff]
  · rw [Json.rereadMembers_eq, List.forall_mem_map]
    simp only [Json.flat_reread_iff]

end

section

open Json (Written)
open Json.Written (objectText)

theorem ofStructured_of_parse {text : Bytes} {ms : Members}
    (parsed : Json.parse text = .ok (.obj ms)) : ofStructured text = ofMembers ms := by
  rw [ofStructured, parsed]

/-- Which members make an event and which event it is. Members of distinct names make the same in
any order. -/
theorem envelope_told_by_members :
    (∀ text ms, Json.parse text = .ok (.obj ms) →
      ((∃ e, ofStructured text = .ok e) ↔ Acceptable ms) ∧
        ∀ e, ofStructured text = .ok e → Makes ms e) ∧
    (∀ ms, (Json.obj ms).Valid →
      ((∃ e, ofStructured (Json.obj ms).bytes = .ok e) ↔
        (Json.obj ms).depth ≤ Json.maxDepth ∧ Acceptable ms)) ∧
    (∀ ws : List (Written 126),
      Json.parse (objectText ws) = .ok (.obj (ofList (ws.map Written.member)))) ∧
    ∀ ws ws' : List (Written 126), ws.Perm ws' → (ws.map Written.name).Nodup →
      ofStructured (objectText ws) = ofStructured (objectText ws') := by
  refine ⟨?_, ?_, Json.parse_objectText, ?_⟩
  · intro text ms parsed
    rw [ofStructured_of_parse parsed]
    have sorted : Sorted ms := by
      cases Json.valid_of_parse parsed with
      | obj sorted _ => exact sorted
    exact ⟨ofMembers_iff_acceptable, fun e => makes_of_ofMembers sorted⟩
  · intro ms valid
    rw [ofStructured_bytes valid]
    split_ifs with flat
    · rw [ofMembers_iff_acceptable, acceptable_reread_iff, and_iff_right flat]
    · exact iff_of_false (by rintro ⟨_, ⟨⟩⟩) fun h => flat h.1
  · intro ws ws' perm distinct
    have distinct : Distinct (ws.map Written.member) := by
      rw [Distinct, List.map_map]
      exact distinct
    rw [ofStructured_of_parse (Json.parse_objectText ws),
      ofStructured_of_parse (Json.parse_objectText ws'),
      ofList_perm (perm.map Written.member) distinct]

def foldedTags : List (Written 126) :=
  [("Tag", "a"), ("type", "t"), ("id", "1"), ("tag", "b"), ("source", "s")].map fun m =>
    .ofStrings 126 m.1 m.2

theorem envelope_told_foldedTags :
    ofStructured (objectText foldedTags) = ofStructured (objectText foldedTags.reverse) ∧
      ∃ e, ofStructured (objectText foldedTags) = .ok e ∧ get? "tag" e.extensions = some "b" := by
  obtain ⟨told, -, parses, reordered⟩ := envelope_told_by_members
  have members : ofList (foldedTags.map Written.member) =
      [("Tag", .str "a"), ("id", .str "1"), ("source", .str "s"), ("tag", .str "b"),
        ("type", .str "t")] := by rfl
  have parsed := parses foldedTags
  rw [members] at parsed
  obtain ⟨accepted, made⟩ := told _ _ parsed
  obtain ⟨e, read⟩ : ∃ e, ofStructured (objectText foldedTags) = .ok e := by
    refine accepted.2 ⟨nofun, ⟨"1", rfl⟩, ⟨"t", rfl⟩, ⟨"s", rfl⟩, nofun, nofun, nofun, rfl, ?_⟩
    simp [coreMembers, Json.Flat.str]
  refine ⟨reordered _ _ (List.reverse_perm _).symm (by decide), e, read, ?_⟩
  refine ((made e read).extensions "tag" "b").2
    ⟨("tag", .str "b"), ⟨by simp, by decide, by decide, nofun⟩, rfl, ?_⟩
  rintro other ⟨mem, fresh, folds, -⟩ different
  simp only [List.mem_cons, List.not_mem_nil, or_false] at mem
  rcases mem with rfl | rfl | rfl | rfl | rfl
  · decide
  · exact absurd folds (by decide)
  · exact absurd folds (by decide)
  · exact absurd rfl different
  · exact absurd folds (by decide)

def nested : Nat → Json
  | 0 => .arr []
  | n + 1 => .arr [nested n]

theorem depth_nested (n : Nat) : (nested n).depth = n + 1 := by
  induction n with
  | zero => rfl
  | succ n ih => rw [nested, Json.depth, Json.itemsDepth, Json.itemsDepth, ih, Nat.max_zero]

theorem valid_nested (n : Nat) : (nested n).Valid := by
  induction n with
  | zero => exact .arr nofun
  | succ n ih => exact .arr (List.forall_mem_singleton.2 ih)

/-- The payload is as deep as the reader goes, and the envelope adds one level. -/
def deepMembers : Members :=
  [("data", nested 126), ("id", .str "1"), ("source", .str "s"), ("type", .str "t")]

/-- Not every object with such members is accepted: it may nest too deep. -/
theorem not_every_object_decoded :
    ¬ ∀ ms, (Json.obj ms).Valid →
      ((∃ e, ofStructured (Json.obj ms).bytes = .ok e) ↔ Acceptable ms) := by
  intro every
  have valid : (Json.obj deepMembers).Valid := by
    have sorted : deepMembers.Pairwise fun a b => a.1 < b.1 := by decide
    refine .obj sorted ?_
    simp only [deepMembers, List.forall_mem_cons, List.not_mem_nil, false_implies, implies_true,
      and_true]
    exact ⟨valid_nested 126, .str "1", .str "s", .str "t"⟩
  have acceptable : Acceptable deepMembers := by
    refine ⟨nofun, ⟨"1", rfl⟩, ⟨"t", rfl⟩, ⟨"s", rfl⟩, nofun, nofun, nofun, rfl, ?_⟩
    simp [deepMembers, coreMembers]
  have deep : ¬ (Json.obj deepMembers).depth ≤ Json.maxDepth := by
    rw [Json.depth, Json.maxDepth, Nat.add_le_add_iff_right (n := 1) (k := 126),
      Json.membersDepth_le_iff]
    intro flat
    have payload := flat ("data", nested 126) List.mem_cons_self
    rw [depth_nested] at payload
    exact absurd payload (by decide)
  obtain ⟨e, read⟩ := (every deepMembers valid).2 acceptable
  rw [ofStructured_bytes valid, if_neg deep] at read
  cases read

end

end Event

end RoundTrip
