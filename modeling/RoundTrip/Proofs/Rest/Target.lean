import Mathlib.Data.List.Forall2
import RoundTrip.Proofs.Url.Append
import RoundTrip.Proofs.Url.Form
import RoundTrip.Rest.Call

/-!
Where requests go. Ordinary segments can be read off the path again, one by one behind those of the
base, and the pairs of the query whatever they are.
-/

namespace RoundTrip

open Text.Utf8 (encode)

namespace Url

/-- Segments without the empty one that a slash at the end makes. -/
def withoutEnd (parts : List (List Char)) : List (List Char) :=
  if parts.getLast? = some [] then parts.dropLast else parts

/-- `part` stands for the segment, as one segment of a path. -/
structure Escapes (segment : String) (part : List Char) : Prop where
  reads : Percent.decode part = encode segment
  apart : Percent.Sealed part

/-- `path` has the segments behind those of `base`. Only where there are none can an empty one be
left at its end. -/
def Appends (base : Path) (segments : List String) (path : Path) : Prop :=
  ∃ parts, List.Forall₂ Escapes segments parts ∧
    withoutEnd path.parts = withoutEnd base.parts ++ parts ∧
    (segments ≠ [] → path.parts = withoutEnd base.parts ++ parts)

variable {names segments : List String}

theorem map_toList_getLast? : (names.map String.toList).getLast? = some [] ↔
    names.getLast? = some "" := by
  rw [List.getLast?_map, Option.map_eq_some_iff]
  constructor
  · rintro ⟨last, ends, empty⟩
    rwa [String.toList_eq_nil_iff.1 empty] at ends
  · intro ends
    exact ⟨"", ends, rfl⟩

theorem withoutEnd_map : withoutEnd (names.map String.toList) =
    (if names.getLast? = some "" then names.dropLast else names).map String.toList := by
  rw [withoutEnd]
  by_cases ends : names.getLast? = some ""
  · rw [if_pos (map_toList_getLast?.2 ends), if_pos ends, List.map_dropLast]
  · rw [if_neg (mt map_toList_getLast?.1 ends), if_neg ends]

section

variable (filled : ∀ n ∈ names.dropLast, n ≠ "")

include filled

theorem dropLast_getLast?_ne : names.dropLast.getLast? ≠ some "" :=
  fun ends => filled "" (List.mem_of_getLast? ends) rfl

theorem stem_eq : stem names = if names.getLast? = some "" then names.dropLast else names := by
  rw [stem, dropEmptyEnd]
  by_cases ends : names.getLast? = some ""
  · rw [if_pos ends]
    by_cases long : 1 < names.length
    · have room : names.dropLast ≠ [""] := by
        intro root
        exact dropLast_getLast?_ne filled (root ▸ rfl)
      rw [if_pos ⟨long, ends⟩, rooted_of_ne room]
    · have some := List.length_pos_of_mem (List.mem_of_getLast? ends)
      obtain ⟨n, rfl⟩ := List.length_eq_one_iff.1 (Nat.le_antisymm (Nat.le_of_not_lt long) some)
      rw [List.getLast?_singleton] at ends
      cases ends
      rfl
  · have room : names ≠ [""] := fun root => ends (root ▸ rfl)
    rw [if_neg fun h => ends h.2, if_neg ends, rooted_of_ne room]

theorem withoutEnd_dropEmptyEnd : withoutEnd ((dropEmptyEnd names).map String.toList) =
    withoutEnd (names.map String.toList) := by
  rw [dropEmptyEnd]
  split
  next ends =>
    rw [withoutEnd_map, withoutEnd_map, if_neg (dropLast_getLast?_ne filled), if_pos ends.2]
  next => rfl

end

theorem Ordinary.escapes {segment : String} (h : Ordinary segment) :
    Escapes segment (escapeSegment true segment).toList :=
  ⟨h.decode, sealed_escapeSegment⟩

section

variable (ordinary : ∀ s ∈ segments, s ≠ "" ∧ Ordinary s)

include ordinary

theorem foldl_behind_stem (some : segments ≠ []) :
    segments.foldl (pushSegment true) (dropEmptyEnd names) =
      stem names ++ segments.map (escapeSegment true) := by
  cases segments with
  | nil => exact absurd rfl some
  | cons s rest =>
    obtain ⟨filled, first⟩ := ordinary s List.mem_cons_self
    rw [foldl_stem first.undotted, foldl_ordinary (fun t ht => (ordinary t ht).2)
      (stem_ne_root names) fun _ same => filled (Option.some.inj same)]

theorem escapes_getLast?_ne : (segments.map (escapeSegment true)).getLast? ≠ some "" := by
  rw [List.getLast?_map]
  intro ends
  obtain ⟨last, among, empty⟩ := Option.map_eq_some_iff.1 ends
  obtain ⟨filled, ordinary⟩ := ordinary last (List.mem_of_getLast? among)
  exact ordinary.escape_ne_empty filled empty

theorem appends_foldl (divided : Divided names) (filled : ∀ n ∈ names.dropLast, n ≠ "") :
    Appends (.segments names) segments
      (.segments (segments.foldl (pushSegment true) (dropEmptyEnd names))) := by
  have all : List.Forall₂ Escapes segments
      ((segments.map (escapeSegment true)).map String.toList) := by
    rw [List.map_map, List.forall₂_map_right_iff, List.forall₂_same]
    exact fun s hs => (ordinary s hs).2.escapes
  have base : withoutEnd (names.map String.toList) = (stem names).map String.toList := by
    rw [withoutEnd_map, stem_eq filled]
  refine ⟨_, all, ?_⟩
  rw [Path.parts_segments divided,
    Path.parts_segments (divided.dropEmptyEnd.foldl_pushSegment true segments)]
  by_cases none : segments = []
  · subst none
    refine ⟨?_, fun some => absurd rfl some⟩
    rw [List.foldl_nil, List.map_nil, List.map_nil, List.append_nil, withoutEnd_dropEmptyEnd filled]
  · have ends : (stem names ++ segments.map (escapeSegment true)).getLast? ≠ some "" := by
      rw [List.getLast?_append_of_ne_nil _ (mt List.map_eq_nil_iff.1 none)]
      exact escapes_getLast?_ne ordinary
    rw [foldl_behind_stem ordinary none, withoutEnd_map, if_neg ends, List.map_append, base]
    exact ⟨rfl, fun _ => rfl⟩

end

end Url

namespace Rest

def Client.target? (c : Client) (effect : Effect) : Option Url :=
  (Message.ofEffect c.project effect).toOption.map c.endpoint.url

namespace Client

variable {c : Client} {effect : Effect}

theorem target?_of_request {r : Request} (h : c.request effect = .ok r) :
    c.target? effect = some r.url := by
  rw [request] at h
  split at h
  next => cases h
  next m asked =>
    have target : c.target? effect = some (c.endpoint.url m) := by
      rw [target?, asked]
      rfl
    split at h
    next => cases h
    next =>
      dsimp only at h
      split at h
      next =>
        cases h
        exact target
      next => cases h

end Client

namespace Endpoint

variable {e : Endpoint} {text : String} {token : Option String}

theorem exists_segments (made : ofText text token = .ok e) :
    ∃ names, e.base.path = .segments names ∧ Url.Divided names := by
  unfold ofText at made
  extract_lets text at made
  split at made
  next => cases made
  next =>
    split at made
    next => cases made
    next base parsed =>
      split at made
      next => cases made
      next carries =>
        cases made
        have divided := Url.divided_parse parsed
        cases path : base.path with
        | rootless s =>
          rw [path] at carries
          exact absurd rfl carries
        | segments names =>
          rw [path] at divided
          exact ⟨names, rfl, divided⟩

theorem path_url (e : Endpoint) (m : Message) :
    (e.url m).path = (e.base.extend m.segments).path := by
  unfold url
  split <;> rfl

theorem query_url (e : Endpoint) (m : Message) : (e.url m).query =
    if m.query = [] then e.base.query
    else some (m.query.foldl Url.Form.append (e.base.query.getD "")) := by
  have kept : (e.base.extend m.segments).query = e.base.query := by rw [Url.extend_others]
  unfold url
  extract_lets longer
  by_cases none : m.query = []
  · rw [if_pos (List.isEmpty_iff.2 none), if_pos none, kept]
  · rw [if_neg (mt List.isEmpty_iff.1 none), if_neg none, Url.appendPairs, kept]

theorem decode_query_url (e : Endpoint) (m : Message) :
    Url.Form.decode ((e.url m).query.getD "") =
      Url.Form.decode (e.base.query.getD "") ++ m.query := by
  rw [query_url]
  split
  next none => rw [none, List.append_nil]
  next => rw [Option.getD_some, Url.Form.decode_foldl_append]

/-- All that is put into the URLs of the endpoint can be read off them. -/
structure Lossless (e : Endpoint) : Prop where
  segments : e.base.scheme = "http" ∨ e.base.scheme = "https" →
    (∀ part ∈ e.base.path.parts.dropLast, part ≠ []) →
    ∀ m : Message, (∀ s ∈ m.segments, s ≠ "" ∧ Url.Ordinary s) →
      Url.Appends e.base.path m.segments (e.url m).path
  others (m : Message) :
    e.url m = { e.base with path := (e.url m).path, query := (e.url m).query }
  query (m : Message) : m.query = [] → (e.url m).query = e.base.query
  pairs (m : Message) : Url.Form.decode ((e.url m).query.getD "") =
    Url.Form.decode (e.base.query.getD "") ++ m.query
  upload (project bucket object : String) (contents : Bytes) :
    ∃ u, Client.target? ⟨e, project⟩ (.createObject bucket object contents) = some u ∧
      Url.Form.decode (u.query.getD "") =
        Url.Form.decode (e.base.query.getD "") ++ [("uploadType", "media"), ("name", object)]

theorem url_lossless (made : ofText text token = .ok e) : Lossless e := by
  obtain ⟨names, path, divided⟩ := exists_segments made
  refine ⟨?segments, ?others, ?query, e.decode_query_url, ?upload⟩
  case segments =>
    intro web filled m ordinary
    have special : Url.isSpecial e.base.scheme = true := by
      rcases web with scheme | scheme
      · rw [scheme]; rfl
      · rw [scheme]; rfl
    have filled' : ∀ n ∈ names.dropLast, n ≠ "" := by
      intro n hn empty
      rw [path, Url.Path.parts_segments divided, ← List.map_dropLast] at filled
      exact filled n.toList (List.mem_map_of_mem hn) (empty ▸ rfl)
    rw [path_url, Url.path_extend path, special, path]
    exact Url.appends_foldl ordinary divided filled'
  case others =>
    intro m
    unfold url
    rw [Url.extend_others]
    split <;> rfl
  case query =>
    intro m none
    rw [query_url, if_pos none]
  case upload =>
    intro project bucket object contents
    exact ⟨_, rfl, decode_query_url e _⟩

def proxied : Endpoint :=
  ⟨⟨"http", "", "", some (.domain "h"), none, .segments ["gcs", ""], some "a=b", none⟩, none⟩

theorem ofText_proxied : ofText "http://h/gcs/?a=b" none = .ok proxied := rfl

theorem url_lossless_proxied : Url.Appends proxied.base.path ["b", "x y/z"]
    (proxied.url (.bare .delete ["b", "x y/z"])).path :=
  (url_lossless ofText_proxied).segments (.inl rfl) (by decide) (.bare .delete ["b", "x y/z"])
    (by decide)

end Endpoint

end Rest

end RoundTrip
