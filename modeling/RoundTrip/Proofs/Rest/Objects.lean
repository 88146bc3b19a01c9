import RoundTrip.Proofs.Probe.Admission
import RoundTrip.Proofs.Rest.Target

namespace RoundTrip

open Text.Utf8 (encode encode_inj)
open Url (Ordinary stem)

namespace Url

/-- The octets of the segments, those at the end first. -/
def Path.upwards (p : Path) : List Bytes := (p.parts.map Percent.decode).reverse

/-- The bucket in `b/bucket/o`. -/
def bucketAbove? : List Bytes → Option Bytes
  | o :: bucket :: b :: _ => if o = encode "o" ∧ b = encode "b" then some bucket else none
  | _ => none

/-- The bucket and the object in `b/bucket/o/object`. -/
def objectAbove? : List Bytes → Option (Bytes × Bytes)
  | object :: above => (bucketAbove? above).map fun bucket => (bucket, object)
  | [] => none

def named? (u : Url) : Option String := (Form.decode (u.query.getD "")).reverse.lookup "name"

def readName (name : String) : Bytes := Percent.decode name.toList

def shown (names : List String) : List Bytes := (names.map readName).reverse

variable {special : Bool} {names : List String} {bucket object : String}

theorem Ordinary.readName {segment : String} (h : Ordinary segment) :
    readName (escapeSegment special segment) = encode segment := h.decode

theorem Path.length_upwards (p : Path) : p.upwards.length = p.parts.length := by
  rw [upwards, List.length_reverse, List.length_map]

theorem Path.upwards_segments (divided : Divided names) :
    (Path.segments names).upwards = shown names := by
  rw [upwards, parts_segments divided, List.map_map]
  rfl

theorem shown_append (front names : List String) :
    shown (front ++ names) = shown names ++ shown front := by
  rw [shown, List.map_append, List.reverse_append]
  rfl

theorem shown_concat (names : List String) (last : String) :
    shown (names ++ [last]) = readName last :: shown names := by
  rw [shown_append]
  rfl

theorem shown_escapes {segments : List String} (h : ∀ s ∈ segments, Ordinary s) :
    shown (segments.map (escapeSegment special)) = (segments.map encode).reverse := by
  have read : ∀ s ∈ segments, readName (escapeSegment special s) = encode s :=
    fun s hs => (h s hs).readName
  rw [shown, List.map_map, Function.comp_def, List.map_congr_left read]

theorem head?_of_bucketAbove? {o found : Bytes} {above : List Bytes}
    (h : bucketAbove? (o :: above) = some found) : above.head? = some found := by
  cases above with
  | nil => cases h
  | cons bucket above =>
    cases above with
    | nil => cases h
    | cons b above =>
      rw [bucketAbove?] at h
      split at h
      · exact h
      · cases h

theorem objectAbove?_eq_some {all : List Bytes} {bucket object : Bytes}
    (h : objectAbove? all = some (bucket, object)) :
    all.head? = some object ∧ bucketAbove? all.tail = some bucket := by
  cases all with
  | nil => cases h
  | cons read above =>
    obtain ⟨found, reads, same⟩ := Option.map_eq_some_iff.1 h
    cases same
    exact ⟨rfl, reads⟩

theorem two_le_foldl (special : Bool) (long : 2 ≤ names.length) (segments : List String) :
    2 ≤ (segments.foldl (pushSegment special) names).length := by
  induction segments generalizing names with
  | nil => exact long
  | cons s rest ih => exact ih (two_le_pushSegment long)

theorem two_le_foldl_stem {fixed : List String} (ordinary : ∀ s ∈ fixed, Ordinary s)
    (first : fixed.head? ≠ some "") (two : 2 ≤ fixed.length) :
    2 ≤ (fixed.foldl (pushSegment special) (stem names)).length := by
  rw [foldl_ordinary ordinary (stem_ne_root names) (fun _ => first), List.length_append,
    List.length_map]
  exact Nat.le_add_left_of_le two

theorem ordinary_of_shown {mark segment : String} (before : names.getLast? = some mark)
    (plain : ∀ dots ∈ [".", ".."], readName mark ≠ encode dots)
    (ends : (shown (pushSegment special names segment)).head? = some (encode segment)) :
    Ordinary segment := by
  obtain ⟨_, rfl⟩ := List.getLast?_eq_some_iff.1 before
  by_cases dotted : segment = "." ∨ segment = ".."
  · rw [pushSegment_eq, if_pos dotted, shown_concat, List.head?_cons, Option.some_inj] at ends
    have among : segment ∈ [".", ".."] := by
      rwa [List.mem_cons, List.mem_singleton]
    exact absurd ends (plain segment among)
  · rcases List.eq_nil_or_concat' (pushSegment special _ segment) with none | ⟨_, last, whole⟩
    · rw [none] at ends
      cases ends
    · rw [whole, shown_concat, List.head?_cons, Option.some_inj] at ends
      exact ordinary_of_last dotted (whole ▸ List.getLast?_concat) ends

theorem pushSegment_mark {mark : String} (special : Bool) (h : mark ∈ ["b", "o"])
    (long : 2 ≤ names.length) : pushSegment special names mark = names ++ [mark] := by
  have marks : ∀ mark ∈ ["b", "o"], Ordinary mark ∧ escapeSegment true mark = mark ∧
      escapeSegment false mark = mark := by
    decide
  obtain ⟨ordinary, same, same'⟩ := marks mark h
  rw [pushSegment_ordinary ordinary (ne_root_of_length long)]
  cases special with
  | true => rw [same]
  | false => rw [same']

theorem plain_mark {mark : String} (h : mark ∈ ["b", "o"]) :
    ∀ dots ∈ [".", ".."], readName mark ≠ encode dots := by
  revert mark
  decide

theorem foldl_bucket (long : 2 ≤ names.length) (bucket : String) :
    ["b", bucket, "o"].foldl (pushSegment special) names =
      pushSegment special (names ++ ["b"]) bucket ++ ["o"] := by
  have room : 2 ≤ (pushSegment special (names ++ ["b"]) bucket).length :=
    two_le_pushSegment (List.length_append ▸ Nat.le_add_right_of_le long)
  rw [List.foldl_cons, pushSegment_mark special (by decide) long, List.foldl_cons, List.foldl_cons,
    List.foldl_nil, pushSegment_mark special (by decide) room]

theorem ordinary_of_bucketAbove? (long : 2 ≤ names.length)
    (reads : bucketAbove? (shown (["b", bucket, "o"].foldl (pushSegment special) names)) =
      some (encode bucket)) : Ordinary bucket := by
  rw [foldl_bucket long, shown_concat] at reads
  have ends := head?_of_bucketAbove? reads
  exact ordinary_of_shown List.getLast?_concat (plain_mark (by decide)) ends

theorem ordinary_of_objectAbove? (long : 2 ≤ names.length)
    (reads : objectAbove? (shown (["b", bucket, "o", object].foldl (pushSegment special) names)) =
      some (encode bucket, encode object)) : Ordinary bucket ∧ Ordinary object := by
  have whole : ["b", bucket, "o", object].foldl (pushSegment special) names =
      pushSegment special (["b", bucket, "o"].foldl (pushSegment special) names) object := by
    simp only [List.foldl_cons, List.foldl_nil]
  rw [whole] at reads
  obtain ⟨ends, above⟩ := objectAbove?_eq_some reads
  have before : (["b", bucket, "o"].foldl (pushSegment special) names).getLast? = some "o" := by
    rw [foldl_bucket long, List.getLast?_concat]
  have ordinary : Ordinary object := ordinary_of_shown before (plain_mark (by decide)) ends
  have room := ne_root_of_length (two_le_foldl special long ["b", bucket, "o"])
  rw [pushSegment_ordinary ordinary room, shown_concat, List.tail_cons] at above
  exact ⟨ordinary_of_bucketAbove? long above, ordinary⟩

end Url

def Effect.object? : Effect → Option (StoragePhase × String × String)
  | .createObject bucket object _ => some (.create, bucket, object)
  | .updateMetadata bucket object _ => some (.updateMetadata, bucket, object)
  | .archiveObject bucket object => some (.archive, bucket, object)
  | .deleteObject bucket object => some (.delete, bucket, object)
  | _ => none

theorem Probe.Valid.object_eq {e : Event} {pods : PodTarget} {nonce : Nonce} {p : Probe}
    {effect : Effect} {phase : StoragePhase} {bucket object : String} (h : p.Valid e pods nonce)
    (causes : p.effect? e = some effect)
    (isObject : effect.object? = some (phase, bucket, object)) : object = e.id := by
  cases h with
  | storage phase' => cases phase' <;> cases causes <;> cases isObject <;> rfl
  | pods phase' => cases phase' <;> cases causes <;> cases isObject
  | scheduler | ping => cases causes
  | broker | pubsub | audit =>
    cases causes
    cases isObject

namespace StoragePhase

/-- Each object that the request of the phase names, in the path or in path and query. -/
def objects (u : Url) : StoragePhase → List (Option (Bytes × Bytes))
  | .create =>
    [(Url.bucketAbove? u.path.upwards).bind fun bucket =>
      u.named?.map fun name => (bucket, encode name)]
  | .updateMetadata | .delete => [Url.objectAbove? u.path.upwards]
  | .archive => [Url.objectAbove? (u.path.upwards.drop 5), Url.objectAbove? u.path.upwards]

/-- The request of the phase keeps both names. A name must be ordinary in a path, not in a query. -/
structure Keeps (phase : StoragePhase) (bucket object : String) : Prop where
  bucket : Ordinary bucket
  object : phase ≠ .create → Ordinary object

def route (bucket object : String) : StoragePhase → List String
  | .create => ["upload", "storage", "v1", "b", bucket, "o"]
  | .updateMetadata | .delete => ["storage", "v1"] ++ Rest.objectPath bucket object
  | .archive =>
    ["storage", "v1"] ++ Rest.objectPath bucket object ++ ["rewriteTo"] ++
      Rest.objectPath bucket object

def pairs (object : String) : StoragePhase → List (String × String)
  | .create => [("uploadType", "media"), ("name", object)]
  | .updateMetadata | .archive | .delete => []

variable {phase : StoragePhase} {bucket object : String} {special : Bool} {names : List String}

theorem Keeps.route (h : phase.Keeps bucket object) :
    ∀ s ∈ phase.route bucket object, Ordinary s := by
  have fixed : ∀ s ∈ ["upload", "storage", "v1", "b", "o", "rewriteTo"], Ordinary s := by decide
  have among : ∀ s ∈ phase.route bucket object,
      s ∈ ["upload", "storage", "v1", "b", "o", "rewriteTo"] ∨ s = bucket ∨
        phase ≠ .create ∧ s = object := by
    cases phase <;> simp [StoragePhase.route, Rest.objectPath]
  intro s hs
  rcases among s hs with known | rfl | ⟨inPath, rfl⟩
  · exact fixed s known
  · exact h.bucket
  · exact h.object inPath

theorem foldl_route (phase : StoragePhase) (bucket object : String) :
    (phase.route bucket object).foldl (Url.pushSegment special) (Url.dropEmptyEnd names) =
      (phase.route bucket object).foldl (Url.pushSegment special) (stem names) := by
  cases phase <;> exact Url.foldl_stem (by decide)

theorem Keeps.shown_foldl (h : phase.Keeps bucket object) :
    Url.shown ((phase.route bucket object).foldl (Url.pushSegment special) (stem names)) =
      ((phase.route bucket object).map encode).reverse ++ Url.shown (stem names) := by
  have first : stem names = [] → (phase.route bucket object).head? ≠ some "" := by
    intro _
    cases phase <;> simp [StoragePhase.route]
  rw [Url.foldl_ordinary h.route (Url.stem_ne_root names) first, Url.shown_append,
    Url.shown_escapes h.route]

theorem route_length (phase : StoragePhase) (bucket object bucket' object' : String) :
    (phase.route bucket object).length = (phase.route bucket' object').length := by
  cases phase <;> rfl

theorem route_inj {phase' : StoragePhase} {bucket' object' : String}
    (h : phase.route bucket object = phase'.route bucket' object') :
    bucket = bucket' ∧
      (phase = .create ∧ phase' = .create ∨ object = object') := by
  cases phase <;> cases phase' <;> simp_all [route, Rest.objectPath]

section

variable {u : Url} (path : u.path.upwards =
  Url.shown ((phase.route bucket object).foldl (Url.pushSegment special) (stem names)))

include path

theorem keeps_of_objects
    (reads : ∀ x ∈ phase.objects u, x = some (encode bucket, encode object)) :
    phase.Keeps bucket object := by
  have long : 2 ≤ (["storage", "v1"].foldl (Url.pushSegment special) (stem names)).length :=
    Url.two_le_foldl_stem (by decide) (by decide) (by decide)
  have ofPath {before : List String}
      (room : 2 ≤ (before.foldl (Url.pushSegment special) (stem names)).length)
      (path : u.path.upwards = Url.shown ((before ++ Rest.objectPath bucket object).foldl
        (Url.pushSegment special) (stem names)))
      (read : Url.objectAbove? u.path.upwards = some (encode bucket, encode object)) :
      phase.Keeps bucket object := by
    rw [path, List.foldl_append] at read
    obtain ⟨ordinary, ordinary'⟩ := Url.ordinary_of_objectAbove? room read
    exact ⟨ordinary, fun _ => ordinary'⟩
  cases phase with
  | create =>
    obtain ⟨read, found, named⟩ := Option.bind_eq_some_iff.1 (reads _ List.mem_cons_self)
    obtain ⟨name, -, same⟩ := Option.map_eq_some_iff.1 named
    have ends : StoragePhase.create.route bucket object =
      ["upload", "storage", "v1"] ++ ["b", bucket, "o"] := rfl
    obtain ⟨rfl, -⟩ := Prod.mk.inj same
    rw [path, ends, List.foldl_append] at found
    have room : 2 ≤ (["upload", "storage", "v1"].foldl (Url.pushSegment special)
        (stem names)).length :=
      Url.two_le_foldl_stem (by decide) (by decide) (by decide)
    exact ⟨Url.ordinary_of_bucketAbove? room found, fun inPath => absurd rfl inPath⟩
  | updateMetadata | delete => exact ofPath long path (reads _ List.mem_cons_self)
  | archive =>
    have room := Url.two_le_foldl special long
      (Rest.objectPath bucket object ++ ["rewriteTo"])
    rw [← List.foldl_append, ← List.append_assoc] at room
    exact ofPath room path (reads _ (List.mem_cons_of_mem _ List.mem_cons_self))

theorem objects_of_keeps (keeps : phase.Keeps bucket object)
    (named : phase = .create → u.named? = some object) :
    ∀ x ∈ phase.objects u, x = some (encode bucket, encode object) := by
  have found {above : List Bytes} :
      Url.bucketAbove? (encode "o" :: encode bucket :: encode "b" :: above) =
        some (encode bucket) := by
    rw [Url.bucketAbove?, if_pos ⟨rfl, rfl⟩]
  have found' {above : List Bytes} :
      Url.objectAbove? (encode object :: encode "o" :: encode bucket :: encode "b" :: above) =
        some (encode bucket, encode object) := by
    rw [Url.objectAbove?, found]
    rfl
  rw [keeps.shown_foldl] at path
  cases phase with
  | create =>
    intro x hx
    rw [List.mem_singleton.1 hx, path, named rfl]
    exact congrArg (Option.bind · _) found
  | updateMetadata | delete =>
    intro x hx
    rw [List.mem_singleton.1 hx, path]
    exact found'
  | archive =>
    intro x hx
    rcases List.mem_cons.1 hx with rfl | hx
    · rw [path]
      exact found'
    · rw [List.mem_singleton.1 hx, path]
      exact found'

end

theorem named?_of_pairs {u : Url} {others : List (String × String)}
    (query : Url.Form.decode (u.query.getD "") = others ++ StoragePhase.create.pairs object) :
    u.named? = some object := by
  rw [Url.named?, query, List.reverse_append]
  rfl

end StoragePhase

namespace Rest

theorem Message.ofEffect_object (project : String) {bucket object : String} {effect : Effect}
    {phase : StoragePhase} (h : effect.object? = some (phase, bucket, object)) :
    ∃ m, Message.ofEffect project effect = .ok m ∧ m.segments = phase.route bucket object ∧
      m.query = phase.pairs object := by
  cases effect <;> cases h <;> exact ⟨_, rfl, rfl, rfl⟩

namespace Client

/-- In the phase the client turns to `u` for the object. -/
def Asks (c : Client) (phase : StoragePhase) (bucket object : String) (u : Url) : Prop :=
  ∃ effect : Effect, effect.object? = some (phase, bucket, object) ∧ c.target? effect = some u

/-- What the requests of the client for objects are for. -/
structure Addresses (c : Client) : Prop where
  probes {policy : DeadlinePolicy} {pods : PodTarget} {nonce : Nonce} {e : Event} {a : Admission}
    {effect : Effect} {phase : StoragePhase} {bucket object : String} :
    Admission.ofEvent policy pods nonce e = .ok a → a.probe.effect? e = some effect →
      effect.object? = some (phase, bucket, object) → object = e.id
  sends {effect : Effect} {r : Request} :
    c.request effect = .ok r → c.target? effect = some r.url
  turns {effect : Effect} {phase : StoragePhase} {bucket object : String} :
    effect.object? = some (phase, bucket, object) → ∃ u, c.target? effect = some u
  objects_iff {phase : StoragePhase} {bucket object : String} {u : Url} :
    c.Asks phase bucket object u →
      ((∀ x ∈ phase.objects u, x = some (encode bucket, encode object)) ↔
        phase.Keeps bucket object)
  length {phase : StoragePhase} {bucket object bucket' object' : String} {u u' : Url} :
    c.Asks phase bucket object u → phase.Keeps bucket object →
      c.Asks phase bucket' object' u' → phase.Keeps bucket' object' →
        u.path.parts.length = u'.path.parts.length
  apart {phase phase' : StoragePhase} {bucket object bucket' object' : String} {u : Url} :
    c.Asks phase bucket object u → phase.Keeps bucket object →
      c.Asks phase' bucket' object' u → phase'.Keeps bucket' object' →
        bucket = bucket' ∧ object = object'

variable {c : Client} {phase : StoragePhase} {bucket object : String} {u : Url}

theorem Asks.pairs (h : c.Asks phase bucket object u) : Url.Form.decode (u.query.getD "") =
    Url.Form.decode (c.endpoint.base.query.getD "") ++ phase.pairs object := by
  obtain ⟨effect, isObject, target⟩ := h
  obtain ⟨m, message, -, query⟩ := Message.ofEffect_object c.project isObject
  rw [target?, message] at target
  cases target
  rw [Endpoint.decode_query_url, query]

theorem Asks.upwards {names : List String} (h : c.Asks phase bucket object u)
    (base : c.endpoint.base.path = .segments names) (divided : Url.Divided names) :
    u.path.upwards = Url.shown ((phase.route bucket object).foldl
      (Url.pushSegment (Url.isSpecial c.endpoint.base.scheme)) (stem names)) := by
  obtain ⟨effect, isObject, target⟩ := h
  obtain ⟨m, message, segments, -⟩ := Message.ofEffect_object c.project isObject
  rw [target?, message] at target
  cases target
  rw [Endpoint.path_url, segments, Url.path_extend base,
    Url.Path.upwards_segments (divided.dropEmptyEnd.foldl_pushSegment _ _),
    StoragePhase.foldl_route]

theorem requests_address {text : String} {token : Option String}
    (made : Endpoint.ofText text token = .ok c.endpoint) : c.Addresses := by
  obtain ⟨names, base, divided⟩ := Endpoint.exists_segments made
  have shows {phase : StoragePhase} {bucket object : String} {u : Url}
      (asks : c.Asks phase bucket object u) (keeps : phase.Keeps bucket object) :
      u.path.upwards =
        ((phase.route bucket object).map encode).reverse ++ Url.shown (stem names) :=
    (asks.upwards base divided).trans keeps.shown_foldl
  refine ⟨?probes, target?_of_request, ?turns, ?objects_iff, ?length, ?apart⟩
  case probes =>
    intro policy pods nonce e a effect phase bucket object admitted causes isObject
    exact (Admission.of_ok admitted).2.object_eq causes isObject
  case turns =>
    intro effect phase bucket object isObject
    obtain ⟨m, message, -, -⟩ := Message.ofEffect_object c.project isObject
    exact ⟨c.endpoint.url m, by rw [target?, message]; rfl⟩
  case objects_iff =>
    intro phase bucket object u asks
    have path := asks.upwards base divided
    refine ⟨StoragePhase.keeps_of_objects path, fun keeps => ?_⟩
    refine StoragePhase.objects_of_keeps path keeps ?_
    rintro rfl
    exact StoragePhase.named?_of_pairs asks.pairs
  case length =>
    intro phase bucket object bucket' object' u u' asks keeps asks' keeps'
    rw [← Url.Path.length_upwards, ← Url.Path.length_upwards, shows asks keeps, shows asks' keeps',
      List.length_append, List.length_append, List.length_reverse, List.length_reverse,
      List.length_map, List.length_map, StoragePhase.route_length]
  case apart =>
    intro phase phase' bucket object bucket' object' u asks keeps asks' keeps'
    have same := List.append_cancel_right ((shows asks keeps).symm.trans (shows asks' keeps'))
    have routes := List.map_injective_iff.2 (fun _ _ => encode_inj.1) (List.reverse_injective same)
    obtain ⟨sameBucket, ⟨rfl, rfl⟩ | sameObject⟩ := StoragePhase.route_inj routes
    · have named := StoragePhase.named?_of_pairs asks.pairs
      rw [StoragePhase.named?_of_pairs asks'.pairs] at named
      exact ⟨sameBucket, (Option.some.inj named).symm⟩
    · exact ⟨sameBucket, sameObject⟩

def plain : Client :=
  ⟨⟨⟨"http", "", "", some (.domain "h"), none, .segments [""], none, none⟩, none⟩, "p"⟩

theorem ofText_plain : Endpoint.ofText "http://h" none = .ok plain.endpoint := rfl

theorem requests_address_plain : ∃ u, plain.Asks .delete "b" "x y/z" u ∧
    ∀ x ∈ StoragePhase.delete.objects u, x = some (encode "b", encode "x y/z") := by
  have addresses := requests_address ofText_plain
  have isObject : (Effect.deleteObject "b" "x y/z").object? = some (.delete, "b", "x y/z") := rfl
  obtain ⟨u, target⟩ := addresses.turns isObject
  have asks : plain.Asks .delete "b" "x y/z" u := ⟨_, isObject, target⟩
  have keeps : StoragePhase.delete.Keeps "b" "x y/z" := ⟨by decide, fun _ => by decide⟩
  exact ⟨u, asks, (addresses.objects_iff asks).2 keeps⟩

/-- A request for one object that is for another, because its name has a tab. -/
theorem not_every_object_addressed : ∃ r, plain.request (.deleteObject "b" "a\tb") = .ok r ∧
    plain.request (.deleteObject "b" "ab") = .ok r ∧
    StoragePhase.delete.objects r.url = [some (encode "b", encode "ab")] := by
  refine ⟨⟨.delete, { plain.endpoint.base with
    path := .segments ["storage", "v1", "b", "b", "o", "ab"] }, .empty, []⟩, ?_, ?_, ?_⟩
  · rfl
  · rfl
  · decide

end Client

end Rest

end RoundTrip
