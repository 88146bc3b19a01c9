import RoundTrip.Probe.Delivered
import RoundTrip.Proofs.Probe.Admission
import RoundTrip.Proofs.Text.Segments

namespace RoundTrip

open Text

def Kind.deliveredType : Kind → String
  | .broker => "broker-e2e-delivery-probe"
  | .pubsub => "google.cloud.pubsub.topic.v1.messagePublished"
  | .storage .create => "google.cloud.storage.object.v1.finalized"
  | .storage .updateMetadata => "google.cloud.storage.object.v1.metadataUpdated"
  | .storage .archive => "google.cloud.storage.object.v1.archived"
  | .storage .delete => "google.cloud.storage.object.v1.deleted"
  | .scheduler => "google.cloud.scheduler.job.v1.executed"
  | .ping => "dev.knative.sources.ping"
  | .pods .create => "dev.knative.apiserver.resource.add"
  | .pods .update => "dev.knative.apiserver.resource.update"
  | .pods .delete => "dev.knative.apiserver.resource.delete"
  | .audit => "google.cloud.audit.log.v1.written"

namespace Delivered

def NamesBroker (d : Event) (ns name : String) : Prop :=
  d.filledExtension? "namespace" = some ns ∧ (d.filledExtension? "broker").getD "default" = name

def NamesTopic (d : Event) (topic : String) : Prop := SegmentAfter d.source "topics" topic

def NamesBucket (d : Event) (bucket : String) : Prop := SegmentAfter d.source "buckets" bucket

def LogsTopic (d : Event) (topic : String) : Prop :=
  d.extension? "methodname" = some "google.pubsub.v1.Publisher.CreateTopic" ∧
    ∃ subject, d.subject = some subject ∧ LastSegment subject topic

end Delivered

open Delivered

namespace Key

def kind : Key → Kind
  | .broker _ _ => .broker
  | .pubsub _ => .pubsub
  | .storage _ phase => .storage phase
  | .scheduler => .scheduler
  | .ping => .ping
  | .pods phase => .pods phase
  | .audit _ => .audit

/-- The event names the resource of the key, where keys of its kind have one. -/
def NamedBy (d : Event) : Key → Prop
  | .broker ns name => NamesBroker d ns name
  | .pubsub topic => NamesTopic d topic
  | .storage bucket _ => NamesBucket d bucket
  | .scheduler | .ping | .pods _ => True
  | .audit topic => LogsTopic d topic

def Filled : Key → Prop
  | .pubsub resource | .storage resource _ | .audit resource => resource ≠ ""
  | .broker _ _ | .scheduler | .ping | .pods _ => True

end Key

def Probe.NamedBy (d : Event) : Probe → Prop
  | .broker ns name => NamesBroker d ns name
  | .pubsub topic => NamesTopic d topic
  | .storage bucket _ _ => NamesBucket d bucket
  | .scheduler _ | .ping _ | .pods _ _ _ => True
  | .audit topic => LogsTopic d topic

theorem Probe.namedBy_key (p : Probe) (d : Event) : p.key.NamedBy d ↔ p.NamedBy d := by
  cases p <;> rfl

@[simp] theorem Probe.kind_key (p : Probe) : p.key.kind = p.kind := by
  cases p <;> rfl

theorem Event.ne_empty_of_filled {e : Event} {name v : String}
    (h : e.filledExtension? name = some v) : v ≠ "" := by
  rintro rfl
  obtain ⟨-, blank⟩ := Option.filter_eq_some_iff.1 h
  exact absurd blank (by decide)

theorem Probe.Valid.filled {e : Event} {pods : PodTarget} {nonce : Nonce} {p : Probe}
    (h : p.Valid e pods nonce) : p.key.Filled := by
  cases h with
  | pubsub topic => exact Event.ne_empty_of_filled topic
  | storage phase bucket => exact Event.ne_empty_of_filled bucket
  | audit =>
    intro empty
    have no_start : (auditTopicStart ++ nonce.text).toList = [] := by rw [empty]; rfl
    rw [String.toList_append] at no_start
    exact absurd (List.append_eq_nil_iff.1 no_start).1 (by decide)
  | broker | scheduler | ping | pods => trivial

namespace Delivered

variable {d : Event} {k : Key}

theorem nonEmpty?_eq_some_iff {cs : List Char} {s : String} :
    nonEmpty? cs = some s ↔ cs = s.toList ∧ s ≠ "" := by
  rw [nonEmpty?]
  split
  next empty =>
    rw [List.isEmpty_iff] at empty
    constructor
    · rintro ⟨⟩
    · rintro ⟨rfl, filled⟩
      exact absurd (String.toList_eq_nil_iff.1 empty) filled
  next filled =>
    constructor
    · rintro ⟨⟩
      refine ⟨String.toList_ofList.symm, ?_⟩
      intro empty
      apply filled
      rw [List.isEmpty_iff, ← String.toList_ofList (l := cs), empty]
      rfl
    · rintro ⟨rfl, -⟩
      rw [String.ofList_toList]

theorem partAfter?_eq_some_iff {name part : List Char} {parts : List (List Char)} :
    partAfter? name parts = some part ↔
      ∃ before after, parts = before ++ name :: part :: after ∧ name ∉ before := by
  induction parts with
  | nil => simp [partAfter?]
  | cons first rest ih =>
    rw [partAfter?]
    split
    next here =>
      subst here
      constructor
      · intro h
        obtain ⟨after, rfl⟩ := List.head?_eq_some_iff.1 h
        exact ⟨[], after, rfl, List.not_mem_nil⟩
      · rintro ⟨before, after, split, fresh⟩
        cases before with
        | nil =>
          obtain ⟨-, rfl⟩ := List.cons.inj split
          rfl
        | cons other before =>
          obtain ⟨rfl, -⟩ := List.cons.inj split
          exact absurd List.mem_cons_self fresh
    next apart =>
      rw [ih]
      constructor
      · rintro ⟨before, after, rfl, fresh⟩
        refine ⟨first :: before, after, rfl, ?_⟩
        rw [List.mem_cons, not_or]
        exact ⟨Ne.symm apart, fresh⟩
      · rintro ⟨before, after, split, fresh⟩
        cases before with
        | nil =>
          obtain ⟨rfl, -⟩ := List.cons.inj split
          exact absurd rfl apart
        | cons other before =>
          obtain ⟨-, rfl⟩ := List.cons.inj split
          exact ⟨before, after, rfl, fun later => fresh (List.mem_cons_of_mem _ later)⟩

theorem resourceAfter?_eq_some_iff {path collection resource : String} :
    resourceAfter? path collection = some resource ↔
      SegmentAfter path collection resource ∧ resource ≠ "" := by
  rw [resourceAfter?, Option.bind_eq_some_iff]
  constructor
  · rintro ⟨part, found, h⟩
    obtain ⟨rfl, filled⟩ := nonEmpty?_eq_some_iff.1 h
    obtain ⟨before, after, split, fresh⟩ := partAfter?_eq_some_iff.1 found
    refine ⟨⟨before.map String.ofList, after.map String.ofList, segments_iff.2 ?_, ?_⟩, filled⟩
    · rw [split]
      simp [Function.comp_def]
    · intro early
      obtain ⟨part, hpart, rfl⟩ := List.mem_map.1 early
      rw [String.toList_ofList] at fresh
      exact fresh hpart
  · rintro ⟨⟨before, after, segments, fresh⟩, filled⟩
    refine ⟨resource.toList, ?_, nonEmpty?_eq_some_iff.2 ⟨rfl, filled⟩⟩
    rw [segments_iff.1 segments, partAfter?_eq_some_iff]
    refine ⟨before.map String.toList, after.map String.toList, ?_, ?_⟩
    · simp
    · intro early
      obtain ⟨other, hother, same⟩ := List.mem_map.1 early
      exact fresh (String.toList_inj.1 same ▸ hother)

theorem lastSegment?_eq_some_iff {path last : String} :
    lastSegment? path = some last ↔ LastSegment path last ∧ last ≠ "" := by
  rw [lastSegment?, Option.bind_eq_some_iff]
  constructor
  · rintro ⟨part, ends, h⟩
    obtain ⟨rfl, filled⟩ := nonEmpty?_eq_some_iff.1 h
    obtain ⟨before, split⟩ := List.getLast?_eq_some_iff.1 ends
    refine ⟨⟨before.map String.ofList, segments_iff.2 ?_⟩, filled⟩
    rw [split]
    simp [Function.comp_def]
  · rintro ⟨⟨before, segments⟩, filled⟩
    refine ⟨last.toList, ?_, nonEmpty?_eq_some_iff.2 ⟨rfl, filled⟩⟩
    rw [segments_iff.1 segments]
    simp

def Report.kind : Report → Kind
  | .forwarded => .broker
  | .published => .pubsub
  | .object phase => .storage phase
  | .executed => .scheduler
  | .tick => .ping
  | .pod phase => .pods phase
  | .logged => .audit

theorem Report.name_eq (r : Report) : r.name = r.kind.deliveredType := by
  rcases r with _ | _ | phase | _ | _ | phase | _ <;> (try cases phase) <;> rfl

theorem Report.exists_of_kind (kind : Kind) : ∃ r : Report, r.kind = kind := by
  cases kind with
  | broker => exact ⟨.forwarded, rfl⟩
  | pubsub => exact ⟨.published, rfl⟩
  | storage phase => exact ⟨.object phase, rfl⟩
  | scheduler => exact ⟨.executed, rfl⟩
  | ping => exact ⟨.tick, rfl⟩
  | pods phase => exact ⟨.pod phase, rfl⟩
  | audit => exact ⟨.logged, rfl⟩

theorem Report.ofName?_eq_some_iff {name : String} {r : Report} :
    Report.ofName? name = some r ↔ name = r.kind.deliveredType := by
  rw [← r.name_eq]
  constructor
  · intro h
    have found : r.name = name := by simpa using List.find?_some h
    exact found.symm
  · rintro rfl
    rcases r with _ | _ | phase | _ | _ | phase | _ <;> (try cases phase) <;> decide

theorem Report.key?_eq_some_iff {r : Report} :
    r.key? d = some k ↔ k.kind = r.kind ∧ k.NamedBy d ∧ k.Filled := by
  cases r with
  | forwarded =>
    rw [Report.key?, Option.map_eq_some_iff]
    constructor
    · rintro ⟨ns, filled, rfl⟩
      exact ⟨rfl, ⟨filled, rfl⟩, trivial⟩
    · rintro ⟨kind, named, -⟩
      cases k <;> cases kind
      exact ⟨_, named.1, congrArg _ named.2⟩
  | published =>
    rw [Report.key?, Option.map_eq_some_iff]
    constructor
    · rintro ⟨topic, found, rfl⟩
      exact ⟨rfl, resourceAfter?_eq_some_iff.1 found⟩
    · rintro ⟨kind, named⟩
      cases k <;> cases kind
      exact ⟨_, resourceAfter?_eq_some_iff.2 named, rfl⟩
  | object phase =>
    rw [Report.key?, Option.map_eq_some_iff]
    constructor
    · rintro ⟨bucket, found, rfl⟩
      exact ⟨rfl, resourceAfter?_eq_some_iff.1 found⟩
    · rintro ⟨kind, named⟩
      cases k <;> cases kind
      exact ⟨_, resourceAfter?_eq_some_iff.2 named, rfl⟩
  | executed =>
    constructor
    · rintro ⟨⟩
      exact ⟨rfl, trivial, trivial⟩
    · rintro ⟨kind, -⟩
      cases k <;> cases kind
      rfl
  | tick =>
    constructor
    · rintro ⟨⟩
      exact ⟨rfl, trivial, trivial⟩
    · rintro ⟨kind, -⟩
      cases k <;> cases kind
      rfl
  | pod phase =>
    constructor
    · rintro ⟨⟩
      exact ⟨rfl, trivial, trivial⟩
    · rintro ⟨kind, -⟩
      cases k <;> cases kind
      rfl
  | logged =>
    rw [Report.key?]
    split
    next created =>
      rw [Option.map_eq_some_iff]
      constructor
      · rintro ⟨topic, found, rfl⟩
        obtain ⟨subject, hsubject, ends⟩ := Option.bind_eq_some_iff.1 found
        obtain ⟨ends, filled⟩ := lastSegment?_eq_some_iff.1 ends
        exact ⟨rfl, ⟨created, subject, hsubject, ends⟩, filled⟩
      · rintro ⟨kind, named, filled⟩
        cases k <;> cases kind
        obtain ⟨-, subject, hsubject, ends⟩ := named
        refine ⟨_, Option.bind_eq_some_iff.2 ⟨subject, hsubject, ?_⟩, rfl⟩
        exact lastSegment?_eq_some_iff.2 ⟨ends, filled⟩
    next other =>
      constructor
      · rintro ⟨⟩
      · rintro ⟨kind, named, -⟩
        cases k <;> cases kind
        exact absurd named.1 other

theorem key?_eq_some_iff :
    key? d = some k ↔ d.kind = k.kind.deliveredType ∧ k.NamedBy d ∧ k.Filled := by
  rw [key?, Option.bind_eq_some_iff]
  constructor
  · rintro ⟨r, named, h⟩
    obtain ⟨kind, h⟩ := Report.key?_eq_some_iff.1 h
    rw [kind]
    exact ⟨Report.ofName?_eq_some_iff.1 named, h⟩
  · rintro ⟨type, h⟩
    obtain ⟨r, kind⟩ := Report.exists_of_kind k.kind
    refine ⟨r, ?_, Report.key?_eq_some_iff.2 ⟨kind.symm, h⟩⟩
    rw [Report.ofName?_eq_some_iff, kind]
    exact type

/-- An event has the key of an admitted probe exactly if it is of the type that goes with the kind
and the phase of the probe and names its resource. It has none exactly if its type is unknown, or
what its type asks it to name is missing or empty. -/
theorem key?_tells_probe {policy : DeadlinePolicy} {pods : PodTarget} {nonce : Nonce}
    {request : Event} {a : Admission}
    (admitted : Admission.ofEvent policy pods nonce request = .ok a) (d : Event) :
    (key? d = some a.key ↔ d.kind = a.probe.kind.deliveredType ∧ a.probe.NamedBy d) ∧
      (key? d = none ↔ ∀ k : Key, d.kind = k.kind.deliveredType → k.NamedBy d → ¬ k.Filled) := by
  constructor
  · have filled := (Admission.of_ok admitted).2.filled
    rw [key?_eq_some_iff, Admission.key, Probe.kind_key, Probe.namedBy_key]
    simp only [filled, and_true]
  · rw [Option.eq_none_iff_forall_ne_some]
    simp only [ne_eq, key?_eq_some_iff, not_and]

/-- A probe of the bucket `buckets`, whose name the source of its delivery holds twice. -/
def archiveRequest : Event :=
  (Event.bare "1" "cloudstoragesource-probe-archive" "caller").setExtension "bucket" "buckets"

def archived : Event :=
  Event.bare "2" "google.cloud.storage.object.v1.archived"
    "//storage.googleapis.com/projects/_/buckets/buckets"

theorem key?_tells_archive :
    Admission.ofEvent {} {} 0 archiveRequest =
        .ok ⟨.storage "buckets" "1" .archive, 2 * Duration.minute⟩ ∧
      (key? archived = some (.storage "buckets" .archive) ↔
        archived.kind = "google.cloud.storage.object.v1.archived" ∧
          SegmentAfter archived.source "buckets" "buckets") ∧
      (key? archived = none ↔
        ∀ k : Key, archived.kind = k.kind.deliveredType → k.NamedBy archived → ¬ k.Filled) := by
  have admitted : Admission.ofEvent {} {} 0 archiveRequest =
      .ok ⟨.storage "buckets" "1" .archive, 2 * Duration.minute⟩ := rfl
  exact ⟨admitted, key?_tells_probe admitted archived⟩

end Delivered

end RoundTrip
