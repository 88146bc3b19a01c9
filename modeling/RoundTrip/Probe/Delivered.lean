import RoundTrip.Probe.Admission

/-!
Delivered events and the probe each belongs to. Every source has event types of its own, and the
resource is named by its extensions, its source path or its subject.
-/

namespace RoundTrip.Delivered

inductive Report
  | forwarded
  | published
  | object (phase : StoragePhase)
  | executed
  | tick
  | pod (phase : PodPhase)
  | logged
  deriving DecidableEq, Repr

def Report.all : List Report :=
  [.forwarded, .published, .object .create, .object .updateMetadata, .object .archive,
    .object .delete, .executed, .tick, .pod .create, .pod .update, .pod .delete, .logged]

def Report.name : Report → String
  | .forwarded => Kind.broker.name
  | .published => "google.cloud.pubsub.topic.v1.messagePublished"
  | .object .create => "google.cloud.storage.object.v1.finalized"
  | .object .updateMetadata => "google.cloud.storage.object.v1.metadataUpdated"
  | .object .archive => "google.cloud.storage.object.v1.archived"
  | .object .delete => "google.cloud.storage.object.v1.deleted"
  | .executed => "google.cloud.scheduler.job.v1.executed"
  | .tick => "dev.knative.sources.ping"
  | .pod .create => "dev.knative.apiserver.resource.add"
  | .pod .update => "dev.knative.apiserver.resource.update"
  | .pod .delete => "dev.knative.apiserver.resource.delete"
  | .logged => "google.cloud.audit.log.v1.written"

def Report.ofName? (name : String) : Option Report := Report.all.find? fun r => r.name = name

def createTopicMethod : String := "google.pubsub.v1.Publisher.CreateTopic"

def nonEmpty? (cs : List Char) : Option String :=
  if cs.isEmpty then none else some (String.ofList cs)

def partAfter? (name : List Char) : List (List Char) → Option (List Char)
  | [] => none
  | part :: rest => if part = name then rest.head? else partAfter? name rest

/-- The resource in a path such as `//pubsub.googleapis.com/projects/p/topics/t`: the segment right
after the first one that names the collection, unless it is empty. -/
def resourceAfter? (path collection : String) : Option String :=
  (partAfter? collection.toList (Text.splitOn '/' path.toList)).bind nonEmpty?

def lastSegment? (path : String) : Option String :=
  (Text.splitOn '/' path.toList).getLast?.bind nonEmpty?

def Report.key? (e : Event) : Report → Option Key
  | .forwarded => (e.filledExtension? "namespace").map fun ns => .broker ns (Probe.brokerName e)
  | .published => (resourceAfter? e.source "topics").map .pubsub
  | .object phase => (resourceAfter? e.source "buckets").map fun bucket => .storage bucket phase
  | .executed => some .scheduler
  | .tick => some .ping
  | .pod phase => some (.pods phase)
  | .logged =>
    if e.extension? "methodname" = some createTopicMethod then
      (e.subject.bind lastSegment?).map .audit
    else none

def key? (e : Event) : Option Key := (Report.ofName? e.kind).bind fun r => r.key? e

end RoundTrip.Delivered
