namespace RoundTrip

inductive StoragePhase
  | create
  | updateMetadata
  | archive
  | delete
  deriving DecidableEq, Repr

def StoragePhase.text : StoragePhase → String
  | .create => "create"
  | .updateMetadata => "update-metadata"
  | .archive => "archive"
  | .delete => "delete"

inductive PodPhase
  | create
  | update
  | delete
  deriving DecidableEq, Repr

def PodPhase.text : PodPhase → String
  | .create => "create"
  | .update => "update"
  | .delete => "delete"

inductive Kind
  | broker
  | pubsub
  | storage (phase : StoragePhase)
  | scheduler
  | ping
  | pods (phase : PodPhase)
  | audit
  deriving DecidableEq, Repr

namespace Kind

def all : List Kind :=
  [.broker, .pubsub, .storage .create, .storage .updateMetadata, .storage .archive,
    .storage .delete, .scheduler, .ping, .pods .create, .pods .update, .pods .delete, .audit]

def name : Kind → String
  | .broker => "broker-e2e-delivery-probe"
  | .pubsub => "cloudpubsubsource-probe"
  | .storage .create => "cloudstoragesource-probe-create"
  | .storage .updateMetadata => "cloudstoragesource-probe-update-metadata"
  | .storage .archive => "cloudstoragesource-probe-archive"
  | .storage .delete => "cloudstoragesource-probe-delete"
  | .scheduler => "cloudschedulersource-probe"
  | .ping => "pingsource-probe"
  | .pods .create => "apiserversource-probe-create"
  | .pods .update => "apiserversource-probe-update"
  | .pods .delete => "apiserversource-probe-delete"
  | .audit => "cloudauditlogssource-probe"

def ofName? (name : String) : Option Kind := all.find? fun k => k.name = name

theorem ofName?_name (k : Kind) : ofName? k.name = some k := by
  rcases k with _ | _ | p | _ | _ | p | _ <;> (try cases p) <;> decide

theorem name_of_ofName? {s : String} {k : Kind} (h : ofName? s = some k) : k.name = s := by
  simpa using List.find?_some h

/-- Kinds that wait for a tick of their own instead of causing an effect. -/
def isPeriodic : Kind → Bool
  | .scheduler | .ping => true
  | _ => false

end Kind

end RoundTrip
