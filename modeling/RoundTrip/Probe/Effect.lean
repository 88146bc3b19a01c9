import RoundTrip.Probe.Admission

namespace RoundTrip

inductive Collaborator
  | broker
  | pubsub
  | storage
  | apiserver
  deriving DecidableEq, Repr

def Collaborator.name : Collaborator → String
  | .broker => "broker"
  | .pubsub => "pubsub"
  | .storage => "storage"
  | .apiserver => "apiserver"

structure Pod where
  ns : String
  name : String
  image : String
  deriving DecidableEq, Repr

inductive Effect
  | send (ns broker : String) (event : Event)
  | publish (topic : String) (attributes : List (String × String))
  | createTopic (topic : String)
  | createObject (bucket object : String) (contents : Bytes)
  | updateMetadata (bucket object : String) (metadata : List (String × String))
  | archiveObject (bucket object : String)
  | deleteObject (bucket object : String)
  | createPod (pod : Pod)
  | updatePod (pod : Pod)
  | deletePod (ns name : String)
  deriving DecidableEq, Repr

def Effect.collaborator : Effect → Collaborator
  | .send _ _ _ => .broker
  | .publish _ _ | .createTopic _ => .pubsub
  | .createObject _ _ _ | .updateMetadata _ _ _ | .archiveObject _ _ | .deleteObject _ _ => .storage
  | .createPod _ | .updatePod _ | .deletePod _ _ => .apiserver

def Effect.createdTopic? : Effect → Option String
  | .createTopic topic => some topic
  | _ => none

namespace Probe

def updatedMetadata : List (String × String) := [("some-key", "Metadata updated!")]

def idAttribute : String := "probe-id"

def createImage : String := "busybox"

def updateImage : String := "alpine"

/-- The one effect of a probe. Periodic kinds have none and wait for a tick that comes anyway. -/
def effect? (p : Probe) (e : Event) : Option Effect :=
  match p with
  | .broker ns name => some (.send ns name e)
  | .pubsub topic => some (.publish topic [(idAttribute, e.id)])
  | .storage bucket object .create =>
    some (.createObject bucket object (Text.Utf8.encode e.id))
  | .storage bucket object .updateMetadata => some (.updateMetadata bucket object updatedMetadata)
  | .storage bucket object .archive => some (.archiveObject bucket object)
  | .storage bucket object .delete => some (.deleteObject bucket object)
  | .scheduler _ | .ping _ => none
  | .pods ns pod .create => some (.createPod ⟨ns, pod, createImage⟩)
  | .pods ns pod .update => some (.updatePod ⟨ns, pod, updateImage⟩)
  | .pods ns pod .delete => some (.deletePod ns pod)
  | .audit topic => some (.createTopic topic)

theorem effect?_eq_none_iff (p : Probe) (e : Event) :
    p.effect? e = none ↔ p.kind.isPeriodic = true := by
  rcases p with _ | _ | ⟨_, _, ph⟩ | _ | _ | ⟨_, _, ph⟩ | _ <;> (try cases ph) <;>
    simp [effect?, kind, Kind.isPeriodic]

end Probe

end RoundTrip
