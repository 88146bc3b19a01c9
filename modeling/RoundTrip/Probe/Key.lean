import RoundTrip.Probe.Kind

namespace RoundTrip

/-- Identifies one outstanding round trip. Probes of several phases carry the phase, so that
successive probes of one resource do not meet. -/
inductive Key
  | broker (ns name : String)
  | pubsub (topic : String)
  | storage (bucket : String) (phase : StoragePhase)
  | scheduler
  | ping
  | pods (phase : PodPhase)
  | audit (topic : String)
  deriving DecidableEq, Repr

def Key.text : Key → String
  | .broker ns name => "broker/" ++ ns ++ "/" ++ name
  | .pubsub topic => "pubsub/" ++ topic
  | .storage bucket phase => "storage/" ++ bucket ++ "/" ++ phase.text
  | .scheduler => "scheduler"
  | .ping => "ping"
  | .pods phase => "apiserver/" ++ phase.text
  | .audit topic => "auditlogs/" ++ topic

end RoundTrip
