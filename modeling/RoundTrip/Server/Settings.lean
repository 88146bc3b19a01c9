import RoundTrip.Config
import RoundTrip.Net.Address
import RoundTrip.Rest.Endpoint

/-!
Settings of the server that runs a prober: where it listens, which collaborators it knows, and what
the prober is built from. Every setting has a flag and an environment variable.
-/

namespace RoundTrip.Server

inductive Setting
  | bindAddress
  | probePort
  | receiverPort
  | grpcPort
  | brokerUrl
  | projectId
  | pubsubUrl
  | storageUrl
  | apiserverUrl
  | podNamespace
  | podName
  | cloudToken
  | apiserverToken
  | stale
  | defaultTimeout
  | maxTimeout
  | sweep
  | requestTimeout
  deriving DecidableEq, Repr

namespace Setting

def all : List Setting :=
  [.bindAddress, .probePort, .receiverPort, .grpcPort, .brokerUrl, .projectId, .pubsubUrl,
    .storageUrl, .apiserverUrl, .podNamespace, .podName, .cloudToken, .apiserverToken, .stale,
    .defaultTimeout, .maxTimeout, .sweep, .requestTimeout]

def flag : Setting → String
  | .bindAddress => "bind-address"
  | .probePort => "probe-port"
  | .receiverPort => "receiver-port"
  | .grpcPort => "grpc-port"
  | .brokerUrl => "broker-ingress-url"
  | .projectId => "project-id"
  | .pubsubUrl => "pubsub-endpoint"
  | .storageUrl => "storage-endpoint"
  | .apiserverUrl => "k8s-api-endpoint"
  | .podNamespace => "k8s-namespace"
  | .podName => "probe-pod-name"
  | .cloudToken => "cloud-access-token"
  | .apiserverToken => "k8s-token"
  | .stale => "liveness-stale-duration"
  | .defaultTimeout => "default-timeout"
  | .maxTimeout => "max-timeout"
  | .sweep => "sweep-interval"
  | .requestTimeout => "request-timeout"

/-- The environment variable: the flag in capitals with low lines. -/
def variableName (s : Setting) : String :=
  String.ofList (s.flag.toList.map fun c => if c = '-' then '_' else c.toUpper)

def ofFlag? (flag : String) : Option Setting := all.find? fun s => s.flag = flag

end Setting

structure Settings where
  bindAddress : Net.Address := .v4 ⟨[0, 0, 0, 0]⟩
  probePort : Nat := 8070
  receiverPort : Nat := 8080
  grpcPort : Option Nat := none
  brokerUrl : Option String := none
  /-- Owner of the topics; without it nothing is published. -/
  projectId : Option String := none
  pubsubUrl : String := "https://pubsub.googleapis.com"
  storageUrl : Option String := none
  apiserverUrl : Option String := none
  cloudToken : Option String := none
  apiserverToken : Option String := none
  requestTimeout : Duration := 30 * Duration.second
  config : Config := {}

def port? (text : String) : Option Nat :=
  let port? (digits : List Char) : Option Nat :=
    if digits.isEmpty ∨ !digits.all Char.isDigit ∨ 65535 < Text.decimal digits then none
    else some (Text.decimal digits)
  match text.toList with
  | '+' :: digits => port? digits
  | '-' :: digits => (port? digits).filter (· = 0)
  | digits => port? digits

inductive BadValue
  | invalid
  /-- A duration overflows, which nobody catches. -/
  | panic
  deriving DecidableEq, Repr

def valid {α : Type} : Option α → Except BadValue α
  | none => .error .invalid
  | some a => .ok a

def duration (text : String) : Except BadValue Duration :=
  match Duration.parse text with
  | .ok d => .ok d
  | .error .overflow => .error .panic
  | .error _ => .error .invalid

namespace Settings

def set (s : Settings) (setting : Setting) (text : String) : Except BadValue Settings :=
  let port := valid (port? text)
  match setting with
  | .bindAddress => (valid (Net.Address.parse? text)).map fun a => { s with bindAddress := a }
  | .probePort => port.map fun n => { s with probePort := n }
  | .receiverPort => port.map fun n => { s with receiverPort := n }
  | .grpcPort => port.map fun n => { s with grpcPort := some n }
  | .brokerUrl => .ok { s with brokerUrl := some text }
  | .projectId => .ok { s with projectId := some text }
  | .pubsubUrl => .ok { s with pubsubUrl := text }
  | .storageUrl => .ok { s with storageUrl := some text }
  | .apiserverUrl => .ok { s with apiserverUrl := some text }
  | .podNamespace => .ok { s with config.pods.ns := text }
  | .podName => .ok { s with config.pods.name := text }
  | .cloudToken => .ok { s with cloudToken := some text }
  | .apiserverToken => .ok { s with apiserverToken := some text }
  | .stale => (duration text).map fun d => { s with config.stale := d }
  | .defaultTimeout => (duration text).map fun d => { s with config.policy.defaultTimeout := d }
  | .maxTimeout => (duration text).map fun d => { s with config.policy.maxTimeout := d }
  | .sweep => (duration text).map fun d => { s with config.sweep := d }
  | .requestTimeout => (duration text).map fun d => { s with requestTimeout := d }

def probeAddress (s : Settings) : String := s.bindAddress.withPort s.probePort

def receiverAddress (s : Settings) : String := s.bindAddress.withPort s.receiverPort

def grpcAddress (s : Settings) : Option String := s.grpcPort.map s.bindAddress.withPort

end Settings

structure Endpoints where
  broker : Option Rest.Endpoint
  pubsub : Option Rest.Endpoint
  storage : Option Rest.Endpoint
  apiserver : Option Rest.Endpoint

def Endpoints.summary (e : Endpoints) : String :=
  "Clients \x7b broker: " ++ toString e.broker.isSome ++ ", pubsub: " ++ toString e.pubsub.isSome ++
    ", storage: " ++ toString e.storage.isSome ++ ", apiserver: " ++
    toString e.apiserver.isSome ++ " \x7d"

def endpoint? (url token : Option String) : Except ValidationError (Option Rest.Endpoint) :=
  match url with
  | none => .ok none
  | some url => (Rest.Endpoint.ofText url token).map some

/-- The endpoints that the settings name; the first one that cannot be used counts. -/
def Settings.endpoints (s : Settings) : Except ValidationError Endpoints := do
  let broker ← endpoint? s.brokerUrl none
  let pubsub ← endpoint? (s.projectId.map fun _ => s.pubsubUrl) s.cloudToken
  let storage ← endpoint? s.storageUrl s.cloudToken
  let apiserver ← endpoint? s.apiserverUrl s.apiserverToken
  return ⟨broker, pubsub, storage, apiserver⟩

end RoundTrip.Server
