import RoundTrip.Probe.Key

namespace RoundTrip

inductive ValidationError
  | unrecognizedKind (kind : String)
  | missingExtension (name : String)
  | invalidExtension (name value reason : String)
  | invalidDuration (input reason : String)
  | missingField (field : String)
  | invalidConfig (reason : String)
  deriving DecidableEq, Repr

def ValidationError.message : ValidationError → String
  | .unrecognizedKind kind => "Unrecognized probe kind '" ++ kind ++ "'"
  | .missingExtension name => "Required extension '" ++ name ++ "' is missing"
  | .invalidExtension name value reason =>
    "Extension '" ++ name ++ "' has invalid value '" ++ value ++ "': " ++ reason
  | .invalidDuration input reason => "Invalid duration '" ++ input ++ "': " ++ reason
  | .missingField field => "Required field '" ++ field ++ "' is missing"
  | .invalidConfig reason => "Invalid configuration: " ++ reason

inductive TriggerError
  | notConfigured (collaborator : String)
  | requestFailed (collaborator message : String)
  | rejected (collaborator : String) (status : Nat) (message : String)
  deriving DecidableEq, Repr

def TriggerError.message : TriggerError → String
  | .notConfigured collaborator => "No " ++ collaborator ++ " client is configured"
  | .requestFailed collaborator message => collaborator ++ " request failed: " ++ message
  | .rejected collaborator status message =>
    collaborator ++ " rejected the request with status " ++ toString status ++ ": " ++ message

inductive ExecutionError
  | timeout (key : Key) (waitedMillis : Nat)
  | collision (key : Key)
  | shuttingDown
  deriving DecidableEq, Repr

def ExecutionError.message : ExecutionError → String
  | .timeout key waited =>
    "Probe timed out after " ++ toString waited ++ "ms waiting for " ++ key.text
  | .collision key => "A probe for " ++ key.text ++ " is already in flight"
  | .shuttingDown => "Probe helper is shutting down"

inductive TransportError
  | malformedEvent (message : String)
  | serializationFailed (message : String)
  | payloadTooLarge (actual limit : Nat)
  | listener (message : String)
  deriving DecidableEq, Repr

def TransportError.message : TransportError → String
  | .malformedEvent message => "Malformed event: " ++ message
  | .serializationFailed message => "Failed to serialize event: " ++ message
  | .payloadTooLarge actual limit =>
    "Payload of " ++ toString actual ++ " bytes exceeds limit of " ++ toString limit ++ " bytes"
  | .listener message => "Listener failed: " ++ message

inductive ProbeError
  | validation (e : ValidationError)
  | trigger (e : TriggerError)
  | execution (e : ExecutionError)
  | transport (e : TransportError)
  | internal (message : String)
  deriving DecidableEq, Repr

namespace ProbeError

def message : ProbeError → String
  | .validation e => "Validation error: " ++ e.message
  | .trigger e => "Trigger error: " ++ e.message
  | .execution e => "Execution error: " ++ e.message
  | .transport e => "Transport error: " ++ e.message
  | .internal message => "Internal error: " ++ message

def isValidation : ProbeError → Bool
  | .validation _ => true
  | _ => false

def isTrigger : ProbeError → Bool
  | .trigger _ => true
  | _ => false

def isTimeout : ProbeError → Bool
  | .execution (.timeout _ _) => true
  | _ => false

def isShutdown : ProbeError → Bool
  | .execution .shuttingDown => true
  | _ => false

def isTransport : ProbeError → Bool
  | .transport _ => true
  | _ => false

def isInternal : ProbeError → Bool
  | .internal _ => true
  | _ => false

def isRetryable : ProbeError → Bool
  | .trigger (.requestFailed _ _) => true
  | .trigger (.rejected _ status _) => 500 ≤ status
  | .execution _ => true
  | .transport (.listener _) => true
  | _ => false

def status : ProbeError → Nat
  | .validation _ => 400
  | .trigger _ => 502
  | .execution (.timeout _ _) => 504
  | .execution (.collision _) => 409
  | .execution .shuttingDown => 503
  | .transport (.payloadTooLarge _ _) => 413
  | .transport (.listener _) => 500
  | .transport _ => 400
  | .internal _ => 500

end ProbeError

end RoundTrip
