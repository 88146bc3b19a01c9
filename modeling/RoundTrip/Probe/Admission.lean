import RoundTrip.Error
import RoundTrip.Event.Basic
import RoundTrip.Duration.Grammar

/-!
Admission of probe requests: the kind, the extensions it needs, the key its delivery will carry and
how long to wait for it. Nothing happens to the outside before a request is admitted.
-/

namespace RoundTrip

/-- Randomness of one request: a number below `2^128`, and which branch of a select goes first where
two are ready at once. -/
structure Nonce where
  value : Nat
  /-- The call, before a shutdown signal that has fired. -/
  callFirst : Bool := false
  /-- The answer to the call, before the deadline that comes with it. -/
  answerFirst : Bool := true
  /-- The end of the wait, before a shutdown signal that has fired. -/
  outcomeFirst : Bool := false
  deriving DecidableEq, Repr

instance (n : Nat) : OfNat Nonce n := ⟨{ value := n }⟩

def Nonce.text (n : Nonce) : String :=
  String.ofList ((List.range 32).map fun i =>
    let d := n.value / Nat.pow 16 (31 - i) % 16
    Char.ofNat (if d < 10 then 0x30 + d else 0x57 + d))

structure DeadlinePolicy where
  /-- For requests whose `timeout` is missing or no duration. -/
  defaultTimeout : Duration := 2 * Duration.minute
  maxTimeout : Duration := 30 * Duration.minute
  deriving DecidableEq, Repr

inductive Refusal
  | invalid (error : ValidationError)
  /-- A duration overflows, and nobody gets an answer. -/
  | panic
  deriving DecidableEq, Repr

def DeadlinePolicy.timeoutFor (p : DeadlinePolicy) (e : Event) : Except Refusal Duration :=
  match e.extension? "timeout" with
  | none => .ok p.defaultTimeout
  | some text =>
    match Duration.parse text with
    | .ok requested => .ok (min requested p.maxTimeout)
    | .error .overflow => .error .panic
    | .error _ => .ok p.defaultTimeout

structure PodTarget where
  ns : String := "default"
  /-- First part of the pod's name; the id of the request follows it. -/
  name : String := "apiserversource-probe-pod"
  deriving DecidableEq, Repr

inductive Probe
  | broker (ns name : String)
  | pubsub (topic : String)
  | storage (bucket object : String) (phase : StoragePhase)
  | scheduler (period : Option Duration)
  | ping (period : Duration)
  | pods (ns pod : String) (phase : PodPhase)
  | audit (topic : String)
  deriving DecidableEq, Repr

namespace Probe

def defaultBroker : String := "default"

def auditTopicStart : String := "cloudauditlogssource-probe-"

def brokerName (e : Event) : String := (e.filledExtension? "broker").getD defaultBroker

def required (e : Event) (name : String) : Except Refusal String :=
  match e.filledExtension? name with
  | some v => .ok v
  | none => .error (.invalid (.missingExtension name))

def durationOf (name value : String) : Except Refusal Duration :=
  match Duration.parse value with
  | .ok d => .ok d
  | .error .overflow => .error .panic
  | .error fault =>
    let reason := ValidationError.invalidDuration value fault.message
    .error (.invalid (.invalidExtension name value reason.message))

def validate (kind : Kind) (e : Event) (pods : PodTarget) (nonce : Nonce) :
    Except Refusal Probe :=
  match kind with
  | .broker => (required e "namespace").map fun ns => .broker ns (brokerName e)
  | .pubsub => (required e "topic").map .pubsub
  | .storage phase => (required e "bucket").map fun bucket => .storage bucket e.id phase
  | .scheduler =>
    match e.filledExtension? "period" with
    | none => .ok (.scheduler none)
    | some text => (durationOf "period" text).map fun d => .scheduler (some d)
  | .ping =>
    match required e "period" with
    | .error error => .error error
    | .ok text => (durationOf "period" text).map .ping
  | .pods phase => .ok (.pods pods.ns (pods.name ++ "." ++ e.id) phase)
  | .audit => .ok (.audit (auditTopicStart ++ nonce.text))

def kind : Probe → Kind
  | .broker _ _ => .broker
  | .pubsub _ => .pubsub
  | .storage _ _ phase => .storage phase
  | .scheduler _ => .scheduler
  | .ping _ => .ping
  | .pods _ _ phase => .pods phase
  | .audit _ => .audit

def key : Probe → Key
  | .broker ns name => .broker ns name
  | .pubsub topic => .pubsub topic
  | .storage bucket _ phase => .storage bucket phase
  | .scheduler _ => .scheduler
  | .ping _ => .ping
  | .pods _ _ phase => .pods phase
  | .audit topic => .audit topic

def period : Probe → Option Duration
  | .scheduler period => period
  | .ping period => some period
  | _ => none

end Probe

structure Admission where
  probe : Probe
  wait : Duration
  deriving DecidableEq, Repr

namespace Admission

def key (a : Admission) : Key := a.probe.key

def boundBy (wait : Duration) : Option Duration → Duration
  | none => wait
  | some period => min wait period

def ofEvent (policy : DeadlinePolicy) (pods : PodTarget) (nonce : Nonce) (e : Event) :
    Except Refusal Admission :=
  match Kind.ofName? e.kind with
  | none => .error (.invalid (.unrecognizedKind e.kind))
  | some kind =>
    match Probe.validate kind e pods nonce with
    | .error refusal => .error refusal
    | .ok probe => (policy.timeoutFor e).map fun wait => ⟨probe, boundBy wait probe.period⟩

end Admission

end RoundTrip
