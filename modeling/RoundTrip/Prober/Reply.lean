import RoundTrip.Event.Http
import RoundTrip.Liveness

namespace RoundTrip

abbrev Verdict := Except ProbeError Unit

structure HttpRequest where
  method : String
  target : String
  headers : Headers
  body : Bytes

structure HttpResponse where
  status : Nat
  contentType : Option String
  body : Bytes
  deriving DecidableEq, Repr

namespace HttpResponse

def bare (status : Nat) : HttpResponse := ⟨status, none, []⟩

def json (status : Nat) (value : Json) : HttpResponse :=
  ⟨status, some "application/json", value.bytes⟩

/-- Octets of a request body that the listeners buffer. -/
def bufferLimit : Nat := 2097152

def unbuffered : HttpResponse :=
  ⟨413, some "text/plain; charset=utf-8",
    Text.Utf8.encode "Failed to buffer the request body: length limit exceeded"⟩

def ofVerdict : Verdict → HttpResponse
  | .ok _ => json 200 (.obj [("result", .str "ACK")])
  | .error e => json e.status (.obj [("result", .str "NACK"), ("reason", .str e.message)])

/-- Counts of milliseconds are reported in 64 bits and stop at the largest one. -/
def reportedMillis (d : Duration) : Nat := min d.toMillis (Nat.pow 2 64 - 1)

def ofHealth (s : Liveness.Status) : HttpResponse :=
  json (if s.healthy then 200 else 503)
    (.obj [("healthy", .bool s.healthy),
      ("since_last_success_ms", .num (.int (reportedMillis s.since))),
      ("stale_duration_ms", .num (.int (reportedMillis s.stale)))])

end HttpResponse

inductive GrpcCode
  | invalidArgument
  | unavailable
  deriving DecidableEq, Repr

def GrpcCode.name : GrpcCode → String
  | .invalidArgument => "InvalidArgument"
  | .unavailable => "Unavailable"

structure GrpcStatus where
  code : GrpcCode
  message : String
  deriving DecidableEq, Repr

structure GrpcProbeAnswer where
  ack : Bool
  reason : String
  deriving DecidableEq, Repr

namespace GrpcProbeAnswer

/-- Refusals are told in the answer; only a shutdown breaks the call off. -/
def ofVerdict : Verdict → Except GrpcStatus GrpcProbeAnswer
  | .ok _ => .ok ⟨true, ""⟩
  | .error (.execution .shuttingDown) =>
    .error ⟨.unavailable, ExecutionError.message .shuttingDown⟩
  | .error e => .ok ⟨false, e.message⟩

end GrpcProbeAnswer

def Event.ofGrpc (body : Bytes) : Except GrpcStatus Event :=
  if body.isEmpty then .error ⟨.invalidArgument, "event_json is required"⟩
  else if Event.maxBytes < body.length then
    .error ⟨.invalidArgument, "event_json exceeds maximum size"⟩
  else
    match Event.ofStructured body with
    | .ok e => .ok e
    | .error m => .error ⟨.invalidArgument, m.toTransport.message⟩

/-- How a probe came in, and so how its result goes out. -/
inductive Surface
  | direct
  | http
  | grpc
  deriving DecidableEq, Repr

inductive Reply
  | direct (v : Verdict)
  | http (r : HttpResponse)
  | grpc (r : Except GrpcStatus GrpcProbeAnswer)

def Surface.reply (v : Verdict) : Surface → Reply
  | .direct => .direct v
  | .http => .http (.ofVerdict v)
  | .grpc => .grpc (GrpcProbeAnswer.ofVerdict v)

end RoundTrip
