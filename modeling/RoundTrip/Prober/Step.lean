import RoundTrip.Prober.Flight

namespace RoundTrip.Prober

inductive Step
  | probe (name : String) (event : Event) (nonce : Nonce)
  | httpProbe (name : String) (request : HttpRequest) (nonce : Nonce)
  | grpcProbe (name : String) (body : Bytes) (nonce : Nonce)
  | deliver (event : Event)
  | httpReceive (request : HttpRequest)
  | grpcDeliver (body : Bytes)
  | health
  | grpcHealth
  | contains (key : Key)
  | expire (key : Key)
  | advance (d : Duration)
  | cancel (name : String)
  | shutdown
  | run
  /-- Whoever started maintenance stops it, which shuts the prober down. -/
  | stopRun
  /-- The shutdown signal fires by itself. -/
  | signalShutdown

inductive Answer
  | none
  | flag (b : Bool)
  | http (r : HttpResponse)
  | grpcDelivered (r : Except GrpcStatus Bool)
  | health (s : Liveness.Status)
  | grpcHealth (healthy : Bool) (sinceMillis : Nat)

structure Shown where
  answer : Answer
  happenings : List Happening

def healthPath : String := "/healthz"

def pathOf (target : String) : String :=
  String.ofList (target.toList.takeWhile (· ≠ '?'))

def httpProbe (p : Prober) (name : String) (r : HttpRequest) (nonce : Nonce) :
    List Mark × Prober :=
  if HttpResponse.bufferLimit < r.body.length then ([.rejected p.now name (.http .unbuffered)], p)
  else
    match Event.ofHttp r.headers r.body with
    | .error e => ([.rejected p.now name (Surface.http.reply (.error (.transport e)))], p)
    | .ok e => p.probe name .http e nonce

def grpcProbe (p : Prober) (name : String) (body : Bytes) (nonce : Nonce) :
    List Mark × Prober :=
  match Event.ofGrpc body with
  | .error status => ([.rejected p.now name (.grpc (.error status))], p)
  | .ok e => p.probe name .grpc e nonce

/-- The receiving listener takes any request that it can buffer, with or without an event. -/
def receive (p : Prober) (r : HttpRequest) : HttpResponse × List Mark × Prober :=
  if HttpResponse.bufferLimit < r.body.length then (.unbuffered, [], p)
  else
    match Event.ofHttp r.headers r.body with
    | .error _ => (.bare 202, [], p)
    | .ok e => (.bare 202, [p.delivery e false], (p.deliver e).2)

def healthResponse (p : Prober) (method : String) : HttpResponse :=
  if method = "GET" then .ofHealth p.health
  else if method = "HEAD" then { HttpResponse.ofHealth p.health with body := [] }
  else .bare 405

def httpReceive (p : Prober) (r : HttpRequest) : HttpResponse × List Mark × Prober :=
  if pathOf r.target = healthPath then (p.healthResponse r.method, [], p) else p.receive r

def grpcDeliver (p : Prober) (body : Bytes) : Except GrpcStatus Bool × List Mark × Prober :=
  match Event.ofGrpc body with
  | .error status => (.error status, [], p)
  | .ok e => (.ok (p.deliver e).1, [p.delivery e false], (p.deliver e).2)

/-- The caller of a probe goes away; a probe that has its result is left alone. -/
def cancel (p : Prober) (name : String) : List Mark × Prober :=
  match p.flights.find? fun f => f.name = name with
  | none => ([], p)
  | some f => ([.dropped p.now f.toTicket], p.release f)

def expire (p : Prober) (key : Key) : Bool × Prober :=
  let (removed, session) := p.session.expire key
  (removed, { p with session })

def act (p : Prober) : Step → Answer × List Mark × Prober
  | .probe name e nonce => (.none, p.probe name .direct e nonce)
  | .httpProbe name r nonce => (.none, p.httpProbe name r nonce)
  | .grpcProbe name body nonce => (.none, p.grpcProbe name body nonce)
  | .deliver e => (.flag (p.deliver e).1, [p.delivery e false], (p.deliver e).2)
  | .httpReceive r => (.http (p.httpReceive r).1, (p.httpReceive r).2)
  | .grpcDeliver body => (.grpcDelivered (p.grpcDeliver body).1, (p.grpcDeliver body).2)
  | .health => (.health p.health, [], p)
  | .grpcHealth =>
    (.grpcHealth p.health.healthy (HttpResponse.reportedMillis p.health.since), [], p)
  | .contains key => (.flag (p.session.table.contains key), [], p)
  | .expire key =>
    (.flag (p.expire key).1, [.expired p.now (p.session.table.find? key)], (p.expire key).2)
  | .advance d => (.none, machine.advance d p)
  | .cancel name => (.none, p.cancel name)
  | .shutdown => (.none, p.shutdown)
  | .run => (.none, p.run)
  | .stopRun => (.none, if p.maintained then p.shutdown else ([], p))
  | .signalShutdown => (.none, p.signalShutdown)

def perform (p : Prober) (s : Step) : Answer × List Mark × Prober :=
  let (answer, marks, p) := p.act s
  let (later, p) := p.settle
  (answer, marks ++ later, p)

def step (p : Prober) (s : Step) : Shown × Prober :=
  let (answer, marks, p) := p.perform s
  (⟨answer, marks.filterMap Mark.happening?⟩, p)

def steps (p : Prober) : List Step → List Shown × Prober
  | [] => ([], p)
  | s :: rest =>
    let (shown, p) := p.step s
    let (later, p) := p.steps rest
    (shown :: later, p)

def journal (p : Prober) : List Step → List Mark
  | [] => []
  | s :: rest => (p.perform s).2.1 ++ (p.perform s).2.2.journal rest

end RoundTrip.Prober
