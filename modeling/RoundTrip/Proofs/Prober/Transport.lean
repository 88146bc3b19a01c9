import RoundTrip.Proofs.Prober.Freshness
import RoundTrip.Proofs.Prober.Receiver

namespace RoundTrip

theorem ProbeError.status_ne_ok (e : ProbeError) : e.status ≠ 200 := by
  cases e with
  | execution e => cases e <;> simp [status]
  | transport e => cases e <;> simp [status]
  | validation | trigger | internal => simp [status]

theorem ProbeError.status_ne_unavailable {e : ProbeError} (up : e ≠ .execution .shuttingDown) :
    e.status ≠ 503 := by
  cases e with
  | execution e => cases e <;> simp_all [status]
  | transport e => cases e <;> simp [status]
  | validation | trigger | internal => simp [status]

theorem GrpcProbeAnswer.ofVerdict_error {e : ProbeError} (up : e ≠ .execution .shuttingDown) :
    ofVerdict (.error e) = .ok ⟨false, e.message⟩ := by
  cases e with
  | execution e =>
    cases e with
    | shuttingDown => exact absurd rfl up
    | timeout | collision => rfl
  | validation | trigger | transport | internal => rfl

namespace HttpResponse

def ack : HttpResponse := json 200 (.obj [("result", .str "ACK")])

def nack (status : Nat) (reason : String) : HttpResponse :=
  json status (.obj [("result", .str "NACK"), ("reason", .str reason)])

@[simp] theorem ack_status : ack.status = 200 := rfl

@[simp] theorem nack_status (status : Nat) (reason : String) :
    (nack status reason).status = status := rfl

theorem nack_ne_ack {status : Nat} (failed : status ≠ 200) (reason : String) :
    nack status reason ≠ ack :=
  fun same => failed (congrArg HttpResponse.status same)

theorem ofVerdict_error (e : ProbeError) : ofVerdict (.error e) = nack e.status e.message := rfl

end HttpResponse

/-- What the two listeners answer for one event. -/
structure Corresponds (decoded : Prop) (http : HttpResponse)
    (grpc : Except GrpcStatus GrpcProbeAnswer) : Prop where
  acknowledged : http = .ack ↔ ∃ reason, grpc = .ok ⟨true, reason⟩
  undecoded : (∃ message, grpc = .error ⟨.invalidArgument, message⟩) ↔ ¬ decoded
  invalid : ∀ message, grpc = .error ⟨.invalidArgument, message⟩ →
    http = .nack 400 ("Transport error: " ++ message)
  unavailable : http.status = 503 ↔ ∃ message, grpc = .error ⟨.unavailable, message⟩
  refused : http ≠ .ack → decoded → http.status ≠ 503 →
    ∃ status reason, http = .nack status reason ∧ grpc = .ok ⟨false, reason⟩

namespace Corresponds

theorem acknowledgement : Corresponds True .ack (.ok ⟨true, ""⟩) := by
  constructor
  case refused => exact fun failed => absurd rfl failed
  all_goals simp

theorem refusal {status : Nat} (failed : status ≠ 200) (up : status ≠ 503) (reason : String) :
    Corresponds True (.nack status reason) (.ok ⟨false, reason⟩) := by
  have unacknowledged := HttpResponse.nack_ne_ack failed reason
  constructor
  case refused => exact fun _ _ _ => ⟨status, reason, rfl, rfl⟩
  all_goals simp [unacknowledged, up]

theorem shutdown (reason message : String) :
    Corresponds True (.nack 503 reason) (.error ⟨.unavailable, message⟩) := by
  have unacknowledged : HttpResponse.nack 503 reason ≠ .ack :=
    HttpResponse.nack_ne_ack (by decide) reason
  constructor
  case refused => exact fun _ _ up => absurd rfl up
  all_goals simp [unacknowledged]

theorem malformed (message : String) :
    Corresponds False (.nack 400 ("Transport error: " ++ message))
      (.error ⟨.invalidArgument, message⟩) := by
  have unacknowledged : HttpResponse.nack 400 ("Transport error: " ++ message) ≠ .ack :=
    HttpResponse.nack_ne_ack (by decide) _
  constructor
  case refused => exact fun _ decoded => decoded.elim
  all_goals simp [unacknowledged]

theorem verdict (v : Verdict) :
    Corresponds True (.ofVerdict v) (GrpcProbeAnswer.ofVerdict v) := by
  cases v with
  | ok => exact acknowledgement
  | error e =>
    by_cases down : e = .execution .shuttingDown
    · subst down
      exact shutdown _ _
    · rw [HttpResponse.ofVerdict_error, GrpcProbeAnswer.ofVerdict_error down]
      exact refusal e.status_ne_ok (ProbeError.status_ne_unavailable down) e.message

end Corresponds

namespace Event

variable {headers : Headers} {body : Bytes}

theorem ofHttp_structured (structured : isStructured headers = true)
    (fits : body.length ≤ maxBytes) :
    ofHttp headers body = (ofStructured body).mapError Malformed.toTransport := by
  rw [ofHttp, if_neg (Nat.not_lt_of_le fits), if_pos structured]
  cases ofStructured body <;> rfl

theorem ofGrpc_sized (given : 0 < body.length) (fits : body.length ≤ maxBytes) :
    ofGrpc body = (ofStructured body).mapError fun m =>
      ⟨.invalidArgument, m.toTransport.message⟩ := by
  have nonempty : body.isEmpty = false := by
    rw [List.isEmpty_eq_false_iff]
    exact List.ne_nil_of_length_pos given
  rw [ofGrpc, nonempty, if_neg Bool.false_ne_true, if_neg (Nat.not_lt_of_le fits)]
  cases ofStructured body <;> rfl

theorem ofHttp_missized (structured : isStructured headers = true)
    (missized : ¬ (0 < body.length ∧ body.length ≤ maxBytes)) : ∃ error : TransportError,
      ofHttp headers body = .error error ∧
        (ProbeError.transport error).status = if body.isEmpty then 400 else 413 := by
  rw [ofHttp]
  split
  next large =>
    refine ⟨_, rfl, ?_⟩
    have nonempty : body ≠ [] := by
      rintro rfl
      cases large
    rw [if_neg (by simpa using nonempty)]
    rfl
  next fits =>
    have empty : body = [] := by
      by_contra nonempty
      exact missized ⟨List.length_pos_of_ne_nil nonempty, Nat.le_of_not_lt fits⟩
    subst empty
    exact ⟨_, rfl, rfl⟩

theorem ofGrpc_missized (missized : ¬ (0 < body.length ∧ body.length ≤ maxBytes)) :
    ∃ message, ofGrpc body = .error ⟨.invalidArgument, message⟩ := by
  rw [ofGrpc]
  split
  next => exact ⟨_, rfl⟩
  next nonempty =>
    have given : 0 < body.length := List.length_pos_of_ne_nil (by simpa using nonempty)
    rw [if_pos (Nat.lt_of_not_le fun fits => missized ⟨given, fits⟩)]
    exact ⟨_, rfl⟩

end Event

def overGrpc (n : Nat) : Disguise :=
  { surface := fun t => if t.registration = n then .grpc else t.surface }

theorem overGrpc_steady (n : Nat) : (overGrpc n).Steady := by
  constructor
  case toLawful =>
    constructor
    case toTransparent =>
      constructor
      case injective => exact Function.injective_id
      case find? => simp [overGrpc]
      case waiter? => simp [overGrpc]
      all_goals intros; rfl
    case settle => simp [overGrpc]
    case unmaintained => rfl
    all_goals intros; rfl
  case maintained => rfl
  all_goals intros; rfl

theorem overGrpc_fresh {n : Nat} {s : Pending.Session} (past : n < s.table.next) :
    (overGrpc n).Fresh s := by
  constructor
  case next => rfl
  case register =>
    intro name key deadline
    cases registered : s.register name key deadline <;> simp [overGrpc, registered, Except.map]
  case refuse => exact fun _ => rfl
  case surface =>
    rintro t number
    exact if_neg (number ▸ Nat.ne_of_gt past)

namespace Prober

open Journal

variable {config : Config} {collaborators : Collaborators} {p q : Prober} {name : String}
  {r : HttpRequest} {nonce : Nonce} {e : Event}

theorem Sound.overGrpc_self (h : q.Sound) : (overGrpc q.session.table.next).apply q = q := by
  have flights : q.flights.map (overGrpc q.session.table.next).flight = q.flights := by
    refine Eq.trans (List.map_congr_left fun f hf => ?_) (List.map_id _)
    have early : f.registration ≠ q.session.table.next := Nat.ne_of_lt (h.flight_below hf)
    rw [Disguise.flight, Disguise.ticket, overGrpc]
    simp only [if_neg early]
    rfl
  exact congrArg (fun flights => { q with flights }) flights

theorem Sound.probe_surfaces (h : q.Sound) (name : String) (e : Event) (nonce : Nonce) :
    (∃ error q', (q' = q ∨ q' = q.skipped) ∧ ∀ surface,
      q.probe name surface e nonce = ([.refused q.now name surface error], q')) ∨
    (Admission.ofEvent q.config.policy q.config.pods nonce e = .error .panic ∧ ∀ surface,
      q.probe name surface e nonce = ([.panicked q.now name], q)) ∨
    ∃ t, t.name = name ∧ t.surface = .http ∧
      (q.probe name .http e nonce).1.head? = some (.registered q.now t) ∧
        q.probe name .grpc e nonce =
          (overGrpc t.registration).carry (q.probe name .http e nonce) := by
  cases admitted : Admission.ofEvent q.config.policy q.config.pods nonce e with
  | error refusal =>
    cases refusal with
    | invalid error =>
      left
      refine ⟨.validation error, q, .inl rfl, ?_⟩
      intro surface
      rw [probe, admitted]
    | panic =>
      right
      left
      refine ⟨rfl, ?_⟩
      intro surface
      rw [probe, admitted]
  | ok a =>
    have probed (surface : Surface) : q.probe name surface e nonce =
        q.register name surface a.key (q.now + a.wait) nonce (a.probe.effect? e) := by
      rw [probe, admitted]
    cases registered : q.session.register name a.key (q.now + a.wait) with
    | error error =>
      left
      refine ⟨.execution error, { q with session := q.session.refuse error }, refuse_eq q error, ?_⟩
      intro surface
      rw [probed, register, registered]
    | ok session =>
      right
      right
      let t (surface : Surface) : Ticket := ⟨name, surface, a.key, q.session.table.next,
        q.now + a.wait, q.now⟩
      have entered (surface : Surface) : q.probe name surface e nonce =
          q.enter session (t surface) nonce (a.probe.effect? e) := by
        rw [probed, register, registered]
      have stamped : (overGrpc q.session.table.next).ticket (t .http) = t .grpc := by
        rw [Disguise.ticket, overGrpc]
        simp [t]
      have carried := (overGrpc_steady q.session.table.next).enter q session (t .http)
        nonce (a.probe.effect? e)
      rw [h.overGrpc_self, stamped] at carried
      refine ⟨t .http, rfl, rfl, ?_, ?_⟩
      · rw [entered]
        rfl
      · rw [entered, entered]
        exact carried

section Listeners

variable (given : 0 < r.body.length) (fits : r.body.length ≤ Event.maxBytes)
  (structured : Event.isStructured r.headers = true)

include fits in
theorem buffered : ¬ HttpResponse.bufferLimit < r.body.length :=
  Nat.not_lt_of_le (Nat.le_trans fits (by decide))

include fits structured

theorem act_http_malformed {m : Event.Malformed}
    (malformed : Event.ofStructured r.body = .error m) (name : String) (nonce : Nonce)
    (q : Prober) : q.act (.httpProbe name r nonce) = (.none, [.rejected q.now name
      (.http (.nack 400 ("Transport error: " ++ m.toTransport.message)))], q) := by
  rw [act, httpProbe, if_neg (buffered fits), Event.ofHttp_structured structured fits, malformed]
  rfl

theorem act_http_decoded (decoded : Event.ofStructured r.body = .ok e) (name : String)
    (nonce : Nonce) (q : Prober) :
    q.act (.httpProbe name r nonce) = (.none, q.probe name .http e nonce) := by
  rw [act, httpProbe, if_neg (buffered fits), Event.ofHttp_structured structured fits, decoded]
  rfl

omit structured
include given

theorem act_grpc_malformed {m : Event.Malformed}
    (malformed : Event.ofStructured r.body = .error m) (name : String) (nonce : Nonce)
    (q : Prober) : q.act (.grpcProbe name r.body nonce) = (.none, [.rejected q.now name
      (.grpc (.error ⟨.invalidArgument, m.toTransport.message⟩))], q) := by
  rw [act, grpcProbe, Event.ofGrpc_sized given fits, malformed]
  rfl

theorem act_grpc_decoded (decoded : Event.ofStructured r.body = .ok e) (name : String)
    (nonce : Nonce) (q : Prober) :
    q.act (.grpcProbe name r.body nonce) = (.none, q.probe name .grpc e nonce) := by
  rw [act, grpcProbe, Event.ofGrpc_sized given fits, decoded]
  rfl

end Listeners

/-- The request is rejected over either listener and changes nothing. -/
structure Rejected (q : Prober) (name : String) (r : HttpRequest) (nonce : Nonce)
    (http : HttpResponse) (grpc : Except GrpcStatus GrpcProbeAnswer) : Prop where
  overHttp : q.perform (.httpProbe name r nonce) = (.none, [.rejected q.now name (.http http)], q)
  overGrpc : q.perform (.grpcProbe name r.body nonce) =
    (.none, [.rejected q.now name (.grpc grpc)], q)

/-- The event of the request is refused over either listener, which leaves `q'` behind. -/
structure RefusedAlike (q : Prober) (name : String) (r : HttpRequest) (nonce : Nonce)
    (error : ProbeError) (q' : Prober) : Prop where
  overHttp : q.perform (.httpProbe name r nonce) = (.none, [.refused q.now name .http error], q')
  overGrpc : q.perform (.grpcProbe name r.body nonce) =
    (.none, [.refused q.now name .grpc error], q')

/-- The event makes the task of its request panic over either listener. Nobody gets an answer. -/
structure PanickedAlike (q : Prober) (name : String) (r : HttpRequest) (nonce : Nonce)
    (e : Event) : Prop where
  overflows : Admission.ofEvent q.config.policy q.config.pods nonce e = .error .panic
  overHttp : q.perform (.httpProbe name r nonce) = (.none, [.panicked q.now name], q)
  overGrpc : q.perform (.grpcProbe name r.body nonce) = (.none, [.panicked q.now name], q)

/-- The event of the request is registered as `t`, and the run is the same from then on, but that
`t` came in over gRPC. -/
structure RegisteredAlike (p : Prober) (before : List Step) (name : String) (r : HttpRequest)
    (nonce : Nonce) (after : List Step) (t : Ticket) : Prop where
  ticket : t.name = name ∧ t.surface = .http
  registered : (p.during before (.httpProbe name r nonce)).head? =
    some (.registered (p.steps before).2.now t)
  answers : (p.steps (before ++ .grpcProbe name r.body nonce :: after)).1.map Shown.answer =
    (p.steps (before ++ .httpProbe name r nonce :: after)).1.map Shown.answer
  journal : ∃ later, p.journal (before ++ .httpProbe name r nonce :: after) =
      p.journal before ++ later ∧
    p.journal (before ++ .grpcProbe name r.body nonce :: after) =
      p.journal before ++ later.map (overGrpc t.registration).mark
  state : (p.steps (before ++ .grpcProbe name r.body nonce :: after)).2 =
    (overGrpc t.registration).apply (p.steps (before ++ .httpProbe name r nonce :: after)).2

/-- The event of the request does the same over either listener, to the prober and to a probe that
waits for it. -/
structure DeliveredAlike (past : List Mark) (q : Prober) (r : HttpRequest) (e : Event) : Prop where
  same : (q.perform (.httpReceive r)).2 = (q.perform (.grpcDeliver r.body)).2
  resolved : ∃ resolved claim,
    (q.perform (.grpcDeliver r.body)).1 = .grpcDelivered (.ok resolved) ∧
      (q.perform (.grpcDeliver r.body)).2.1.head? = some (.delivered q.now e resolved claim false) ∧
        (resolved = true ↔ ∃ t ∈ outstanding past, Delivered.key? e = some t.key) ∧
          ∀ t ∈ outstanding past, Delivered.key? e = some t.key → claim = some t.entry

structure Undelivered (q : Prober) (r : HttpRequest) : Prop where
  overHttp : (q.perform (.httpReceive r)).2 = ([], q)
  overGrpc : ∃ message, q.perform (.grpcDeliver r.body) =
    (.grpcDelivered (.error ⟨.invalidArgument, message⟩), [], q)

theorem registered_alike (hs : start config collaborators = .ok p) {before : List Step}
    {t : Ticket} (ticket : t.name = name ∧ t.surface = .http)
    (registered : (p.during before (.httpProbe name r nonce)).head? =
      some (.registered (p.steps before).2.now t))
    (performed : (p.steps before).2.perform (.grpcProbe name r.body nonce) = (.none,
      (overGrpc t.registration).carry ((p.steps before).2.perform (.httpProbe name r nonce)).2))
    (after : List Step) : RegisteredAlike p before name r nonce after t := by
  let q := (p.steps before).2
  let x := (q.step (.httpProbe name r nonce)).2
  have reached : Reached config collaborators
      (p.journal before ++ p.during before (.httpProbe name r nonce)) x :=
    ((Reached.start hs).steps before).perform (.httpProbe name r nonce)
  have past : t.registration < x.session.table.next := by
    obtain ⟨rest, first⟩ := List.head?_eq_some_iff.1 registered
    apply reached.account.below
    rw [registered_append, first]
    exact List.mem_append_right _ List.mem_cons_self
  obtain ⟨state, journal, answers⟩ := (overGrpc_steady t.registration).steps reached.quiet
    (fun s grown => overGrpc_fresh (Nat.lt_of_lt_of_le past grown)) after
  have stepped : (q.step (.grpcProbe name r.body nonce)).2 = (overGrpc t.registration).apply x :=
    congrArg (fun out => out.2.2) performed
  have marks : p.during before (.grpcProbe name r.body nonce) =
      (p.during before (.httpProbe name r nonce)).map (overGrpc t.registration).mark :=
    congrArg (fun out => out.2.1) performed
  constructor
  case ticket => exact ticket
  case registered => exact registered
  case answers =>
    rw [steps_append, steps_append, steps_cons, steps_cons, stepped, List.map_append,
      List.map_append, List.map_cons, List.map_cons, answers]
    rfl
  case journal =>
    refine ⟨p.during before (.httpProbe name r nonce) ++ x.journal after, ?_, ?_⟩
    · rw [journal_append, List.append_assoc]
      rfl
    · rw [journal_append, List.append_assoc, List.map_append, ← journal, marks, ← stepped]
      rfl
  case state =>
    rw [steps_append, steps_append, steps_cons, steps_cons, stepped]
    exact state

theorem Reached.deliver_iff {past : List Mark} (h : Reached config collaborators past q)
    (e : Event) :
    ((q.deliver e).1 = true ↔ ∃ t ∈ outstanding past, Delivered.key? e = some t.key) ∧
      ∀ t ∈ outstanding past, Delivered.key? e = some t.key → q.claim? e = some t.entry := by
  have entries := h.account.entries h.quiet
  have claimed : ∀ t ∈ outstanding past, Delivered.key? e = some t.key →
      q.claim? e = some t.entry := by
    intro t ht hkey
    have here : t.entry ∈ q.session.table.entries := by
      rw [entries]
      exact List.mem_map_of_mem ht
    have distinct : (q.session.table.entries.map Pending.Entry.key).Nodup :=
      List.pairwise_map.2 (h.quiet.sound.session.keys)
    rw [claim?, hkey, Option.bind_some]
    cases found : q.session.table.find? t.key with
    | none =>
      have missing := List.find?_eq_none.1 found t.entry here
      simp at missing
    | some d =>
      have same : d.key = t.key := by simpa using List.find?_some found
      rw [List.inj_on_of_nodup_map distinct (List.mem_of_find?_eq_some found) here same]
  refine ⟨?_, claimed⟩
  constructor
  · intro resolved
    cases claim : q.claim? e with
    | none =>
      rw [(deliver_unclaimed claim).1] at resolved
      cases resolved
    | some entry =>
      obtain ⟨-, key, hkey, hfind, -⟩ := deliver_claimed claim
      have here := List.mem_of_find?_eq_some hfind
      rw [entries] at here
      obtain ⟨t, ht, rfl⟩ := List.mem_map.1 here
      have found := List.find?_some hfind
      have same : t.key = key := of_decide_eq_true found
      exact ⟨t, ht, by rw [hkey, same]⟩
  · rintro ⟨t, ht, hkey⟩
    exact (deliver_claimed (claimed t ht hkey)).1

theorem Reached.delivered_alike {past : List Mark} (h : Reached config collaborators past q)
    (overHttp : (Step.httpReceive r).event? = some e)
    (overGrpc : Event.ofGrpc r.body = .ok e) : DeliveredAlike past q r e := by
  have event : (Step.grpcDeliver r.body).event? = some e := by
    rw [Step.event?, overGrpc]
    rfl
  have answer : (q.act (.grpcDeliver r.body)).1 = .grpcDelivered (.ok (q.deliver e).1) := by
    rw [act, grpcDeliver, overGrpc]
  obtain ⟨resolved, claimed⟩ := h.deliver_iff e
  constructor
  case same => rw [perform_delivery overHttp, perform_delivery event]
  case resolved =>
    refine ⟨(q.deliver e).1, q.claim? e, ?_, ?_, resolved, claimed⟩
    · rw [perform_delivery event, answer]
    · rw [perform_delivery event]
      rfl

theorem Quiet.undelivered (quiet : Quiet q)
    (overHttp : ∀ e, Event.ofHttp r.headers r.body ≠ .ok e) {message : String}
    (overGrpc : Event.ofGrpc r.body = .error ⟨.invalidArgument, message⟩) : Undelivered q r := by
  constructor
  case overHttp =>
    have acted : q.act (.httpReceive r) = (.http (q.httpReceive r).1, [], q) := by
      rw [Prober.act, httpReceive_ignored fun _ => overHttp]
    rw [perform_of_act acted quiet]
  case overGrpc =>
    refine ⟨message, perform_of_act ?_ quiet⟩
    rw [Prober.act, grpcDeliver, overGrpc]

theorem Quiet.missized (quiet : Quiet q) (structured : Event.isStructured r.headers = true)
    (missized : ¬ (0 < r.body.length ∧ r.body.length ≤ Event.maxBytes)) (name : String)
    (nonce : Nonce) :
    (∃ http message, http.status = (if r.body.isEmpty then 400 else 413) ∧
      Rejected q name r nonce http (.error ⟨.invalidArgument, message⟩)) ∧ Undelivered q r := by
  obtain ⟨error, overHttp, status⟩ := Event.ofHttp_missized structured missized
  obtain ⟨message, overGrpc⟩ := Event.ofGrpc_missized missized
  have rejected : q.perform (.grpcProbe name r.body nonce) =
      (.none, [.rejected q.now name (.grpc (.error ⟨.invalidArgument, message⟩))], q) := by
    refine perform_of_act ?_ quiet
    rw [Prober.act, grpcProbe, overGrpc]
  constructor
  · by_cases large : HttpResponse.bufferLimit < r.body.length
    · have nonempty : r.body.isEmpty = false := by
        rw [List.isEmpty_eq_false_iff]
        exact List.ne_nil_of_length_pos (Nat.zero_lt_of_lt large)
      refine ⟨.unbuffered, message, by rw [nonempty]; rfl, perform_of_act ?_ quiet,
        rejected⟩
      rw [Prober.act, httpProbe, if_pos large]
    · refine ⟨.ofVerdict (.error (.transport error)), message, status,
        perform_of_act ?_ quiet, rejected⟩
      rw [Prober.act, httpProbe, if_neg large, overHttp]
      rfl
  · refine quiet.undelivered ?_ overGrpc
    rw [overHttp]
    intro e decoded
    cases decoded

/-- What comes of an envelope after the steps `before`, as the request `r` over HTTP and as its body
over gRPC. -/
structure Concord (p : Prober) (before : List Step) (name : String) (r : HttpRequest)
    (nonce : Nonce) (after : List Step) : Prop where
  decoded : 0 < r.body.length → r.body.length ≤ Event.maxBytes →
    ∀ e, Event.ofStructured r.body = .ok e →
      (∃ error q', RefusedAlike (p.steps before).2 name r nonce error q') ∨
        PanickedAlike (p.steps before).2 name r nonce e ∨
          ∃ t, RegisteredAlike p before name r nonce after t
  malformed : 0 < r.body.length → r.body.length ≤ Event.maxBytes →
    ∀ m, Event.ofStructured r.body = .error m →
      ∃ http grpc, Corresponds False http grpc ∧ Rejected (p.steps before).2 name r nonce http grpc
  /-- The answers to a request that decodes, whatever becomes of it. -/
  replies : ∀ v, ∃ http grpc, Surface.http.reply v = .http http ∧
    Surface.grpc.reply v = .grpc grpc ∧ Corresponds True http grpc
  delivered : 0 < r.body.length → r.body.length ≤ Event.maxBytes →
    pathOf r.target ≠ healthPath → ∀ e, Event.ofStructured r.body = .ok e →
      DeliveredAlike (p.journal before) (p.steps before).2 r e
  undelivered : 0 < r.body.length → r.body.length ≤ Event.maxBytes →
    ∀ m, Event.ofStructured r.body = .error m → Undelivered (p.steps before).2 r
  missized : ¬ (0 < r.body.length ∧ r.body.length ≤ Event.maxBytes) →
    (∃ http message, http.status = (if r.body.isEmpty then 400 else 413) ∧
      Rejected (p.steps before).2 name r nonce http (.error ⟨.invalidArgument, message⟩)) ∧
        Undelivered (p.steps before).2 r

def tickEnvelope : HttpRequest :=
  { method := "POST"
    target := "/"
    headers := Headers.empty.append "content-type" (Text.Utf8.encode Event.structuredType)
    body := Text.Utf8.encode
      "\x7b\"id\":\"1\",\"type\":\"cloudschedulersource-probe\",\"source\":\"caller\"\x7d" }

example :
    (alone.steps [.grpcProbe "a" tickEnvelope.body 0]).2.flights.map (·.surface) = [.grpc] ∧
      (alone.steps [.grpcProbe "a" tickEnvelope.body 0, tickDelivery]).2.flights.length = 0 := by
  decide +kernel

end Prober

end RoundTrip
