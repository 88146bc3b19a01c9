import RoundTrip.Proofs.Prober.Custody

namespace RoundTrip

structure ProbeRequest where
  name : String
  surface : Surface
  event : Event
  nonce : Nonce

namespace Prober

/-- The request that a step brings to the prober, by direct call or through a listener that can read
it. -/
def Step.request? : Step → Option ProbeRequest
  | .probe name e nonce => some ⟨name, .direct, e, nonce⟩
  | .httpProbe name r nonce =>
    if HttpResponse.bufferLimit < r.body.length then none
    else (Event.ofHttp r.headers r.body).toOption.map fun e => ⟨name, .http, e, nonce⟩
  | .grpcProbe name body nonce =>
    (Event.ofGrpc body).toOption.map fun e => ⟨name, .grpc, e, nonce⟩
  | _ => none

def Step.event? : Step → Option Event
  | .deliver e => some e
  | .httpReceive r =>
    if pathOf r.target = healthPath then none
    else if HttpResponse.bufferLimit < r.body.length then none
    else (Event.ofHttp r.headers r.body).toOption
  | .grpcDeliver body => (Event.ofGrpc body).toOption
  | _ => none

variable {s : Step}

theorem act_request {r : ProbeRequest} (h : s.request? = some r) (p : Prober) :
    p.act s = (.none, p.probe r.name r.surface r.event r.nonce) := by
  cases s with
  | probe name e nonce =>
    cases h
    rfl
  | httpProbe name request nonce =>
    rw [Step.request?] at h
    rw [act, httpProbe]
    split at h
    next => cases h
    next fits =>
      rw [if_neg fits]
      cases decoded : Event.ofHttp request.headers request.body with
      | error => simp [decoded, Except.toOption] at h
      | ok e =>
        rw [decoded] at h
        cases h
        rfl
  | grpcProbe name body nonce =>
    rw [Step.request?] at h
    rw [act, grpcProbe]
    cases decoded : Event.ofGrpc body with
    | error => simp [decoded, Except.toOption] at h
    | ok e =>
      rw [decoded] at h
      cases h
      rfl
  | _ => cases h

theorem act_delivery {e : Event} (h : s.event? = some e) (p : Prober) :
    (p.act s).2 = ([p.delivery e false], (p.deliver e).2) := by
  cases s with
  | deliver e =>
    cases h
    rfl
  | httpReceive r =>
    rw [Step.event?] at h
    rw [act, httpReceive, receive]
    split at h
    next => cases h
    next other =>
      split at h
      next => cases h
      next fits =>
        rw [if_neg other, if_neg fits]
        cases decoded : Event.ofHttp r.headers r.body with
        | error => simp [decoded, Except.toOption] at h
        | ok e =>
          rw [decoded] at h
          cases h
          rfl
  | grpcDeliver body =>
    rw [Step.event?] at h
    rw [act, grpcDeliver]
    cases decoded : Event.ofGrpc body with
    | error => simp [decoded, Except.toOption] at h
    | ok e =>
      rw [decoded] at h
      cases h
      rfl
  | _ => cases h

theorem perform_delivery {e : Event} (h : s.event? = some e) (p : Prober) :
    p.perform s = ((p.act s).1, p.delivery e false :: (p.deliver e).2.settle.1,
      (p.deliver e).2.settle.2) := by
  rw [perform, ← Prod.eta (p.act s), act_delivery h]
  rfl

end Prober

namespace Journal

/-- After what has happened before, the request is not let in: it is not admitted, has no time to
wait, comes after the shutdown or asks for a key that an outstanding call has. If the signal has
fired but the table is still open, the request has to see the signal first. -/
def Refused (config : Config) (past : List Mark) (r : ProbeRequest) : Prop :=
  ∀ a, Admission.ofEvent config.policy config.pods r.nonce r.event = .ok a →
    a.wait = 0 ∨ Sealed past ∨ (ShutDown past ∧ r.nonce.callFirst = false) ∨
      ∃ t ∈ outstanding past, t.key = a.key

end Journal

end RoundTrip
