import RoundTrip.Proofs.Prober.Invisible

namespace RoundTrip

/-- The receiving listener takes the request for a delivery. -/
def HttpRequest.Receivable (r : HttpRequest) : Prop :=
  Prober.pathOf r.target ≠ Prober.healthPath ∧ r.body.length ≤ HttpResponse.bufferLimit

instance (r : HttpRequest) : Decidable r.Receivable := inferInstanceAs (Decidable (_ ∧ _))

namespace Prober

variable {config : Config} {collaborators : Collaborators} {past : List Mark} {p : Prober}
  {r : HttpRequest} {s : Step}

theorem receivable_event (receivable : r.Receivable) {e : Event}
    (decoded : Event.ofHttp r.headers r.body = .ok e) : (Step.httpReceive r).event? = some e := by
  rw [Step.event?, if_neg receivable.1, if_neg (Nat.not_lt_of_le receivable.2), decoded]
  rfl

theorem httpReceive_accepted (receivable : r.Receivable) (p : Prober) :
    (p.httpReceive r).1 = .bare 202 := by
  rw [httpReceive, if_neg receivable.1, receive, if_neg (Nat.not_lt_of_le receivable.2)]
  split <;> rfl

theorem httpReceive_declined (declined : ¬ r.Receivable) (p : Prober) :
    (p.httpReceive r).1.status ≠ 202 ∧ (p.httpReceive r).2 = ([], p) := by
  rw [httpReceive]
  split
  next =>
    refine ⟨?_, rfl⟩
    have reports : (HttpResponse.ofHealth p.health).status ≠ 202 := by
      rw [HttpResponse.ofHealth]
      split <;> simp [HttpResponse.json]
    simp only [healthResponse]
    split
    next => exact reports
    next =>
      split
      next => exact reports
      next => decide
  next other =>
    have large : HttpResponse.bufferLimit < r.body.length :=
      Nat.lt_of_not_le fun fits => declined ⟨other, fits⟩
    rw [receive, if_pos large]
    exact ⟨by simp [HttpResponse.unbuffered], rfl⟩

theorem httpReceive_status_iff (r : HttpRequest) (p : Prober) :
    (p.httpReceive r).1.status = 202 ↔ r.Receivable := by
  constructor
  · intro accepted
    by_contra declined
    exact (httpReceive_declined declined p).1 accepted
  · intro receivable
    rw [httpReceive_accepted receivable]
    rfl

theorem httpReceive_ignored (ignored : r.Receivable → ∀ e, Event.ofHttp r.headers r.body ≠ .ok e)
    (p : Prober) : (p.httpReceive r).2 = ([], p) := by
  by_cases receivable : r.Receivable
  · rw [httpReceive, if_neg receivable.1, receive, if_neg (Nat.not_lt_of_le receivable.2)]
    split
    next => rfl
    next e decoded => exact absurd decoded (ignored receivable e)
  · exact (httpReceive_declined receivable p).2

/-- What comes of a request to the receiving listener after the steps `before`. -/
structure Reception (p : Prober) (before : List Step) (r : HttpRequest) (after : List Step) :
    Prop where
  answered : ∃ own response, (p.steps (before ++ .httpReceive r :: after)).1[before.length]? =
    some own ∧ own.answer = .http response ∧ (response.status = 202 ↔ r.Receivable)
  handed : r.Receivable → ∀ e, Event.ofHttp r.headers r.body = .ok e →
    AsIf p before (.httpReceive r) [.deliver e] after
  ignored : (r.Receivable → ∀ e, Event.ofHttp r.headers r.body ≠ .ok e) →
    AsIf p before (.httpReceive r) [] after

theorem receives_receivable (hs : start config collaborators = .ok p) (before : List Step)
    (r : HttpRequest) (after : List Step) : Reception p before r after := by
  have quiet : Quiet (p.steps before).2 := ((Reached.start hs).steps before).quiet
  constructor
  case answered =>
    exact ⟨_, ((p.steps before).2.httpReceive r).1, steps_at p before _ after, step_answer _ _,
      httpReceive_status_iff r _⟩
  case handed =>
    intro receivable e decoded
    apply AsIf.of_perform
    rw [perform_delivery (receivable_event receivable decoded), journal, journal,
      List.append_nil, perform_delivery (s := .deliver e) rfl]
    rfl
  case ignored =>
    intro ignored
    apply AsIf.of_perform
    have acted : (p.steps before).2.act (.httpReceive r) =
        (.http ((p.steps before).2.httpReceive r).1, [], (p.steps before).2) := by
      rw [act, httpReceive_ignored ignored]
    rw [perform_of_act acted quiet]
    rfl

def misdirected : HttpRequest :=
  { method := "POST"
    target := healthPath
    headers := Headers.empty.append "content-type" (Text.Utf8.encode Event.structuredType)
    body := Text.Utf8.encode
      "\x7b\"id\":\"9\",\"type\":\"google.cloud.scheduler.job.v1.executed\",\"source\":\"s\"\x7d" }

theorem reception_elsewhere :
    Reception alone [tickRequest "a" "1" 0] { misdirected with target := "/" } [.health] := by
  have started : start {} alone.collaborators = .ok alone := rfl
  exact receives_receivable started _ _ _

example : (alone.steps [tickRequest "a" "1" 0,
    .httpReceive { misdirected with target := "/" }]).2.flights.length = 0 := by
  decide +kernel

/-- The health report refuses a delivery that is posted to it, and the probe goes on waiting. -/
theorem not_every_delivery_accepted :
    ¬ ∀ (p : Prober) (r : HttpRequest), r.method = "POST" → (p.httpReceive r).1.status = 202 := by
  intro accepted
  have refused : (alone.httpReceive misdirected).1.status = 405 := by decide +kernel
  rw [accepted alone misdirected rfl] at refused
  cases refused

end Prober

end RoundTrip
