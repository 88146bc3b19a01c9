import RoundTrip.Probe.Admission
import RoundTrip.Proofs.Result

namespace RoundTrip

namespace Probe

/-- The probes that a request can be admitted as. -/
inductive Valid (e : Event) (pods : PodTarget) (nonce : Nonce) : Probe → Prop
  | broker {ns : String} :
      e.filledExtension? "namespace" = some ns → Valid e pods nonce (.broker ns (brokerName e))
  | pubsub {topic : String} :
      e.filledExtension? "topic" = some topic → Valid e pods nonce (.pubsub topic)
  | storage {bucket : String} (phase : StoragePhase) :
      e.filledExtension? "bucket" = some bucket → Valid e pods nonce (.storage bucket e.id phase)
  | scheduler (period : Option Duration) : Valid e pods nonce (.scheduler period)
  | ping (period : Duration) : Valid e pods nonce (.ping period)
  | pods (phase : PodPhase) :
      Valid e pods nonce (.pods pods.ns (pods.name ++ "." ++ e.id) phase)
  | audit : Valid e pods nonce (.audit (auditTopicStart ++ nonce.text))

variable {kind : Kind} {e : Event} {pods : PodTarget} {nonce : Nonce} {p : Probe}

theorem required_ok_iff {name text : String} :
    required e name = .ok text ↔ e.filledExtension? name = some text := by
  rw [required]
  cases e.filledExtension? name with
  | none => exact ⟨nofun, nofun⟩
  | some v => rw [Except.ok.injEq, Option.some_inj]

theorem valid_of_validate (h : validate kind e pods nonce = .ok p) :
    p.Valid e pods nonce ∧ p.kind = kind := by
  cases kind with
  | broker =>
    obtain ⟨ns, required, rfl⟩ := map_eq_ok.1 h
    exact ⟨.broker (required_ok_iff.1 required), rfl⟩
  | pubsub =>
    obtain ⟨topic, required, rfl⟩ := map_eq_ok.1 h
    exact ⟨.pubsub (required_ok_iff.1 required), rfl⟩
  | storage phase =>
    obtain ⟨bucket, required, rfl⟩ := map_eq_ok.1 h
    exact ⟨.storage phase (required_ok_iff.1 required), rfl⟩
  | scheduler =>
    rw [validate] at h
    split at h
    · cases h
      exact ⟨.scheduler none, rfl⟩
    · obtain ⟨period, -, rfl⟩ := map_eq_ok.1 h
      exact ⟨.scheduler (some period), rfl⟩
  | ping =>
    rw [validate] at h
    split at h
    · cases h
    · obtain ⟨period, -, rfl⟩ := map_eq_ok.1 h
      exact ⟨.ping period, rfl⟩
  | pods phase =>
    cases h
    exact ⟨.pods phase, rfl⟩
  | audit =>
    cases h
    exact ⟨.audit, rfl⟩

end Probe

theorem Kind.ofName?_eq_some_iff {name : String} {kind : Kind} :
    Kind.ofName? name = some kind ↔ kind.name = name := by
  constructor
  · exact name_of_ofName?
  · rintro rfl
    exact ofName?_name kind

namespace Admission

variable {policy : DeadlinePolicy} {pods : PodTarget} {nonce : Nonce} {e : Event} {a : Admission}

theorem ofEvent_ok_iff : ofEvent policy pods nonce e = .ok a ↔
    ∃ kind : Kind, kind.name = e.kind ∧ Probe.validate kind e pods nonce = .ok a.probe ∧
      ∃ wait, policy.timeoutFor e = .ok wait ∧ a.wait = boundBy wait a.probe.period := by
  simp only [← Kind.ofName?_eq_some_iff, ofEvent]
  cases Kind.ofName? e.kind with
  | none => exact ⟨nofun, nofun⟩
  | some kind =>
    simp only [Option.some_inj, exists_eq_left']
    cases Probe.validate kind e pods nonce with
    | error error => exact ⟨nofun, nofun⟩
    | ok p =>
      simp only [Except.ok.injEq]
      rw [map_eq_ok]
      constructor
      · rintro ⟨wait, granted, rfl⟩
        exact ⟨rfl, wait, granted, rfl⟩
      · rintro ⟨rfl, wait, granted, bound⟩
        refine ⟨wait, granted, ?_⟩
        rw [← bound]

theorem of_ok (admitted : ofEvent policy pods nonce e = .ok a) :
    e.kind = a.probe.kind.name ∧ a.probe.Valid e pods nonce := by
  obtain ⟨kind, named, valid, -⟩ := ofEvent_ok_iff.1 admitted
  obtain ⟨made, rfl⟩ := Probe.valid_of_validate valid
  exact ⟨named.symm, made⟩

end Admission

end RoundTrip
