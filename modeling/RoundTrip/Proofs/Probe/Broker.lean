import RoundTrip.Proofs.Probe.Classification

namespace RoundTrip

theorem Delivered.key?_eq_broker_iff {e : Event} {ns name : String} :
    key? e = some (.broker ns name) ↔
      e.kind = Kind.broker.name ∧ e.filledExtension? "namespace" = some ns ∧
        Probe.brokerName e = name := by
  rw [key?_eq_some_iff]
  constructor
  · rintro ⟨type, named, -⟩
    exact ⟨type, named⟩
  · rintro ⟨type, named⟩
    exact ⟨type, named, trivial⟩

theorem Admission.key?_of_broker {policy : DeadlinePolicy} {pods : PodTarget} {nonce : Nonce}
    {e : Event} {a : Admission} {ns name : String}
    (admitted : Admission.ofEvent policy pods nonce e = .ok a)
    (broker : a.probe = .broker ns name) : Delivered.key? e = some (.broker ns name) := by
  obtain ⟨kind, valid⟩ := Admission.of_ok admitted
  rw [broker] at kind valid
  cases valid with
  | broker filled => exact Delivered.key?_eq_broker_iff.2 ⟨kind, filled, rfl⟩

end RoundTrip
