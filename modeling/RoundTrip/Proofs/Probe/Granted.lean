import RoundTrip.Config
import RoundTrip.Proofs.Duration.Range
import RoundTrip.Proofs.Event.Extensions
import RoundTrip.Proofs.Probe.Admission

namespace RoundTrip

namespace Event

def Fills (e : Event) (name : String) : Prop :=
  ∃ text, e.extension? name = some text ∧ Text.allBlank text = false

def durationOf? (e : Event) (name : String) : Option Duration :=
  (e.extension? name).bind fun text => (Duration.parse text).toOption

def Overflows (e : Event) (name : String) : Prop :=
  ∃ text, e.extension? name = some text ∧ Duration.Overflows text

variable {e : Event} {name text : String}

theorem filledExtension?_eq_some_iff : e.filledExtension? name = some text ↔
    e.extension? name = some text ∧ Text.allBlank text = false := by
  rw [filledExtension?, Option.filter_eq_some_iff, Bool.not_eq_true']

theorem filledExtension?_eq_none_iff : e.filledExtension? name = none ↔ ¬ e.Fills name := by
  rw [Option.eq_none_iff_forall_ne_some]
  simp only [ne_eq, filledExtension?_eq_some_iff, Fills, not_exists]

theorem durationOf?_eq_some_iff {d : Duration} : e.durationOf? name = some d ↔
    ∃ text, e.extension? name = some text ∧ Duration.parse text = .ok d := by
  simp only [durationOf?, Option.bind_eq_some_iff, toOption_eq_some_iff]

theorem durationOf?_of_filled (filled : e.filledExtension? name = some text) :
    e.durationOf? name = (Duration.parse text).toOption := by
  rw [durationOf?, (filledExtension?_eq_some_iff.1 filled).1]
  rfl

theorem durationOf?_of_blank (blank : e.filledExtension? name = none) :
    e.durationOf? name = none := by
  rw [Option.eq_none_iff_forall_ne_some]
  intro d read
  obtain ⟨text, given, read⟩ := durationOf?_eq_some_iff.1 read
  rw [filledExtension?_eq_none_iff] at blank
  exact blank ⟨text, given, Duration.not_allBlank_of_parse read⟩

end Event

namespace Probe

variable {kind : Kind} {e : Event} {pods : PodTarget} {nonce : Nonce} {p : Probe}

theorem exists_required {name : String} : (∃ text, required e name = .ok text) ↔ e.Fills name := by
  simp only [required_ok_iff, Event.filledExtension?_eq_some_iff]
  rfl

theorem durationOf_ok_iff {name text : String} {d : Duration} :
    durationOf name text = .ok d ↔ Duration.parse text = .ok d := by
  rw [durationOf]
  cases Duration.parse text with
  | error fault => cases fault <;> exact ⟨nofun, nofun⟩
  | ok read => simp only [Except.ok.injEq]

theorem durationOf?_of_read {name text : String} {d : Duration}
    (filled : e.filledExtension? name = some text) (read : durationOf name text = .ok d) :
    e.durationOf? name = some d := by
  rw [Event.durationOf?_of_filled filled, toOption_eq_some_iff]
  exact durationOf_ok_iff.1 read

end Probe

def Kind.Satisfied (e : Event) : Kind → Prop
  | .broker => e.Fills "namespace"
  | .pubsub => e.Fills "topic"
  | .storage _ => e.Fills "bucket"
  | .scheduler => e.Fills "period" → ∃ d, e.durationOf? "period" = some d
  | .ping => e.Fills "period" ∧ ∃ d, e.durationOf? "period" = some d
  | .pods _ | .audit => True

namespace Probe

variable {kind : Kind} {e : Event} {pods : PodTarget} {nonce : Nonce} {p : Probe}

theorem validate_ok_iff : (∃ p, validate kind e pods nonce = .ok p) ↔ kind.Satisfied e := by
  cases kind with
  | broker => exact exists_map_eq_ok.trans exists_required
  | pubsub => exact exists_map_eq_ok.trans exists_required
  | storage phase => exact exists_map_eq_ok.trans exists_required
  | scheduler =>
    rw [validate, Kind.Satisfied]
    cases filled : e.filledExtension? "period" with
    | none =>
      rw [Event.filledExtension?_eq_none_iff] at filled
      exact iff_of_true ⟨_, rfl⟩ fun fills => absurd fills filled
    | some text =>
      have fills : e.Fills "period" := ⟨text, Event.filledExtension?_eq_some_iff.1 filled⟩
      rw [exists_map_eq_ok]
      simp only [durationOf_ok_iff, Event.durationOf?_of_filled filled, toOption_eq_some_iff,
        fills, true_imp_iff]
  | ping =>
    rw [validate, Kind.Satisfied, ← exists_required]
    cases given : required e "period" with
    | error error =>
      constructor
      · rintro ⟨p, ⟨⟩⟩
      · rintro ⟨⟨text, ⟨⟩⟩, -⟩
    | ok text =>
      rw [exists_map_eq_ok]
      simp only [durationOf_ok_iff, Event.durationOf?_of_filled (required_ok_iff.1 given),
        toOption_eq_some_iff, Except.ok.injEq, exists_eq', true_and]
  | pods phase => exact iff_of_true ⟨_, rfl⟩ trivial
  | audit => exact iff_of_true ⟨_, rfl⟩ trivial

theorem period_of_validate (h : validate kind e pods nonce = .ok p) :
    p.period = if kind.isPeriodic then e.durationOf? "period" else none := by
  cases kind with
  | broker | pubsub | storage =>
    obtain ⟨_, -, rfl⟩ := map_eq_ok.1 h
    rfl
  | scheduler =>
    rw [validate] at h
    cases filled : e.filledExtension? "period" with
    | none =>
      rw [filled] at h
      cases h
      exact (Event.durationOf?_of_blank filled).symm
    | some text =>
      rw [filled] at h
      obtain ⟨d, read, rfl⟩ := map_eq_ok.1 h
      exact (durationOf?_of_read filled read).symm
  | ping =>
    rw [validate] at h
    cases given : required e "period" with
    | error error =>
      rw [given] at h
      cases h
    | ok text =>
      rw [given] at h
      obtain ⟨d, read, rfl⟩ := map_eq_ok.1 h
      exact (durationOf?_of_read (required_ok_iff.1 given) read).symm
  | pods | audit =>
    cases h
    rfl

end Probe

/-- A valid configuration has a policy that grants no more than its maximum. -/
theorem Config.ordered_of_valid {c : Config} (valid : c.validate = .ok ()) :
    c.policy.defaultTimeout ≤ c.policy.maxTimeout := by
  rw [validate, problem?] at valid
  split_ifs at valid with large
  all_goals exact Nat.not_lt.1 large

namespace DeadlinePolicy

variable {policy : DeadlinePolicy} {e : Event} {t : Duration}

theorem timeoutFor_ok_iff : policy.timeoutFor e = .ok t ↔ ¬ e.Overflows "timeout" ∧
    t = ((e.durationOf? "timeout").map (min · policy.maxTimeout)).getD policy.defaultTimeout := by
  rw [timeoutFor, Event.Overflows, Event.durationOf?]
  cases e.extension? "timeout" with
  | none => simp [eq_comm]
  | some text =>
    simp only [Option.some.injEq, exists_eq_left', Option.bind_some, ← Duration.parse_overflow_iff]
    cases Duration.parse text with
    | ok requested => simp [Except.toOption, eq_comm]
    | error fault => cases fault <;> simp [Except.toOption, eq_comm]

theorem timeoutFor_panic_iff : policy.timeoutFor e = .error .panic ↔ e.Overflows "timeout" := by
  rw [timeoutFor, Event.Overflows]
  cases e.extension? "timeout" with
  | none => simp
  | some text =>
    simp only [Option.some.injEq, exists_eq_left', ← Duration.parse_overflow_iff]
    cases Duration.parse text with
    | ok requested => simp
    | error fault => cases fault <;> simp

theorem timeoutFor_le_max (ordered : policy.defaultTimeout ≤ policy.maxTimeout)
    (granted : policy.timeoutFor e = .ok t) : t ≤ policy.maxTimeout := by
  obtain ⟨-, rfl⟩ := timeoutFor_ok_iff.1 granted
  cases e.durationOf? "timeout" with
  | none => exact ordered
  | some requested => exact Nat.min_le_right requested policy.maxTimeout

end DeadlinePolicy

namespace Admission

variable {policy : DeadlinePolicy} {pods : PodTarget} {nonce : Nonce} {e : Event} {a : Admission}

/-- What is granted to an admitted request. -/
structure Granted (policy : DeadlinePolicy) (pods : PodTarget) (nonce : Nonce) (e : Event)
    (a : Admission) : Prop where
  kind : Kind.ofName? e.kind = some a.probe.kind
  key : a.key = a.probe.key
  made : a.probe.Valid e pods nonce
  period : a.probe.period = if a.probe.kind.isPeriodic then e.durationOf? "period" else none
  wait : ∀ t, t = ((e.durationOf? "timeout").map (min · policy.maxTimeout)).getD
    policy.defaultTimeout → a.wait = (a.probe.period.map (min t)).getD t
  wait_le_max : a.wait ≤ policy.maxTimeout
  wait_le_period : ∀ d, a.probe.period = some d → a.wait ≤ d
  wait_zero : e.durationOf? "timeout" = some 0 ∨ a.probe.period = some 0 → a.wait = 0

theorem boundBy_eq (wait : Duration) (period : Option Duration) :
    boundBy wait period = (period.map (min wait)).getD wait := by
  cases period <;> rfl

theorem Granted.of_ok (ordered : policy.defaultTimeout ≤ policy.maxTimeout)
    (admitted : ofEvent policy pods nonce e = .ok a) : Granted policy pods nonce e a := by
  obtain ⟨kind, named, valid, t, granted, wait⟩ := ofEvent_ok_iff.1 admitted
  obtain ⟨made, rfl⟩ := Probe.valid_of_validate valid
  obtain ⟨-, asked⟩ := DeadlinePolicy.timeoutFor_ok_iff.1 granted
  rw [boundBy_eq] at wait
  constructor
  case kind => exact Kind.ofName?_eq_some_iff.2 named
  case key => rfl
  case made => exact made
  case period => exact Probe.period_of_validate valid
  case wait =>
    rintro _ rfl
    rw [wait, asked]
  case wait_le_max =>
    have within := DeadlinePolicy.timeoutFor_le_max ordered granted
    rw [wait]
    cases a.probe.period with
    | none => exact within
    | some d => exact (Nat.min_le_left _ _).trans within
  case wait_le_period =>
    intro d period
    rw [wait, period]
    exact Nat.min_le_right _ _
  case wait_zero =>
    rintro (none_asked | none_left)
    · rw [wait, asked, none_asked]
      cases a.probe.period <;> simp
    · rw [wait, none_left]
      exact Nat.min_zero _

/-- The extensions that decide on admission. -/
def consulted : List String := ["namespace", "broker", "topic", "bucket", "period"]

theorem validate_congr {e' : Event} (id : e'.id = e.id)
    (filled : ∀ name ∈ consulted, e'.filledExtension? name = e.filledExtension? name)
    (kind : Kind) : Probe.validate kind e' pods nonce = Probe.validate kind e pods nonce := by
  simp only [consulted, List.forall_mem_cons] at filled
  obtain ⟨ns, broker, topic, bucket, period, -⟩ := filled
  cases kind <;> simp only [Probe.validate, Probe.required, Probe.brokerName, id, ns, broker,
    topic, bucket, period]

theorem validate_setTimeout (kind : Kind) (text : String) :
    Probe.validate kind (e.setExtension "timeout" text) pods nonce =
      Probe.validate kind e pods nonce := by
  have same : (e.setExtension "timeout" text).id = e.id := rfl
  apply validate_congr same
  have others : ∀ name ∈ consulted, Text.lower name ≠ Text.lower "timeout" := by decide
  intro name hname
  rw [Event.filledExtension?, Event.extension?_setExtension, if_neg (others name hname)]
  rfl

theorem ofEvent_of_satisfied {kind : Kind} (named : kind.name = e.kind)
    (satisfied : kind.Satisfied e) : ∃ p, Probe.validate kind e pods nonce = .ok p ∧
      ofEvent policy pods nonce e =
        (policy.timeoutFor e).map fun wait => ⟨p, boundBy wait p.period⟩ := by
  obtain ⟨p, valid⟩ := Probe.validate_ok_iff.2 satisfied
  refine ⟨p, valid, ?_⟩
  rw [ofEvent, Kind.ofName?_eq_some_iff.2 named]
  simp only
  rw [valid]

theorem exists_ok_iff : (∃ a, ofEvent policy pods nonce e = .ok a) ↔
    (∃ kind : Kind, kind.name = e.kind ∧ kind.Satisfied e) ∧ ¬ e.Overflows "timeout" := by
  simp only [ofEvent_ok_iff, ← @Probe.validate_ok_iff _ e pods nonce]
  constructor
  · rintro ⟨a, kind, named, valid, t, granted, -⟩
    exact ⟨⟨kind, named, a.probe, valid⟩, (DeadlinePolicy.timeoutFor_ok_iff.1 granted).1⟩
  · rintro ⟨⟨kind, named, p, valid⟩, fits⟩
    exact ⟨⟨p, boundBy _ p.period⟩, kind, named, valid, _,
      DeadlinePolicy.timeoutFor_ok_iff.2 ⟨fits, rfl⟩, rfl⟩

/-- A request is admitted exactly if its type names a kind, it has what the kind asks for and
reading its timeout does not overflow. Whatever else the timeout is, the probe is the same. It may
wait as long as it asks for, within the maximum and its period. -/
theorem granted_unless_overflow (ordered : policy.defaultTimeout ≤ policy.maxTimeout) (e : Event) :
    ((∃ a, ofEvent policy pods nonce e = .ok a) ↔
      (∃ kind : Kind, kind.name = e.kind ∧ kind.Satisfied e) ∧ ¬ e.Overflows "timeout") ∧
    (∀ kind : Kind, kind.name = e.kind → kind.Satisfied e → e.Overflows "timeout" →
      ofEvent policy pods nonce e = .error .panic) ∧
    (∀ text a, ofEvent policy pods nonce e = .ok a → ¬ Duration.Overflows text →
      ∃ wait, ofEvent policy pods nonce (e.setExtension "timeout" text) = .ok ⟨a.probe, wait⟩) ∧
    ∀ a, ofEvent policy pods nonce e = .ok a → Granted policy pods nonce e a := by
  refine ⟨exists_ok_iff, ?_, ?_, fun a => Granted.of_ok ordered⟩
  · intro kind named satisfied overflows
    obtain ⟨p, -, same⟩ := ofEvent_of_satisfied named satisfied
    rw [same, DeadlinePolicy.timeoutFor_panic_iff.2 overflows]
    rfl
  · intro text a admitted fits
    obtain ⟨kind, named, valid, -⟩ := ofEvent_ok_iff.1 admitted
    have reads : ¬ (e.setExtension "timeout" text).Overflows "timeout" := by
      rintro ⟨text', given, overflows⟩
      rw [Event.extension?_setExtension, if_pos rfl] at given
      obtain rfl := Option.some.inj given
      exact fits overflows
    exact ⟨boundBy _ a.probe.period, ofEvent_ok_iff.2 ⟨kind, named,
      (validate_setTimeout kind text).trans valid, _,
      DeadlinePolicy.timeoutFor_ok_iff.2 ⟨reads, rfl⟩, rfl⟩⟩

def tickingRequest : Event :=
  ((Event.bare "1" Kind.scheduler.name "caller").setExtension "Period" "1m30s").setExtension
    "TIMEOUT" "45m"

theorem granted_unless_overflow_ticking :
    ({} : DeadlinePolicy).defaultTimeout ≤ ({} : DeadlinePolicy).maxTimeout ∧
      ofEvent {} {} 0 tickingRequest =
        .ok ⟨.scheduler (some (90 * Duration.second)), 90 * Duration.second⟩ ∧
      ((∃ kind : Kind, kind.name = tickingRequest.kind ∧ kind.Satisfied tickingRequest) ∧
        ¬ tickingRequest.Overflows "timeout") ∧
      Granted {} {} 0 tickingRequest
        ⟨.scheduler (some (90 * Duration.second)), 90 * Duration.second⟩ := by
  have ordered : ({} : DeadlinePolicy).defaultTimeout ≤ ({} : DeadlinePolicy).maxTimeout :=
    Config.ordered_of_valid (c := {}) rfl
  have admitted : ofEvent {} {} 0 tickingRequest =
      .ok ⟨.scheduler (some (90 * Duration.second)), 90 * Duration.second⟩ := by decide +kernel
  obtain ⟨accepts, -, -, granted⟩ := granted_unless_overflow ordered tickingRequest
  exact ⟨ordered, admitted, accepts.1 ⟨_, admitted⟩, granted _ admitted⟩

def boundlessRequest : Event :=
  (Event.bare "1" Kind.scheduler.name "caller").setExtension "timeout"
    "340282366920938463463374607431768211.456us"

/-- What a request has as its timeout may keep it from being admitted. -/
theorem not_every_satisfied_admitted :
    ¬ ∀ (policy : DeadlinePolicy) (pods : PodTarget) (nonce : Nonce) (e : Event) (kind : Kind),
      policy.defaultTimeout ≤ policy.maxTimeout → kind.name = e.kind → kind.Satisfied e →
        ∃ a, ofEvent policy pods nonce e = .ok a := by
  intro every
  have panics : ofEvent {} {} 0 boundlessRequest = .error .panic := by decide +kernel
  have blank : boundlessRequest.filledExtension? "period" = none := by decide +kernel
  have satisfied : Kind.scheduler.Satisfied boundlessRequest := fun filled =>
    absurd filled (Event.filledExtension?_eq_none_iff.1 blank)
  obtain ⟨a, admitted⟩ := every {} {} 0 boundlessRequest .scheduler
    (Config.ordered_of_valid (c := {}) rfl) rfl satisfied
  rw [panics] at admitted
  cases admitted

end Admission

end RoundTrip
