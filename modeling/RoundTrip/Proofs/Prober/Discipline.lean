import RoundTrip.Proofs.Prober.Acknowledgement
import RoundTrip.Proofs.Prober.Reached
import RoundTrip.Proofs.Probe.Admission

namespace RoundTrip

/-- The call for a probe of this key, made for the request `e`. The ticks of periodic kinds come
without one. -/
def Key.call? (pods : PodTarget) (e : Event) : Key → Option Effect
  | .broker ns name => some (.send ns name e)
  | .pubsub topic => some (.publish topic [("probe-id", e.id)])
  | .storage bucket .create => some (.createObject bucket e.id (Text.Utf8.encode e.id))
  | .storage bucket .updateMetadata =>
    some (.updateMetadata bucket e.id [("some-key", "Metadata updated!")])
  | .storage bucket .archive => some (.archiveObject bucket e.id)
  | .storage bucket .delete => some (.deleteObject bucket e.id)
  | .scheduler | .ping => none
  | .pods .create => some (.createPod ⟨pods.ns, pods.name ++ "." ++ e.id, "busybox"⟩)
  | .pods .update => some (.updatePod ⟨pods.ns, pods.name ++ "." ++ e.id, "alpine"⟩)
  | .pods .delete => some (.deletePod pods.ns (pods.name ++ "." ++ e.id))
  | .audit topic => some (.createTopic topic)

theorem Admission.effect?_eq {policy : DeadlinePolicy} {pods : PodTarget} {nonce : Nonce}
    {e : Event} {a : Admission} (admitted : Admission.ofEvent policy pods nonce e = .ok a) :
    a.probe.effect? e = a.key.call? pods e := by
  obtain ⟨probe, wait⟩ := a
  obtain ⟨-, valid⟩ := Admission.of_ok admitted
  cases valid with
  | storage phase => cases phase <;> rfl
  | pods phase => cases phase <;> rfl
  | broker | pubsub | scheduler | ping | audit => rfl

namespace Prober

open Journal

variable {config : Config} {collaborators : Collaborators} {past : List Mark} {p : Prober}
  {r : ProbeRequest} {a : Admission} {session : Pending.Session} {effect : Effect} {s : Step}

/-- The state lets the request in, and its probe has a call that a collaborator can take. -/
structure Owes (p : Prober) (r : ProbeRequest) (a : Admission) (session : Pending.Session)
    (effect : Effect) : Prop where
  admitted : Admission.ofEvent p.config.policy p.config.pods r.nonce r.event = .ok a
  registered : p.session.register r.name a.key (p.now + a.wait) = .ok session
  /-- Nor does it see the shutdown signal before it has made its call. -/
  begins : p.shutDown = false ∨ r.nonce.callFirst = true
  causes : a.probe.effect? r.event = some effect
  configured : (p.collaborators effect.collaborator).isSome = true

/-- The request is registered in `q`, and the state that this leads to, which has its entry, makes
the one call. -/
def CallsOnce (q : Prober) (r : ProbeRequest) (a : Admission) (effect : Effect)
    (marks : List Mark) : Prop :=
  ∃ (caller : Prober) (t : Ticket) (rest later : List Mark),
    q.session.register r.name a.key (q.now + a.wait) = .ok caller.session ∧
      t.entry ∈ caller.session.table.entries ∧ t.name = r.name ∧ t.key = a.key ∧
        marks =
            .registered q.now t :: (caller.trigger ⟨t, r.nonce, .registered⟩ effect).1 ++ later ∧
          (caller.trigger ⟨t, r.nonce, .registered⟩ effect).1 =
              .called q.now t.registration effect :: rest ∧
            calls rest = [] ∧ calls later = []

theorem perform_request (request : s.request? = some r) (p : Prober) :
    ∃ later, calls later = [] ∧
      (p.perform s).2.1 = (p.probe r.name r.surface r.event r.nonce).1 ++ later := by
  rw [perform, act_request request]
  exact ⟨_, (Passive.closed.settle _).calls, rfl⟩

theorem launch_begins {f : Flight} (begins : p.shutDown = false ∨ f.nonce.callFirst = true)
    (effect : Option Effect) : ∃ later, calls later = [] ∧
      (p.launch f effect).1 = (p.depart f effect).1 ++ later := by
  rw [launch.eq_def]
  split
  next => exact ⟨[], rfl, (List.append_nil _).symm⟩
  next down =>
    rw [if_pos (begins.resolve_left (by simpa using down))]
    exact ⟨_, (Passive.closed.groundAll _ _).calls, rfl⟩

theorem launch_turned {f : Flight} (turned : ¬ (p.shutDown = false ∨ f.nonce.callFirst = true))
    (effect : Option Effect) : calls (p.launch f effect).1 = [] := by
  obtain ⟨down, late⟩ := not_or.1 turned
  rw [launch.eq_def, if_neg (by simpa using down), if_neg late]
  exact (Passive.closed.abandon p f _).calls

theorem Owes.callsOnce (owes : Owes p r a session effect) (request : s.request? = some r) :
    CallsOnce p r a effect (p.perform s).2.1 := by
  obtain ⟨later, silent, marks⟩ := perform_request request p
  obtain ⟨script, known⟩ := Option.isSome_iff_exists.1 owes.configured
  let t : Ticket := ⟨r.name, r.surface, a.key, p.session.table.next, p.now + a.wait, p.now⟩
  let f : Flight := ⟨t, r.nonce, .registered⟩
  let p₁ : Prober := { p with session, flights := p.flights ++ [f] }
  obtain ⟨-, -, -, made⟩ := Pending.Session.register_ok owes.registered
  have now : p₁.now = p.now := by
    show session.now = p.session.now
    rw [made]
  have entry : t.entry ∈ session.table.entries := by
    rw [made]
    exact List.mem_append_right _ List.mem_cons_self
  have probed : (p.probe r.name r.surface r.event r.nonce).1 =
      .registered p.now t :: (p₁.launch f (some effect)).1 := by
    rw [probe, owes.admitted]
    simp only
    rw [register, owes.registered, owes.causes]
    rfl
  obtain ⟨grounded, silent', launched⟩ := launch_begins (p := p₁) (f := f) owes.begins (some effect)
  obtain ⟨rest, called, passive⟩ := trigger_configured (p := p₁) (f := f) known
  rw [now] at called
  have both : calls (grounded ++ later) = [] := by
    rw [calls_append, silent', silent]
    rfl
  refine ⟨p₁, t, rest, grounded ++ later, owes.registered, entry, rfl, rfl, ?_, called,
    passive.calls, both⟩
  rw [marks, probed, launched, List.cons_append, List.append_assoc]
  rfl

theorem calls_of_not_owes (request : s.request? = some r)
    (nothing : ∀ a session effect, ¬ Owes p r a session effect) :
    calls (p.perform s).2.1 = [] := by
  obtain ⟨later, silent, marks⟩ := perform_request request p
  rw [marks, calls_append, silent, List.append_nil, probe]
  split
  next => rfl
  next => rfl
  next a admitted =>
    rw [register]
    split
    next => rfl
    next session registered =>
      let t : Ticket := ⟨r.name, r.surface, a.key, p.session.table.next, p.now + a.wait, p.now⟩
      let f : Flight := ⟨t, r.nonce, .registered⟩
      let p₁ : Prober := { p with session, flights := p.flights ++ [f] }
      have launched : calls (p₁.launch f (a.probe.effect? r.event)).1 = [] := by
        by_cases begins : p₁.shutDown = false ∨ f.nonce.callFirst = true
        · obtain ⟨later, silent, launched⟩ := launch_begins begins (a.probe.effect? r.event)
          rw [launched, calls_append, silent, List.append_nil]
          cases known : a.probe.effect? r.event with
          | none => rfl
          | some effect =>
            refine (trigger_unconfigured ?_).calls
            rw [← Option.not_isSome_iff_eq_none]
            intro configured
            exact nothing a session effect ⟨admitted, registered, begins, known, configured⟩
        · exact launch_turned begins _
      exact launched

/-- Why a request makes no call, given what has happened before. -/
inductive Exempt (config : Config) (collaborators : Collaborators) (past : List Mark)
    (r : ProbeRequest) : Prop
  | refused : Refused config past r → Exempt config collaborators past r
  | periodic {a : Admission} :
      Admission.ofEvent config.policy config.pods r.nonce r.event = .ok a →
        a.probe.kind.isPeriodic = true → Exempt config collaborators past r
  | unconfigured {a : Admission} {effect : Effect} :
      Admission.ofEvent config.policy config.pods r.nonce r.event = .ok a →
        a.key.call? config.pods r.event = some effect →
          collaborators effect.collaborator = none → Exempt config collaborators past r

structure Owed (config : Config) (collaborators : Collaborators) (past : List Mark)
    (r : ProbeRequest) (a : Admission) (effect : Effect) : Prop where
  admitted : Admission.ofEvent config.policy config.pods r.nonce r.event = .ok a
  unrefused : ¬ Refused config past r
  call : a.key.call? config.pods r.event = some effect
  configured : (collaborators effect.collaborator).isSome = true

theorem Owed.not_exempt (owed : Owed config collaborators past r a effect) :
    ¬ Exempt config collaborators past r := by
  intro exempt
  cases exempt with
  | refused refused => exact owed.unrefused refused
  | periodic admitted periodic =>
    rw [owed.admitted] at admitted
    cases admitted
    rw [← Probe.effect?_eq_none_iff a.probe r.event, Admission.effect?_eq owed.admitted,
      owed.call] at periodic
    cases periodic
  | unconfigured admitted call missing =>
    rw [owed.admitted] at admitted
    cases admitted
    rw [owed.call] at call
    cases call
    have configured := owed.configured
    rw [missing] at configured
    cases configured

theorem owed_of_not_exempt (owing : ¬ Exempt config collaborators past r) :
    ∃ a effect, Owed config collaborators past r a effect := by
  have unrefused : ¬ Refused config past r := fun refused => owing (.refused refused)
  cases admitted : Admission.ofEvent config.policy config.pods r.nonce r.event with
  | error error =>
    refine absurd (fun a ok => ?_) unrefused
    rw [admitted] at ok
    cases ok
  | ok a =>
    cases call : a.key.call? config.pods r.event with
    | none =>
      refine absurd (.periodic admitted ?_) owing
      rw [← Probe.effect?_eq_none_iff a.probe r.event, Admission.effect?_eq admitted]
      exact call
    | some effect =>
      cases configured : collaborators effect.collaborator with
      | none => exact absurd (.unconfigured admitted call configured) owing
      | some script =>
        exact ⟨a, effect, admitted, unrefused, call, by rw [configured]; rfl⟩

theorem Reached.owes_iff (h : Reached config collaborators past p) :
    (∃ session, Owes p r a session effect) ↔ Owed config collaborators past r a effect := by
  constructor
  · rintro ⟨session, owes⟩
    obtain ⟨ahead, opened, free, -⟩ := Pending.Session.register_ok owes.registered
    have admitted := owes.admitted
    rw [h.equipped.config] at admitted
    refine ⟨admitted, ?_, ?_, ?_⟩
    · intro refused
      rcases refused a admitted with zero | shut | ⟨down, late⟩ | taken
      · rw [zero, Nat.add_zero] at ahead
        exact Nat.lt_irrefl _ ahead
      · rw [h.sealed_iff.2 shut] at opened
        cases opened
      · rcases owes.begins with up | first
        · exact h.up_iff.1 up down
        · rw [late] at first
          cases first
      · rw [(h.contains_iff a.key).2 taken] at free
        cases free
    · rw [← Admission.effect?_eq admitted]
      exact owes.causes
    · rw [← h.equipped.configured]
      exact owes.configured
  · intro owed
    have unrefused : ¬ (a.wait = 0 ∨ Sealed past ∨ (ShutDown past ∧ r.nonce.callFirst = false) ∨
        ∃ t ∈ outstanding past, t.key = a.key) := by
      intro reason
      refine owed.unrefused fun b admitted => ?_
      rw [owed.admitted] at admitted
      cases admitted
      exact reason
    obtain ⟨waits, unsealed, seen, free⟩ : a.wait ≠ 0 ∧ ¬ Sealed past ∧
        ¬ (ShutDown past ∧ r.nonce.callFirst = false) ∧
          ¬ ∃ t ∈ outstanding past, t.key = a.key := by
      simpa only [not_or] using unrefused
    have ahead : p.now < p.now + a.wait := Nat.lt_add_of_pos_right (Nat.pos_of_ne_zero waits)
    have opened : p.session.table.closed = false := by
      rw [← Bool.not_eq_true, h.sealed_iff]
      exact unsealed
    have free : p.session.table.contains a.key = false := by
      rw [← Bool.not_eq_true, h.contains_iff]
      exact free
    have begins : p.shutDown = false ∨ r.nonce.callFirst = true := by
      rw [h.up_iff, ← Bool.not_eq_false]
      exact not_and_or.1 seen
    obtain ⟨session, registered⟩ := Pending.Session.register_of_free ahead opened free r.name
    refine ⟨session, ?_, registered, begins, ?_, ?_⟩
    · rw [h.equipped.config]
      exact owed.admitted
    · rw [Admission.effect?_eq owed.admitted]
      exact owed.call
    · rw [h.equipped.configured]
      exact owed.configured

theorem calls_perform_sublist (p : Prober) (s : Step) :
    ((calls (p.perform s).2.1).map Prod.fst).Sublist
      ((registered (p.perform s).2.1).map Ticket.registration) := by
  have spared {marks : List Mark} (silent : calls marks = []) :
      ((calls marks).map Prod.fst).Sublist ((registered marks).map Ticket.registration) := by
    rw [silent]
    exact List.nil_sublist _
  cases request : s.request? with
  | none => exact spared (perform_passive request p).calls
  | some r =>
    by_cases owes : ∃ a session effect, Owes p r a session effect
    · obtain ⟨a, session, effect, owes⟩ := owes
      obtain ⟨_, t, rest, later, -, -, -, -, marks, called, silent, silent'⟩ :=
        owes.callsOnce request
      rw [called] at marks
      have one : calls (p.perform s).2.1 = [(t.registration, effect)] := by
        have both : calls (rest ++ later) = [] := by
          rw [calls_append, silent, silent']
          rfl
        rw [marks]
        exact congrArg (List.cons _) both
      rw [one, marks]
      exact List.Sublist.cons_cons _ (List.nil_sublist _)
    · simp only [not_exists] at owes
      exact spared (calls_of_not_owes request owes)

theorem calls_sublist (p : Prober) (ss : List Step) :
    ((calls (p.journal ss)).map Prod.fst).Sublist
      ((registered (p.journal ss)).map Ticket.registration) := by
  induction ss generalizing p with
  | nil => exact List.Sublist.refl _
  | cons s rest ih =>
    rw [journal, calls_append, registered_append, List.map_append, List.map_append]
    exact (calls_perform_sublist p s).append (ih _)

/-- How the probe requests of a run use the collaborators. -/
structure Discipline (config : Config) (collaborators : Collaborators) (p : Prober)
    (ss : List Step) : Prop where
  shown : (p.steps ss).1.flatMap Shown.happenings = (p.journal ss).filterMap Mark.happening?
  during : ∀ before s after, ss = before ++ s :: after →
    ∃ later, p.journal ss = p.journal before ++ p.during before s ++ later
  others : ∀ before s after, ss = before ++ s :: after → s.request? = none →
    calls (p.during before s) = []
  exempt : ∀ before s after r, ss = before ++ s :: after → s.request? = some r →
    Exempt config collaborators (p.journal before) r → calls (p.during before s) = []
  /-- Any other request makes the call of its key. -/
  called : ∀ before s after r, ss = before ++ s :: after → s.request? = some r →
    ¬ Exempt config collaborators (p.journal before) r → ∃ a effect,
      Admission.ofEvent config.policy config.pods r.nonce r.event = .ok a ∧
        a.key.call? config.pods r.event = some effect ∧
          CallsOnce (p.steps before).2 r a effect (p.during before s)
  once : ((calls (p.journal ss)).map Prod.fst).Nodup

def hangingCollision : List Step :=
  [.probe "a" (.bare "1" (Kind.name (.pods .create)) "caller") 0,
    .probe "b" (.bare "2" (Kind.name (.pods .create)) "caller") 1]

end Prober

end RoundTrip
