import RoundTrip.Proofs.Prober.Passive
import RoundTrip.Proofs.Prober.Steps

namespace RoundTrip.Prober

open Journal

variable {config : Config} {collaborators : Collaborators} {past : List Mark} {p q : Prober}
  {effect : Effect}

structure Equipped (config : Config) (collaborators : Collaborators) (p : Prober) : Prop where
  config : p.config = config
  configured : ∀ c, (p.collaborators c).isSome = (collaborators c).isSome

theorem Passive.equipped {marks : List Mark} (passive : Passive p marks q)
    (h : Equipped config collaborators p) : Equipped config collaborators q := by
  refine ⟨passive.config.trans h.config, ?_⟩
  rw [passive.collaborators]
  exact h.configured

theorem trigger_unconfigured {f : Flight} (missing : p.collaborators effect.collaborator = none) :
    Passive p (p.trigger f effect).1 (p.trigger f effect).2 := by
  rw [trigger, missing]
  exact (Passive.closed.abandon p f _).cons rfl

theorem trigger_configured {f : Flight} {script : List Conduct}
    (configured : p.collaborators effect.collaborator = some script) :
    ∃ rest, (p.trigger f effect).1 = .called p.now f.registration effect :: rest ∧
      Passive { p with
        collaborators := p.collaborators.set effect.collaborator (Conduct.next script).2
        topics := p.topics ++ effect.createdTopic?.toList } rest (p.trigger f effect).2 := by
  rw [trigger, configured]
  simp only
  split
  next => exact ⟨_, rfl, Passive.closed.answer _ _ _ _⟩
  next => exact ⟨[], rfl, rfl, rfl, rfl⟩

theorem Equipped.trigger (h : Equipped config collaborators p) (f : Flight) (effect : Effect) :
    Equipped config collaborators (p.trigger f effect).2 := by
  cases known : p.collaborators effect.collaborator with
  | none => exact (trigger_unconfigured known).equipped h
  | some script =>
    obtain ⟨rest, -, passive⟩ := trigger_configured (f := f) known
    refine passive.equipped ⟨h.config, ?_⟩
    intro c
    rw [← h.configured c]
    show ((p.collaborators.set effect.collaborator _) c).isSome = _
    rw [Collaborators.set]
    split
    next same => rw [same, known]; rfl
    next => rfl

theorem Equipped.depart (h : Equipped config collaborators p) (f : Flight)
    (effect : Option Effect) : Equipped config collaborators (p.depart f effect).2 := by
  cases effect with
  | none => exact (Passive.closed.beginWait p f).equipped h
  | some effect => exact h.trigger f effect

theorem Equipped.launch (h : Equipped config collaborators p) (f : Flight)
    (effect : Option Effect) : Equipped config collaborators (p.launch f effect).2 := by
  rw [launch.eq_def]
  split
  next => exact h.depart f effect
  next =>
    split
    next => exact (Passive.closed.groundAll _ _).equipped (h.depart f effect)
    next => exact (Passive.closed.abandon p f _).equipped h

theorem Equipped.probe (h : Equipped config collaborators p) (name : String) (surface : Surface)
    (e : Event) (nonce : Nonce) :
    Equipped config collaborators (p.probe name surface e nonce).2 := by
  rw [Prober.probe]
  split
  next => exact h
  next => exact h
  next a _ =>
    rw [register]
    split
    next => exact ⟨h.config, h.configured⟩
    next session _ =>
      let f : Flight := ⟨⟨name, surface, a.key, p.session.table.next, p.now + a.wait, p.now⟩,
        nonce, .registered⟩
      have entered : Equipped config collaborators
          { p with session, flights := p.flights ++ [f] } := ⟨h.config, h.configured⟩
      exact entered.launch f _

theorem Equipped.perform (h : Equipped config collaborators p) (s : Step) :
    Equipped config collaborators (p.perform s).2.2 := by
  cases request : s.request? with
  | none => exact (perform_passive request p).equipped h
  | some r =>
    refine (Passive.closed.settle (p.act s).2.2).equipped ?_
    rw [act_request request]
    exact h.probe r.name r.surface r.event r.nonce

theorem Equipped.steps (h : Equipped config collaborators p) (ss : List Step) :
    Equipped config collaborators (p.steps ss).2 := by
  induction ss generalizing p with
  | nil => exact h
  | cons s rest ih => exact ih (h.perform s)

/-- What holds of the state that a run with this journal leads to. -/
structure Reached (config : Config) (collaborators : Collaborators) (past : List Mark)
    (p : Prober) : Prop where
  account : Account past p
  quiet : Quiet p
  sealed_iff : p.session.table.closed = true ↔ Sealed past
  equipped : Equipped config collaborators p
  locked : Locked p

theorem start_eq (hs : start config collaborators = .ok p) :
    p = { config, collaborators, liveness := { stale := config.stale } } := by
  rw [start] at hs
  split at hs
  next => cases hs
  next => exact (Except.ok.inj hs).symm

theorem Reached.start (hs : start config collaborators = .ok p) :
    Reached config collaborators [] p := by
  have account := account_start hs
  have quiet := Quiet.start hs
  obtain rfl := start_eq hs
  have unsealed : ¬ Sealed [] := fun ⟨_, among, _⟩ => List.not_mem_nil among
  exact ⟨account, quiet, iff_of_false Bool.false_ne_true unsealed, ⟨rfl, fun _ => rfl⟩, nofun⟩

theorem Reached.steps (h : Reached config collaborators past p) (ss : List Step) :
    Reached config collaborators (past ++ p.journal ss) (p.steps ss).2 := by
  obtain ⟨course, quiet⟩ : Course True p (p.journal ss) (p.steps ss).2 ∧ Quiet (p.steps ss).2 :=
    h.quiet.steps fun _ _ => trivial
  refine ⟨course.account h.account, quiet, ?_, h.equipped.steps ss,
    course.locked h.account.sound h.locked⟩
  rw [course.sealed_iff h.account.sound, h.sealed_iff, sealed_append]

theorem Reached.perform (h : Reached config collaborators past p) (s : Step) :
    Reached config collaborators (past ++ (p.perform s).2.1) (p.perform s).2.2 := by
  have reached := h.steps [s]
  rwa [journal, journal, List.append_nil] at reached

theorem Reached.contains_iff (h : Reached config collaborators past p) (key : Key) :
    p.session.table.contains key = true ↔ ∃ t ∈ outstanding past, t.key = key := by
  rw [Pending.Table.contains, Pending.Table.find?, List.find?_isSome, h.account.entries h.quiet]
  simp

theorem Reached.up_iff (h : Reached config collaborators past p) :
    p.shutDown = false ↔ ¬ ShutDown past := by
  rw [← h.account.down, Bool.not_eq_true]

end RoundTrip.Prober
