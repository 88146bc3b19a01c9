import RoundTrip.Prober.Step

namespace RoundTrip.Prober

theorem steps_cons (p : Prober) (s : Step) (rest : List Step) :
    p.steps (s :: rest) =
      ((p.step s).1 :: ((p.step s).2.steps rest).1, ((p.step s).2.steps rest).2) := rfl

theorem steps_append (p : Prober) (before after : List Step) :
    p.steps (before ++ after) =
      ((p.steps before).1 ++ ((p.steps before).2.steps after).1,
        ((p.steps before).2.steps after).2) := by
  induction before generalizing p with
  | nil => rfl
  | cons s before ih =>
    rw [List.cons_append, steps_cons, ih]
    rfl

theorem step_answer (p : Prober) (s : Step) : (p.step s).1.answer = (p.act s).1 := rfl

theorem steps_length (p : Prober) (ss : List Step) : (p.steps ss).1.length = ss.length := by
  induction ss generalizing p with
  | nil => rfl
  | cons s rest ih => exact congrArg (· + 1) (ih _)

theorem steps_at (p : Prober) (before : List Step) (s : Step) (after : List Step) :
    (p.steps (before ++ s :: after)).1[before.length]? = some ((p.steps before).2.step s).1 := by
  rw [steps_append, List.getElem?_append_right (Nat.le_of_eq (steps_length p before)), steps_length,
    Nat.sub_self, steps_cons, List.getElem?_cons_zero]

theorem journal_split (p : Prober) (before after : List Step) :
    p.journal (before ++ after) = p.journal before ++ (p.steps before).2.journal after := by
  induction before generalizing p with
  | nil => rfl
  | cons s before ih =>
    rw [List.cons_append, journal, ih, journal, List.append_assoc]
    rfl

/-- What the journal of a run says of the step `s` that comes after the steps `before`. -/
def during (p : Prober) (before : List Step) (s : Step) : List Mark :=
  ((p.steps before).2.perform s).2.1

theorem journal_append (p : Prober) (before : List Step) (s : Step) (after : List Step) :
    p.journal (before ++ s :: after) = p.journal before ++ p.during before s ++
      ((p.steps before).2.perform s).2.2.journal after := by
  rw [journal_split, journal, List.append_assoc]
  rfl

theorem journal_cut {p : Prober} {ss : List Step} {past rest : List Mark} {m : Mark}
    (whole : p.journal ss = past ++ m :: rest) : ∃ before s after u v,
      ss = before ++ s :: after ∧ p.during before s = u ++ m :: v ∧
        past = p.journal before ++ u := by
  induction ss generalizing p past with
  | nil => cases past <;> cases whole
  | cons s ss ih =>
    have here {later : List Mark} (first : past ++ m :: later = (p.perform s).2.1) :
        ∃ before s' after u v, s :: ss = before ++ s' :: after ∧
          p.during before s' = u ++ m :: v ∧ past = p.journal before ++ u :=
      ⟨[], s, ss, past, later, rfl, first.symm, rfl⟩
    have there {past' : List Mark} (split : past = (p.perform s).2.1 ++ past')
        (later : (p.perform s).2.2.journal ss = past' ++ m :: rest) :
        ∃ before s' after u v, s :: ss = before ++ s' :: after ∧
          p.during before s' = u ++ m :: v ∧ past = p.journal before ++ u := by
      obtain ⟨before, s', after, u, v, rfl, marks, rfl⟩ := ih later
      refine ⟨s :: before, s', after, u, v, rfl, marks, ?_⟩
      rw [split, journal, List.append_assoc]
    rcases List.append_eq_append_iff.1 whole with ⟨a, split, later⟩ | ⟨a, first, split⟩
    · exact there split later
    · cases a with
      | nil =>
        rw [List.append_nil] at first
        have ended : past = (p.perform s).2.1 ++ [] := by rw [first, List.append_nil]
        exact there ended split.symm
      | cons m' a =>
        obtain ⟨rfl, -⟩ := List.cons.inj split
        exact here first.symm

/-- In a run, the step `s` comes to the same as the steps `instead`. What it shows itself may
differ. -/
structure AsIf (p : Prober) (before : List Step) (s : Step) (instead after : List Step) :
    Prop where
  others : ∃ own later, (p.steps (before ++ s :: after)).1 = (p.steps before).1 ++ own :: later ∧
    (p.steps (before ++ (instead ++ after))).1 = (p.steps (before ++ instead)).1 ++ later
  journal : p.journal (before ++ s :: after) = p.journal (before ++ (instead ++ after))
  state : (p.steps (before ++ s :: after)).2 = (p.steps (before ++ (instead ++ after))).2

theorem AsIf.of_perform {before : List Step} {s : Step} {instead : List Step}
    (same : ((p.steps before).2.perform s).2 =
      ((p.steps before).2.journal instead, ((p.steps before).2.steps instead).2))
    (after : List Step) : AsIf p before s instead after := by
  have marks := congrArg Prod.fst same
  have state : ((p.steps before).2.step s).2 = ((p.steps before).2.steps instead).2 :=
    congrArg Prod.snd same
  constructor
  case others =>
    refine ⟨((p.steps before).2.step s).1, (((p.steps before).2.step s).2.steps after).1, ?_, ?_⟩
    · rw [steps_append, steps_cons]
    · rw [steps_append, steps_append p before, steps_append _ instead, state, List.append_assoc]
  case journal =>
    let q := (p.steps before).2
    have first : q.journal (s :: after) = (q.perform s).2.1 ++ (q.step s).2.journal after := rfl
    rw [journal_split, journal_split, journal_split, first, marks, state]
  case state => rw [steps_append, steps_append, steps_append, steps_cons, state]

end RoundTrip.Prober
