import RoundTrip.Proofs.Pending.Finish

/-!
The journal of a run with the time of every mark, and the course of a registration in it. Courses
are put together, while the clock moves as well as from one operation to the next.
-/

namespace RoundTrip.Pending

def history (registration : Nat) (notes : List (Duration × Mark)) : List (Duration × Mark) :=
  notes.filter fun n => n.2.registration = registration

def Mark.isWait : Mark → Bool
  | .ended _ | .removed _ .timedOut => true
  | _ => false

def Waiter.told (w : Waiter) (exit : Exit) : Waiter :=
  match exit.slot? with
  | some slot => { w with slot }
  | none => w

@[simp] theorem history_append (r : Nat) (a b : List (Duration × Mark)) :
    history r (a ++ b) = history r a ++ history r b :=
  List.filter_append _ _

theorem history_stamp (r : Nat) (now : Duration) (marks : List Mark) :
    history r (marks.map (Prod.mk now)) = (about r marks).map (Prod.mk now) :=
  List.filter_map

theorem mem_about {r : Nat} {marks : List Mark} {m : Mark} :
    m ∈ about r marks ↔ m ∈ marks ∧ m.registration = r := by
  simp [about]

theorem about_removed (r : Nat) (es : List Entry) (exit : Exit) :
    about r (es.map fun e => .removed e exit) =
      (es.filter fun e => e.registration = r).map fun e => .removed e exit :=
  List.filter_map

namespace Session

/-- The marks of an operation with the instants at which they were made. -/
def timed (s : Session) : Op → List (Duration × Mark)
  | .advance d =>
    let (notes, s) := machine.stamped.advance d s
    notes ++ s.finish.1.map (Prod.mk s.now)
  | op => (s.perform op).2.1.map (Prod.mk s.now)

def timeline : Session → List Op → List (Duration × Mark)
  | _, [] => []
  | s, op :: rest => s.timed op ++ timeline (s.perform op).2.2 rest

theorem timed_marks (s : Session) (op : Op) : (s.timed op).map Prod.snd = (s.perform op).2.1 := by
  cases op with
  | advance d =>
    obtain ⟨notes, state⟩ := machine.advance_stamped d s
    simp only [timed, perform, act, List.map_append, notes, state, List.map_map, Function.comp_def,
      List.map_id']
  | _ => simp only [timed, List.map_map, Function.comp_def, List.map_id']

theorem timeline_marks (s : Session) (ops : List Op) :
    (s.timeline ops).map Prod.snd = (s.run ops).1 := by
  induction ops generalizing s with
  | nil => rfl
  | cons op rest ih =>
    rw [timeline, List.map_append, timed_marks, ih]
    rfl

/-- A registration that was given out and of which nothing is left. -/
structure Departed (s : Session) (registration : Nat) : Prop where
  given : registration < s.table.next
  waiter : ∀ w ∈ s.waiters, w.registration ≠ registration
  entry : ∀ e ∈ s.table.entries, e.registration ≠ registration

structure Untold (s : Session) (w : Waiter) : Prop where
  mem : w ∈ s.waiters
  waits : w.waiting = true
  empty : w.slot = .empty

def Unwaited (s : Session) (registration : Nat) : Prop :=
  ∀ w ∈ s.waiters, w.registration = registration → w.waiting = false

/-- How a wait goes on that has until `limit`: it goes on, it ends when its entry is removed, by the
wait itself at the limit, or it is given up. -/
inductive WaitEndsBy (ops : List Op) (w : Waiter) (start limit : Duration)
    (notes : List (Duration × Mark)) (t : Session) : Prop
  | waits : notes = [] → w ∈ t.waiters → WaitEndsBy ops w start limit notes t
  | ends (now : Duration) (exit : Exit) : exit ≠ .left → start ≤ now → now ≤ limit →
      (exit = .timedOut → now = limit) →
      notes = [(now, .removed w.entry exit), (now, .ended ⟨now, w.told exit, exit.outcome⟩)] →
      t.Departed w.registration → WaitEndsBy ops w start limit notes t
  | leaves (now : Duration) : .leave w.registration ∈ ops → start ≤ now → now ≤ limit →
      notes = [(now, .removed w.entry .left)] →
      t.Departed w.registration → WaitEndsBy ops w start limit notes t

/-- What the notes of operations say of every registration. -/
structure Course (ops : List Op) (s : Session) (notes : List (Duration × Mark)) (t : Session) :
    Prop where
  later : s.now ≤ t.now
  gone : ∀ r, s.Departed r → history r notes = [] ∧ t.Departed r
  waits : ∀ w, s.Untold w →
    WaitEndsBy ops w s.now w.deadline.tick (history w.registration notes) t
  unwaited : ∀ r, .wait r ∉ ops → s.Unwaited r →
    t.Unwaited r ∧ ∀ n ∈ history r notes, n.2.isWait = false

variable {ops : List Op} {s t u : Session} {w : Waiter} {a b : List (Duration × Mark)} {r : Nat}

theorem Sound.departed (h : s.Sound) (given : r < s.table.next)
    (left : ∀ w ∈ s.waiters, w.registration ≠ r) : s.Departed r := by
  refine ⟨given, left, ?_⟩
  intro e he
  obtain ⟨w, hw, -, rfl⟩ := h.mem_entries.1 he
  exact left w hw

theorem WaitEndsBy.before {start start' limit : Duration} (h : WaitEndsBy ops w start limit a t)
    (earlier : start' ≤ start) : WaitEndsBy ops w start' limit a t := by
  cases h with
  | waits silent there => exact .waits silent there
  | ends now exit other since till own notes gone =>
    exact .ends now exit other (earlier.trans since) till own notes gone
  | leaves now left since till notes gone =>
    exact .leaves now left (earlier.trans since) till notes gone

theorem Course.refl (s : Session) : Course ops s [] s := by
  refine ⟨le_rfl, fun r gone => ⟨rfl, gone⟩, fun w untold => .waits rfl untold.mem, ?_⟩
  intro r _ unwaited
  exact ⟨unwaited, fun n hn => by cases hn⟩

theorem Course.trans (h : Course ops s a t) (k : Course ops t b u) :
    Course ops s (a ++ b) u := by
  constructor
  case later => exact h.later.trans k.later
  case gone =>
    intro r gone
    obtain ⟨silent, gone⟩ := h.gone r gone
    obtain ⟨silent', gone⟩ := k.gone r gone
    exact ⟨by rw [history_append, silent, silent', List.append_nil], gone⟩
  case waits =>
    intro w untold
    rw [history_append]
    cases h.waits w untold with
    | waits silent there =>
      rw [silent, List.nil_append]
      exact (k.waits w ⟨there, untold.waits, untold.empty⟩).before h.later
    | ends now exit other since till own notes gone =>
      obtain ⟨silent, gone⟩ := k.gone _ gone
      exact .ends now exit other since till own (by rw [notes, silent, List.append_nil]) gone
    | leaves now left since till notes gone =>
      obtain ⟨silent, gone⟩ := k.gone _ gone
      exact .leaves now left since till (by rw [notes, silent, List.append_nil]) gone
  case unwaited =>
    intro r never unwaited
    obtain ⟨unwaited, silent⟩ := h.unwaited r never unwaited
    obtain ⟨unwaited, silent'⟩ := k.unwaited r never unwaited
    refine ⟨unwaited, ?_⟩
    intro n hn
    rw [history_append] at hn
    rcases List.mem_append.1 hn with hn | hn
    · exact silent n hn
    · exact silent' n hn

theorem Course.composes (ops : List Op) : Clock.Machine.Composes (Course ops) := ⟨.refl, .trans⟩

end Session

end RoundTrip.Pending
