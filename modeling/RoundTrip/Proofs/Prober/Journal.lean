import Mathlib.Data.List.Nodup
import RoundTrip.Prober.Step

/-!
What the journal of a prober tells of a registration: that it was made, that a delivery claimed its
entry or somebody removed it by hand, that its call failed, and that its probe ended or was dropped.
-/

namespace RoundTrip

namespace Mark

def registered? : Mark → Option Ticket
  | .registered _ t => some t
  | _ => none

def claimed? : Mark → Option Pending.Entry
  | .delivered _ _ _ claim _ => claim
  | _ => none

def expired? : Mark → Option Pending.Entry
  | .expired _ claim => claim
  | _ => none

def failed? : Mark → Option Nat
  | .answered _ registration (some _) => some registration
  | _ => none

def closed? : Mark → Option Nat
  | .ended _ t _ => some t.registration
  | .dropped _ t => some t.registration
  | _ => none

def about? (m : Mark) : Option Nat :=
  m.closed? <|> m.failed? <|> m.claimed?.map Pending.Entry.registration <|>
    m.expired?.map Pending.Entry.registration

def isShutDown : Mark → Bool
  | .shutDown _ => true
  | _ => false

def isSealed : Mark → Bool
  | .sealed _ => true
  | _ => false

def idle : Mark → Bool
  | .rejected _ _ _ | .panicked _ _ | .refused _ _ _ _ | .called _ _ _ | .brokenOff _ _ => true
  | .answered _ _ failure => failure.isNone
  | .delivered _ _ resolved claim _ => !resolved && claim.isNone
  | .expired _ claim => claim.isNone
  | .registered _ _ | .ended _ _ _ | .dropped _ _ | .shutDown _ | .sealed _ => false

structure Silent (m : Mark) : Prop where
  registered : m.registered? = none
  claimed : m.claimed? = none
  expired : m.expired? = none
  failed : m.failed? = none
  closed : m.closed? = none
  up : m.isShutDown = false
  unsealed : m.isSealed = false

theorem silent_of_idle {m : Mark} (h : m.idle = true) : Silent m := by
  cases m with
  | answered now registration failure =>
    obtain rfl := Option.isNone_iff_eq_none.1 h
    exact ⟨rfl, rfl, rfl, rfl, rfl, rfl, rfl⟩
  | delivered now e resolved claim byCollaborator =>
    obtain ⟨-, unclaimed⟩ := (Bool.and_eq_true _ _).mp h
    obtain rfl := Option.isNone_iff_eq_none.1 unclaimed
    exact ⟨rfl, rfl, rfl, rfl, rfl, rfl, rfl⟩
  | expired now claim =>
    obtain rfl := Option.isNone_iff_eq_none.1 h
    exact ⟨rfl, rfl, rfl, rfl, rfl, rfl, rfl⟩
  | registered | ended | dropped | shutDown | sealed => cases h
  | rejected | panicked | refused | called | brokenOff => exact ⟨rfl, rfl, rfl, rfl, rfl, rfl, rfl⟩

end Mark

namespace Journal

variable (j : List Mark)

def registered : List Ticket := j.filterMap Mark.registered?

def claims : List Pending.Entry := j.filterMap Mark.claimed?

def expiries : List Pending.Entry := j.filterMap Mark.expired?

def failed : List Nat := j.filterMap Mark.failed?

def closed : List Nat := j.filterMap Mark.closed?

def ShutDown : Prop := ∃ m ∈ j, m.isShutDown = true

def Sealed : Prop := ∃ m ∈ j, m.isSealed = true

/-- The calls that are registered and have neither ended nor been dropped. -/
def running : List Ticket := (registered j).filter fun t => t.registration ∉ closed j

/-- A delivery claimed the entry of the call, its collaborator reported no failure, and nobody shut
the prober down. -/
structure Acknowledged (t : Ticket) : Prop where
  claimed : t.entry ∈ claims j
  unfailed : t.registration ∉ failed j
  up : ¬ ShutDown j

variable {j} (k : List Mark)

@[simp] theorem registered_append : registered (j ++ k) = registered j ++ registered k :=
  List.filterMap_append

@[simp] theorem claims_append : claims (j ++ k) = claims j ++ claims k := List.filterMap_append

@[simp] theorem expiries_append : expiries (j ++ k) = expiries j ++ expiries k :=
  List.filterMap_append

@[simp] theorem failed_append : failed (j ++ k) = failed j ++ failed k := List.filterMap_append

@[simp] theorem closed_append : closed (j ++ k) = closed j ++ closed k := List.filterMap_append

theorem shutDown_append : ShutDown (j ++ k) ↔ ShutDown j ∨ ShutDown k := by
  simp only [ShutDown, List.mem_append, or_and_right, exists_or]

theorem sealed_append : Sealed (j ++ k) ↔ Sealed j ∨ Sealed k := by
  simp only [Sealed, List.mem_append, or_and_right, exists_or]

section

variable {m : Mark}

theorem registered_concat (h : m.registered? = none) : registered (j ++ [m]) = registered j := by
  simp [registered, h]

theorem claims_concat (h : m.claimed? = none) : claims (j ++ [m]) = claims j := by
  simp [claims, h]

theorem expiries_concat (h : m.expired? = none) : expiries (j ++ [m]) = expiries j := by
  simp [expiries, h]

theorem failed_concat (h : m.failed? = none) : failed (j ++ [m]) = failed j := by
  simp [failed, h]

theorem closed_concat (h : m.closed? = none) : closed (j ++ [m]) = closed j := by
  simp [closed, h]

theorem running_concat (made : m.registered? = none) (ended : m.closed? = none) :
    running (j ++ [m]) = running j := by
  rw [running, registered_concat made, closed_concat ended]
  rfl

end

def Fits (past : List Mark) : Mark → Prop
  | .ended now t v => t ∈ running past ∧ now ≤ t.deadline.tick ∧
      (v = .ok () → t.entry ∈ claims past ∧ t.registration ∉ failed past) ∧
      (Acknowledged past t → v = .ok ())
  | .dropped _ t => t ∈ running past
  | .delivered now e resolved claim _ => resolved = claim.isSome ∧ ∀ entry ∈ claim,
      Delivered.key? e = some entry.key ∧ entry ∉ claims past ∧
        now ≤ entry.deadline.tick ∧ ∃ t ∈ running past, t.entry = entry
  | .expired _ claim => ∀ entry ∈ claim, ∃ t ∈ running past, t.entry = entry
  | .answered _ registration (some _) => ∃ t ∈ running past, t.registration = registration
  | .rejected _ _ _ | .panicked _ _ | .refused _ _ _ _ | .registered _ _ | .called _ _ _
  | .answered _ _ none | .brokenOff _ _ | .shutDown _ | .sealed _ => True

def Coherent : List Mark → List Mark → Prop
  | _, [] => True
  | past, m :: rest => Fits past m ∧ Coherent (past ++ [m]) rest

theorem coherent_append {past a b : List Mark} :
    Coherent past (a ++ b) ↔ Coherent past a ∧ Coherent (past ++ a) b := by
  induction a generalizing past with
  | nil => simp [Coherent]
  | cons m rest ih =>
    rw [List.cons_append, Coherent, Coherent, ih, and_assoc, List.append_assoc,
      List.singleton_append]

theorem Coherent.fits {past rest : List Mark} {m : Mark} (h : Coherent [] (past ++ m :: rest)) :
    Fits past m := by
  have later := (coherent_append.1 h).2
  rw [List.nil_append] at later
  exact later.1

theorem fits_of_idle {past : List Mark} {m : Mark} (h : m.idle = true) : Fits past m := by
  cases m with
  | delivered now e resolved claim byCollaborator =>
    obtain ⟨unresolved, unclaimed⟩ := (Bool.and_eq_true _ _).mp h
    obtain rfl := Option.isNone_iff_eq_none.1 unclaimed
    refine ⟨?_, ?_⟩
    · simpa using unresolved
    · intro entry hentry
      cases hentry
  | expired now claim =>
    obtain rfl := Option.isNone_iff_eq_none.1 h
    intro entry hentry
    cases hentry
  | answered now registration failure =>
    obtain rfl := Option.isNone_iff_eq_none.1 h
    trivial
  | ended | dropped => cases h
  | rejected | panicked | refused | registered | called | brokenOff | shutDown | sealed => trivial

theorem Fits.claimed {past : List Mark} {m : Mark} (h : Fits past m) {e : Pending.Entry}
    (he : e ∈ claims [m]) : e ∉ claims past ∧ ∃ t ∈ running past, t.entry = e := by
  cases m with
  | delivered now event resolved claim byCollaborator =>
    cases claim with
    | none => cases he
    | some entry =>
      obtain rfl := List.mem_singleton.1 he
      obtain ⟨-, fresh, -, runs⟩ := h.2 e rfl
      exact ⟨fresh, runs⟩
  | _ => cases he

theorem Coherent.claims_fresh {past : List Mark} (h : Coherent past j) :
    (claims j).Nodup ∧ ∀ e ∈ claims j, e ∉ claims past := by
  induction j generalizing past with
  | nil =>
    constructor
    · exact .nil
    · intro e he
      cases he
  | cons m rest ih =>
    obtain ⟨fits, later⟩ := h
    obtain ⟨nodup, fresh⟩ := ih later
    have split : claims (m :: rest) = claims [m] ++ claims rest := claims_append (j := [m]) rest
    rw [split]
    constructor
    · rw [List.nodup_append]
      refine ⟨?_, nodup, ?_⟩
      · cases hm : m.claimed? <;> simp [claims, hm]
      · intro d hd e he
        rintro rfl
        apply fresh d he
        rw [claims_append]
        exact List.mem_append_right _ hd
    · intro e he
      rcases List.mem_append.1 he with he | he
      · exact (fits.claimed he).1
      · intro hpast
        apply fresh e he
        rw [claims_append]
        exact List.mem_append_left _ hpast

theorem running_subset : running j ⊆ registered j := List.filter_subset_self _

theorem Fits.about {past : List Mark} {m : Mark} (h : Fits past m) {n : Nat}
    (hn : m.about? = some n) : ∃ t ∈ running past, t.registration = n := by
  cases m with
  | ended now t v =>
    obtain rfl := Option.some.inj hn
    exact ⟨t, h.1, rfl⟩
  | dropped now t =>
    obtain rfl := Option.some.inj hn
    exact ⟨t, h, rfl⟩
  | delivered now e resolved claim byCollaborator =>
    cases claim with
    | none => cases hn
    | some entry =>
      obtain rfl := Option.some.inj hn
      obtain ⟨-, -, -, t, ht, rfl⟩ := h.2 entry rfl
      exact ⟨t, ht, rfl⟩
  | expired now claim =>
    cases claim with
    | none => cases hn
    | some entry =>
      obtain rfl := Option.some.inj hn
      obtain ⟨t, ht, rfl⟩ := h entry rfl
      exact ⟨t, ht, rfl⟩
  | answered now registration failure =>
    cases failure with
    | none => cases hn
    | some error =>
      obtain rfl := Option.some.inj hn
      exact h
  | _ => cases hn

theorem Coherent.below (h : Coherent [] j) {next : Nat}
    (below : ∀ t ∈ registered j, t.registration < next) {m : Mark} (hm : m ∈ j) {n : Nat}
    (hn : m.about? = some n) : n < next := by
  obtain ⟨past, rest, rfl⟩ := List.append_of_mem hm
  obtain ⟨t, ht, rfl⟩ := h.fits.about hn
  apply below t
  rw [registered_append]
  exact List.mem_append_left _ (running_subset ht)

section

variable (h : Coherent [] j) {next : Nat} (below : ∀ t ∈ registered j, t.registration < next)
include h below

theorem Coherent.closed_below {n : Nat} (hn : n ∈ closed j) : n < next := by
  obtain ⟨m, hm, hclosed⟩ := List.mem_filterMap.1 hn
  exact h.below below hm (by simp [Mark.about?, hclosed])

theorem Coherent.failed_below {n : Nat} (hn : n ∈ failed j) : n < next := by
  obtain ⟨m, hm, hfailed⟩ := List.mem_filterMap.1 hn
  cases m with
  | answered now registration failure =>
    cases failure with
    | none => cases hfailed
    | some error => exact h.below below hm hfailed
  | _ => cases hfailed

theorem Coherent.claims_below {e : Pending.Entry} (he : e ∈ claims j) : e.registration < next := by
  obtain ⟨m, hm, hclaimed⟩ := List.mem_filterMap.1 he
  cases m with
  | delivered now event resolved claim byCollaborator =>
    obtain rfl : claim = some e := hclaimed
    exact h.below below hm rfl
  | _ => cases hclaimed

theorem Coherent.expiries_below {e : Pending.Entry} (he : e ∈ expiries j) :
    e.registration < next := by
  obtain ⟨m, hm, hexpired⟩ := List.mem_filterMap.1 he
  cases m with
  | expired now claim =>
    obtain rfl : claim = some e := hexpired
    exact h.below below hm rfl
  | _ => cases hexpired

end

end Journal

end RoundTrip
