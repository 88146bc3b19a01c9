namespace RoundTrip

variable {ε α β : Type}

theorem bind_eq_ok {x : Except ε α} {f : α → Except ε β} {b : β} :
    x >>= f = .ok b ↔ ∃ a, x = .ok a ∧ f a = .ok b := by
  cases x with
  | error m => exact ⟨nofun, nofun⟩
  | ok a => exact ⟨fun h => ⟨a, rfl, h⟩, fun ⟨_, same, h⟩ => by cases same; exact h⟩

theorem map_eq_ok {x : Except ε α} {f : α → β} {b : β} :
    x.map f = .ok b ↔ ∃ a, x = .ok a ∧ f a = b := by
  cases x with
  | error m => exact ⟨nofun, nofun⟩
  | ok a =>
    constructor
    · intro h
      exact ⟨a, rfl, Except.ok.inj h⟩
    · rintro ⟨_, ⟨⟩, rfl⟩
      rfl

theorem ok_of_unless {c : Prop} [Decidable c] {e : ε} {f : Unit → Except ε α} {a : α}
    (h : (if c then Except.error e >>= f else f ()) = .ok a) : f () = .ok a := by
  split at h
  · cases h
  · exact h

theorem exists_map_eq_ok {x : Except ε α} {f : α → β} :
    (∃ b, x.map f = .ok b) ↔ ∃ a, x = .ok a := by
  constructor
  · rintro ⟨b, h⟩
    obtain ⟨a, h, -⟩ := map_eq_ok.1 h
    exact ⟨a, h⟩
  · rintro ⟨a, h⟩
    exact ⟨f a, map_eq_ok.2 ⟨a, h, rfl⟩⟩

theorem toOption_eq_some_iff {x : Except ε α} {a : α} : x.toOption = some a ↔ x = .ok a := by
  cases x with
  | error m => exact ⟨nofun, nofun⟩
  | ok b =>
    rw [Except.ok.injEq]
    exact Option.some_inj

end RoundTrip
