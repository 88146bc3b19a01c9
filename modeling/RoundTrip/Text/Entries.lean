/-!
Entries under text names, kept in the order of their names with at most one entry a name. Names
compare character by character, which is also the order of their UTF-8 octets.
-/

namespace RoundTrip.Entries

variable {α : Type}

/-- Puts `value` under `name`, in place of an earlier value of that name. -/
def put (name : String) (value : α) : List (String × α) → List (String × α)
  | [] => [(name, value)]
  | (n, v) :: rest =>
    if name = n then (name, value) :: rest
    else if name < n then (name, value) :: (n, v) :: rest
    else (n, v) :: put name value rest

def get? (name : String) : List (String × α) → Option α
  | [] => none
  | (n, v) :: rest => if name = n then some v else get? name rest

/-- Puts the pairs one after another, so that the last of a name stays. -/
def ofList (pairs : List (String × α)) : List (String × α) :=
  pairs.foldl (fun entries p => put p.1 p.2 entries) []

@[simp] theorem get?_nil (name : String) : get? name ([] : List (String × α)) = none := rfl

theorem get?_put (name : String) (value : α) (entries : List (String × α)) (m : String) :
    get? m (put name value entries) = if m = name then some value else get? m entries := by
  induction entries with
  | nil => simp [put, get?]
  | cons e rest ih =>
    obtain ⟨n, v⟩ := e
    simp only [put]
    split
    · subst_vars; simp only [get?]; split <;> rfl
    · split
      · simp [get?]
      · rename_i hne _
        simp only [get?, ih]
        by_cases hm : m = n
        · subst hm; simp [Ne.symm hne]
        · simp [hm]

@[simp] theorem get?_put_self (name : String) (value : α) (entries : List (String × α)) :
    get? name (put name value entries) = some value := by
  simp [get?_put]

end RoundTrip.Entries
