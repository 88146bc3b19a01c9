import Mathlib.Data.List.Nodup
import Mathlib.Data.String.Basic
import RoundTrip.Text.Entries

/-!
Entries stay in the order of their names. What a list of pairs answers for a name does not change
when the list is read backwards, as long as no name stands in it twice.
-/

namespace RoundTrip.Entries

variable {α : Type}

def Sorted (entries : List (String × α)) : Prop := entries.Pairwise fun a b => a.1 < b.1

def Distinct (entries : List (String × α)) : Prop := (entries.map Prod.fst).Nodup

theorem Distinct.nil : Distinct ([] : List (String × α)) := List.nodup_nil

theorem Sorted.distinct {entries : List (String × α)} (h : Sorted entries) : Distinct entries := by
  apply List.pairwise_map.2
  apply List.Pairwise.imp _ h
  intro a b before
  exact before.ne

theorem mem_put {name : String} {value : α} {entries : List (String × α)} {x : String × α}
    (h : x ∈ put name value entries) : x = (name, value) ∨ x ∈ entries := by
  induction entries with
  | nil => exact .inl (List.mem_singleton.1 h)
  | cons e rest ih =>
    simp only [put] at h
    split at h
    · rcases List.mem_cons.1 h with rfl | h
      · exact .inl rfl
      · exact .inr (List.mem_cons_of_mem _ h)
    · split at h
      · exact List.mem_cons.1 h
      · rcases List.mem_cons.1 h with rfl | h
        · exact .inr List.mem_cons_self
        · exact (ih h).imp_right (List.mem_cons_of_mem _)

theorem Sorted.put {entries : List (String × α)} (h : Sorted entries) (name : String)
    (value : α) : Sorted (Entries.put name value entries) := by
  induction entries with
  | nil => exact List.pairwise_singleton _ _
  | cons e rest ih =>
    obtain ⟨first, others⟩ := List.pairwise_cons.1 h
    simp only [Entries.put]
    split
    next same =>
      apply List.pairwise_cons.2 ⟨_, others⟩
      intro x hx
      exact same ▸ first x hx
    next other =>
      split
      next before =>
        apply List.pairwise_cons.2 ⟨_, h⟩
        intro x hx
        rcases List.mem_cons.1 hx with rfl | hx
        · exact before
        · exact before.trans (first x hx)
      next notBefore =>
        apply List.pairwise_cons.2 ⟨_, ih others⟩
        intro x hx
        rcases mem_put hx with rfl | hx
        · exact lt_of_le_of_ne (not_lt.1 notBefore) (Ne.symm other)
        · exact first x hx

theorem put_last {name : String} {value : α} {entries : List (String × α)}
    (last : ∀ x ∈ entries, x.1 < name) :
    Entries.put name value entries = entries ++ [(name, value)] := by
  induction entries with
  | nil => rfl
  | cons e rest ih =>
    obtain ⟨first, others⟩ := List.forall_mem_cons.1 last
    rw [Entries.put, if_neg first.ne', if_neg first.asymm, ih others, List.cons_append]

theorem get?_append (name : String) (xs ys : List (String × α)) :
    get? name (xs ++ ys) = (get? name xs).or (get? name ys) := by
  induction xs with
  | nil => rfl
  | cons e rest ih =>
    simp only [List.cons_append, get?, ih]
    split <;> rfl

theorem mem_of_get? {name : String} {value : α} {entries : List (String × α)}
    (h : get? name entries = some value) : (name, value) ∈ entries := by
  induction entries with
  | nil => cases h
  | cons e rest ih =>
    simp only [get?] at h
    split at h
    next same =>
      cases h
      exact same ▸ List.mem_cons_self
    next => exact List.mem_cons_of_mem _ (ih h)

theorem get?_eq_none {name : String} {entries : List (String × α)}
    (h : ∀ x ∈ entries, x.1 ≠ name) : get? name entries = none := by
  rw [Option.eq_none_iff_forall_ne_some]
  intro value found
  exact h (name, value) (mem_of_get? found) rfl

theorem get?_eq_find? (name : String) (entries : List (String × α)) :
    get? name entries = (entries.find? fun e => e.1 = name).map Prod.snd := by
  induction entries with
  | nil => rfl
  | cons e rest ih =>
    rw [get?, List.find?_cons, ih]
    by_cases same : name = e.1
    · simp [same]
    · simp [same, Ne.symm same]

theorem Distinct.get? {entries : List (String × α)} (h : Distinct entries) {name : String}
    {value : α} (mem : (name, value) ∈ entries) : Entries.get? name entries = some value := by
  induction entries with
  | nil => cases mem
  | cons e rest ih =>
    obtain ⟨fresh, others⟩ := List.nodup_cons.1 h
    rcases List.mem_cons.1 mem with rfl | mem
    · exact if_pos rfl
    · have other : name ≠ e.1 := by
        rintro rfl
        exact fresh (List.mem_map.2 ⟨_, mem, rfl⟩)
      exact (if_neg other).trans (ih others mem)

theorem Distinct.get?_iff {entries : List (String × α)} (h : Distinct entries) {name : String}
    {value : α} : Entries.get? name entries = some value ↔ (name, value) ∈ entries :=
  ⟨mem_of_get?, h.get?⟩

theorem Distinct.reverse {entries : List (String × α)} (h : Distinct entries) :
    Distinct entries.reverse := by
  rw [Distinct, List.map_reverse]
  exact List.nodup_reverse.2 h

theorem Distinct.get?_reverse {entries : List (String × α)} (h : Distinct entries)
    (name : String) : Entries.get? name entries.reverse = Entries.get? name entries := by
  apply Option.ext
  intro value
  rw [h.reverse.get?_iff, h.get?_iff, List.mem_reverse]

/-- Puts `value` under `name` where an earlier value stands, or at the end. -/
def place (name : String) (value : α) : List (String × α) → List (String × α)
  | [] => [(name, value)]
  | (n, v) :: rest => if n = name then (n, value) :: rest else (n, v) :: place name value rest

def placeAll (entries : List (String × α)) : List (String × α) → List (String × α)
  | [] => entries
  | (name, value) :: rest => placeAll (place name value entries) rest

theorem get?_place (name : String) (value : α) (entries : List (String × α)) (m : String) :
    get? m (place name value entries) = if m = name then some value else get? m entries := by
  induction entries with
  | nil => rfl
  | cons e rest ih =>
    obtain ⟨n, v⟩ := e
    simp only [place]
    by_cases same : n = name
    · subst same
      rw [if_pos rfl]
      by_cases h : m = n <;> simp only [get?, h, if_true, if_false]
    · rw [if_neg same, get?, get?, ih]
      by_cases h : m = n
      · subst h
        rw [if_pos rfl, if_pos rfl, if_neg same]
      · rw [if_neg h, if_neg h]

theorem get?_placeAll (entries pairs : List (String × α)) (m : String) :
    get? m (placeAll entries pairs) = (get? m pairs.reverse).or (get? m entries) := by
  induction pairs generalizing entries with
  | nil => rfl
  | cons p rest ih =>
    obtain ⟨name, value⟩ := p
    -- whatever `rest` places under the name comes after `value`
    rw [placeAll, ih, get?_place, List.reverse_cons, get?_append, Option.or_assoc]
    congr 1
    by_cases h : m = name <;> simp [get?, h]

theorem mem_names_place {name : String} {value : α} {entries : List (String × α)} {n : String}
    (h : n ∈ (place name value entries).map Prod.fst) : n = name ∨ n ∈ entries.map Prod.fst := by
  induction entries with
  | nil => exact .inl (List.mem_singleton.1 h)
  | cons e rest ih =>
    simp only [place] at h
    split at h
    · exact .inr h
    · rw [List.map_cons, List.mem_cons] at h ⊢
      rcases h with rfl | h
      · exact .inr (.inl rfl)
      · exact (ih h).imp_right .inr

theorem Distinct.place {entries : List (String × α)} (h : Distinct entries) (name : String)
    (value : α) : Distinct (Entries.place name value entries) := by
  induction entries with
  | nil => exact List.nodup_singleton _
  | cons e rest ih =>
    obtain ⟨fresh, others⟩ := List.nodup_cons.1 h
    simp only [Entries.place]
    split
    next => exact h
    next other =>
      apply List.nodup_cons.2 ⟨_, ih others⟩
      intro again
      exact (mem_names_place again).elim other fresh

theorem Distinct.placeAll {entries : List (String × α)} (h : Distinct entries)
    (pairs : List (String × α)) : Distinct (Entries.placeAll entries pairs) := by
  induction pairs generalizing entries with
  | nil => exact h
  | cons p rest ih => exact ih (h.place _ _)

theorem get?_ofList (pairs : List (String × α)) (name : String) :
    get? name (ofList pairs) = get? name pairs.reverse := by
  have general (entries : List (String × α)) :
      get? name (pairs.foldl (fun entries p => put p.1 p.2 entries) entries) =
        (get? name pairs.reverse).or (get? name entries) := by
    induction pairs generalizing entries with
    | nil => rfl
    | cons p rest ih =>
      rw [List.foldl_cons, ih, get?_put, List.reverse_cons, get?_append, Option.or_assoc]
      congr 1
      by_cases same : name = p.1 <;> simp [get?, same]
  rw [ofList, general, get?_nil, Option.or_none]

theorem sorted_ofList (pairs : List (String × α)) : Sorted (ofList pairs) := by
  have general {entries : List (String × α)} (sorted : Sorted entries) :
      Sorted (pairs.foldl (fun entries p => put p.1 p.2 entries) entries) := by
    induction pairs generalizing entries with
    | nil => exact sorted
    | cons p rest ih => exact ih (sorted.put p.1 p.2)
  exact general List.Pairwise.nil

theorem mem_of_mem_ofList {pairs : List (String × α)} {x : String × α} (h : x ∈ ofList pairs) :
    x ∈ pairs := by
  have found := (sorted_ofList pairs).distinct.get? h
  rw [get?_ofList] at found
  exact List.mem_reverse.1 (mem_of_get? found)

theorem get?_map {β : Type} (f : α → β) (entries : List (String × α)) (name : String) :
    get? name (entries.map fun x => (x.1, f x.2)) = (get? name entries).map f := by
  induction entries with
  | nil => rfl
  | cons e rest ih =>
    simp only [List.map_cons, get?, ih]
    split <;> rfl

theorem get?_filter (p : String → Bool) (entries : List (String × α)) (name : String) :
    get? name (entries.filter fun x => p x.1) = if p name then get? name entries else none := by
  induction entries with
  | nil => simp
  | cons e rest ih =>
    by_cases same : name = e.1
    · subst same
      by_cases kept : p e.1 = true <;> simp [get?, kept, ih]
    · by_cases kept : p e.1 = true <;> simp [get?, kept, same, ih]

theorem Sorted.ext {xs ys : List (String × α)} (hx : Sorted xs) (hy : Sorted ys)
    (same : ∀ name, get? name xs = get? name ys) : xs = ys := by
  have nodup {zs : List (String × α)} (h : Sorted zs) : zs.Nodup := h.distinct.of_map
  have perm : xs.Perm ys := by
    rw [List.perm_ext_iff_of_nodup (nodup hx) (nodup hy)]
    rintro ⟨name, value⟩
    rw [← hx.distinct.get?_iff, ← hy.distinct.get?_iff, same]
  apply perm.eq_of_pairwise _ hx hy
  intro a b _ _ before after
  exact absurd after before.asymm

theorem Sorted.put_comm {entries : List (String × α)} (h : Sorted entries) {m n : String}
    (apart : m ≠ n) (v w : α) :
    Entries.put m v (Entries.put n w entries) = Entries.put n w (Entries.put m v entries) := by
  apply ((h.put n w).put m v).ext ((h.put m v).put n w)
  intro name
  rw [get?_put, get?_put, get?_put, get?_put]
  by_cases hm : name = m
  · rw [if_pos hm, if_pos hm, if_neg (hm ▸ apart)]
  · rw [if_neg hm, if_neg hm]

theorem ofList_perm {xs ys : List (String × α)} (perm : xs.Perm ys) (distinct : Distinct xs) :
    ofList xs = ofList ys := by
  have distinct' : Distinct ys := (perm.map Prod.fst).nodup_iff.1 distinct
  apply (sorted_ofList xs).ext (sorted_ofList ys)
  intro name
  apply Option.ext
  intro value
  rw [get?_ofList, get?_ofList, distinct.get?_reverse, distinct'.get?_reverse, distinct.get?_iff,
    distinct'.get?_iff, perm.mem_iff]

theorem Sorted.find?_reverse_iff {entries : List (String × α)} (h : Sorted entries)
    (p : String × α → Bool) (x : String × α) :
    entries.reverse.find? p = some x ↔
      x ∈ entries ∧ p x = true ∧ ∀ y ∈ entries, p y = true → y ≠ x → y.1 < x.1 := by
  have greatest {x : String × α} (found : entries.reverse.find? p = some x) :
      x ∈ entries ∧ p x = true ∧ ∀ y ∈ entries, p y = true → y ≠ x → y.1 < x.1 := by
    refine ⟨List.mem_reverse.1 (List.mem_of_find?_eq_some found), List.find?_some found, ?_⟩
    obtain ⟨-, later, earlier, split, none⟩ := List.find?_eq_some_iff_append.1 found
    intro y hy holds other
    rw [← List.mem_reverse, split, List.mem_append, List.mem_cons] at hy
    rcases hy with hy | rfl | hy
    · exact absurd (none y hy) (by simp [holds])
    · exact absurd rfl other
    · have ordered := List.pairwise_reverse.2 h
      rw [split] at ordered
      exact (List.pairwise_cons.1 (List.pairwise_append.1 ordered).2.1).1 y hy
  refine ⟨greatest, ?_⟩
  rintro ⟨hx, holds, above⟩
  cases found : entries.reverse.find? p with
  | none => exact absurd holds (List.find?_eq_none.1 found x (List.mem_reverse.2 hx))
  | some y =>
    obtain ⟨hy, holds', above'⟩ := greatest found
    by_contra other
    have other : x ≠ y := fun same => other (by rw [same])
    exact (above y hy holds' other.symm).asymm (above' x hx holds other)

end RoundTrip.Entries
