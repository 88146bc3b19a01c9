import RoundTrip.Proofs.Event.Carried

namespace RoundTrip

namespace Headers

theorem appendGroup_names {name : String} {value : Bytes} {groups : List (String × List Bytes)}
    {g : String × List Bytes} (h : g ∈ appendGroup name value groups) :
    g.1 = name ∨ g.1 ∈ groups.map Prod.fst := by
  induction groups with
  | nil =>
    rw [appendGroup, List.mem_singleton] at h
    exact .inl (congrArg Prod.fst h)
  | cons first rest ih =>
    rw [appendGroup] at h
    rw [List.map_cons, List.mem_cons]
    split at h
    · rcases List.mem_cons.1 h with rfl | h
      · exact .inr (.inl rfl)
      · exact .inr (.inr (List.mem_map.2 ⟨g, h, rfl⟩))
    · rcases List.mem_cons.1 h with rfl | h
      · exact .inr (.inl rfl)
      · exact (ih h).imp_right .inr

theorem foldl_append_folded (fields : List (String × Bytes)) {h : Headers}
    (folded : ∀ g ∈ h.groups, Text.lower g.1 = g.1) :
    ∀ g ∈ (fields.foldl (fun h f => h.append f.1 f.2) h).groups, Text.lower g.1 = g.1 := by
  induction fields generalizing h with
  | nil => exact folded
  | cons f rest ih =>
    apply ih
    intro g hg
    rcases appendGroup_names hg with same | earlier
    · rw [same, Text.lower_lower]
    · obtain ⟨g', hg', same⟩ := List.mem_map.1 earlier
      rw [← same]
      exact folded g' hg'

theorem fields_folded (fields : List (String × Bytes)) :
    ∀ f ∈ (ofList fields).fields, Text.lower f.1 = f.1 := by
  intro f hf
  obtain ⟨g, hg, hf⟩ := List.mem_flatMap.1 hf
  obtain ⟨v, -, rfl⟩ := List.mem_map.1 hf
  exact foldl_append_folded fields (h := empty) nofun g hg

end Headers

namespace Event

open Entries

structure Draft.Plain (d : Draft) : Prop where
  readable : ∀ name value, d.attr? name = some value → Header.readable value = true
  fresh : ∀ x ∈ d.extensions, x.1 ∉ coreNames

theorem Draft.attr?_time {d : Draft} (fresh : ∀ x ∈ d.extensions, x.1 ∉ coreNames) :
    d.attr? "time" = none := by
  have untimed : get? "time" d.extensions = none := by
    apply get?_eq_none
    intro x hx time
    exact fresh x hx (time ▸ by decide)
  simp [attr?, untimed]

theorem Draft.Plain.set {d d' : Draft} {attr value : String} (h : d.Plain)
    (set : d.set attr value = .ok d') (folded : Text.lower attr = attr)
    (readable : Header.readable value = true) : d'.Plain := by
  have fresh : ∀ x ∈ d'.extensions, x.1 ∉ coreNames := by
    cases took_of_set set with
    | extension new =>
      intro x hx
      rcases mem_put hx with rfl | hx
      · rw [folded]
        exact new
      · exact h.fresh x hx
    | _ => exact h.fresh
  refine ⟨?_, fresh⟩
  intro name v found
  by_cases time : name = "time"
  · -- kept as an instant, and so no text under its name
    rw [time, attr?_time fresh] at found
    cases found
  · rw [attr?_set set folded time] at found
    split at found
    · cases found
      exact readable
    · exact h.readable name v found

theorem folded_of_mark {name : String}
    (folded : Text.lower (headerMark ++ name) = headerMark ++ name) : Text.lower name = name := by
  rw [← String.toList_inj, Text.toList_lower, String.toList_append, List.map_append] at folded
  rw [← String.toList_inj, Text.toList_lower]
  exact List.append_cancel_left folded

theorem Draft.Plain.readAll {fields : List (String × Bytes)} {d d' : Draft} (h : d.Plain)
    (read : d.readAll fields = .ok d') (folded : ∀ f ∈ fields, Text.lower f.1 = f.1) :
    d'.Plain := by
  induction fields generalizing d with
  | nil =>
    cases read
    exact h
  | cons field rest ih =>
    obtain ⟨first, others⟩ := List.forall_mem_cons.1 folded
    rw [Draft.readAll] at read
    split at read
    · cases read
    next next one =>
      apply ih _ read others
      rw [Draft.read] at one
      split at one
      · cases one
        exact h
      next attr marked =>
        split at one
        · cases one
        next value text =>
          apply h.set one _ (Header.readable_of_text? text)
          rw [eq_mark_of_attributeOf? marked] at first
          exact folded_of_mark first

theorem Draft.Plain.empty : ({} : Draft).Plain := by
  refine ⟨?_, nofun⟩
  intro name value found
  simp [attr?] at found

theorem plain_carried {fields : List (String × Bytes)} {body : Bytes} {e : Event}
    (read : ofBinary (Headers.ofList fields) body = .ok e) :
    (∀ name value, e.carried? name = some value → Header.readable value = true) ∧
      ∀ name ∈ coreNames, e.carried? name = get? name e.coreAttributes := by
  obtain ⟨d, drafted, finishes⟩ := ofBinary_ok_iff.1 read
  have plain := Draft.Plain.empty.readAll drafted (Headers.fields_folded fields)
  have fresh (name : String) (core : name ∈ coreNames) : get? name e.extensions = none := by
    rw [finishes.extensions]
    apply get?_eq_none
    rintro x hx rfl
    exact plain.fresh x hx core
  constructor
  · intro name value carried
    rcases Option.or_eq_some_iff.1 carried with found | ⟨-, found⟩
    · rw [finishes.extensions] at found
      apply plain.readable name
      rw [d.attr?_of_fresh (plain.fresh (name, value) (mem_of_get? found)), found]
    · exact readable_coreAttributes (plain.readable "id" _ finishes.id)
        (plain.readable "type" _ finishes.kind) (plain.readable "source" _ finishes.source)
        (fun s given => plain.readable "subject" _ (finishes.subject.symm.trans given))
        (name, value) (mem_of_get? found)
  · intro name core
    rw [carried?, fresh name core, Option.none_or]

end Event

end RoundTrip
