import RoundTrip.Proofs.Event.Carried

namespace RoundTrip.Event

inductive Edit
  | extension (name value : String)
  | subject (subject : String)
  | time (time : Timestamp)
  | data (contentType : String) (data : Bytes)
  deriving DecidableEq, Repr

def Edit.name? : Edit → Option String
  | .extension name _ => some name
  | _ => none

def edit (e : Event) : Edit → Event
  | .extension name value => e.setExtension name value
  | .subject subject => e.withSubject subject
  | .time time => e.withTime time
  | .data contentType data => e.withData contentType data

def editAll (e : Event) : List Edit → Event
  | [] => e
  | s :: rest => (e.edit s).editAll rest

/-- Where events come from: they are made, or decoded in either mode. -/
inductive Origin : Event → Prop
  | made (id kind source : String) (time : Option Timestamp) :
    Origin { bare id kind source with time }
  | http {headers : Headers} {body : Bytes} {e : Event} : ofHttp headers body = .ok e → Origin e
  | structured {body : Bytes} {e : Event} : ofStructured body = .ok e → Origin e

variable {e : Event} {name : String}

theorem extension?_setExtension (value other : String) :
    (e.setExtension name value).extension? other =
      if Text.lower other = Text.lower name then some value else e.extension? other := by
  rw [extension?, setExtension, Entries.get?_put]
  rfl

theorem Origin.tidy (h : Origin e) : Tidy e.extensions := by
  cases h with
  | made => exact Tidy.nil
  | http read => exact ofHttp_tidy read
  | structured read => exact ofStructured_tidy read

theorem extensions_edit {s : Edit} (other : s.name? = none) :
    (e.edit s).extensions = e.extensions := by
  cases s with
  | extension => cases other
  | subject | time | data => rfl

theorem Tidy.edit (h : Tidy e.extensions) (s : Edit) : Tidy (e.edit s).extensions := by
  cases s with
  | extension name value => exact h.put name value
  | subject | time | data => exact h

theorem Tidy.editAll (h : Tidy e.extensions) (ss : List Edit) :
    Tidy (e.editAll ss).extensions := by
  induction ss generalizing e with
  | nil => exact h
  | cons s rest ih => exact ih (h.edit s)

theorem Tidy.setExtension_comm (h : Tidy e.extensions) {m n : String}
    (apart : Text.lower m ≠ Text.lower n) (v w : String) :
    (e.setExtension m v).setExtension n w = (e.setExtension n w).setExtension m v := by
  have same := h.sorted.put_comm apart.symm w v
  rw [setExtension, setExtension, setExtension, setExtension, same]

structure Folds (e : Event) : Prop where
  folded : ∀ x ∈ e.extensions, Text.lower x.1 = x.1
  once : (e.extensions.map Prod.fst).Nodup
  set : ∀ name value other, (e.setExtension name value).extension? other =
    if Text.lower other = Text.lower name then some value else e.extension? other
  alone : ∀ name value,
    e.setExtension name value = { e with extensions := (e.setExtension name value).extensions }
  kept : ∀ s : Edit, s.name? = none → (e.edit s).extensions = e.extensions
  comm : ∀ m v n w, Text.lower m ≠ Text.lower n →
    (e.setExtension m v).setExtension n w = (e.setExtension n w).setExtension m v

theorem extensions_fold (h : Origin e) (ss : List Edit) : Folds (e.editAll ss) := by
  have tidy : Tidy (e.editAll ss).extensions := h.tidy.editAll ss
  constructor
  case folded => exact tidy.folded
  case once => exact tidy.sorted.distinct
  case set => exact fun _ value other => extension?_setExtension value other
  case alone => exact fun _ _ => rfl
  case kept => exact fun _ other => extensions_edit other
  case comm => exact fun _ v _ w apart => tidy.setExtension_comm apart v w

def retagged : List Edit := [.extension "Tag" "a", .subject "s", .extension "tAG" "b"]

theorem extensions_fold_retagged :
    Origin (bare "1" "t" "s") ∧ Folds ((bare "1" "t" "s").editAll retagged) :=
  ⟨.made "1" "t" "s" none, extensions_fold (.made "1" "t" "s" none) retagged⟩

example : ((bare "1" "t" "s").editAll retagged).extensions = [("tag", "b")] := by decide

end RoundTrip.Event
