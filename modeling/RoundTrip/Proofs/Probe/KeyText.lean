import RoundTrip.Probe.Key
import RoundTrip.Proofs.Text.Segments

/-!
What the text of a key tells. It is read back from its segments: the first one selects the kind of
the key, a phase is the last one, and a topic, a bucket or the name of a broker is all that is left.
A namespace is read up to its first slash, wherever it was meant to end. Where namespaces hold no
slash, every key has a text of its own.
-/

namespace RoundTrip

open Text (parts segments_parts parts_ne_nil intercalate_parts parts_of_plain parts_append
  parts_behind)

def StoragePhase.ofText? (text : String) : Option StoragePhase :=
  [.create, .updateMetadata, .archive, .delete].find? fun phase : StoragePhase => phase.text = text

theorem StoragePhase.ofText?_text (phase : StoragePhase) : ofText? phase.text = some phase := by
  cases phase <;> decide

theorem StoragePhase.parts_text (phase : StoragePhase) : parts phase.text = [phase.text] := by
  cases phase <;> exact parts_of_plain (by decide)

def PodPhase.ofText? (text : String) : Option PodPhase :=
  [.create, .update, .delete].find? fun phase : PodPhase => phase.text = text

theorem PodPhase.ofText?_text (phase : PodPhase) : ofText? phase.text = some phase := by
  cases phase <;> decide

theorem PodPhase.parts_text (phase : PodPhase) : parts phase.text = [phase.text] := by
  cases phase <;> exact parts_of_plain (by decide)

namespace Key

/-- The namespace holds no slash, where keys of its kind have one. -/
def Plain : Key → Prop
  | .broker ns _ => '/' ∉ ns.toList
  | .pubsub _ | .storage _ _ | .scheduler | .ping | .pods _ | .audit _ => True

def segments : Key → List String
  | .broker ns name => "broker" :: (parts ns ++ parts name)
  | .pubsub topic => "pubsub" :: parts topic
  | .storage bucket phase => "storage" :: (parts bucket ++ [phase.text])
  | .scheduler => ["scheduler"]
  | .ping => ["ping"]
  | .pods phase => ["apiserver", phase.text]
  | .audit topic => "auditlogs" :: parts topic

theorem parts_text (k : Key) : parts k.text = k.segments := by
  cases k with
  | broker ns name =>
    -- The literal already ends in the slash, so the segment has to be known before it is split off.
    have named : parts ("broker/" ++ ns) = "broker" :: parts ns :=
      parts_behind (by decide) (by decide) ns
    rw [text, segments, parts_append, named, List.cons_append]
  | pubsub topic =>
    rw [text, segments]
    exact parts_behind (by decide) (by decide) topic
  | storage bucket phase =>
    have named : parts ("storage/" ++ bucket) = "storage" :: parts bucket :=
      parts_behind (by decide) (by decide) bucket
    rw [text, segments, parts_append, named, phase.parts_text, List.cons_append]
  | scheduler => exact parts_of_plain (by decide)
  | ping => exact parts_of_plain (by decide)
  | pods phase =>
    rw [text, segments, ← phase.parts_text]
    exact parts_behind (by decide) (by decide) phase.text
  | audit topic =>
    rw [text, segments]
    exact parts_behind (by decide) (by decide) topic

def ofSegments? : List String → Option Key
  | "broker" :: ns :: name => some (.broker ns ("/".intercalate name))
  | "pubsub" :: topic => some (.pubsub ("/".intercalate topic))
  | "storage" :: path =>
    (path.getLast?.bind StoragePhase.ofText?).map (.storage ("/".intercalate path.dropLast))
  | ["scheduler"] => some .scheduler
  | ["ping"] => some .ping
  | ["apiserver", phase] => (PodPhase.ofText? phase).map .pods
  | "auditlogs" :: topic => some (.audit ("/".intercalate topic))
  | _ => none

def ofText? (text : String) : Option Key := ofSegments? (parts text)

/-- The key whose namespace ends at its first slash, and what stood behind it begins the name. -/
def settled : Key → Key
  | .broker ns name =>
    .broker ((parts ns).headD "") ("/".intercalate ((parts ns).tail ++ parts name))
  | k => k

theorem ofText?_text (k : Key) : ofText? k.text = some k.settled := by
  rw [ofText?, parts_text]
  cases k with
  | broker ns name =>
    obtain ⟨first, more, divided⟩ := List.exists_cons_of_ne_nil (parts_ne_nil ns)
    rw [segments, settled, divided]
    rfl
  | pubsub topic =>
    rw [segments, ofSegments?, intercalate_parts]
    rfl
  | storage bucket phase =>
    rw [segments, ofSegments?, List.getLast?_concat, List.dropLast_concat, intercalate_parts,
      Option.bind_some, phase.ofText?_text]
    rfl
  | scheduler => rfl
  | ping => rfl
  | pods phase =>
    rw [segments, ofSegments?, phase.ofText?_text]
    rfl
  | audit topic =>
    rw [segments, ofSegments?, intercalate_parts]
    rfl

theorem text_settled (k : Key) : k.settled.text = k.text := by
  cases k with
  | broker ns name =>
    obtain ⟨first, more, divided⟩ := List.exists_cons_of_ne_nil (parts_ne_nil ns)
    have behind : more ++ parts name ≠ [] :=
      List.append_ne_nil_of_right_ne_nil more (parts_ne_nil name)
    -- The slash behind `first` stays where it is; it only changes sides.
    have same : first ++ "/" ++ "/".intercalate (more ++ parts name) = ns ++ "/" ++ name := by
      calc
        _ = "/".intercalate (parts ns ++ parts name) := by
          rw [divided, List.cons_append, String.intercalate_cons_of_ne_nil behind]
        _ = ns ++ "/" ++ name := by
          rw [← parts_append, intercalate_parts]
    calc
      _ = "broker/" ++ (first ++ "/" ++ "/".intercalate (more ++ parts name)) := by
        rw [settled, divided, text, List.headD_cons, List.tail_cons]
        simp only [String.append_assoc]
      _ = text (.broker ns name) := by
        rw [same, text]
        simp only [String.append_assoc]
  | pubsub | storage | scheduler | ping | pods | audit => rfl

theorem settled_eq_self_iff {k : Key} : k.settled = k ↔ k.Plain := by
  cases k with
  | broker ns name =>
    constructor
    · intro same
      obtain ⟨first, more, divided⟩ := List.exists_cons_of_ne_nil (parts_ne_nil ns)
      rw [settled, divided, List.headD_cons] at same
      obtain ⟨rfl, -⟩ := Key.broker.inj same
      exact (segments_parts _).plain _ (divided ▸ List.mem_cons_self)
    · intro plain
      rw [settled, parts_of_plain plain, List.headD_cons, List.tail_cons, List.nil_append,
        intercalate_parts]
  | pubsub | storage | scheduler | ping | pods | audit => exact iff_of_true rfl trivial

variable {a b : Key}

theorem text_eq_iff : a.text = b.text ↔ a.settled = b.settled := by
  constructor
  · intro same
    rw [← Option.some_inj, ← ofText?_text, same, ofText?_text]
  · intro same
    rw [← text_settled a, same, text_settled]

example : text (.broker "a/b" "c") = text (.broker "a" "b/c") := by decide

/-- Keys whose namespaces hold no slash have a text of their own each, also where a topic, a bucket
or the name of a broker holds slashes, ends like a phase or starts like the text of another key. -/
theorem text_inj_of_plain (plain : a.Plain) (plain' : b.Plain) : a.text = b.text ↔ a = b := by
  rw [text_eq_iff, settled_eq_self_iff.2 plain, settled_eq_self_iff.2 plain']

theorem text_inj_of_plain_nested :
    Plain (.broker "storage" "b/create") ∧ Plain (.storage "b/create" .create) ∧
      (text (.broker "storage" "b/create") = text (.storage "b/create" .create) ↔
        Key.broker "storage" "b/create" = .storage "b/create" .create) := by
  have plain : Plain (.broker "storage" "b/create") := by
    change '/' ∉ "storage".toList
    decide
  exact ⟨plain, trivial, text_inj_of_plain plain trivial⟩

end Key

end RoundTrip
