import RoundTrip.Proofs.Url.Path
import RoundTrip.Url.Extend

/-!
Segments that are appended to a path. An ordinary one becomes one more segment, and the octets of
that segment are its own; from any other the path does not show what it was.
-/

namespace RoundTrip.Url

open Text.Utf8 (encode encode_eq encode_inj encode_ofList octets)

/-- A text that can be appended as it is: no dot segment, without tabs and line breaks. -/
structure Ordinary (segment : String) : Prop where
  undotted : ¬ (segment = "." ∨ segment = "..")
  unbroken : ∀ c ∈ segment.toList, c ≠ '\t' ∧ c ≠ '\n' ∧ c ≠ '\r'

theorem ordinary_iff {segment : String} : Ordinary segment ↔
    ¬ (segment = "." ∨ segment = "..") ∧
      (segment.toList.all fun c => decide (c ≠ '\t' ∧ c ≠ '\n' ∧ c ≠ '\r')) = true := by
  simp only [List.all_eq_true, decide_eq_true_eq]
  exact ⟨fun h => ⟨h.undotted, h.unbroken⟩, fun h => ⟨h.1, h.2⟩⟩

instance (segment : String) : Decidable (Ordinary segment) := decidable_of_iff _ ordinary_iff.symm

def escapeSegment (special : Bool) (segment : String) : String :=
  String.ofList (Percent.encode
    (if special then Percent.inSpecialSegment else Percent.inSegment) (segmentChars segment))

/-- The root has one segment, an empty one, in whose place the first one goes. -/
def rooted (names : List String) : List String := if names = [""] then [] else names

variable {special : Bool} {names segments : List String} {segment : String}

theorem pushSegment_eq : pushSegment special names segment =
    if segment = "." ∨ segment = ".." then names
    else resolve (rooted names).reverse [escapeSegment special segment] := rfl

theorem decode_escapeSegment :
    Percent.decode (escapeSegment special segment).toList = octets (segmentChars segment) := by
  have escapes : (if special then Percent.inSpecialSegment else Percent.inSegment) '%' = true := by
    cases special <;> rfl
  rw [escapeSegment, String.toList_ofList, Percent.decode_encode escapes]
  rfl

theorem slash_not_mem_escapeSegment : '/' ∉ (escapeSegment special segment).toList := by
  rw [escapeSegment, String.toList_ofList]
  apply Percent.slash_not_mem_encode
  intro _
  cases special <;> rfl

theorem sealed_escapeSegment : Percent.Sealed (escapeSegment true segment).toList := by
  rw [escapeSegment, String.toList_ofList]
  exact Percent.sealed_encode _

theorem segmentChars_eq_iff : segmentChars segment = segment.toList ↔
    ∀ c ∈ segment.toList, c ≠ '\t' ∧ c ≠ '\n' ∧ c ≠ '\r' := by
  rw [segmentChars, List.filter_eq_self]
  simp only [decide_eq_true_eq]

theorem Ordinary.decode (h : Ordinary segment) :
    Percent.decode (escapeSegment special segment).toList = encode segment := by
  rw [decode_escapeSegment, segmentChars_eq_iff.2 h.unbroken, encode_eq]

theorem Ordinary.not_dots (h : Ordinary segment) :
    dots? (escapeSegment special segment) = none := by
  rw [Option.eq_none_iff_forall_ne_some]
  intro d dotted
  apply h.undotted
  have dots : encode "." = [0x2E] ∧ encode ".." = [0x2E, 0x2E] := ⟨rfl, rfl⟩
  have read := decode_of_dots dotted
  rw [h.decode] at read
  exact read.imp (fun one => encode_inj.1 (one.trans dots.1.symm))
    fun two => encode_inj.1 (two.trans dots.2.symm)

theorem Ordinary.escape_ne_empty (h : Ordinary segment) (filled : segment ≠ "") :
    escapeSegment special segment ≠ "" := by
  intro empty
  have read : Percent.decode (escapeSegment special segment).toList = encode segment := h.decode
  rw [empty] at read
  exact filled (encode_inj.1 read.symm)

theorem rooted_of_ne (h : names ≠ [""]) : rooted names = names := if_neg h

theorem pushSegment_ordinary (h : Ordinary segment) (room : names ≠ [""]) :
    pushSegment special names segment = names ++ [escapeSegment special segment] := by
  rw [pushSegment_eq, if_neg h.undotted, rooted_of_ne room, resolve, h.not_dots]
  simp

theorem foldl_ordinary (h : ∀ s ∈ segments, Ordinary s) (room : names ≠ [""])
    (first : names = [] → segments.head? ≠ some "") :
    segments.foldl (pushSegment special) names = names ++ segments.map (escapeSegment special) := by
  induction segments generalizing names with
  | nil => rw [List.foldl_nil, List.map_nil, List.append_nil]
  | cons s rest ih =>
    obtain ⟨ordinary, others⟩ := List.forall_mem_cons.1 h
    have room' : names ++ [escapeSegment special s] ≠ [""] := by
      intro root
      rcases List.append_eq_singleton_iff.1 root with ⟨empty, last⟩ | ⟨_, last⟩
      · have filled : s ≠ "" := fun same => first empty (congrArg some same)
        exact ordinary.escape_ne_empty filled (List.singleton_inj.1 last)
      · cases last
    rw [List.foldl_cons, pushSegment_ordinary ordinary room, ih others room' (by simp),
      List.append_assoc, List.map_cons, List.singleton_append]

theorem pushSegment_rooted (undotted : ¬ (segment = "." ∨ segment = "..")) :
    pushSegment special (rooted names) segment = pushSegment special names segment := by
  rw [pushSegment_eq, pushSegment_eq, if_neg undotted, if_neg undotted]
  by_cases root : names = [""]
  · subst root
    rfl
  · rw [rooted_of_ne root, rooted_of_ne root]

theorem getLast?_resolve (above : List String) (last : String) :
    (resolve above [last]).getLast? = some (if dots? last = none then last else "") := by
  rw [resolve]
  cases dots? last with
  | none => exact List.getLast?_reverse
  | some d =>
    cases d with
    | here => exact List.getLast?_reverse
    | up => exact List.getLast?_reverse

theorem ordinary_of_last {last : String} (undotted : ¬ (segment = "." ∨ segment = ".."))
    (ends : (pushSegment special names segment).getLast? = some last)
    (reads : Percent.decode last.toList = encode segment) : Ordinary segment := by
  refine ⟨undotted, ?_⟩
  rw [pushSegment_eq, if_neg undotted, getLast?_resolve, Option.some_inj] at ends
  rw [← ends] at reads
  split at reads
  next =>
    rw [decode_escapeSegment, ← encode_ofList, encode_inj] at reads
    rw [← segmentChars_eq_iff, ← String.toList_ofList (l := segmentChars segment), reads]
  next =>
    obtain rfl : "" = segment := encode_inj.1 reads
    exact nofun

theorem length_parent (above : List String) : above.length ≤ (parent above).length + 1 := by
  cases above with
  | nil => exact Nat.zero_le _
  | cons name rest =>
    rw [parent]
    split
    · exact Nat.le_succ _
    · exact Nat.le_refl _

theorem ne_root_of_length (long : 2 ≤ names.length) : names ≠ [""] := by
  rintro rfl
  exact absurd long (by decide)

theorem length_le_resolve (above : List String) (last : String) :
    above.length ≤ (resolve above [last]).length := by
  rw [resolve]
  cases dots? last with
  | none =>
    rw [List.length_reverse]
    exact Nat.le_succ _
  | some d =>
    cases d with
    | here =>
      rw [List.length_reverse]
      exact Nat.le_succ _
    | up =>
      rw [List.length_reverse]
      exact length_parent above

theorem two_le_pushSegment (long : 2 ≤ names.length) :
    2 ≤ (pushSegment special names segment).length := by
  rw [pushSegment_eq, rooted_of_ne (ne_root_of_length long)]
  split
  · exact long
  · rw [← List.length_reverse] at long
    exact Nat.le_trans long (length_le_resolve _ _)

theorem Divided.pushSegment (h : Divided names) (special : Bool) (segment : String) :
    Divided (Url.pushSegment special names segment) := by
  rw [pushSegment_eq]
  split
  · exact h
  · refine Divided.resolve ?_ ?_
    · intro n hn
      rw [rooted] at hn
      split at hn
      · cases hn
      · exact h n (List.mem_reverse.1 hn)
    · intro n hn
      rw [List.mem_singleton.1 hn]
      exact slash_not_mem_escapeSegment

theorem Divided.foldl_pushSegment (h : Divided names) (special : Bool) (segments : List String) :
    Divided (segments.foldl (Url.pushSegment special) names) := by
  induction segments generalizing names with
  | nil => exact h
  | cons s rest ih => exact ih (h.pushSegment special s)

theorem Divided.dropEmptyEnd (h : Divided names) : Divided (Url.dropEmptyEnd names) := by
  rw [Url.dropEmptyEnd]
  split
  · exact fun n hn => h n ((List.dropLast_sublist _).subset hn)
  · exact h

/-- The segments that stand before everything that is appended. -/
def stem (names : List String) : List String := rooted (dropEmptyEnd names)

theorem stem_ne_root (names : List String) : stem names ≠ [""] := by
  rw [stem, rooted]
  split
  next => exact nofun
  next room => exact room

theorem foldl_stem {rest : List String} (undotted : ¬ (segment = "." ∨ segment = "..")) :
    (segment :: rest).foldl (pushSegment special) (dropEmptyEnd names) =
      (segment :: rest).foldl (pushSegment special) (stem names) := by
  rw [List.foldl_cons, List.foldl_cons, stem, pushSegment_rooted undotted]

theorem path_extend {u : Url} (path : u.path = .segments names) (segments : List String) :
    (u.extend segments).path =
      .segments (segments.foldl (pushSegment (isSpecial u.scheme)) (dropEmptyEnd names)) := by
  rw [extend, path]

theorem extend_others {u : Url} (segments : List String) :
    u.extend segments = { u with path := (u.extend segments).path } := by
  rw [extend]
  split <;> rfl

end RoundTrip.Url
