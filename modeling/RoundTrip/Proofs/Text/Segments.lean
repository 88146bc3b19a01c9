import RoundTrip.Text.Basic

namespace RoundTrip.Text

theorem splitOn_eq (sep : Char) (cs : List Char) : splitOn sep cs = cs.splitOn sep := by
  induction cs with
  | nil => rw [splitOn_nil, List.splitOn_nil]
  | cons c cs ih =>
    rw [splitOn_cons, ih, List.splitOn_cons_eq_if_modifyHead, splitStep.eq_def]
    by_cases hc : c = sep
    · simp [hc]
    · simp only [hc, if_false, beq_iff_eq]
      cases hs : cs.splitOn sep with
      | nil => exact absurd (ih.trans hs) (splitOn_ne_nil sep cs)
      | cons part parts => rfl

theorem not_mem_of_mem_splitOn {sep : Char} {cs part : List Char} (h : part ∈ splitOn sep cs) :
    sep ∉ part := by
  induction cs generalizing part with
  | nil =>
    rw [splitOn_nil, List.mem_singleton] at h
    simp [h]
  | cons c cs ih =>
    rw [splitOn_cons, splitStep.eq_def] at h
    split at h
    next =>
      rcases List.mem_cons.1 h with rfl | h
      · exact List.not_mem_nil
      · exact ih h
    next apart =>
      split at h
      next none_split => exact absurd none_split (splitOn_ne_nil sep cs)
      next first parts hs =>
        rw [hs] at ih
        rcases List.mem_cons.1 h with rfl | h
        · rw [List.mem_cons, not_or]
          exact ⟨Ne.symm apart, ih List.mem_cons_self⟩
        · exact ih (List.mem_cons_of_mem _ h)

theorem splitOn_append {sep : Char} {xs : List Char} (whole : sep ∉ xs) (ys : List Char) :
    splitOn sep (xs ++ ys) = (splitOn sep ys).modifyHead (xs ++ ·) := by
  induction xs with
  | nil =>
    rw [List.nil_append]
    cases splitOn sep ys <;> rfl
  | cons x rest ih =>
    obtain ⟨apart, others⟩ := not_or.1 (mt List.mem_cons.2 whole)
    rw [List.cons_append, splitOn_cons, ih others, splitStep.eq_def, if_neg (Ne.symm apart)]
    cases divided : splitOn sep ys with
    | nil => exact absurd divided (splitOn_ne_nil sep ys)
    | cons part parts => rfl

theorem splitOn_of_not_mem {sep : Char} {cs : List Char} (whole : sep ∉ cs) :
    splitOn sep cs = [cs] := by
  have all := splitOn_append whole []
  rwa [List.append_nil, splitOn_nil, List.modifyHead_cons, List.append_nil] at all

theorem splitOn_append_sep (sep : Char) (xs ys : List Char) :
    splitOn sep (xs ++ sep :: ys) = splitOn sep xs ++ splitOn sep ys := by
  induction xs with
  | nil => rw [List.nil_append, splitOn_cons, splitStep.eq_def, if_pos rfl]; rfl
  | cons x rest ih =>
    rw [List.cons_append, splitOn_cons, splitOn_cons, ih, splitStep.eq_def, splitStep.eq_def]
    split
    · rfl
    · cases divided : splitOn sep rest with
      | nil => exact absurd divided (splitOn_ne_nil sep rest)
      | cons part parts => rfl

/-- The path is these segments with a slash between each two. -/
structure Segments (path : String) (parts : List String) : Prop where
  joined : "/".intercalate parts = path
  plain : ∀ part ∈ parts, '/' ∉ part.toList
  nonempty : parts ≠ []

theorem segments_iff {path : String} {parts : List String} :
    Segments path parts ↔ splitOn '/' path.toList = parts.map String.toList := by
  constructor
  · rintro ⟨rfl, plain, nonempty⟩
    rw [splitOn_eq, String.toList_intercalate]
    refine List.splitOn_intercalate '/' ?_ (by simpa using nonempty)
    intro part hpart
    obtain ⟨s, hs, rfl⟩ := List.mem_map.1 hpart
    exact plain s hs
  · intro split
    refine ⟨?joined, ?plain, ?nonempty⟩
    case joined =>
      rw [← String.toList_inj, String.toList_intercalate, ← split, splitOn_eq]
      exact List.intercalate_splitOn '/'
    case plain =>
      intro part hpart
      have among : part.toList ∈ splitOn '/' path.toList := by
        rw [split]
        exact List.mem_map_of_mem hpart
      exact not_mem_of_mem_splitOn among
    case nonempty =>
      rintro rfl
      exact splitOn_ne_nil _ _ split

def parts (path : String) : List String := (splitOn '/' path.toList).map String.ofList

theorem segments_parts (path : String) : Segments path (parts path) := by
  rw [segments_iff, parts, List.map_map]
  simp [Function.comp_def]

theorem parts_ne_nil (path : String) : parts path ≠ [] := (segments_parts path).nonempty

theorem intercalate_parts (path : String) : "/".intercalate (parts path) = path :=
  (segments_parts path).joined

theorem parts_of_plain {path : String} (plain : '/' ∉ path.toList) : parts path = [path] := by
  rw [parts, splitOn_of_not_mem plain, List.map_singleton, String.ofList_toList]

theorem parts_append (front back : String) :
    parts (front ++ "/" ++ back) = parts front ++ parts back := by
  have slash : (front ++ "/" ++ back).toList = front.toList ++ '/' :: back.toList := by
    rw [String.toList_append, String.toList_append, List.append_assoc]
    rfl
  rw [parts, slash, splitOn_append_sep, List.map_append, parts, parts]

theorem parts_behind {start first : String} (plain : '/' ∉ first.toList)
    (ends : first ++ "/" = start) (rest : String) :
    parts (start ++ rest) = first :: parts rest := by
  rw [← ends, parts_append, parts_of_plain plain, List.singleton_append]

/-- `resource` is the segment right after the first one that is `collection`. -/
def SegmentAfter (path collection resource : String) : Prop :=
  ∃ before after, Segments path (before ++ collection :: resource :: after) ∧ collection ∉ before

def LastSegment (path last : String) : Prop := ∃ before, Segments path (before ++ [last])

end RoundTrip.Text
