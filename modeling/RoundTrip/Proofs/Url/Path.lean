import RoundTrip.Proofs.Result
import RoundTrip.Proofs.Text.Segments
import RoundTrip.Proofs.Url.Escape

namespace RoundTrip.Url

/-- No segment holds a slash. -/
def Divided (names : List String) : Prop := ∀ n ∈ names, '/' ∉ n.toList

namespace Path

def parts (p : Path) : List (List Char) := (Text.splitOn '/' p.text.toList).tail

def IsDivided : Path → Prop
  | .rootless _ => True
  | .segments names => Divided names

theorem toList_text (names : List String) :
    (Path.segments names).text.toList = names.flatMap fun n => '/' :: n.toList := by
  induction names with
  | nil => rfl
  | cons n rest ih =>
    rw [text, List.map_cons, String.join_cons, String.toList_append, List.flatMap_cons, ← ih,
      String.toList_append]
    rfl

theorem parts_segments {names : List String} (h : Divided names) :
    (Path.segments names).parts = names.map String.toList := by
  have split : Text.splitOn '/' (Path.segments names).text.toList =
      [] :: names.map String.toList := by
    rw [toList_text]
    induction names with
    | nil => rfl
    | cons n rest ih =>
      obtain ⟨first, others⟩ := List.forall_mem_cons.1 h
      rw [List.flatMap_cons, List.cons_append, Text.splitOn_cons, Text.splitStep.eq_def, if_pos rfl,
        Text.splitOn_append first, ih others, List.modifyHead_cons, List.append_nil,
        List.map_cons]
  rw [parts, split, List.tail_cons]

end Path

theorem mem_parent {above : List String} {n : String} (h : n ∈ parent above) : n ∈ above := by
  cases above with
  | nil => exact h
  | cons name rest =>
    rw [parent] at h
    split at h
    · exact h
    · exact List.mem_cons_of_mem _ h

theorem mem_resolve {above segments : List String} {n : String} (h : n ∈ resolve above segments) :
    n ∈ above ∨ n ∈ segments ∨ n = "" := by
  fun_induction resolve above segments with
  | case1 above => exact .inl (List.mem_reverse.1 h)
  | case2 above last here =>
    rcases List.mem_cons.1 (List.mem_reverse.1 h) with empty | h
    · exact .inr (.inr empty)
    · exact .inl h
  | case3 above last up =>
    rcases List.mem_cons.1 (List.mem_reverse.1 h) with empty | h
    · exact .inr (.inr empty)
    · exact .inl (mem_parent h)
  | case4 above last undotted =>
    rcases List.mem_cons.1 (List.mem_reverse.1 h) with rfl | h
    · exact .inr (.inl List.mem_cons_self)
    · exact .inl h
  | case5 above segment rest _ here ih =>
    exact (ih h).imp_right (Or.imp_left (List.mem_cons_of_mem _))
  | case6 above segment rest _ up ih =>
    exact (ih h).imp mem_parent (Or.imp_left (List.mem_cons_of_mem _))
  | case7 above segment rest _ undotted ih =>
    rcases ih h with h | h | empty
    · rcases List.mem_cons.1 h with rfl | h
      · exact .inr (.inl List.mem_cons_self)
      · exact .inl h
    · exact .inr (.inl (List.mem_cons_of_mem _ h))
    · exact .inr (.inr empty)

theorem Divided.resolve {above segments : List String} (front : Divided above)
    (back : Divided segments) : Divided (Url.resolve above segments) := by
  intro n hn
  rcases mem_resolve hn with hn | hn | rfl
  · exact front n hn
  · exact back n hn
  · exact List.not_mem_nil

theorem divided_readPath (special : Bool) (cs : List Char) : Divided (readPath special cs) := by
  refine Divided.resolve nofun ?_
  intro n hn
  obtain ⟨part, hpart, rfl⟩ := List.mem_map.1 hn
  rw [String.toList_ofList]
  apply Percent.slash_not_mem_encode
  intro slash
  exact absurd slash (Text.not_mem_of_mem_splitOn hpart)

theorem divided_pathAfterHost (special : Bool) (cs : List Char) :
    (pathAfterHost special cs).IsDivided := by
  have empty : Divided [""] := by
    intro n hn
    rw [List.mem_singleton.1 hn]
    exact List.not_mem_nil
  rw [pathAfterHost.eq_def]
  split
  next =>
    cases special with
    | true => exact empty
    | false => exact nofun
  next =>
    split
    · exact divided_readPath _ _
    · split
      · exact nofun
      · exact divided_readPath _ _

theorem path_of_readAuthority {scheme : String} {cs : List Char} {u : Url}
    (h : readAuthority scheme cs = .ok u) :
    ∃ rest, u.path = pathAfterHost (isSpecial scheme) rest := by
  unfold readAuthority at h
  extract_lets special authority rest at h
  split at h
  replace h := ok_of_unless h
  extract_lets credentials at h
  split at h
  obtain ⟨host, -, h⟩ := bind_eq_ok.1 h
  replace h := ok_of_unless h
  obtain ⟨⟨port, behind⟩, -, h⟩ := bind_eq_ok.1 h
  replace h := ok_of_unless h
  cases h
  exact ⟨_, rfl⟩

theorem divided_readAuthority {scheme : String} {cs : List Char} {u : Url}
    (h : readAuthority scheme cs = .ok u) : u.path.IsDivided := by
  obtain ⟨rest, path⟩ := path_of_readAuthority h
  rw [path]
  exact divided_pathAfterHost _ _

theorem slash_not_mem_driveLetter {names : List String} {drive : String}
    (h : driveLetter? names = some drive) : '/' ∉ drive.toList := by
  rw [driveLetter?] at h
  split at h
  next c d _ =>
    split at h
    next letter =>
      cases h
      rw [isDriveLetter, Bool.and_eq_true] at letter
      rw [String.toList_ofList, List.mem_cons, List.mem_singleton, not_or]
      refine ⟨?_, by decide⟩
      rintro rfl
      exact absurd letter.1 (by decide)
    next => cases h
  next => cases h

theorem Divided.dropEmptyFront {names : List String} (h : Divided names) :
    Divided (Url.dropEmptyFront names) := by
  rw [Url.dropEmptyFront.eq_def]
  split
  next =>
    intro n hn
    rw [List.mem_singleton.1 hn]
    exact List.not_mem_nil
  next =>
    intro n hn
    exact h n ((List.dropWhile_sublist _).subset hn)

theorem divided_finishFile (host : Option Host) (cs : List Char) :
    (finishFile host cs).path.IsDivided := by
  rw [finishFile]
  have names := divided_readPath true (if cs.head?.any (isSlash true) then cs.drop 1 else cs)
  split
  next drive found =>
    intro n hn
    rcases List.mem_cons.1 hn with rfl | hn
    · exact slash_not_mem_driveLetter found
    · exact names n (List.mem_of_mem_drop hn)
  next => exact names.dropEmptyFront

theorem divided_readFile {cs : List Char} {u : Url} (h : readFile cs = .ok u) :
    u.path.IsDivided := by
  rw [readFile.eq_def] at h
  split at h
  · split at h
    · dsimp only at h
      split at h
      · cases h
        exact divided_finishFile _ _
      · split at h
        · cases h
        · cases h
          exact divided_finishFile _ _
    · cases h
      exact divided_finishFile _ _
  · cases h
    exact divided_finishFile _ _

theorem divided_readOther {scheme : String} {cs : List Char} {u : Url}
    (h : readOther scheme cs = .ok u) : u.path.IsDivided := by
  rw [readOther.eq_def] at h
  split at h
  · exact divided_readAuthority h
  · cases h
    exact divided_readPath _ _
  · cases h
    trivial

theorem divided_parse {s : String} {u : Url} (h : parse s = .ok u) : u.path.IsDivided := by
  rw [parse] at h
  split at h
  · cases h
  · split at h
    · exact divided_readFile h
    · split at h
      · exact divided_readAuthority h
      · exact divided_readOther h

end RoundTrip.Url
