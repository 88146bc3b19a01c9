import RoundTrip.Proofs.Text.Lossy
import RoundTrip.Proofs.Text.Segments
import RoundTrip.Proofs.Url.Escape
import RoundTrip.Url.Form

namespace RoundTrip.Url.Form

open Text (splitOn)

def marks : List Char := ['&', '=', '+', '%', ' ']

theorem plain_spec {b : UInt8} (h : isPlain b = true) :
    b.toNat < 0x80 ∧ Char.ofNat b.toNat ∉ marks := by
  have none : (marks.all fun c =>
      !(c.isAlphanum || c == '*' || c == '-' || c == '.' || c == '_')) = true := by
    decide
  simp only [List.all_eq_true, Bool.not_eq_true'] at none
  rw [isPlain, Bool.and_eq_true, decide_eq_true_eq] at h
  refine ⟨UInt8.lt_iff_toNat_lt.1 h.1, ?_⟩
  intro mark
  rw [none _ mark] at h
  cases h.2

theorem escape_not_mark {b : UInt8} {c : Char} (h : c ∈ Percent.encodeByte b) :
    c ∉ ['&', '=', '+'] := by
  have digits : ∀ n < 16, Percent.hexDigit n ∉ ['&', '=', '+'] := by decide
  rcases Percent.mem_encodeByte h with rfl | ⟨n, small, rfl⟩
  · decide
  · exact digits n small

theorem not_mem_encodeByte {c : Char} (separates : c ∈ ['&', '=']) (b : UInt8) :
    c ∉ encodeByte b := by
  obtain ⟨isMark, notPlus, listed⟩ : c ∈ marks ∧ c ≠ '+' ∧ c ∈ ['&', '=', '+'] := by
    rcases List.mem_cons.1 separates with rfl | last
    · decide
    · rw [List.mem_singleton.1 last]
      decide
  intro mem
  rw [encodeByte] at mem
  split at mem
  next plain =>
    rw [List.mem_singleton] at mem
    exact (plain_spec plain).2 (mem ▸ isMark)
  next =>
    split at mem
    · exact notPlus (List.mem_singleton.1 mem)
    · exact escape_not_mark mem listed

theorem not_mem_encode {c : Char} (separates : c ∈ ['&', '=']) (s : String) :
    c ∉ (encode s).toList := by
  rw [encode, String.toList_ofList]
  intro mem
  obtain ⟨b, -, hb⟩ := List.mem_flatMap.1 mem
  exact not_mem_encodeByte separates b hb

theorem decodeComponent_encodeByte (b : UInt8) (rest : List Char) :
    decodeComponent (encodeByte b ++ rest) = b :: decodeComponent rest := by
  rw [decodeComponent, List.map_append, encodeByte]
  split
  next plain =>
    obtain ⟨ascii, notMark⟩ := plain_spec plain
    have number : (Char.ofNat b.toNat).toNat = b.toNat := by
      rw [Char.ofNat, dif_pos (.inl (by omega))]
      rfl
    have notPlus : Char.ofNat b.toNat ≠ '+' := fun same => notMark (same ▸ by decide)
    have notPercent : Char.ofNat b.toNat ≠ '%' := fun same => notMark (same ▸ by decide)
    rw [List.map_singleton, if_neg notPlus, List.singleton_append,
      Percent.decode_cons_of_ne notPercent, Text.Utf8.encodeChar_ascii (by omega), number,
      UInt8.ofNat_toNat]
    rfl
  next =>
    split
    next space =>
      subst space
      exact Percent.decode_cons_of_ne (by decide) _
    next =>
      have kept : (Percent.encodeByte b).map (fun c => if c = '+' then ' ' else c) =
          Percent.encodeByte b := by
        refine (List.map_congr_left ?_).trans (List.map_id _)
        intro c hc
        refine if_neg ?_
        rintro rfl
        exact escape_not_mark hc (by decide)
      rw [kept, Percent.decode_encodeByte_append]
      rfl

theorem decodeComponent_encode (s : String) :
    decodeComponent (encode s).toList = Text.Utf8.encode s := by
  rw [encode, String.toList_ofList]
  induction Text.Utf8.encode s with
  | nil => rfl
  | cons b rest ih => rw [List.flatMap_cons, decodeComponent_encodeByte, ih]

def pairText (pair : String × String) : List Char :=
  (encode pair.1).toList ++ '=' :: (encode pair.2).toList

theorem ampersand_not_mem_pairText (pair : String × String) : '&' ∉ pairText pair := by
  rw [pairText, List.mem_append, List.mem_cons, not_or, not_or]
  exact ⟨not_mem_encode (by decide) _, by decide, not_mem_encode (by decide) _⟩

theorem splitPair_pairText (pair : String × String) :
    splitPair (pairText pair) = ((encode pair.1).toList, (encode pair.2).toList) := by
  have before : ∀ c ∈ (encode pair.1).toList, (decide (c ≠ '=')) = true := by
    intro c hc
    rw [decide_eq_true_eq]
    rintro rfl
    exact not_mem_encode (by decide) _ hc
  rw [splitPair, pairText, List.takeWhile_append_of_pos before, List.dropWhile_append_of_pos before]
  simp

def readPair (part : List Char) : String × String :=
  (Text.Utf8.decodeLossy (decodeComponent (splitPair part).1),
    Text.Utf8.decodeLossy (decodeComponent (splitPair part).2))

theorem readPair_pairText (pair : String × String) : readPair (pairText pair) = pair := by
  rw [readPair, splitPair_pairText, decodeComponent_encode, decodeComponent_encode,
    Text.Utf8.decodeLossy_encode, Text.Utf8.decodeLossy_encode]

theorem decode_eq (query : String) :
    decode query = ((splitOn '&' query.toList).filter fun part => !part.isEmpty).map readPair :=
  rfl

theorem decode_append (query : String) (pair : String × String) :
    decode (append query pair) = decode query ++ [pair] := by
  have single : ((splitOn '&' (pairText pair)).filter fun part => !part.isEmpty).map readPair =
      [pair] := by
    rw [Text.splitOn_of_not_mem (ampersand_not_mem_pairText pair),
      List.filter_cons_of_pos (by simp [pairText]), List.filter_nil, List.map_singleton,
      readPair_pairText]
  rw [decode_eq, decode_eq, append]
  split
  next empty =>
    subst empty
    have written : ("" ++ encode pair.1 ++ "=" ++ encode pair.2).toList = pairText pair := by
      simp [pairText]
    rw [written, single]
    rfl
  next =>
    have written : (query ++ "&" ++ encode pair.1 ++ "=" ++ encode pair.2).toList =
        query.toList ++ '&' :: pairText pair := by
      simp [pairText]
    rw [written, Text.splitOn_append_sep, List.filter_append, List.map_append, single]

theorem decode_foldl_append (query : String) (pairs : List (String × String)) :
    decode (pairs.foldl append query) = decode query ++ pairs := by
  induction pairs generalizing query with
  | nil => rw [List.foldl_nil, List.append_nil]
  | cons pair rest ih =>
    rw [List.foldl_cons, ih, decode_append, List.append_assoc, List.singleton_append]

end RoundTrip.Url.Form
