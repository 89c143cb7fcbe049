import AcademicAgent.CodingAgent.Tools.EditUniqueness
import AcademicAgent.Core.Pieces
import AcademicAgent.Core.Splice
import Mathlib.Algebra.Order.BigOperators.Group.List

/-!
# What an edit leaves as it was

A file is read as pieces: a carriage return with its line feed is one piece, every other code
unit is one.
-/

namespace AcademicAgent

open List

variable {piece : Piece} {m : MatchedEdit}

def endingText : LineEnding → JsString
  | .crlf => [cr, lf]
  | .lf => [lf]

/-- A code unit of normalized text as it is written with a line ending. -/
def writeUnit (ending : LineEnding) (c : CodeUnit) : JsString :=
  if c = lf then endingText ending else [c]

def writtenPiece (ending : LineEnding) (c : CodeUnit) : Piece :=
  match ending with
  | .crlf => if c = lf then .crlf else .unit c
  | .lf => .unit c

section

variable (text : JsString)

theorem normalizeToLF_eq : normalizeToLF text = (pieces text).map Piece.normalized := by
  rw [normalizeToLF]
  fun_induction pieces text with
  | case1 a b rest h ih =>
    have hlf : lf ≠ cr := by decide
    rw [replaceCrlf, if_pos h, map_cons, map_cons, ih, if_neg hlf]
    rfl
  | case2 a b rest h ih =>
    rw [replaceCrlf, if_neg h, map_cons, map_cons, ih]
    rfl
  | case3 a => rfl
  | case4 => rfl

theorem restoreLineEndings_eq (ending : LineEnding) :
    restoreLineEndings text ending = text.flatMap (writeUnit ending) := by
  cases ending with
  | crlf => rfl
  | lf =>
    have hwrite : writeUnit .lf = fun c => [c] := by
      ext c
      rw [writeUnit]
      split
      · rename_i h
        rw [h]
        rfl
      · rfl
    rw [hwrite, restoreLineEndings, flatMap_singleton']

theorem cr_notMem_normalizeToLF : cr ∉ normalizeToLF text := by
  rw [normalizeToLF, mem_map]
  rintro ⟨c, -, hc⟩
  split at hc
  · exact absurd hc (by decide)
  · contradiction

end

theorem writtenPiece_spec (ending : LineEnding) {c : CodeUnit} (hc : c ≠ cr) :
    (writtenPiece ending c).normalized = c ∧ (writtenPiece ending c).text = writeUnit ending c := by
  cases ending with
  | crlf =>
    rw [writtenPiece, writeUnit]
    by_cases h : c = lf
    · rw [if_pos h, if_pos h, h]
      exact ⟨rfl, rfl⟩
    · rw [if_neg h, if_neg h]
      exact ⟨if_neg hc, rfl⟩
  | lf =>
    refine ⟨if_neg hc, ?_⟩
    rw [writeUnit]
    split
    · rename_i h
      rw [h]
      rfl
    · rfl

theorem write_normalized_of_not_isLineEnd (h : ¬ piece.isLineEnd) (ending : LineEnding) :
    writeUnit ending piece.normalized = piece.text := by
  have hne : piece.normalized ≠ lf := h
  rw [writeUnit, if_neg hne]
  cases piece with
  | unit c =>
    have hcr : c ≠ cr := by
      rintro rfl
      exact h rfl
    rw [Piece.normalized, if_neg hcr]
    rfl
  | crlf => exact absurd rfl h

theorem write_normalized_of_isLineEnd (h : piece.isLineEnd) (ending : LineEnding) :
    writeUnit ending piece.normalized = endingText ending := by
  have hlf : piece.normalized = lf := h
  rw [writeUnit, if_pos hlf]

theorem length_write_normalized (ending : LineEnding) (piece : Piece) : match ending with
    | .lf => (writeUnit ending piece.normalized).length ≤ piece.text.length
    | .crlf => piece.text.length ≤ (writeUnit ending piece.normalized).length := by
  by_cases h : piece.isLineEnd
  · rw [write_normalized_of_isLineEnd h]
    cases ending <;> cases piece <;> simp [endingText, Piece.text]
  · rw [write_normalized_of_not_isLineEnd h]
    cases ending <;> exact Nat.le_refl _

theorem flatMap_inj_of_length_le {α β : Type*} {f g : α → List β} {xs : List α}
    (hle : ∀ x ∈ xs, (f x).length ≤ (g x).length) (h : xs.flatMap f = xs.flatMap g) :
    ∀ x ∈ xs, f x = g x := by
  induction xs with
  | nil => exact fun x hx => absurd hx not_mem_nil
  | cons x xs ih =>
    rw [forall_mem_cons] at hle ⊢
    rw [flatMap_cons, flatMap_cons] at h
    have htotal : (xs.flatMap f).length ≤ (xs.flatMap g).length := by
      rw [length_flatMap, length_flatMap]
      exact sum_le_sum hle.2
    have hlength := congrArg length h
    rw [length_append, length_append] at hlength
    have hsame : (f x).length = (g x).length := by
      have := hle.1
      omega
    obtain ⟨hhead, htail⟩ := append_inj h hsame
    exact ⟨hhead, ih hle.2 htail⟩

theorem write_normalized_eq_iff (ending : LineEnding) (ps : List Piece) :
    (ps.map Piece.normalized).flatMap (writeUnit ending) = piecesText ps ↔
      ∀ piece ∈ ps, piece.isLineEnd → piece.text = endingText ending := by
  rw [flatMap_map, piecesText]
  have heach : (∀ piece ∈ ps, writeUnit ending piece.normalized = piece.text) ↔
      ∀ piece ∈ ps, piece.isLineEnd → piece.text = endingText ending := by
    refine forall₂_congr fun piece _ => ?_
    by_cases h : piece.isLineEnd
    · rw [write_normalized_of_isLineEnd h, eq_comm]
      exact ⟨fun htext _ => htext, fun htext => htext h⟩
    · exact iff_of_true (write_normalized_of_not_isLineEnd h ending) fun h' => absurd h' h
  rw [← heach]
  constructor
  · intro h
    cases ending with
    | lf =>
      exact flatMap_inj_of_length_le (fun piece _ => length_write_normalized .lf piece) h
    | crlf =>
      have hsymm := flatMap_inj_of_length_le
        (fun piece _ => length_write_normalized .crlf piece) h.symm
      exact fun piece hpiece => (hsymm piece hpiece).symm
  · intro h
    exact flatMap_congr h

section Edits

variable (nfkc : JsString → JsString)

/-- Every text to find stands in the normalized content as it is. -/
def AllExact (normalizedContent : JsString) (edits : List Edit) : Prop :=
  ∀ edit ∈ edits, (indexOf? (normalizeToLF edit.oldText) normalizedContent).isSome

instance (normalizedContent : JsString) (edits : List Edit) :
    Decidable (AllExact normalizedContent edits) :=
  inferInstanceAs (Decidable (∀ edit ∈ edits, _))

/-- The regions that the edits of a file match, in order. -/
def matchedRegions (content : JsString) (edits : List Edit) : List MatchedEdit :=
  sortMatches (foundEdits nfkc (normalizeToLF content) 0 (edits.map Edit.normalize))

def MatchedEdit.region (m : MatchedEdit) : Region CodeUnit :=
  ⟨m.matchIndex, m.matchLength, m.newText⟩

/-- The region of a found edit with its new text as it is written. -/
def MatchedEdit.writtenRegion (ending : LineEnding) (m : MatchedEdit) : Region Piece :=
  ⟨m.matchIndex, m.matchLength, m.newText.map (writtenPiece ending)⟩

/-- The text of a file in which nothing but the matched regions has changed: the
pieces outside them are the file's own. -/
def editedInPlace (rawContent : JsString) (edits : List Edit) : JsString :=
  let (bom, content) := stripBom rawContent
  bom ++ piecesText (splice (pieces content) 0
    ((matchedRegions nfkc content edits).map
      (MatchedEdit.writtenRegion (detectLineEnding content))))

def untouchedPieces (rawContent : JsString) (edits : List Edit) : List Piece :=
  let content := (stripBom rawContent).2
  outside (pieces content) ((matchedRegions nfkc content edits).map
    (MatchedEdit.writtenRegion (detectLineEnding content)))

variable {nfkc}

section

variable {content : JsString} {edits : List Edit}

theorem baseContentOf_of_allExact (h : AllExact content edits) :
    baseContentOf nfkc content (edits.map Edit.normalize) = content := by
  have hnone : ¬ (edits.map Edit.normalize).any (fun edit =>
      (fuzzyFindText nfkc content edit.oldText).any fun found => found.usedFuzzyMatch) := by
    rw [Bool.not_eq_true, any_eq_false]
    intro edit hedit
    obtain ⟨edit, hmem, rfl⟩ := mem_map.mp hedit
    obtain ⟨found, hfound, hused⟩ := @fuzzyFindText_eq_exact nfkc _ _ (h edit hmem)
    rw [Edit.normalize, hfound, Option.any_some, hused]
    exact Bool.false_ne_true
  rw [baseContentOf, if_neg hnone]

theorem mem_foundEdits {i : Nat} (h : m ∈ foundEdits nfkc content i edits) :
    ∃ edit ∈ edits, ∃ found, fuzzyFindText nfkc content edit.oldText = some found ∧
      m.matchIndex = found.index ∧ m.matchLength = found.matchLength ∧
      m.newText = edit.newText := by
  obtain ⟨⟨edit, j⟩, hmem, hm⟩ := mem_filterMap.mp h
  obtain ⟨found, hfound, rfl⟩ := Option.map_eq_some_iff.mp hm
  exact ⟨edit, fst_mem_of_mem_zipIdx hmem, found, hfound, rfl, rfl, rfl⟩

theorem bounded_of_allExact (h : AllExact content edits)
    (hm : m ∈ foundEdits nfkc content 0 (edits.map Edit.normalize)) :
    m.matchIndex + m.matchLength ≤ content.length := by
  obtain ⟨edit, hedit, found, hfound, hindex, hlength, -⟩ := mem_foundEdits hm
  obtain ⟨edit, hmem, rfl⟩ := mem_map.mp hedit
  obtain ⟨index, hexact⟩ := Option.isSome_iff_exists.mp (h edit hmem)
  rw [Edit.normalize, fuzzyFindText, hexact] at hfound
  cases hfound
  rw [hindex, hlength]
  exact (indexOf?_eq_some hexact).1.add_length_le

theorem cr_notMem_newText (hm : m ∈ matchedRegions nfkc content edits) : cr ∉ m.newText := by
  rw [matchedRegions, sortMatches, mem_mergeSort] at hm
  obtain ⟨edit, hedit, found, -, -, -, hnew⟩ := mem_foundEdits hm
  obtain ⟨edit, -, rfl⟩ := mem_map.mp hedit
  rw [hnew]
  exact cr_notMem_normalizeToLF edit.newText

end

theorem map_writtenRegion (ending : LineEnding) (h : cr ∉ m.newText) :
    (m.writtenRegion ending).map Piece.normalized = m.region := by
  have htext : (m.newText.map (writtenPiece ending)).map Piece.normalized = m.newText := by
    rw [map_map]
    refine (map_congr_left fun c hc => ?_).trans (map_id _)
    exact (writtenPiece_spec ending (ne_of_mem_of_not_mem hc h)).1
  rw [MatchedEdit.writtenRegion, Region.map, htext]
  rfl

theorem writtenRegion_text {ending : LineEnding} (h : cr ∉ m.newText)
    (hpiece : piece ∈ (m.writtenRegion ending).text) :
    piece.isLineEnd → piece.text = endingText ending := by
  obtain ⟨c, hc, rfl⟩ := mem_map.mp hpiece
  obtain ⟨hnormalized, htext⟩ := writtenPiece_spec ending (ne_of_mem_of_not_mem hc h)
  intro hend
  rw [Piece.isLineEnd, hnormalized] at hend
  rw [htext, writeUnit, if_pos hend]

theorem inOrder_matchedRegions {content : JsString} {edits : List Edit}
    (hexact : AllExact (normalizeToLF content) edits)
    (hpasses : PassesOtherChecks nfkc (normalizeToLF content) (edits.map Edit.normalize)) :
    InOrder (normalizeToLF content)
      ((matchedRegions nfkc content edits).map MatchedEdit.region) := by
  have hdisjoint := hpasses.disjoint
  rw [baseContentOf_of_allExact hexact] at hdisjoint
  refine ⟨pairwise_map.mpr hdisjoint, fun r hr => ?_⟩
  obtain ⟨m, hm, rfl⟩ := mem_map.mp hr
  rw [matchedRegions, sortMatches, mem_mergeSort] at hm
  exact bounded_of_allExact hexact hm

section

variable {rawContent path written : JsString} {edits : List Edit}

theorem editFile_of_allExact (hexact : AllExact (normalizeToLF (stripBom rawContent).2) edits)
    (hok : editFile nfkc rawContent edits path = .ok written) :
    written = (stripBom rawContent).1 ++ (splice (normalizeToLF (stripBom rawContent).2) 0
        ((matchedRegions nfkc (stripBom rawContent).2 edits).map MatchedEdit.region)).flatMap
          (writeUnit (detectLineEnding (stripBom rawContent).2)) := by
  rw [editFile] at hok
  generalize stripBom rawContent = stripped at hexact hok ⊢
  obtain ⟨bom, content⟩ := stripped
  split at hok
  · contradiction
  obtain ⟨applied, happlied, hok⟩ := except_bind_eq_ok_iff.mp hok
  obtain ⟨hpasses, -, rfl⟩ := applyEdits_eq_ok_iff.mp happlied
  have hsplice := foldr_eq_splice (inOrder_matchedRegions hexact hpasses)
  have hreplace : replaceMatches (normalizeToLF content) (matchedRegions nfkc content edits) =
      splice (normalizeToLF content) 0
        ((matchedRegions nfkc content edits).map MatchedEdit.region) := by
    rw [← hsplice, foldr_map]
    rfl
  have hwritten := (Except.ok.inj hok).symm
  rw [baseContentOf_of_allExact hexact] at hwritten
  rw [hwritten, restoreLineEndings_eq, ← hreplace]
  rfl

end

end Edits

end AcademicAgent
