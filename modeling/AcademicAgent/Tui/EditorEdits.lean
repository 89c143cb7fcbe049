import AcademicAgent.CodingAgent.Tools.Truncate
import AcademicAgent.Tui.VisualLines

/-!
# Edits keep the cursor in its line

The cursor of the editor is on one of its lines, between the start and the end of it, and no
line holds a line feed.
-/

namespace AcademicAgent

open AnsiText (TextMetrics visibleWidth)
open Truncate List

variable {s line : JsString} {cursorLine : Nat} {col : Int}

theorem relativeIndex_eq {length : Nat} {index : Int} (hlow : 0 ≤ index) (hhigh : index ≤ length) :
    relativeIndex length index = index.toNat := by
  rw [relativeIndex, if_neg (by omega)]
  omega

theorem length_sliceText {stop : Int} (hlow : 0 ≤ stop) (hhigh : stop ≤ s.length) :
    ((sliceText s 0 stop).length : Int) = stop := by
  rw [sliceText, relativeIndex_eq hlow hhigh, relativeIndex_eq (le_refl 0) (Int.natCast_nonneg _),
    length_drop, length_take]
  omega

theorem length_sliceFrom {start : Int} (hlow : 0 ≤ start) (hhigh : start ≤ s.length) :
    ((sliceFrom s start).length : Int) = s.length - start := by
  rw [sliceFrom, relativeIndex_eq hlow hhigh, length_drop]
  omega

theorem notMem_sliceText {c : CodeUnit} (h : c ∉ s) (start stop : Int) :
    c ∉ sliceText s start stop := fun hmem => h (mem_of_mem_take (mem_of_mem_drop hmem))

theorem notMem_sliceFrom {c : CodeUnit} (h : c ∉ s) (start : Int) :
    c ∉ sliceFrom s start := fun hmem => h (mem_of_mem_drop hmem)

theorem indexFrom_le {char : JsString} {position : Int} {i : Nat}
    (h : indexFrom s char position = some i) : i ≤ s.length := by
  obtain ⟨n, hn, rfl⟩ := Option.map_eq_some_iff.mp h
  have hle := (indexOf?_eq_some hn).1.add_length_le
  rw [length_drop] at hle
  omega

theorem lastIndexFrom_le {char : JsString} {position : Int} {i : Nat}
    (h : lastIndexFrom s char position = some i) : i ≤ s.length := by
  have hmem := mem_range.mp (mem_of_mem_filter (mem_of_getLast? h))
  omega

theorem lengthOr_le {high : Nat} {segs : List TextSegment} {seg : Option TextSegment}
    (h : SegmentsInOrder high 0 segs) (hseg : ∀ s, seg = some s → s ∈ segs) (hhigh : 0 < high) :
    TextEditor.lengthOr seg ≤ high := by
  cases seg with
  | none => exact hhigh
  | some s =>
    have hbounds := h.mem (hseg s rfl)
    change s.segment.length ≤ high
    omega

theorem wordRun_prefix (segments : List JsString) : wordRun segments <+: segments := by
  unfold wordRun
  dsimp only
  obtain ⟨rest, hrest⟩ :=
    takeWhile_prefix (fun s => !isPasteMarker s && isWhitespaceChar s) (l := segments)
  generalize (segments.takeWhile fun s => !isPasteMarker s && isWhitespaceChar s) = blanks
    at hrest ⊢
  subst hrest
  rw [drop_left, prefix_append_right_inj]
  cases rest with
  | nil => exact prefix_rfl
  | cons first rest =>
    dsimp only
    split
    · exact ⟨rest, rfl⟩
    · split
      all_goals exact takeWhile_prefix _

theorem sum_wordRun_le {high : Nat} {segs : List TextSegment} (h : SegmentsInOrder high 0 segs)
    {parts : List JsString} (hparts : parts.Perm (segs.map TextSegment.segment)) :
    ((wordRun parts).map List.length).sum ≤ high := by
  obtain ⟨rest, hrest⟩ := wordRun_prefix parts
  have hsum := h.sum_le
  have hperm := (hparts.map List.length).sum_nat
  rw [← hrest, map_append, sum_append, map_map] at hperm
  have hsame : (segs.map (List.length ∘ TextSegment.segment)).sum =
      (segs.map fun seg => seg.segment.length).sum := rfl
  omega

/-- The cursor is on one of the lines and inside of it, and no line holds a line feed. -/
structure EditorState.Valid (s : EditorState) : Prop where
  lf_notMem : ∀ line ∈ s.lines, lf ∉ line
  cursorLine_lt : s.cursorLine < s.lines.length
  cursorCol_nonneg : 0 ≤ s.cursorCol
  cursorCol_le : s.cursorCol ≤ (s.lines.getD s.cursorLine []).length

namespace EditorState

variable {s : EditorState}

theorem Valid.lf_notMem_getD (h : s.Valid) (i : Nat) : lf ∉ s.lines.getD i [] := by
  rw [getD_eq_getElem?_getD]
  cases hline : s.lines[i]? with
  | none => exact not_mem_nil
  | some line => exact h.lf_notMem line (mem_of_getElem? hline)

theorem valid_split {front back : List JsString} {line : JsString} {col : Int}
    (hfront : ∀ l ∈ front, lf ∉ l) (hline : lf ∉ line) (hback : ∀ l ∈ back, lf ∉ l)
    (hlow : 0 ≤ col) (hhigh : col ≤ line.length) :
    Valid ⟨front ++ line :: back, front.length, col⟩ := by
  refine ⟨fun l hl => ?_, by simp, hlow, ?_⟩
  · rcases mem_append.mp hl with hl | hl
    · exact hfront l hl
    · rcases mem_cons.mp hl with rfl | hl
      · exact hline
      · exact hback l hl
  · simpa using hhigh

theorem Valid.moveTo (h : s.Valid) (hline : cursorLine < s.lines.length) (hlow : 0 ≤ col)
    (hhigh : col ≤ (s.lines.getD cursorLine []).length) : Valid ⟨s.lines, cursorLine, col⟩ :=
  ⟨h.lf_notMem, hline, hlow, hhigh⟩

theorem Valid.setLine (h : s.Valid) (hline : lf ∉ line) (hlow : 0 ≤ col) (hhigh : col ≤ line.length)
    : Valid ⟨s.lines.set s.cursorLine line, s.cursorLine, col⟩ := by
  refine ⟨fun l hl => ?_, ?_, hlow, ?_⟩
  · rcases mem_or_eq_of_mem_set hl with hl | rfl
    · exact h.lf_notMem l hl
    · exact hline
  · rw [length_set]
    exact h.cursorLine_lt
  · rw [getD_eq_getElem?_getD, getElem?_set_self h.cursorLine_lt]
    exact hhigh

theorem Valid.merge (h : s.Valid) {i : Nat} (hi : i + 1 < s.lines.length) (hline : lf ∉ line)
    (hlow : 0 ≤ col) (hhigh : col ≤ line.length) :
    Valid ⟨(s.lines.set i line).eraseIdx (i + 1), i, col⟩ := by
  refine ⟨fun l hl => ?_, ?_, hlow, ?_⟩
  · rcases mem_or_eq_of_mem_set (mem_of_mem_eraseIdx hl) with hl | rfl
    · exact h.lf_notMem l hl
    · exact hline
  · dsimp only
    rw [length_eraseIdx, length_set, if_pos hi]
    omega
  · rw [getD_eq_getElem?_getD, getElem?_eraseIdx_of_lt (Nat.lt_succ_self i),
      getElem?_set_self (by omega)]
    exact hhigh

end EditorState

namespace TextEditor

variable {metrics : TextMetrics} {e : TextEditor}

/-- Lines and cursor, here and in all snapshots, and columns that are remembered. -/
structure InRange (e : TextEditor) : Prop where
  state : e.state.Valid
  undoStack : ∀ s ∈ e.undoStack, s.Valid
  preferredVisualCol : ∀ col, e.preferredVisualCol = some col → 0 ≤ col
  snappedFromCursorCol : ∀ col, e.snappedFromCursorCol = some col → 0 ≤ col
  lastWidth : 0 < e.lastWidth

namespace InRange

section

variable (h : e.InRange)
include h

theorem lf_notMem : lf ∉ e.currentLine := h.state.lf_notMem_getD _

theorem length_before :
    ((sliceText e.currentLine 0 e.state.cursorCol).length : Int) = e.state.cursorCol :=
  length_sliceText h.state.cursorCol_nonneg h.state.cursorCol_le

theorem length_after : ((sliceFrom e.currentLine e.state.cursorCol).length : Int) =
    e.currentLine.length - e.state.cursorCol :=
  length_sliceFrom h.state.cursorCol_nonneg h.state.cursorCol_le

theorem pushUndoSnapshot : e.pushUndoSnapshot.InRange := by
  refine ⟨h.state, fun s hs => ?_, h.preferredVisualCol, h.snappedFromCursorCol, h.lastWidth⟩
  rcases mem_append.mp hs with hs | hs
  · exact h.undoStack s hs
  · rw [mem_singleton.mp hs]
    exact h.state

section

variable (text : JsString)

theorem kill (prepend accumulate : Bool) : (e.kill text prepend accumulate).InRange :=
  ⟨h.state, h.undoStack, h.preferredVisualCol, h.snappedFromCursorCol, h.lastWidth⟩

theorem place {lines : List JsString} (hvalid : EditorState.Valid ⟨lines, cursorLine, col⟩) :
    (((e.setLines lines).setCursorLine cursorLine).setCursorCol col).InRange :=
  ⟨hvalid, h.undoStack, fun _ hcol => (nomatch hcol), fun _ hcol => (nomatch hcol), h.lastWidth⟩

theorem moveTo (hline : cursorLine < e.state.lines.length) (hlow : 0 ≤ col)
    (hhigh : col ≤ (e.state.lines.getD cursorLine []).length) :
    ((e.setCursorLine cursorLine).setCursorCol col).InRange :=
  h.place (h.state.moveTo hline hlow hhigh)

theorem setCursorCol (hlow : 0 ≤ col) (hhigh : col ≤ e.currentLine.length) :
    (e.setCursorCol col).InRange :=
  h.place (h.state.moveTo h.state.cursorLine_lt hlow hhigh)

theorem setLine (hline : lf ∉ line) (hlow : 0 ≤ col) (hhigh : col ≤ line.length) :
    ((e.setCurrentLine line).setCursorCol col).InRange :=
  h.place (h.state.setLine hline hlow hhigh)

theorem setCurrentLine (hline : lf ∉ line) (hhigh : e.state.cursorCol ≤ line.length)
    : (e.setCurrentLine line).InRange :=
  ⟨h.state.setLine hline h.state.cursorCol_nonneg hhigh, h.undoStack, h.preferredVisualCol,
    h.snappedFromCursorCol, h.lastWidth⟩

theorem mergeWithPrevious (hline : 0 < e.state.cursorLine) : e.mergeWithPrevious.InRange := by
  obtain ⟨i, hi⟩ : ∃ i, e.state.cursorLine = i + 1 := ⟨e.state.cursorLine - 1, by omega⟩
  have hlt := h.state.cursorLine_lt
  have hmerged : lf ∉ e.state.lines.getD i [] ++ e.currentLine :=
    not_mem_append (h.state.lf_notMem_getD i) h.lf_notMem
  unfold TextEditor.mergeWithPrevious
  rw [hi, Nat.add_sub_cancel]
  refine h.place (h.state.merge (by omega) hmerged (Int.natCast_nonneg _) ?_)
  rw [length_append]
  omega

theorem mergeWithNext (hline : e.state.cursorLine + 1 < e.state.lines.length) :
    e.mergeWithNext.InRange := by
  have hle := h.state.cursorCol_le
  refine ⟨h.state.merge hline ?_ h.state.cursorCol_nonneg ?_, h.undoStack, h.preferredVisualCol,
    h.snappedFromCursorCol, h.lastWidth⟩
  · exact not_mem_append h.lf_notMem (h.state.lf_notMem_getD _)
  · rw [length_append]
    unfold currentLine
    omega

theorem insertLines {insertedLines : List JsString}
    (hlines : ∀ line ∈ insertedLines, lf ∉ line) : (e.insertLines insertedLines).InRange := by
  have hbefore := notMem_sliceText h.lf_notMem 0 e.state.cursorCol
  have hafter := notMem_sliceFrom h.lf_notMem e.state.cursorCol
  have hlow := h.state.cursorCol_nonneg
  unfold TextEditor.insertLines
  dsimp only
  split
  · exact h
  · rename_i line
    have hline := hlines line mem_cons_self
    refine h.setLine (not_mem_append (not_mem_append hbefore hline) hafter) (by omega) ?_
    have hlength := h.length_before
    simp only [length_append]
    omega
  · rename_i first second rest
    have hlt := h.state.cursorLine_lt
    obtain ⟨hfirst, hrest⟩ := forall_mem_cons.mp hlines
    have hfront : (e.state.lines.take e.state.cursorLine ++
        (sliceText e.currentLine 0 e.state.cursorCol ++ first) ::
          (second :: rest).dropLast).length = e.state.cursorLine + (second :: rest).length := by
      simp only [length_append, length_take, length_cons, length_dropLast]
      omega
    rw [← cons_append, ← append_assoc, ← hfront]
    refine h.place (EditorState.valid_split ?_ ?_ ?_ (Int.natCast_nonneg _) ?_)
    · intro line hline
      rcases mem_append.mp hline with hline | hline
      · exact h.state.lf_notMem line (mem_of_mem_take hline)
      · rcases mem_cons.mp hline with rfl | hline
        · exact not_mem_append hbefore hfirst
        · exact hrest line (dropLast_subset _ hline)
    · exact not_mem_append (hrest _ (getLast_mem _)) hafter
    · exact fun line hline => h.state.lf_notMem line (mem_of_mem_drop hline)
    · rw [length_append]
      omega

theorem insertSplit : (e.insertLines (splitLines text)).InRange :=
  h.insertLines (separator_notMem_splitOn lf text)

theorem insertTextAtCursorInternal : (e.insertTextAtCursorInternal text).InRange := by
  unfold TextEditor.insertTextAtCursorInternal
  split
  · exact h
  · exact h.insertSplit _

theorem setTextInternal : (e.setTextInternal text).InRange := by
  have hpos := length_pos_iff.mpr (splitLines_ne_nil text)
  exact h.place ⟨separator_notMem_splitOn lf text, Nat.sub_lt hpos Nat.one_pos,
    Int.natCast_nonneg _, le_refl _⟩

end

end

end InRange

/-- The cursor is behind a text: the text fits before it in its line, or its first line fits
in the line where the text starts. -/
def Yanked (e : TextEditor) (text : JsString) : Prop :=
  if (splitLines text).length = 1 then (text.length : Int) ≤ e.state.cursorCol
  else
    (splitLines text).length - 1 ≤ e.state.cursorLine ∧
      ((splitLines text).headD []).length ≤ (e.state.lines.getD
        (e.state.cursorLine - ((splitLines text).length - 1)) []).length

theorem InRange.yanked_insertLines (h : e.InRange) (text : JsString) :
    (e.insertLines (splitLines text)).Yanked text := by
  have hjoin := joinLines_splitLines text
  have hlow := h.state.cursorCol_nonneg
  have hlt := h.state.cursorLine_lt
  unfold Yanked
  cases hsplit : splitLines text with
  | nil => exact absurd hsplit (splitLines_ne_nil text)
  | cons first rest =>
    rw [hsplit] at hjoin
    cases rest with
    | nil =>
      rw [joinLines, intercalate_singleton] at hjoin
      rw [if_pos length_singleton, ← hjoin]
      change (first.length : Int) ≤ e.state.cursorCol + first.length
      omega
    | cons second rest =>
      rw [if_neg (by simp)]
      have hline : e.state.cursorLine + (second :: rest).length -
          ((first :: second :: rest).length - 1) = e.state.cursorLine := by
        simp only [length_cons]
        omega
      have hlines : (e.insertLines (first :: second :: rest)).state.lines.getD
          e.state.cursorLine [] = sliceText e.currentLine 0 e.state.cursorCol ++ first := by
        have hfront : (e.state.lines.take e.state.cursorLine).length = e.state.cursorLine := by
          rw [length_take]
          omega
        change (e.state.lines.take e.state.cursorLine ++ _ :: _).getD e.state.cursorLine [] = _
        rw [getD_eq_getElem?_getD, getElem?_append_right hfront.le, hfront, Nat.sub_self]
        rfl
      refine ⟨?_, ?_⟩
      · change _ ≤ e.state.cursorLine + (second :: rest).length
        rw [length_cons]
        omega
      · change first.length ≤ ((e.insertLines (first :: second :: rest)).state.lines.getD
          (e.state.cursorLine + (second :: rest).length -
            ((first :: second :: rest).length - 1)) []).length
        rw [hline, hlines, length_append]
        omega

theorem InRange.deleteYankedText (h : e.InRange)
    (hyanked : ∀ text, e.killRing.getLast? = some text → e.Yanked text) :
    e.deleteYankedText.InRange := by
  have hafter := notMem_sliceFrom h.lf_notMem e.state.cursorCol
  have hlength := h.length_after
  have hcol := h.state.cursorCol_nonneg
  have hcolLe : e.state.cursorCol ≤ e.currentLine.length := h.state.cursorCol_le
  unfold TextEditor.deleteYankedText
  split
  · exact h
  · rename_i text hlast
    have hfits := hyanked text hlast
    split
    · exact h
    · dsimp only
      unfold Yanked at hfits
      split
      · rename_i hone
        rw [if_pos hone] at hfits
        have hbefore : ((sliceText e.currentLine 0 (e.state.cursorCol - text.length)).length : Int)
            = e.state.cursorCol - text.length := length_sliceText (by omega) (by omega)
        refine h.setLine (not_mem_append (notMem_sliceText h.lf_notMem _ _) hafter) (by omega) ?_
        rw [length_append]
        omega
      · rename_i hmany
        rw [if_neg hmany] at hfits
        obtain ⟨hlines, hfirst⟩ := hfits
        have hlt := h.state.cursorLine_lt
        generalize hstart : e.state.cursorLine - ((splitLines text).length - 1) = startLine
          at hfirst ⊢
        have hfront : (e.state.lines.take startLine).length = startLine := by
          rw [length_take]
          omega
        have hfirstLine := h.state.lf_notMem_getD startLine
        generalize e.state.lines.getD startLine [] = firstLine at hfirst hfirstLine ⊢
        generalize hstartCol : (firstLine.length : Int) - ((splitLines text).headD []).length =
          startCol
        have hbefore : ((sliceText firstLine 0 startCol).length : Int) = startCol :=
          length_sliceText (by omega) (by omega)
        refine h.place ?_
        have hvalid := @EditorState.valid_split (e.state.lines.take startLine)
          (e.state.lines.drop (startLine + (splitLines text).length))
          (sliceText firstLine 0 startCol ++ sliceFrom e.currentLine e.state.cursorCol) startCol
          (fun line hline => h.state.lf_notMem line (mem_of_mem_take hline))
          (not_mem_append (notMem_sliceText hfirstLine _ _) hafter)
          (fun line hline => h.state.lf_notMem line (mem_of_mem_drop hline)) (by omega)
          (by rw [length_append]; omega)
        rwa [hfront] at hvalid

end TextEditor

end AcademicAgent
