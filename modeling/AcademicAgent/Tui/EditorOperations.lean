import AcademicAgent.Tui.EditorEdits

/-!
# Operations that edit the text or move in it

Each of them keeps the cursor in its line, and what was yanked last is before the cursor as
long as the last action says so.
-/

namespace AcademicAgent

open List TextEditor

open AnsiText (TextMetrics visibleWidth)

namespace TextEditor

variable {metrics : TextMetrics} {e : TextEditor}

/-- Everything is in range, and what was yanked last is before the cursor. -/
structure Sound (e : TextEditor) : Prop where
  inRange : e.InRange
  yanked : e.lastAction = some .yank → ∀ text, e.killRing.getLast? = some text → e.Yanked text

theorem InRange.sound_of (h : e.InRange) {action : Option EditorAction}
    (haction : e.lastAction = action) (hne : action ≠ some .yank) : e.Sound :=
  ⟨h, fun hyank => absurd (haction.symm.trans hyank) hne⟩

theorem InRange.withAction (h : e.InRange) (historyIndex : Int) (lastAction : Option EditorAction) :
    ({ e with historyIndex, lastAction } : TextEditor).InRange :=
  ⟨h.state, h.undoStack, h.preferredVisualCol, h.snappedFromCursorCol, h.lastWidth⟩

theorem Sound.withHistory (h : e.Sound) (historyIndex : Int) :
    ({ e with historyIndex } : TextEditor).Sound := ⟨h.inRange.withAction _ _, h.yanked⟩

theorem InRange.quiet (h : e.InRange) : ({ e with lastAction := none } : TextEditor).Sound :=
  ⟨h.withAction _ _, fun hyank => nomatch hyank⟩

theorem lastAction_insertTextAtCursorInternal (e : TextEditor) (text : JsString) :
    (e.insertTextAtCursorInternal text).lastAction = e.lastAction := by
  unfold insertTextAtCursorInternal insertLines
  split
  · rfl
  · split <;> rfl

section Edits

variable (h : e.Sound)
include h

theorem Sound.insertCharacter {char : JsString} (hchar : lf ∉ char) :
    (e.insertCharacter char).Sound := by
  unfold TextEditor.insertCharacter
  extract_lets e₁ e₂ e₃
  have h₁ : e₁.InRange := h.inRange.withAction _ _
  have h₂ : e₂.InRange := by
    dsimp only [e₂]
    split
    · exact h₁.pushUndoSnapshot
    · exact h₁
  have h₃ : e₃.InRange := h₂.withAction _ _
  have hlength := h₃.length_before
  have hlow := h₃.state.cursorCol_nonneg
  refine InRange.sound_of (h₃.setLine ?_ (by omega) ?_) (show _ = some .typeWord from rfl)
    (by decide)
  · exact not_mem_append (not_mem_append (notMem_sliceText h₃.lf_notMem _ _) hchar)
      (notMem_sliceFrom h₃.lf_notMem _)
  · simp only [length_append]
    omega

theorem Sound.handlePaste (pastedText : JsString) : (e.handlePaste pastedText).Sound := by
  unfold TextEditor.handlePaste
  extract_lets e' filteredText pastedLines totalChars pasteId marker
  have he : e'.InRange := (h.inRange.withAction _ _).pushUndoSnapshot
  have hnone : e'.lastAction = none := rfl
  have hpasted : ({ e' with
      pastes := e'.pastes.set pasteId filteredText
      pasteCounter := pasteId } : TextEditor).InRange :=
    ⟨he.state, he.undoStack, he.preferredVisualCol, he.snappedFromCursorCol, he.lastWidth⟩
  split
  · exact (hpasted.insertTextAtCursorInternal marker).sound_of
      ((lastAction_insertTextAtCursorInternal _ _).trans hnone) (by decide)
  · exact (he.insertTextAtCursorInternal filteredText).sound_of
      ((lastAction_insertTextAtCursorInternal _ _).trans hnone) (by decide)

theorem Sound.addNewLine : e.addNewLine.Sound := by
  unfold TextEditor.addNewLine
  extract_lets e' before after
  have he : e'.InRange := (h.inRange.withAction _ _).pushUndoSnapshot
  have hnone : e'.lastAction = none := rfl
  clear_value e'
  have hlt := he.state.cursorLine_lt
  have hfront : (e'.state.lines.take e'.state.cursorLine ++ [before]).length =
      e'.state.cursorLine + 1 := by
    rw [length_append, length_take, length_singleton]
    omega
  have hvalid := @EditorState.valid_split (e'.state.lines.take e'.state.cursorLine ++ [before])
    (e'.state.lines.drop (e'.state.cursorLine + 1)) after 0 (fun line hline => by
      rcases mem_append.mp hline with hline | hline
      · exact he.state.lf_notMem line (mem_of_mem_take hline)
      · rw [mem_singleton.mp hline]
        exact notMem_sliceText he.lf_notMem _ _)
    (notMem_sliceFrom he.lf_notMem _)
    (fun line hline => he.state.lf_notMem line (mem_of_mem_drop hline)) (le_refl 0)
    (Int.natCast_nonneg _)
  rw [hfront, append_assoc] at hvalid
  exact (he.place hvalid).sound_of hnone (by decide)

theorem Sound.setText (text : JsString) : (e.setText text).Sound := by
  unfold TextEditor.setText
  extract_lets e' normalized
  have he : e'.InRange := h.inRange.withAction _ _
  have hnone : e'.lastAction = none := rfl
  split
  · exact (he.pushUndoSnapshot.setTextInternal normalized).sound_of hnone (by decide)
  · exact (he.setTextInternal normalized).sound_of hnone (by decide)

theorem Sound.insertTextAtCursor (text : JsString) : (e.insertTextAtCursor text).Sound := by
  unfold TextEditor.insertTextAtCursor
  split
  · exact h
  · have hreset : ({ e.pushUndoSnapshot with lastAction := none, historyIndex := -1 } :
        TextEditor).InRange := h.inRange.pushUndoSnapshot.withAction _ _
    have hnone : ({ e.pushUndoSnapshot with lastAction := none, historyIndex := -1 } :
        TextEditor).lastAction = none := rfl
    exact (hreset.insertTextAtCursorInternal text).sound_of
      ((lastAction_insertTextAtCursorInternal _ _).trans hnone) (by decide)

theorem Sound.handleBackspace (hsegment : ∀ s, ∀ part ∈ metrics.segment s, part ≠ []) :
    (e.handleBackspace metrics).Sound := by
  unfold TextEditor.handleBackspace
  extract_lets e' graphemeLength
  have he : e'.InRange := h.inRange.withAction _ _
  have hnone : e'.lastAction = none := rfl
  clear_value e'
  split
  · rename_i hpos
    have hlength := he.length_before
    have hcol : e'.state.cursorCol ≤ e'.currentLine.length := he.state.cursorCol_le
    have hle : graphemeLength ≤ (sliceText e'.currentLine 0 e'.state.cursorCol).length :=
      lengthOr_le (segmentsInOrder_segmentWithMarkers hsegment _ _)
        (fun s hs => mem_of_getLast? hs) (by omega)
    have hbefore : ((sliceText e'.currentLine 0 (e'.state.cursorCol - graphemeLength)).length :
        Int) = e'.state.cursorCol - graphemeLength :=
      length_sliceText (by omega) (by omega)
    refine (he.pushUndoSnapshot.setLine ?_ (by omega) ?_).sound_of hnone (by decide)
    · exact not_mem_append (notMem_sliceText he.lf_notMem _ _) (notMem_sliceFrom he.lf_notMem _)
    · rw [length_append]
      omega
  · split
    · rename_i hline
      exact (he.pushUndoSnapshot.mergeWithPrevious hline).sound_of hnone (by decide)
    · exact he.sound_of hnone (by decide)

theorem Sound.handleForwardDelete : (e.handleForwardDelete metrics).Sound := by
  unfold TextEditor.handleForwardDelete
  extract_lets e' graphemeLength
  have he : e'.InRange := h.inRange.withAction _ _
  have hnone : e'.lastAction = none := rfl
  clear_value e'
  split
  · have hlength := he.length_before
    refine (he.pushUndoSnapshot.setCurrentLine ?_ ?_).sound_of hnone (by decide)
    · exact not_mem_append (notMem_sliceText he.lf_notMem _ _) (notMem_sliceFrom he.lf_notMem _)
    · rw [length_append]
      change e'.state.cursorCol ≤ _
      omega
  · split
    · rename_i hline
      exact (he.pushUndoSnapshot.mergeWithNext hline).sound_of hnone (by decide)
    · exact he.sound_of hnone (by decide)

theorem Sound.deleteToStartOfLine : e.deleteToStartOfLine.Sound := by
  unfold TextEditor.deleteToStartOfLine
  extract_lets e'
  have hs : e'.Sound := h.withHistory _
  have he := hs.inRange
  clear_value e'
  split
  · exact ((he.pushUndoSnapshot.kill _ _ _).setLine (notMem_sliceFrom he.lf_notMem _) (le_refl 0)
      (Int.natCast_nonneg _)).sound_of (show _ = some .kill from rfl) (by decide)
  · split
    · rename_i hline
      exact ((he.pushUndoSnapshot.kill _ _ _).mergeWithPrevious hline).sound_of
        (show _ = some .kill from rfl) (by decide)
    · exact hs

theorem Sound.deleteToEndOfLine : e.deleteToEndOfLine.Sound := by
  unfold TextEditor.deleteToEndOfLine
  extract_lets e'
  have hs : e'.Sound := h.withHistory _
  have he := hs.inRange
  clear_value e'
  split
  · exact ((he.pushUndoSnapshot.kill _ _ _).setCurrentLine (notMem_sliceText he.lf_notMem _ _)
      he.length_before.ge).sound_of (show _ = some .kill from rfl) (by decide)
  · split
    · rename_i hline
      exact ((he.pushUndoSnapshot.kill _ _ _).mergeWithNext hline).sound_of
        (show _ = some .kill from rfl) (by decide)
    · exact hs

end Edits

section Words

variable (hsegment : ∀ s, ∀ part ∈ metrics.segment s, part ≠ [])
include hsegment

theorem InRange.moveWordBackwards (h : e.InRange) :
    (e.moveWordBackwards metrics).InRange ∧ (e.moveWordBackwards metrics).lastAction = none ∧
      (e.state.cursorCol ≠ 0 →
        (e.moveWordBackwards metrics).state.cursorCol ≤ e.state.cursorCol) := by
  unfold TextEditor.moveWordBackwards
  extract_lets e' e'' graphemes
  have he : e'.InRange := h.withAction _ _
  have hnone : e'.lastAction = none := rfl
  have hsame : e.state.cursorCol = e'.state.cursorCol := rfl
  rw [hsame]
  clear_value e'
  have hcol := he.state.cursorCol_nonneg
  have hcolLe : e'.state.cursorCol ≤ e'.currentLine.length := he.state.cursorCol_le
  have hlt := he.state.cursorLine_lt
  split
  · rename_i hzero
    split
    · rename_i hline
      exact ⟨he.moveTo (by omega) (Int.natCast_nonneg _) (le_refl _), hnone,
        fun hne => absurd hzero hne⟩
    · exact ⟨he, hnone, fun _ => le_refl _⟩
  · have hlength := he.length_before
    have hsum := sum_wordRun_le (segmentsInOrder_segmentWithMarkers hsegment
      (sliceText e'.currentLine 0 e'.state.cursorCol) (e'.pastes.entries.map Prod.fst))
      (reverse_perm _)
    have hrun : (((wordRun (graphemes.map TextSegment.segment).reverse).map length).sum : Int)
        ≤ e'.state.cursorCol := hlength ▸ Int.ofNat_le.mpr hsum
    refine ⟨he.setCursorCol (by omega) (by omega), hnone, fun _ => ?_⟩
    change e'.state.cursorCol - _ ≤ _
    omega

theorem InRange.moveWordForwards (h : e.InRange) :
    (e.moveWordForwards metrics).InRange ∧ (e.moveWordForwards metrics).lastAction = none ∧
      (e.state.cursorCol < e.currentLine.length →
        e.state.cursorCol ≤ (e.moveWordForwards metrics).state.cursorCol ∧
          (e.moveWordForwards metrics).state.cursorCol ≤ e.currentLine.length) := by
  unfold TextEditor.moveWordForwards
  extract_lets e' segments
  have he : e'.InRange := h.withAction _ _
  have hnone : e'.lastAction = none := rfl
  have hsame : e.state.cursorCol = e'.state.cursorCol := rfl
  have hline : e.currentLine = e'.currentLine := rfl
  rw [hsame, hline]
  clear_value e'
  have hcol := he.state.cursorCol_nonneg
  have hcolLe : e'.state.cursorCol ≤ e'.currentLine.length := he.state.cursorCol_le
  split
  · rename_i hend
    split
    · rename_i hnext
      exact ⟨he.moveTo hnext (le_refl 0) (Int.natCast_nonneg _), hnone,
        fun hinside => absurd hend (not_le.mpr hinside)⟩
    · exact ⟨he, hnone, fun _ => ⟨le_refl _, hcolLe⟩⟩
  · have hlength := he.length_after
    have hsum := sum_wordRun_le (segmentsInOrder_segmentWithMarkers hsegment
      (sliceFrom e'.currentLine e'.state.cursorCol) (e'.pastes.entries.map Prod.fst))
      (List.Perm.refl _)
    have hrun : (((wordRun (segments.map TextSegment.segment)).map length).sum : Int)
        ≤ e'.currentLine.length - e'.state.cursorCol := hlength ▸ Int.ofNat_le.mpr hsum
    refine ⟨he.setCursorCol (by omega) (by omega), hnone, fun _ => ⟨?_, ?_⟩⟩
    · change _ ≤ e'.state.cursorCol + _
      omega
    · change e'.state.cursorCol + _ ≤ _
      omega

variable (h : e.Sound)
include h

theorem Sound.moveWordBackwards : (e.moveWordBackwards metrics).Sound :=
  have hmoved := h.inRange.moveWordBackwards hsegment
  hmoved.1.sound_of hmoved.2.1 (by decide)

theorem Sound.moveWordForwards : (e.moveWordForwards metrics).Sound :=
  have hmoved := h.inRange.moveWordForwards hsegment
  hmoved.1.sound_of hmoved.2.1 (by decide)

theorem Sound.deleteWordBackwards : (e.deleteWordBackwards metrics).Sound := by
  unfold TextEditor.deleteWordBackwards
  extract_lets e' deleteFrom
  have hs : e'.Sound := h.withHistory _
  have he := hs.inRange
  clear_value e'
  split
  · split
    · rename_i hline
      exact ((he.pushUndoSnapshot.kill _ _ _).mergeWithPrevious hline).sound_of
        (show _ = some .kill from rfl) (by decide)
    · exact hs
  · rename_i hne
    obtain ⟨hmoved, -, hback⟩ := he.pushUndoSnapshot.moveWordBackwards hsegment
    have hlow : 0 ≤ deleteFrom := hmoved.state.cursorCol_nonneg
    have hle : deleteFrom ≤ e'.state.cursorCol := hback hne
    have hcolLe : e'.state.cursorCol ≤ e'.currentLine.length := he.state.cursorCol_le
    have hbefore : ((sliceText e'.currentLine 0 deleteFrom).length : Int) = deleteFrom :=
      length_sliceText hlow (by omega)
    refine ((he.pushUndoSnapshot.kill _ _ _).setLine ?_ hlow ?_).sound_of
      (show _ = some .kill from rfl) (by decide)
    · exact not_mem_append (notMem_sliceText he.lf_notMem _ _) (notMem_sliceFrom he.lf_notMem _)
    · rw [length_append]
      omega

omit hsegment in
theorem Sound.deleteWordForward : (e.deleteWordForward metrics).Sound := by
  unfold TextEditor.deleteWordForward
  extract_lets e' deleteTo
  have hs : e'.Sound := h.withHistory _
  have he := hs.inRange
  clear_value e'
  split
  · split
    · rename_i hline
      exact ((he.pushUndoSnapshot.kill _ _ _).mergeWithNext hline).sound_of
        (show _ = some .kill from rfl) (by decide)
    · exact hs
  · have hlength := he.length_before
    refine ((he.pushUndoSnapshot.kill _ _ _).setLine ?_ he.state.cursorCol_nonneg ?_).sound_of
      (show _ = some .kill from rfl) (by decide)
    · exact not_mem_append (notMem_sliceText he.lf_notMem _ _) (notMem_sliceFrom he.lf_notMem _)
    · rw [length_append]
      omega

end Words

theorem InRange.insertYankedText (h : e.InRange) (text : JsString) :
    (e.insertYankedText text).InRange ∧ (e.insertYankedText text).Yanked text :=
  have hreset : ({ e with historyIndex := -1 } : TextEditor).InRange := h.withAction _ _
  ⟨hreset.insertSplit text, hreset.yanked_insertLines text⟩

theorem killRing_insertYankedText (e : TextEditor) (text : JsString) :
    (e.insertYankedText text).killRing = e.killRing := by
  unfold insertYankedText insertLines
  split <;> rfl

theorem killRing_deleteYankedText (e : TextEditor) : e.deleteYankedText.killRing = e.killRing := by
  unfold deleteYankedText
  split
  · rfl
  · split
    · rfl
    · dsimp only
      split <;> rfl

theorem InRange.sound_yanked (h : e.InRange) {text : JsString}
    (hlast : e.killRing.getLast? = some text) :
    ({ e.insertYankedText text with lastAction := some .yank } : TextEditor).Sound := by
  obtain ⟨hrange, hyanked⟩ := h.insertYankedText text
  refine ⟨hrange.withAction _ _, fun _ text' hlast' => ?_⟩
  change (e.insertYankedText text).killRing.getLast? = some text' at hlast'
  rw [killRing_insertYankedText, hlast] at hlast'
  cases hlast'
  exact hyanked

section Yank

variable (h : e.Sound)
include h

theorem Sound.yank : e.yank.Sound := by
  unfold TextEditor.yank
  split
  · exact h
  · rename_i text hlast
    exact h.inRange.pushUndoSnapshot.sound_yanked hlast

theorem Sound.yankPop : e.yankPop.Sound := by
  unfold TextEditor.yankPop
  split
  · exact h
  · rename_i hyank
    extract_lets e₁ e₂
    obtain ⟨haction, hring⟩ := not_or.mp hyank
    have hdeleted : e₁.InRange :=
      h.inRange.pushUndoSnapshot.deleteYankedText (h.yanked (not_not.mp haction))
    have h₂ : e₂.InRange := ⟨hdeleted.state, hdeleted.undoStack, hdeleted.preferredVisualCol,
      hdeleted.snappedFromCursorCol, hdeleted.lastWidth⟩
    have hne : e₂.killRing ≠ [] := by
      change rotateRing e.pushUndoSnapshot.deleteYankedText.killRing ≠ []
      rw [killRing_deleteYankedText]
      change rotateRing e.killRing ≠ []
      unfold rotateRing
      split
      · exact cons_ne_nil _ _
      · rename_i hnone
        rw [getLast?_eq_none_iff] at hnone
        rw [hnone] at hring
        exact absurd (Nat.zero_le 1) hring
    obtain ⟨text, hlast⟩ := Option.ne_none_iff_exists'.mp (mt getLast?_eq_none_iff.mp hne)
    change ({ e₂.insertYankedText (e₂.killRing.getLast?.getD []) with
      lastAction := some .yank } : TextEditor).Sound
    rw [hlast]
    exact h₂.sound_yanked hlast

theorem Sound.undo : e.undo.Sound := by
  unfold TextEditor.undo
  extract_lets e'
  have hs : e'.Sound := h.withHistory _
  have he := hs.inRange
  clear_value e'
  split
  · exact hs
  · rename_i snapshot hlast
    refine ⟨⟨he.undoStack _ (mem_of_getLast? hlast), fun s hmem => ?_,
      fun _ hcol => (nomatch hcol), he.snappedFromCursorCol, he.lastWidth⟩,
      fun hyank => nomatch hyank⟩
    exact he.undoStack s (dropLast_subset _ hmem)

theorem Sound.addToHistory (text : JsString) : (e.addToHistory text).Sound := by
  unfold TextEditor.addToHistory
  extract_lets trimmed
  split
  · exact h
  · exact ⟨⟨h.inRange.state, h.inRange.undoStack, h.inRange.preferredVisualCol,
      h.inRange.snappedFromCursorCol, h.inRange.lastWidth⟩, h.yanked⟩

theorem Sound.navigateHistory (direction : Int) : (e.navigateHistory direction).Sound := by
  unfold TextEditor.navigateHistory
  extract_lets e₁ newIndex e₂ e₃
  have h₁ : e₁.Sound := h.inRange.quiet
  have h₂ : e₂.InRange ∧ e₂.lastAction = none := by
    dsimp only [e₂]
    split
    · exact ⟨h₁.inRange.pushUndoSnapshot, rfl⟩
    · exact ⟨h₁.inRange, rfl⟩
  have h₃ : e₃.InRange := h₂.1.withAction _ _
  split
  · exact h₁
  · split
    · exact (h₃.setTextInternal []).sound_of h₂.2 (by decide)
    · exact (h₃.setTextInternal _).sound_of h₂.2 (by decide)

theorem Sound.submitValue : e.submitValue.Sound := by
  refine ⟨⟨⟨?_, Nat.one_pos, le_refl 0, le_refl 0⟩, fun s hs => (nomatch hs),
    h.inRange.preferredVisualCol, h.inRange.snappedFromCursorCol, h.inRange.lastWidth⟩,
    fun hyank => nomatch hyank⟩
  intro line hline
  rw [mem_singleton.mp hline]
  exact not_mem_nil

theorem Sound.submit (hsegment : ∀ s, ∀ part ∈ metrics.segment s, part ≠ []) :
    (e.submit metrics).Sound := by
  unfold TextEditor.submit
  split
  · exact (h.handleBackspace hsegment).addNewLine
  · exact h.submitValue

theorem Sound.moveToLineStart : e.moveToLineStart.Sound :=
  (h.inRange.quiet.inRange.setCursorCol (le_refl 0) (Int.natCast_nonneg _)).sound_of
    (show _ = none from rfl) (by decide)

theorem Sound.moveToLineEnd : e.moveToLineEnd.Sound :=
  (h.inRange.quiet.inRange.setCursorCol (Int.natCast_nonneg _) (le_refl _)).sound_of
    (show _ = none from rfl) (by decide)

theorem Sound.jumpToChar (char : JsString) (forward : Bool) :
    (e.jumpToChar char forward).Sound := by
  unfold TextEditor.jumpToChar
  extract_lets e' numbered candidates found
  have hs : e'.Sound := h.inRange.quiet
  have hnone : e'.lastAction = none := rfl
  clear_value e'
  cases hfound : found with
  | none => exact hs
  | some place =>
    obtain ⟨⟨line, lineIdx⟩, hmem, hplace⟩ := exists_of_findSome?_eq_some hfound
    obtain ⟨idx, hj, rfl⟩ := Option.map_eq_some_iff.mp hplace
    have hnumbered : (line, lineIdx) ∈ numbered := by
      dsimp only [candidates] at hmem
      split at hmem
      · exact mem_of_mem_drop hmem
      · exact mem_of_mem_take (mem_reverse.mp hmem)
    have hline := mem_zipIdx_iff_getElem?.mp hnumbered
    have hidx : idx ≤ line.length := by
      split at hj
      · exact indexFrom_le hj
      · exact lastIndexFrom_le hj
    refine (hs.inRange.moveTo (List.getElem?_eq_some_iff.mp hline).1 (Int.natCast_nonneg _)
      ?_).sound_of hnone (by decide)
    rw [getD_eq_getElem?_getD, hline]
    exact Int.ofNat_le.mpr hidx

end Yank

end TextEditor

end AcademicAgent
