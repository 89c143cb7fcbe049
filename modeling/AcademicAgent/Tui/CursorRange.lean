import AcademicAgent.Tui.EditorOperations

/-!
# The cursor of the editor stays in its line

Every operation keeps the cursor in its line, except for a vertical move with a column from
before a snap that the text no longer has.
-/

namespace AcademicAgent

open List
open Option (all_some some.inj)

open AnsiText (TextMetrics visibleWidth)

variable {visualLines : List VisualLine}

namespace TextEditor

variable {metrics : TextMetrics} {e : TextEditor}

theorem InRange.computeVerticalMoveColumn (h : e.InRange) {currentVisualCol : Int}
    (hcol : 0 ≤ currentVisualCol) (sourceMaxVisualCol targetMaxVisualCol : Nat) :
    0 ≤ (e.computeVerticalMoveColumn currentVisualCol sourceMaxVisualCol targetMaxVisualCol).1 ∧
      ∀ col, (e.computeVerticalMoveColumn currentVisualCol sourceMaxVisualCol
        targetMaxVisualCol).2 = some col → 0 ≤ col := by
  unfold TextEditor.computeVerticalMoveColumn
  dsimp only
  split
  · rename_i preferred hpreferred
    have hpreferredCol := h.preferredVisualCol preferred hpreferred
    split_ifs
    · exact ⟨Int.natCast_nonneg _, fun col heq => some.inj heq ▸ hcol⟩
    · exact ⟨hcol, fun col heq => nomatch heq⟩
    · exact ⟨Int.natCast_nonneg _, fun col heq => some.inj heq ▸ hpreferredCol⟩
    · exact ⟨hpreferredCol, fun col heq => nomatch heq⟩
  · split_ifs
    · exact ⟨Int.natCast_nonneg _, fun col heq => some.inj heq ▸ hcol⟩
    · exact ⟨hcol, fun col heq => nomatch heq⟩

theorem landOn_frame (e : TextEditor) (visualLines : List VisualLine) (current target : Nat)
    (currentVL targetVL : VisualLine) :
    (e.landOn visualLines current target currentVL targetVL).state.lines = e.state.lines ∧
      (e.landOn visualLines current target currentVL targetVL).snappedFromCursorCol =
        e.snappedFromCursorCol ∧
      (e.landOn visualLines current target currentVL targetVL).lastAction = e.lastAction :=
  ⟨rfl, rfl, rfl⟩

theorem InRange.landOn (h : e.InRange) {visualLines : List VisualLine} {current target : Nat}
    {currentVL targetVL : VisualLine} {line : JsString}
    (hline : e.state.lines[targetVL.logicalLine]? = some line)
    (hstart : targetVL.startCol ≤ line.length)
    (hcol : 0 ≤ e.currentVisualCol visualLines currentVL) :
    (e.landOn visualLines current target currentVL targetVL).InRange ∧ (targetVL.startCol : Int) ≤
        (e.landOn visualLines current target currentVL targetVL).state.cursorCol := by
  obtain ⟨hmove, hpreferred⟩ := h.computeVerticalMoveColumn hcol
    (maxVisualCol visualLines current currentVL) (maxVisualCol visualLines target targetVL)
  have hget : e.state.lines.getD targetVL.logicalLine [] = line := by
    rw [getD_eq_getElem?_getD, hline]
    rfl
  have hlt := (List.getElem?_eq_some_iff.mp hline).1
  have hbound : (targetVL.startCol : Int) ≤
      (e.landOn visualLines current target currentVL targetVL).state.cursorCol := by
    unfold TextEditor.landOn
    dsimp only
    rw [hget]
    omega
  refine ⟨⟨h.state.moveTo hlt ?_ ?_, h.undoStack, hpreferred, h.snappedFromCursorCol,
    h.lastWidth⟩, hbound⟩
  · exact (Int.natCast_nonneg _).trans hbound
  · exact min_le_right _ _

theorem snapSegment_eq_some {segments : List TextSegment} {col : Int} {seg : TextSegment}
    (h : snapSegment segments col = some seg) :
    seg ∈ segments ∧ (seg.index : Int) ≤ col ∧ col < seg.index + seg.segment.length := by
  unfold snapSegment at h
  have hfound := find?_some h
  have hmem := mem_of_find?_eq_some h
  have hindex := mem_takeWhile_imp hmem
  rw [decide_eq_true_eq] at hfound hindex
  exact ⟨( takeWhile_prefix _).subset hmem, hindex, hfound.2⟩

/-- A visual line does not start inside of a segment. -/
def BeginsOutside (metrics : TextMetrics) (e : TextEditor) (vl : VisualLine) : Prop :=
  ∀ seg ∈ e.segment metrics (e.state.lines.getD vl.logicalLine []),
    ¬ (seg.index < vl.startCol ∧ vl.startCol < seg.index + seg.segment.length)

theorem skipContinuation_startCol {target segEnd : Nat} {targetVL next : VisualLine}
    (hchain : visualLines.IsChain VisualLine.Follows)
    (htarget : visualLines[target]? = some targetVL)
    (hnext : visualLines[skipContinuation visualLines target targetVL segEnd]? = some next) :
    targetVL.startCol ≤ next.startCol ∨ next.startCol = 0 := by
  obtain ⟨hlt, hget⟩ := List.getElem?_eq_some_iff.mp htarget
  have hdrop := drop_eq_getElem_cons hlt
  rw [hget] at hdrop
  have hbehind := hchain.drop target
  rw [hdrop] at hbehind
  rw [skipContinuation, ← getElem?_drop] at hnext
  exact VisualLine.startCol_skip hbehind (fun v hv => (of_decide_eq_true hv).1) hnext

theorem currentVisualCol_nonneg_of_snapped {landed : TextEditor} {currentVL : VisualLine}
    (hsnapped : landed.snappedFromCursorCol = e.snappedFromCursorCol)
    (hcol : 0 ≤ e.currentVisualCol visualLines currentVL)
    (hle : landed.snappedFromCursorCol = none → (currentVL.startCol : Int) ≤ landed.state.cursorCol)
    : 0 ≤ landed.currentVisualCol visualLines currentVL := by
  unfold currentVisualCol at hcol ⊢
  split
  · rename_i col hlanded
    rw [← hsnapped, hlanded] at hcol
    exact hcol
  · rename_i hlanded
    have hstart := hle hlanded
    omega

theorem InRange.moveToVisualLine (hsegment : ∀ s, ∀ part ∈ metrics.segment s, part ≠ [])
    {current : Nat} (fuel : Nat) {target : Nat} (h : e.InRange)
    (hmap : VisualLine.MapOf 0 e.state.lines visualLines)
    (hcol : ∀ currentVL, visualLines[current]? = some currentVL → 0 ≤ e.currentVisualCol visualLines currentVL)
    (hdown : current < target → ∀ currentVL targetVL, visualLines[current]? = some currentVL → visualLines[target]? = some targetVL → e.snappedFromCursorCol ≠ none ∨ currentVL.startCol ≤ targetVL.startCol ∨ e.BeginsOutside metrics targetVL)
    : (TextEditor.moveToVisualLine metrics visualLines current fuel e target).InRange ∧
      (TextEditor.moveToVisualLine metrics visualLines current fuel e target).lastAction =
        e.lastAction := by
  induction fuel generalizing e target with
  | zero => exact ⟨h, rfl⟩
  | succ fuel ih =>
    rw [TextEditor.moveToVisualLine]
    split
    · rename_i currentVL targetVL hcurrent htarget
      obtain ⟨i, line, hi, hline, hstart⟩ := hmap.mem (mem_of_getElem? htarget)
      rw [Nat.zero_add] at hi
      rw [← hi] at hline
      have hcurrentCol := hcol currentVL hcurrent
      obtain ⟨hlanded, hbehind⟩ :=
        @InRange.landOn e h visualLines current target currentVL targetVL line hline hstart
          hcurrentCol
      obtain ⟨hlines, hsnapped, haction⟩ :=
        landOn_frame e visualLines current target currentVL targetVL
      have hsame : (e.landOn visualLines current target currentVL targetVL).BeginsOutside metrics
        targetVL ↔ e.BeginsOutside metrics targetVL := Iff.rfl
      have hlandedLine : (e.landOn visualLines current target currentVL targetVL).currentLine =
        (e.landOn visualLines current target currentVL targetVL).state.lines.getD
          targetVL.logicalLine [] := rfl
      dsimp only
      generalize e.landOn visualLines current target currentVL targetVL = landed
        at hlanded hbehind hlines hsnapped haction hsame hlandedLine
      split
      · exact ⟨⟨hlanded.state, hlanded.undoStack, hlanded.preferredVisualCol,
          fun _ heq => (nomatch heq), hlanded.lastWidth⟩, haction⟩
      · rename_i seg hseg
        obtain ⟨hmem, hindex, hend⟩ := snapSegment_eq_some hseg
        split
        · rename_i hskip
          obtain ⟨hcontinues, hlt, hnextLt⟩ := hskip
          have hnone : landed.snappedFromCursorCol = none →
              currentVL.startCol ≤ targetVL.startCol := by
            intro hnone
            rcases hdown hlt currentVL targetVL hcurrent htarget with hsome | hle | houtside
            · exact absurd (hsnapped ▸ hnone) hsome
            · exact hle
            · refine absurd ⟨hcontinues, ?_⟩ (hsame.mpr houtside seg (hlandedLine ▸ hmem))
              omega
          have hcol' : ∀ currentVL', visualLines[current]? = some currentVL' →
              0 ≤ landed.currentVisualCol visualLines currentVL' := by
            intro currentVL' hcurrent'
            rw [hcurrent] at hcurrent'
            cases hcurrent'
            refine currentVisualCol_nonneg_of_snapped hsnapped hcurrentCol fun hnotSnapped => ?_
            have hle := hnone hnotSnapped
            omega
          obtain ⟨hrange, hlast⟩ := ih hlanded (hlines ▸ hmap) hcol' (by
            intro _ currentVL' nextVL hcurrent' hnext
            rw [hcurrent] at hcurrent'
            cases hcurrent'
            by_cases hsnap : landed.snappedFromCursorCol = none
            · have hle := hnone hsnap
              rcases skipContinuation_startCol hmap.isChain htarget hnext with hbefore | hzero
              · exact .inr (.inl (hle.trans hbefore))
              · refine .inr (.inr fun seg' _ hinside => ?_)
                omega
            · exact .inl hsnap)
          exact ⟨hrange, hlast.trans haction⟩
        · have hbounds := (segmentsInOrder_segmentWithMarkers hsegment landed.currentLine
            (landed.pastes.entries.map Prod.fst)).mem hmem
          refine ⟨⟨hlanded.state.moveTo hlanded.state.cursorLine_lt (Int.natCast_nonneg _) ?_,
            hlanded.undoStack, hlanded.preferredVisualCol, fun col heq => ?_,
            hlanded.lastWidth⟩, haction⟩
          · change (seg.index : Int) ≤ landed.currentLine.length
            omega
          · cases heq
            exact hlanded.state.cursorCol_nonneg
    · exact ⟨h, rfl⟩

section

variable (metrics : TextMetrics) (e : TextEditor)

/-- The column from before a snap is still in the line, or the last visual line, which stands
for a column that is on none, does not start behind it. -/
def snapFits : Bool :=
  e.snappedFromCursorCol.all fun (col : Int) =>
    decide (col ≤ e.currentLine.length) ||
      (e.buildVisualLineMap metrics).all fun visualLines =>
        visualLines.getLast?.all fun last => decide (last.startCol ≤ col)

/-- A page down goes to a visual line that starts no further left than the current one, or
does not start inside of a segment. -/
def pageFits (pageSize : Nat) : Bool :=
  (e.buildVisualLineMap metrics).all fun visualLines =>
    (visualLines[e.findCurrentVisualLine visualLines]?).all fun currentVL =>
      (visualLines[e.pageTarget visualLines true pageSize]?).all fun targetVL =>
        e.snappedFromCursorCol.isSome || decide (currentVL.startCol ≤ targetVL.startCol) ||
          (e.segment metrics (e.state.lines.getD targetVL.logicalLine [])).all fun seg =>
            decide (¬ (seg.index < targetVL.startCol ∧
              targetVL.startCol < seg.index + seg.segment.length))

/-- A character is no line feed, and a vertical move finds the column that it starts from. -/
def keeps : Operation → Bool
  | .insertCharacter char => decide (lf ∉ char)
  | .cursorUp => e.isOnFirstVisualLine metrics != some false || e.snapFits metrics
  | .cursorDown => e.isOnLastVisualLine metrics != some false || e.snapFits metrics
  | .pageScroll down pageSize => e.snapFits metrics && (!down || e.pageFits metrics pageSize)
  | _ => true

end

section

variable (e : TextEditor)

theorem visualLinesFrom_quiet (width logicalLine : Nat) (lines : List JsString) :
    ({ e with lastAction := none } : TextEditor).visualLinesFrom metrics width logicalLine lines =
      e.visualLinesFrom metrics width logicalLine lines := by
  induction lines generalizing logicalLine with
  | nil => rfl
  | cons line lines ih =>
    rw [visualLinesFrom, visualLinesFrom, ih]
    rfl

theorem snapFits_quiet :
    ({ e with lastAction := none } : TextEditor).snapFits metrics = e.snapFits metrics := by
  unfold snapFits buildVisualLineMap
  rw [visualLinesFrom_quiet]
  rfl

theorem pageFits_quiet (pageSize : Nat) :
    ({ e with lastAction := none } : TextEditor).pageFits metrics pageSize =
      e.pageFits metrics pageSize := by
  unfold pageFits buildVisualLineMap
  rw [visualLinesFrom_quiet]
  rfl

end

section Moves

variable (hsegment : ∀ s, ∀ part ∈ metrics.segment s, part ≠ [])
include hsegment

section

variable (h : e.InRange) (hmap : e.buildVisualLineMap metrics = some visualLines)
include h hmap

theorem InRange.mapOf_buildVisualLineMap : VisualLine.MapOf 0 e.state.lines visualLines :=
  mapOf_visualLinesFrom hsegment h.lastWidth hmap

theorem InRange.findCurrentVisualLine :
    ∃ vl, visualLines[e.findCurrentVisualLine visualLines]? = some vl ∧
      vl.logicalLine = e.state.cursorLine ∧ (vl.startCol : Int) ≤ e.state.cursorCol := by
  have hline := getElem?_eq_getElem h.state.cursorLine_lt
  refine (h.mapOf_buildVisualLineMap hsegment hmap).findVisualLineAt hline
    h.state.cursorCol_nonneg ?_
  have hle := h.state.cursorCol_le
  rwa [getD_eq_getElem?_getD, hline] at hle

theorem InRange.currentVisualCol_nonneg (hfits : e.snapFits metrics = true) {currentVL : VisualLine}
    (hcurrent : visualLines[e.findCurrentVisualLine visualLines]? = some currentVL) :
    0 ≤ e.currentVisualCol visualLines currentVL := by
  obtain ⟨vl, hvl, hline, hstart⟩ := h.findCurrentVisualLine hsegment hmap
  rw [hcurrent] at hvl
  cases hvl
  unfold currentVisualCol
  dsimp only
  split
  · rename_i col hsnapped
    rw [snapFits, hsnapped, all_some, Bool.or_eq_true, decide_eq_true_eq, hmap,
      all_some] at hfits
    have hmapOf := h.mapOf_buildVisualLineMap hsegment hmap
    rw [hline]
    cases hfound : findVisualLine e.state.cursorLine col visualLines with
    | some i =>
      obtain ⟨vl, hvl, -, hle⟩ := findVisualLine_eq_some hfound
      rw [findVisualLineAt, hfound, Option.getD_some, hvl]
      change 0 ≤ col - (vl.startCol : Int)
      omega
    | none =>
      rw [findVisualLineAt, hfound, Option.getD_none, ← getLast?_eq_getElem?]
      rcases hfits with hinside | hlast
      · have hget := getElem?_eq_getElem h.state.cursorLine_lt
        have hsome := hmapOf.findVisualLine_isSome hget (h.snappedFromCursorCol col hsnapped) (by
          unfold currentLine at hinside
          rwa [getD_eq_getElem?_getD, hget] at hinside)
        rw [Nat.zero_add, hfound] at hsome
        cases hsome
      · cases hlastVL : visualLines.getLast? with
        | none =>
          have hcol := h.snappedFromCursorCol col hsnapped
          change 0 ≤ col - 0
          omega
        | some last =>
          rw [hlastVL, all_some, decide_eq_true_eq] at hlast
          change 0 ≤ col - (last.startCol : Int)
          omega
  · omega

end

theorem InRange.sound_moveToVisualLine (h : e.InRange) (haction : e.lastAction = none)
    (hmap : e.buildVisualLineMap metrics = some visualLines) (hfits : e.snapFits metrics = true)
    (fuel : Nat) {target : Nat}
    (hdown : e.findCurrentVisualLine visualLines < target → ∀ currentVL targetVL, visualLines[e.findCurrentVisualLine visualLines]? = some currentVL → visualLines[target]? = some targetVL → e.snappedFromCursorCol ≠ none ∨ currentVL.startCol ≤ targetVL.startCol ∨ e.BeginsOutside metrics targetVL)
    : (TextEditor.moveToVisualLine metrics visualLines (e.findCurrentVisualLine visualLines) fuel e
      target).Sound := by
  obtain ⟨hrange, hlast⟩ := h.moveToVisualLine hsegment fuel
    (h.mapOf_buildVisualLineMap hsegment hmap)
    (fun currentVL hcurrent => h.currentVisualCol_nonneg hsegment hmap hfits hcurrent) hdown
  exact hrange.sound_of (hlast.trans haction) (by decide)

variable (h : e.Sound)
include h

theorem Sound.moveCursorVertically (hfits : e.snapFits metrics = true) {deltaLine : Int}
    (hdelta : deltaLine ≤ 1) : (e.moveCursorVertically metrics deltaLine).Sound := by
  unfold TextEditor.moveCursorVertically
  extract_lets e'
  have hs : e'.Sound := h.inRange.quiet
  have hnone : e'.lastAction = none := rfl
  have hfits' : e'.snapFits metrics = true := (snapFits_quiet e).trans hfits
  clear_value e'
  split
  · exact hs
  · rename_i visualLines hmap
    extract_lets current target
    split
    · rename_i hinside
      have hmapOf := hs.inRange.mapOf_buildVisualLineMap hsegment hmap
      refine hs.inRange.sound_moveToVisualLine hsegment hnone hmap hfits' _ ?_
      intro hlt currentVL targetVL hcurrent htarget
      have htargetEq : target.toNat = current + 1 := by
        omega
      rw [htargetEq] at htarget
      have hfollows := isChain_iff_getElem.mp hmapOf.isChain current
        (List.getElem?_eq_some_iff.mp htarget).1
      rw [(List.getElem?_eq_some_iff.mp hcurrent).2,
        (List.getElem?_eq_some_iff.mp htarget).2] at hfollows
      rcases hfollows with ⟨-, hle⟩ | ⟨-, hzero⟩
      · exact .inr (.inl hle)
      · refine .inr (.inr fun seg _ hspans => ?_)
        omega
    · exact hs

theorem Sound.pageScroll (hfits : e.snapFits metrics = true) {down : Bool} {pageSize : Nat}
    (hpage : down = true → e.pageFits metrics pageSize = true) :
    (e.pageScroll metrics down pageSize).Sound := by
  unfold TextEditor.pageScroll
  extract_lets e'
  have hs : e'.Sound := h.inRange.quiet
  have hnone : e'.lastAction = none := rfl
  have hfits' : e'.snapFits metrics = true := (snapFits_quiet e).trans hfits
  have hpage' : down = true → e'.pageFits metrics pageSize = true := fun hdown =>
    (pageFits_quiet e pageSize).trans (hpage hdown)
  clear_value e'
  split
  · exact hs
  · rename_i visualLines hmap
    refine hs.inRange.sound_moveToVisualLine hsegment hnone hmap hfits' _ ?_
    intro hlt currentVL targetVL hcurrent htarget
    cases down with
    | false =>
      have hup : e'.pageTarget visualLines false pageSize ≤
          e'.findCurrentVisualLine visualLines := Nat.sub_le _ _
      omega
    | true =>
      have hpage := hpage' rfl
      rw [pageFits, hmap, all_some, hcurrent, all_some, htarget, all_some,
        Bool.or_eq_true, Bool.or_eq_true, decide_eq_true_eq, all_eq_true] at hpage
      rcases hpage with (hsome | hle) | houtside
      · refine .inl fun hnotSnapped => ?_
        rw [hnotSnapped] at hsome
        cases hsome
      · exact .inr (.inl hle)
      · exact .inr (.inr fun seg hseg => of_decide_eq_true (houtside seg hseg))

theorem Sound.moveCursorLeft : (e.moveCursorLeft metrics).Sound := by
  unfold TextEditor.moveCursorLeft
  extract_lets e' e''
  have hs : e'.Sound := h.inRange.quiet
  have hnone : e'.lastAction = none := rfl
  have he := hs.inRange
  clear_value e'
  have hlt := he.state.cursorLine_lt
  have hcolLe : e'.state.cursorCol ≤ e'.currentLine.length := he.state.cursorCol_le
  split
  · exact hs
  · split
    · rename_i hpos
      have hlength := he.length_before
      have hle := @lengthOr_le _ _ (e'.segment metrics
          (sliceText e'.currentLine 0 e'.state.cursorCol)).getLast?
        (segmentsInOrder_segmentWithMarkers hsegment
          (sliceText e'.currentLine 0 e'.state.cursorCol) (e'.pastes.entries.map Prod.fst))
        (fun s hmem => mem_of_getLast? hmem) (by omega)
      exact (he.setCursorCol (by omega) (by omega)).sound_of hnone (by decide)
    · split
      · exact (he.moveTo (by omega) (Int.natCast_nonneg _) (le_refl _)).sound_of hnone (by decide)
      · exact hs

theorem Sound.moveCursorRight : (e.moveCursorRight metrics).Sound := by
  unfold TextEditor.moveCursorRight
  extract_lets e'
  have hs : e'.Sound := h.inRange.quiet
  have hnone : e'.lastAction = none := rfl
  have he := hs.inRange
  clear_value e'
  have hcol := he.state.cursorCol_nonneg
  split
  · exact hs
  · rename_i visualLines hmap
    split
    · have hlength := he.length_after
      have hle := @lengthOr_le _ _ (e'.segment metrics
          (sliceFrom e'.currentLine e'.state.cursorCol)).head?
        (segmentsInOrder_segmentWithMarkers hsegment
          (sliceFrom e'.currentLine e'.state.cursorCol) (e'.pastes.entries.map Prod.fst))
        (fun s hmem => mem_of_head? hmem) (by omega)
      exact (he.setCursorCol (by omega) (by omega)).sound_of hnone (by decide)
    · split
      · rename_i hnext
        exact (he.moveTo hnext (le_refl 0) (Int.natCast_nonneg _)).sound_of hnone (by decide)
      · obtain ⟨vl, hvl, -, hstart⟩ := he.findCurrentVisualLine hsegment hmap
        rw [hvl]
        have hpreferred : (0 : Int) ≤ e'.state.cursorCol - vl.startCol := by omega
        exact ⟨⟨he.state, he.undoStack, fun _ heq => some.inj heq ▸ hpreferred,
          he.snappedFromCursorCol, he.lastWidth⟩, hs.yanked⟩

theorem Sound.cursorUp (hkeeps : e.keeps metrics .cursorUp = true) :
    (e.cursorUp metrics).Sound := by
  unfold TextEditor.cursorUp
  split
  · exact h.navigateHistory _
  · split
    · exact h
    · split
      · exact h.navigateHistory _
      · exact h.moveToLineStart
    · rename_i hfirst
      rw [keeps, hfirst] at hkeeps
      exact h.moveCursorVertically hsegment hkeeps (by decide)

theorem Sound.cursorDown (hkeeps : e.keeps metrics .cursorDown = true) :
    (e.cursorDown metrics).Sound := by
  unfold TextEditor.cursorDown
  split
  · exact h
  · split
    · exact h.navigateHistory _
    · exact h.moveToLineEnd
  · rename_i hlast
    rw [keeps, hlast] at hkeeps
    exact h.moveCursorVertically hsegment hkeeps (le_refl 1)

theorem Sound.apply {operation : Operation} (hkeeps : e.keeps metrics operation = true) :
    (e.apply metrics operation).Sound := by
  cases operation with
  | insertCharacter char => exact h.insertCharacter (of_decide_eq_true hkeeps)
  | handlePaste text => exact h.handlePaste text
  | addNewLine => exact h.addNewLine
  | submit => exact h.submit hsegment
  | submitValue => exact h.submitValue
  | handleBackspace => exact h.handleBackspace hsegment
  | handleForwardDelete => exact h.handleForwardDelete
  | deleteToStartOfLine => exact h.deleteToStartOfLine
  | deleteToEndOfLine => exact h.deleteToEndOfLine
  | deleteWordBackwards => exact h.deleteWordBackwards hsegment
  | deleteWordForward => exact h.deleteWordForward
  | moveToLineStart => exact h.moveToLineStart
  | moveToLineEnd => exact h.moveToLineEnd
  | moveWordBackwards => exact h.moveWordBackwards hsegment
  | moveWordForwards => exact h.moveWordForwards hsegment
  | cursorLeft => exact h.moveCursorLeft hsegment
  | cursorRight => exact h.moveCursorRight hsegment
  | cursorUp => exact h.cursorUp hsegment hkeeps
  | cursorDown => exact h.cursorDown hsegment hkeeps
  | pageScroll down pageSize =>
    rw [keeps, Bool.and_eq_true, Bool.or_eq_true] at hkeeps
    refine h.pageScroll hsegment hkeeps.1 fun hdown => ?_
    rcases hkeeps.2 with hup | hpage
    · rw [hdown] at hup
      cases hup
    · exact hpage
  | jumpToChar char forward => exact h.jumpToChar char forward
  | undo => exact h.undo
  | yank => exact h.yank
  | yankPop => exact h.yankPop
  | setText text => exact h.setText text
  | insertTextAtCursor text => exact h.insertTextAtCursor text
  | addToHistory text => exact h.addToHistory text
  | render width padding =>
    refine ⟨⟨h.inRange.state, h.inRange.undoStack, h.inRange.preferredVisualCol,
      h.inRange.snappedFromCursorCol, ?_⟩, h.yanked⟩
    change 0 < layoutWidth width padding
    unfold layoutWidth
    exact Int.lt_toNat.mpr (Int.lt_of_lt_of_le Int.one_pos (le_max_left _ _))

end Moves

theorem sound_new : ({} : TextEditor).Sound := by
  refine ⟨⟨⟨?_, Nat.one_pos, le_refl 0, le_refl 0⟩, fun s hs => (nomatch hs),
    fun _ hcol => (nomatch hcol), fun _ hcol => (nomatch hcol), by decide⟩,
    fun hyank => nomatch hyank⟩
  intro line hline
  rw [mem_singleton.mp hline]
  exact not_mem_nil

/-- In every run in which every vertical move starts from a column that the text still has, there
are lines without line feeds, and the cursor is in one of them. -/
theorem cursor_in_range (hsegment : ∀ s, ∀ part ∈ metrics.segment s, part ≠ [])
    (operations : List Operation) (t : TextEditor)
    (hkeeps : Along (step metrics) (fun e operation => e.keeps metrics operation = true) {}
      operations) (hrun : run (step metrics) {} operations = some t) :
    t.state.lines ≠ [] ∧ t.state.Valid := by
  have hsound : t.Sound := run_invariant (fun _ _ _ hs hp ht => Option.some.inj ht ▸
    hs.apply hsegment hp) sound_new hkeeps hrun
  have hvalid := hsound.inRange.state
  exact ⟨length_pos_iff.mp (Nat.zero_lt_of_lt hvalid.cursorLine_lt), hvalid⟩

/-- A surrogate pair is a segment of two columns, and any other code unit one of one column. -/
def pairSegments : JsString → List JsString
  | [] => []
  | [c] => [[c]]
  | c :: d :: s =>
    if 0xD800 ≤ c ∧ c < 0xDC00 ∧ 0xDC00 ≤ d ∧ d < 0xE000 then [c, d] :: pairSegments s
    else [c] :: pairSegments (d :: s)

theorem pairSegments_spec (s : JsString) :
    (pairSegments s).flatten = s ∧ ∀ part ∈ pairSegments s, part ≠ [] := by
  fun_induction pairSegments s with
  | case1 => simp
  | case2 => simp
  | case3 c d s hpair ih | case4 c d s hpair ih => simpa using ih

def pairMetrics : TextMetrics where
  segment := pairSegments
  graphemeWidth := length
  flatten_segment s := (pairSegments_spec s).1

/-- The cursor moves up into a surrogate pair and is snapped to its start. -/
def snapped : List Operation :=
  [.render 4 0, .setText (js "😀\nabcdef"), .moveToLineStart, .cursorRight, .cursorUp]

/-- With the pair deleted, the next move down starts left of the text. -/
theorem cursor_left_of_line :
    ¬ ∀ metrics : TextMetrics, (∀ s, ∀ part ∈ metrics.segment s, part ≠ []) →
      ∀ (operations : List Operation) (t : TextEditor),
        run (step metrics) {} operations = some t → t.state.Valid := by
  intro hall
  have hvalid := hall pairMetrics (fun s => (pairSegments_spec s).2)
    (snapped ++ [.deleteToEndOfLine, .cursorDown]) _ rfl
  exact absurd hvalid.cursorCol_nonneg (by decide)

/-- With the pair in place, the move down goes back. -/
theorem cursor_in_range_snapped : ∃ t, run (step pairMetrics) {} (snapped ++ [.cursorDown]) =
    some t ∧ t.state.lines ≠ [] ∧ t.state.Valid :=
  ⟨_, rfl, cursor_in_range (fun s => (pairSegments_spec s).2) (snapped ++ [.cursorDown]) _
    (by decide) rfl⟩

end TextEditor

end AcademicAgent
