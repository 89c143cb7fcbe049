import AcademicAgent.Tui.EditorWordWrap

/-!
# The text editor

The operations of the editor on its lines, its cursor, its undo stack, its kill ring and its
history.
-/

namespace AcademicAgent

open AnsiText (TextMetrics visibleWidth)

/-- An argument of `slice`, which counts from the end when it is negative. -/
def relativeIndex (length : Nat) (index : Int) : Nat :=
  if index < 0 then (length + index).toNat else min index.toNat length

/-- `s.slice(start, end)`. -/
def sliceText (s : JsString) (start stop : Int) : JsString :=
  (s.take (relativeIndex s.length stop)).drop (relativeIndex s.length start)

/-- `s.slice(start)`. -/
def sliceFrom (s : JsString) (start : Int) : JsString := s.drop (relativeIndex s.length start)

/-- `s.indexOf(char, position)`. -/
def indexFrom (s char : JsString) (position : Int) : Option Nat :=
  let start := min position.toNat s.length
  (indexOf? char (s.drop start)).map (start + ·)

/-- `s.lastIndexOf(char, position)`. -/
def lastIndexFrom (s char : JsString) (position : Int) : Option Nat :=
  ((List.range (min position.toNat s.length + 1)).filter fun i =>
    decide (char <+: s.drop i)).getLast?

structure EditorState where
  lines : List JsString
  cursorLine : Nat
  cursorCol : Int
  deriving DecidableEq

/-- `"kill" | "yank" | "type-word"`. -/
inductive EditorAction where
  | kill
  | yank
  | typeWord
  deriving DecidableEq

structure VisualLine where
  logicalLine : Nat
  startCol : Nat
  length : Nat
  deriving DecidableEq

/-- `KillRing.push`. The most recent entry is the last one. -/
def pushKill (ring : List JsString) (text : JsString) (prepend accumulate : Bool) : List JsString :=
  if text = [] then ring
  else
    match ring.getLast?, accumulate with
    | some last, true => ring.dropLast ++ [if prepend then text ++ last else last ++ text]
    | _, _ => ring ++ [text]

/-- `KillRing.rotate`. -/
def rotateRing (ring : List JsString) : List JsString :=
  match ring.getLast? with
  | some last => last :: ring.dropLast
  | none => ring

/-- The segments that a move by a word passes: white space, and then a marker, a run of
punctuation or a word. -/
def wordRun (segments : List JsString) : List JsString :=
  let blanks := segments.takeWhile fun s => !isPasteMarker s && isWhitespaceChar s
  let rest := segments.drop blanks.length
  blanks ++
    match rest with
    | [] => []
    | first :: _ =>
      if isPasteMarker first then [first]
      else if isPunctuationChar first then
        rest.takeWhile fun s => isPunctuationChar s && !isPasteMarker s
      else rest.takeWhile fun s =>
        !isWhitespaceChar s && !isPunctuationChar s && !isPasteMarker s

structure TextEditor where
  state : EditorState := { lines := [[]], cursorLine := 0, cursorCol := 0 }
  /-- The width of the last rendering. -/
  lastWidth : Nat := 80
  pastes : JsMap Nat JsString := .empty
  pasteCounter : Nat := 0
  history : List JsString := []
  /-- `-1` when the history is not browsed. -/
  historyIndex : Int := -1
  killRing : List JsString := []
  lastAction : Option EditorAction := none
  preferredVisualCol : Option Int := none
  snappedFromCursorCol : Option Int := none
  /-- The most recent snapshot is the last one. -/
  undoStack : List EditorState := []

namespace TextEditor

variable (metrics : TextMetrics) (e : TextEditor)

def currentLine : JsString := e.state.lines.getD e.state.cursorLine []

section

variable (text : JsString)

/-- `this.segment(text)`. -/
def segment : List TextSegment :=
  segmentWithMarkers metrics text (e.pastes.entries.map Prod.fst)

def getText : JsString := [lf].intercalate e.state.lines

def pushUndoSnapshot : TextEditor := { e with undoStack := e.undoStack ++ [e.state] }

def setCursorCol (col : Int) : TextEditor :=
  { e with
    state := { e.state with cursorCol := col }
    preferredVisualCol := none
    snappedFromCursorCol := none }

def setLines (lines : List JsString) : TextEditor := { e with state := { e.state with lines } }

def setCursorLine (cursorLine : Nat) : TextEditor :=
  { e with state := { e.state with cursorLine } }

/-- `this.state.lines[this.state.cursorLine] = line`. -/
def setCurrentLine (line : JsString) : TextEditor :=
  e.setLines (e.state.lines.set e.state.cursorLine line)

/-- The lines of a text are inserted at the cursor. -/
def insertLines (insertedLines : List JsString) : TextEditor :=
  let before := sliceText e.currentLine 0 e.state.cursorCol
  let after := sliceFrom e.currentLine e.state.cursorCol
  match insertedLines with
  | [] => e
  | [line] =>
    (e.setCurrentLine (before ++ line ++ after)).setCursorCol (e.state.cursorCol + line.length)
  | first :: second :: rest =>
    let last := (second :: rest).getLast (List.cons_ne_nil _ _)
    ((e.setLines (e.state.lines.take e.state.cursorLine ++
      (before ++ first) :: ((second :: rest).dropLast ++
        (last ++ after) :: e.state.lines.drop (e.state.cursorLine + 1)))).setCursorLine
          (e.state.cursorLine + (second :: rest).length)).setCursorCol last.length

def insertTextAtCursorInternal : TextEditor :=
  if text = [] then e else e.insertLines (splitLines (normalizeText text))

/-- `insertCharacter`, without completion. -/
def insertCharacter (char : JsString) : TextEditor :=
  let e := { e with historyIndex := -1 }
  let e := if isWhitespaceChar char ∨ e.lastAction ≠ some .typeWord then e.pushUndoSnapshot else e
  let e := { e with lastAction := some .typeWord }
  (e.setCurrentLine (sliceText e.currentLine 0 e.state.cursorCol ++ char ++
    sliceFrom e.currentLine e.state.cursorCol)).setCursorCol (e.state.cursorCol + char.length)

/-- What `handlePaste` makes of a pasted text. -/
def cleanPaste (pastedText : JsString) : JsString :=
  Editor.cleanPaste
    { lines := e.state.lines
      cursorLine := e.state.cursorLine
      cursorCol := e.state.cursorCol.toNat
      pastes := e.pastes
      pasteCounter := e.pasteCounter } pastedText

def handlePaste (pastedText : JsString) : TextEditor :=
  let e := ({ e with historyIndex := -1, lastAction := none } : TextEditor).pushUndoSnapshot
  let filteredText := e.cleanPaste pastedText
  let pastedLines := splitLines filteredText
  let totalChars := filteredText.length
  if pastedLines.length > 10 ∨ totalChars > 1000 then
    let pasteId := e.pasteCounter + 1
    let marker :=
      if pastedLines.length > 10 then
        markerOpening pasteId ++ js " +" ++ decimalText pastedLines.length ++ js " lines]"
      else markerOpening pasteId ++ js " " ++ decimalText totalChars ++ js " chars]"
    ({ e with pastes := e.pastes.set pasteId filteredText, pasteCounter := pasteId } :
      TextEditor).insertTextAtCursorInternal marker
  else e.insertTextAtCursorInternal filteredText

def addNewLine : TextEditor :=
  let e := ({ e with historyIndex := -1, lastAction := none } : TextEditor).pushUndoSnapshot
  let before := sliceText e.currentLine 0 e.state.cursorCol
  let after := sliceFrom e.currentLine e.state.cursorCol
  ((e.setLines (e.state.lines.take e.state.cursorLine ++
    before :: after :: e.state.lines.drop (e.state.cursorLine + 1))).setCursorLine
      (e.state.cursorLine + 1)).setCursorCol 0

def setTextInternal : TextEditor :=
  let lines := splitLines text
  ((e.setLines lines).setCursorLine (lines.length - 1)).setCursorCol
    (lines.getD (lines.length - 1) []).length

def setText : TextEditor :=
  let e : TextEditor := { e with lastAction := none, historyIndex := -1 }
  let normalized := normalizeText text
  (if e.getText ≠ normalized then e.pushUndoSnapshot else e).setTextInternal normalized

def insertTextAtCursor : TextEditor :=
  if text = [] then e
  else
    ({ e.pushUndoSnapshot with lastAction := none, historyIndex := -1 } :
      TextEditor).insertTextAtCursorInternal text

end

/-- The current line is merged with the previous one. -/
def mergeWithPrevious : TextEditor :=
  let previousLine := e.state.lines.getD (e.state.cursorLine - 1) []
  ((e.setLines ((e.state.lines.set (e.state.cursorLine - 1)
    (previousLine ++ e.currentLine)).eraseIdx e.state.cursorLine)).setCursorLine
      (e.state.cursorLine - 1)).setCursorCol previousLine.length

def mergeWithNext : TextEditor :=
  let nextLine := e.state.lines.getD (e.state.cursorLine + 1) []
  e.setLines ((e.state.lines.set e.state.cursorLine (e.currentLine ++ nextLine)).eraseIdx
    (e.state.cursorLine + 1))

def kill (text : JsString) (prepend accumulate : Bool) : TextEditor :=
  { e with
    killRing := pushKill e.killRing text prepend accumulate
    lastAction := some .kill }

/-- The last action was a deletion for the kill ring. -/
def wasKill : Bool := decide (e.lastAction = some .kill)

/-- The length of a segment that is deleted or passed, `1` if there is none. -/
def lengthOr (seg : Option TextSegment) : Nat := (seg.map fun seg => seg.segment.length).getD 1

def handleBackspace : TextEditor :=
  let e : TextEditor := { e with historyIndex := -1, lastAction := none }
  if 0 < e.state.cursorCol then
    let graphemeLength :=
      lengthOr (e.segment metrics (sliceText e.currentLine 0 e.state.cursorCol)).getLast?
    (e.pushUndoSnapshot.setCurrentLine
      (sliceText e.currentLine 0 (e.state.cursorCol - graphemeLength) ++
        sliceFrom e.currentLine e.state.cursorCol)).setCursorCol
          (e.state.cursorCol - graphemeLength)
  else if 0 < e.state.cursorLine then e.pushUndoSnapshot.mergeWithPrevious
  else e

def handleForwardDelete : TextEditor :=
  let e : TextEditor := { e with historyIndex := -1, lastAction := none }
  if e.state.cursorCol < e.currentLine.length then
    let graphemeLength :=
      lengthOr (e.segment metrics (sliceFrom e.currentLine e.state.cursorCol)).head?
    e.pushUndoSnapshot.setCurrentLine
      (sliceText e.currentLine 0 e.state.cursorCol ++
        sliceFrom e.currentLine (e.state.cursorCol + graphemeLength))
  else if e.state.cursorLine + 1 < e.state.lines.length then e.pushUndoSnapshot.mergeWithNext
  else e

def deleteToStartOfLine : TextEditor :=
  let e : TextEditor := { e with historyIndex := -1 }
  if 0 < e.state.cursorCol then
    ((e.pushUndoSnapshot.kill (sliceText e.currentLine 0 e.state.cursorCol) true
      e.wasKill).setCurrentLine (sliceFrom e.currentLine e.state.cursorCol)).setCursorCol 0
  else if 0 < e.state.cursorLine then
    (e.pushUndoSnapshot.kill [lf] true e.wasKill).mergeWithPrevious
  else e

def deleteToEndOfLine : TextEditor :=
  let e : TextEditor := { e with historyIndex := -1 }
  if e.state.cursorCol < e.currentLine.length then
    (e.pushUndoSnapshot.kill (sliceFrom e.currentLine e.state.cursorCol) false
      e.wasKill).setCurrentLine (sliceText e.currentLine 0 e.state.cursorCol)
  else if e.state.cursorLine + 1 < e.state.lines.length then
    (e.pushUndoSnapshot.kill [lf] false e.wasKill).mergeWithNext
  else e

def moveWordBackwards : TextEditor :=
  let e : TextEditor := { e with lastAction := none }
  if e.state.cursorCol = 0 then
    if 0 < e.state.cursorLine then
      let e := e.setCursorLine (e.state.cursorLine - 1)
      e.setCursorCol e.currentLine.length
    else e
  else
    let graphemes := e.segment metrics (sliceText e.currentLine 0 e.state.cursorCol)
    e.setCursorCol (e.state.cursorCol -
      ((wordRun (graphemes.map TextSegment.segment).reverse).map List.length).sum)

def moveWordForwards : TextEditor :=
  let e : TextEditor := { e with lastAction := none }
  if e.currentLine.length ≤ e.state.cursorCol then
    if e.state.cursorLine + 1 < e.state.lines.length then
      (e.setCursorLine (e.state.cursorLine + 1)).setCursorCol 0
    else e
  else
    let segments := e.segment metrics (sliceFrom e.currentLine e.state.cursorCol)
    e.setCursorCol (e.state.cursorCol +
      ((wordRun (segments.map TextSegment.segment)).map List.length).sum)

def deleteWordBackwards : TextEditor :=
  let e : TextEditor := { e with historyIndex := -1 }
  if e.state.cursorCol = 0 then
    if 0 < e.state.cursorLine then
      (e.pushUndoSnapshot.kill [lf] true e.wasKill).mergeWithPrevious
    else e
  else
    let deleteFrom := (e.pushUndoSnapshot.moveWordBackwards metrics).state.cursorCol
    ((e.pushUndoSnapshot.kill (sliceText e.currentLine deleteFrom e.state.cursorCol) true
      e.wasKill).setCurrentLine (sliceText e.currentLine 0 deleteFrom ++
        sliceFrom e.currentLine e.state.cursorCol)).setCursorCol deleteFrom

def deleteWordForward : TextEditor :=
  let e : TextEditor := { e with historyIndex := -1 }
  if e.currentLine.length ≤ e.state.cursorCol then
    if e.state.cursorLine + 1 < e.state.lines.length then
      (e.pushUndoSnapshot.kill [lf] false e.wasKill).mergeWithNext
    else e
  else
    let deleteTo := (e.pushUndoSnapshot.moveWordForwards metrics).state.cursorCol
    ((e.pushUndoSnapshot.kill (sliceText e.currentLine e.state.cursorCol deleteTo) false
      e.wasKill).setCurrentLine (sliceText e.currentLine 0 e.state.cursorCol ++
        sliceFrom e.currentLine deleteTo)).setCursorCol e.state.cursorCol

def insertYankedText (text : JsString) : TextEditor :=
  ({ e with historyIndex := -1 } : TextEditor).insertLines (splitLines text)

/-- `deleteYankedText`. The cursor is at the end of the yanked text, which ends no fewer lines
below the first one. -/
def deleteYankedText : TextEditor :=
  match e.killRing.getLast? with
  | none => e
  | some yankedText =>
    if yankedText = [] then e
    else
      let yankLines := splitLines yankedText
      if yankLines.length = 1 then
        (e.setCurrentLine (sliceText e.currentLine 0 (e.state.cursorCol - yankedText.length) ++
          sliceFrom e.currentLine e.state.cursorCol)).setCursorCol
            (e.state.cursorCol - yankedText.length)
      else
        let startLine := e.state.cursorLine - (yankLines.length - 1)
        let firstLine := e.state.lines.getD startLine []
        let startCol : Int := firstLine.length - (yankLines.headD []).length
        ((e.setLines (e.state.lines.take startLine ++
          (sliceText firstLine 0 startCol ++ sliceFrom e.currentLine e.state.cursorCol) ::
            e.state.lines.drop (startLine + yankLines.length))).setCursorLine
              startLine).setCursorCol startCol

def yank : TextEditor :=
  match e.killRing.getLast? with
  | none => e
  | some text => { e.pushUndoSnapshot.insertYankedText text with lastAction := some .yank }

def yankPop : TextEditor :=
  if e.lastAction ≠ some .yank ∨ e.killRing.length ≤ 1 then e
  else
    let e := e.pushUndoSnapshot.deleteYankedText
    let e := { e with killRing := rotateRing e.killRing }
    { e.insertYankedText (e.killRing.getLast?.getD []) with lastAction := some .yank }

def undo : TextEditor :=
  let e : TextEditor := { e with historyIndex := -1 }
  match e.undoStack.getLast? with
  | none => e
  | some snapshot =>
    { e with
      undoStack := e.undoStack.dropLast
      state := snapshot
      lastAction := none
      preferredVisualCol := none }

def addToHistory (text : JsString) : TextEditor :=
  let trimmed := trim text
  if trimmed = [] ∨ e.history.head? = some trimmed then e
  else { e with history := (trimmed :: e.history).take 100 }

def navigateHistory (direction : Int) : TextEditor :=
  let e : TextEditor := { e with lastAction := none }
  let newIndex := e.historyIndex - direction
  if e.history = [] ∨ newIndex < -1 ∨ e.history.length ≤ newIndex then e
  else
    let e := if e.historyIndex = -1 ∧ 0 ≤ newIndex then e.pushUndoSnapshot else e
    let e := { e with historyIndex := newIndex }
    if newIndex = -1 then e.setTextInternal []
    else e.setTextInternal (e.history.getD newIndex.toNat [])

/-- `submitValue`, which leaves the preferred column and the one before snapping. -/
def submitValue : TextEditor :=
  { e with
    state := { lines := [[]], cursorLine := 0, cursorCol := 0 }
    pastes := .empty
    pasteCounter := 0
    historyIndex := -1
    undoStack := []
    lastAction := none }

/-- The key that submits; behind a backslash it makes a new line. -/
def submit : TextEditor :=
  if 0 < e.state.cursorCol ∧ e.currentLine[(e.state.cursorCol - 1).toNat]? = some 0x5C then
    (e.handleBackspace metrics).addNewLine
  else e.submitValue

def moveToLineStart : TextEditor := ({ e with lastAction := none } : TextEditor).setCursorCol 0

def moveToLineEnd : TextEditor :=
  ({ e with lastAction := none } : TextEditor).setCursorCol e.currentLine.length

/-- `jumpToChar`: the lines are searched from the current one on, which is searched behind or
before the cursor. -/
def jumpToChar (char : JsString) (forward : Bool) : TextEditor :=
  let e : TextEditor := { e with lastAction := none }
  let numbered := e.state.lines.zipIdx
  let candidates := if forward then numbered.drop e.state.cursorLine
    else (numbered.take (e.state.cursorLine + 1)).reverse
  let found : Option (Nat × Nat) := candidates.findSome? fun (line, lineIdx) =>
    (if forward then
      indexFrom line char (if lineIdx = e.state.cursorLine then e.state.cursorCol + 1 else 0)
    else
      lastIndexFrom line char
        (if lineIdx = e.state.cursorLine then e.state.cursorCol - 1 else line.length)).map
      fun idx => (lineIdx, idx)
  match found with
  | some (lineIdx, idx) => (e.setCursorLine lineIdx).setCursorCol idx
  | none => e

/-- The visual lines of a line. Wrapping may fail. -/
def lineVisualLines (width logicalLine : Nat) (line : JsString) : Option (List VisualLine) :=
  if line = [] then some [⟨logicalLine, 0, 0⟩]
  else if visibleWidth metrics line ≤ width then some [⟨logicalLine, 0, line.length⟩]
  else
    (wordWrapLine metrics width (line.length + 1) line (e.segment metrics line)).map fun chunks =>
      chunks.map fun chunk => ⟨logicalLine, chunk.startIndex, chunk.endIndex - chunk.startIndex⟩

/-- The visual lines of the lines from a number on. -/
def visualLinesFrom (width : Nat) : Nat → List JsString → Option (List VisualLine)
  | _, [] => some []
  | logicalLine, line :: lines =>
    (e.lineVisualLines metrics width logicalLine line).bind fun own =>
      (visualLinesFrom width (logicalLine + 1) lines).map fun others => own ++ others

/-- `buildVisualLineMap(this.lastWidth)`. -/
def buildVisualLineMap : Option (List VisualLine) :=
  e.visualLinesFrom metrics e.lastWidth 0 e.state.lines

end TextEditor

/-- The loop of `findVisualLineAt`. -/
def findVisualLine (line : Nat) (col : Int) : List VisualLine → Option Nat
  | [] => none
  | vl :: vls =>
    let offset := col - vl.startCol
    let isLastSegmentOfLine := vls.head?.all fun next => decide (next.logicalLine ≠ vl.logicalLine)
    if vl.logicalLine = line ∧ 0 ≤ offset ∧
        (offset < vl.length ∨ isLastSegmentOfLine = true ∧ offset = vl.length) then
      some 0
    else (findVisualLine line col vls).map (· + 1)

def findVisualLineAt (visualLines : List VisualLine) (line : Nat) (col : Int) : Nat :=
  (findVisualLine line col visualLines).getD (visualLines.length - 1)

/-- The last column of a visual line that the cursor can stand at. -/
def maxVisualCol (visualLines : List VisualLine) (index : Nat) (vl : VisualLine) : Nat :=
  if (visualLines[index + 1]?).all fun next => decide (next.logicalLine ≠ vl.logicalLine) then
    vl.length
  else vl.length - 1

namespace TextEditor

variable (metrics : TextMetrics) (e : TextEditor)

/-- `computeVerticalMoveColumn`: the column, and the preferred one after the move. -/
def computeVerticalMoveColumn (currentVisualCol : Int)
    (sourceMaxVisualCol targetMaxVisualCol : Nat) : Int × Option Int :=
  let targetTooShort := targetMaxVisualCol < currentVisualCol
  match e.preferredVisualCol with
  | some preferred =>
    if currentVisualCol < sourceMaxVisualCol then
      if targetTooShort then (targetMaxVisualCol, some currentVisualCol)
      else (currentVisualCol, none)
    else if targetTooShort ∨ targetMaxVisualCol < preferred then
      (targetMaxVisualCol, some preferred)
    else (preferred, none)
  | none =>
    if targetTooShort then (targetMaxVisualCol, some currentVisualCol)
    else (currentVisualCol, none)

section

variable (visualLines : List VisualLine)

/-- The visual column of the cursor, or of where it was before it was snapped. -/
def currentVisualCol (currentVL : VisualLine) : Int :=
  match e.snappedFromCursorCol with
  | some col =>
    let vlIndex := findVisualLineAt visualLines currentVL.logicalLine col
    col - ((visualLines[vlIndex]?).map VisualLine.startCol).getD 0
  | none => e.state.cursorCol - currentVL.startCol

/-- The segment of more than one code unit in which a column lies. -/
def snapSegment (segments : List TextSegment) (col : Int) : Option TextSegment :=
  (segments.takeWhile fun seg => decide (seg.index ≤ col)).find? fun seg =>
    decide (1 < seg.segment.length ∧ col < seg.index + seg.segment.length)

/-- The first visual line behind `target` that a segment which ends at `segEnd` does not reach. -/
def skipContinuation (target : Nat) (targetVL : VisualLine) (segEnd : Nat) : Nat :=
  target + 1 + ((visualLines.drop (target + 1)).takeWhile fun vl =>
    decide (vl.logicalLine = targetVL.logicalLine ∧ vl.startCol < segEnd)).length

/-- The cursor on the target line, before it is snapped. -/
def landOn (current target : Nat) (currentVL targetVL : VisualLine) : TextEditor :=
  let (moveToVisualCol, preferredVisualCol) :=
    e.computeVerticalMoveColumn (e.currentVisualCol visualLines currentVL)
      (maxVisualCol visualLines current currentVL) (maxVisualCol visualLines target targetVL)
  { e with
    preferredVisualCol
    state := { e.state with
      cursorLine := targetVL.logicalLine
      cursorCol := min (targetVL.startCol + moveToVisualCol)
        (e.state.lines.getD targetVL.logicalLine []).length } }

end

/-- `moveToVisualLine`. Every call that it makes has a greater target, so `fuel` is no less than
the number of visual lines. -/
def moveToVisualLine (visualLines : List VisualLine) (current : Nat) :
    Nat → TextEditor → Nat → TextEditor
  | 0, e, _ => e
  | fuel + 1, e, target =>
    match visualLines[current]?, visualLines[target]? with
    | some currentVL, some targetVL =>
      let landed := e.landOn visualLines current target currentVL targetVL
      match snapSegment (landed.segment metrics landed.currentLine) landed.state.cursorCol with
      | none => { landed with snappedFromCursorCol := none }
      | some seg =>
        let next := skipContinuation visualLines target targetVL (seg.index + seg.segment.length)
        if seg.index < targetVL.startCol ∧ current < target ∧ next < visualLines.length then
          moveToVisualLine visualLines current fuel landed next
        else
          { landed with
            snappedFromCursorCol := some landed.state.cursorCol
            state := { landed.state with cursorCol := seg.index } }
    | _, _ => e

def findCurrentVisualLine (visualLines : List VisualLine) : Nat :=
  findVisualLineAt visualLines e.state.cursorLine e.state.cursorCol

/-- `moveCursor(deltaLine, 0)`; it fails when wrapping does. -/
def moveCursorVertically (deltaLine : Int) : TextEditor :=
  let e : TextEditor := { e with lastAction := none }
  match e.buildVisualLineMap metrics with
  | none => e
  | some visualLines =>
    let current := e.findCurrentVisualLine visualLines
    let target : Int := current + deltaLine
    if 0 ≤ target ∧ target < visualLines.length then
      moveToVisualLine metrics visualLines current visualLines.length e target.toNat
    else e

/-- `moveCursor(0, 1)`. -/
def moveCursorRight : TextEditor :=
  let e : TextEditor := { e with lastAction := none }
  match e.buildVisualLineMap metrics with
  | none => e
  | some visualLines =>
    if e.state.cursorCol < e.currentLine.length then
      e.setCursorCol (e.state.cursorCol +
        lengthOr (e.segment metrics (sliceFrom e.currentLine e.state.cursorCol)).head?)
    else if e.state.cursorLine + 1 < e.state.lines.length then
      (e.setCursorLine (e.state.cursorLine + 1)).setCursorCol 0
    else
      match visualLines[e.findCurrentVisualLine visualLines]? with
      | some currentVL =>
        { e with preferredVisualCol := some (e.state.cursorCol - currentVL.startCol) }
      | none => e

/-- `moveCursor(0, -1)`. -/
def moveCursorLeft : TextEditor :=
  let e : TextEditor := { e with lastAction := none }
  match e.buildVisualLineMap metrics with
  | none => e
  | some _ =>
    if 0 < e.state.cursorCol then
      e.setCursorCol (e.state.cursorCol -
        lengthOr (e.segment metrics (sliceText e.currentLine 0 e.state.cursorCol)).getLast?)
    else if 0 < e.state.cursorLine then
      let e := e.setCursorLine (e.state.cursorLine - 1)
      e.setCursorCol e.currentLine.length
    else e

/-- The visual line that a page up or down goes to. -/
def pageTarget (visualLines : List VisualLine) (down : Bool) (pageSize : Nat) : Nat :=
  let current := e.findCurrentVisualLine visualLines
  if down then min (visualLines.length - 1) (current + pageSize) else current - pageSize

/-- `pageScroll`, with the size of a page. -/
def pageScroll (down : Bool) (pageSize : Nat) : TextEditor :=
  let e : TextEditor := { e with lastAction := none }
  match e.buildVisualLineMap metrics with
  | none => e
  | some visualLines =>
    moveToVisualLine metrics visualLines (e.findCurrentVisualLine visualLines)
      visualLines.length e (e.pageTarget visualLines down pageSize)

def isEditorEmpty : Bool := decide (e.state.lines = [[]])

def isOnFirstVisualLine : Option Bool :=
  (e.buildVisualLineMap metrics).map fun visualLines =>
    decide (e.findCurrentVisualLine visualLines = 0)

def isOnLastVisualLine : Option Bool :=
  (e.buildVisualLineMap metrics).map fun visualLines =>
    decide (e.findCurrentVisualLine visualLines + 1 = visualLines.length)

def cursorUp : TextEditor :=
  if e.isEditorEmpty then e.navigateHistory (-1)
  else
    match e.isOnFirstVisualLine metrics with
    | none => e
    | some true => if -1 < e.historyIndex then e.navigateHistory (-1) else e.moveToLineStart
    | some false => e.moveCursorVertically metrics (-1)

def cursorDown : TextEditor :=
  match e.isOnLastVisualLine metrics with
  | none => e
  | some true => if -1 < e.historyIndex then e.navigateHistory 1 else e.moveToLineEnd
  | some false => e.moveCursorVertically metrics 1

/-- The width that `render` lays the text out for. -/
def layoutWidth (width : Int) (padding : Nat) : Nat :=
  let paddingX := min (padding : Int) (max 0 ((width - 1) / 2))
  let contentWidth := max 1 (width - paddingX * 2)
  (max 1 (contentWidth - if paddingX = 0 then 1 else 0)).toNat

inductive Operation where
  | insertCharacter (char : JsString)
  | handlePaste (text : JsString)
  | addNewLine
  | submit
  | submitValue
  | handleBackspace
  | handleForwardDelete
  | deleteToStartOfLine
  | deleteToEndOfLine
  | deleteWordBackwards
  | deleteWordForward
  | moveToLineStart
  | moveToLineEnd
  | moveWordBackwards
  | moveWordForwards
  | cursorLeft
  | cursorRight
  | cursorUp
  | cursorDown
  | pageScroll (down : Bool) (pageSize : Nat)
  | jumpToChar (char : JsString) (forward : Bool)
  | undo
  | yank
  | yankPop
  | setText (text : JsString)
  | insertTextAtCursor (text : JsString)
  | addToHistory (text : JsString)
  | render (width : Int) (padding : Nat)

def apply : Operation → TextEditor
  | .insertCharacter char => e.insertCharacter char
  | .handlePaste text => e.handlePaste text
  | .addNewLine => e.addNewLine
  | .submit => e.submit metrics
  | .submitValue => e.submitValue
  | .handleBackspace => e.handleBackspace metrics
  | .handleForwardDelete => e.handleForwardDelete metrics
  | .deleteToStartOfLine => e.deleteToStartOfLine
  | .deleteToEndOfLine => e.deleteToEndOfLine
  | .deleteWordBackwards => e.deleteWordBackwards metrics
  | .deleteWordForward => e.deleteWordForward metrics
  | .moveToLineStart => e.moveToLineStart
  | .moveToLineEnd => e.moveToLineEnd
  | .moveWordBackwards => e.moveWordBackwards metrics
  | .moveWordForwards => e.moveWordForwards metrics
  | .cursorLeft => e.moveCursorLeft metrics
  | .cursorRight => e.moveCursorRight metrics
  | .cursorUp => e.cursorUp metrics
  | .cursorDown => e.cursorDown metrics
  | .pageScroll down pageSize => e.pageScroll metrics down pageSize
  | .jumpToChar char forward => e.jumpToChar char forward
  | .undo => e.undo
  | .yank => e.yank
  | .yankPop => e.yankPop
  | .setText text => e.setText text
  | .insertTextAtCursor text => e.insertTextAtCursor text
  | .addToHistory text => e.addToHistory text
  | .render width padding => { e with lastWidth := layoutWidth width padding }

def step (operation : Operation) : Option TextEditor := some (e.apply metrics operation)

end TextEditor

end AcademicAgent
