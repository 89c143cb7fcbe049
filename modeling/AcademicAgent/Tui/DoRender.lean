import AcademicAgent.Core.JsString
import AcademicAgent.Core.Occurrence
import AcademicAgent.Core.Terminal

/-!
# Differential rendering

`doRender` compares the rendered lines with those of the previous render and draws what
differs: everything, the rows from the first to the last change, or nothing but the erasure of
rows at the end.
-/

namespace AcademicAgent

def CURSOR_MARKER : JsString := js "\x1b_pi:c\x07"

def KITTY_PREFIX : JsString := js "\x1b_G"

def ITERM2_PREFIX : JsString := js "\x1b]1337;File="

/-- Ends styles and hyperlinks at the end of a line. -/
def SEGMENT_RESET : JsString := js "\x1b[0m\x1b]8;;\x07"

def isImageLine (line : JsString) : Bool :=
  (indexOf? KITTY_PREFIX line).isSome || (indexOf? ITERM2_PREFIX line).isSome

/-- Thai and Lao AM vowels in their decomposed form. -/
def normalizeTerminalOutput (line : JsString) : JsString :=
  line.flatMap fun c =>
    if c = 0x0E33 then [0x0E4D, 0x0E32] else if c = 0x0EB3 then [0x0ECD, 0x0EB2] else [c]

def applyLineResets (lines : List JsString) : List JsString :=
  lines.map fun line =>
    if isImageLine line then line else normalizeTerminalOutput line ++ SEGMENT_RESET

structure CursorPosition where
  row : Nat
  col : Nat
  deriving DecidableEq, Repr

/-- The last line with a marker among the first `count` lines, and the marker's index. -/
def findMarker (lines : List JsString) (viewportTop : Nat) : Nat → Option (Nat × Nat)
  | 0 => none
  | row + 1 =>
    if row < viewportTop then none
    else
      match indexOf? CURSOR_MARKER (lines.getD row []) with
      | some markerIndex => some (row, markerIndex)
      | none => findMarker lines viewportTop row

/-- One call of `doRender`: the lines of the components with the overlays in them. -/
structure Render where
  lines : List JsString
  overlays : Bool
  deriving DecidableEq, Repr

/-- The fields of `TUI` that `doRender` reads and writes. -/
structure TUI where
  previousLines : List JsString
  previousWidth : Nat
  previousHeight : Nat
  cursorRow : Nat
  hardwareCursorRow : Nat
  maxLinesRendered : Nat
  previousViewportTop : Nat
  clearOnShrink : Bool
  showHardwareCursor : Bool
  deriving DecidableEq, Repr

namespace TUI

variable {Cell : Type} (cells : JsString → List Cell)

def new (clearOnShrink showHardwareCursor : Bool) : TUI where
  previousLines := []
  previousWidth := 0
  previousHeight := 0
  cursorRow := 0
  hardwareCursorRow := 0
  maxLinesRendered := 0
  previousViewportTop := 0
  clearOnShrink := clearOnShrink
  showHardwareCursor := showHardwareCursor

def visibleWidth (line : JsString) : Nat := (cells line).length

/-- The position of the marker in the bottom `height` lines, and the lines without it. -/
def extractCursorPosition (lines : List JsString) (height : Nat) :
    Option CursorPosition × List JsString :=
  match findMarker lines (lines.length - height) lines.length with
  | none => (none, lines)
  | some (row, markerIndex) =>
    let line := lines.getD row []
    (some { row, col := visibleWidth cells (line.take markerIndex) },
      lines.set row (line.take markerIndex ++ line.drop (markerIndex + CURSOR_MARKER.length)))

def newLines (render : Render) (height : Nat) : List JsString :=
  applyLineResets (extractCursorPosition cells render.lines height).2

def cursorPos (render : Render) (height : Nat) : Option CursorPosition :=
  (extractCursorPosition cells render.lines height).1

/-- A relative move of the cursor, nothing when it is in its row. -/
def moveRows (delta : Int) : List (Command JsString) :=
  if 0 < delta then [.down delta.toNat]
  else if delta < 0 then [.up (-delta).toNat]
  else []

/-- The hardware cursor goes to the marker, for input methods. -/
def positionHardwareCursor (tui : TUI) (cursorPos : Option CursorPosition) (totalLines : Nat) :
    TUI × List (Command JsString) :=
  match cursorPos with
  | none => (tui, [.cursorVisible false])
  | some pos =>
    if totalLines = 0 then (tui, [.cursorVisible false])
    else
      let targetRow := min pos.row (totalLines - 1)
      let rowDelta := (targetRow : Int) - tui.hardwareCursorRow
      ({ tui with hardwareCursorRow := targetRow },
        moveRows rowDelta ++ [.column (pos.col + 1), .cursorVisible tui.showHardwareCursor])

/-- Everything is drawn, on a cleared screen or below what the screen has. -/
def fullRender (tui : TUI) (clear : Bool) (newLines : List JsString)
    (cursorPos : Option CursorPosition) (width height : Nat) : TUI × List (Command JsString) :=
  let buffer : List (Command JsString) :=
    [.synchronized true] ++ (if clear then [.eraseScreen, .home, .eraseScrollback] else []) ++
      Terminal.drawLines false newLines ++ [.synchronized false]
  let cursorRow := newLines.length - 1
  let drawn : TUI := { tui with
    cursorRow
    hardwareCursorRow := cursorRow
    maxLinesRendered := if clear then newLines.length else max tui.maxLinesRendered newLines.length
    previousViewportTop := max height newLines.length - height }
  let (positioned, moves) := drawn.positionHardwareCursor cursorPos newLines.length
  ({ positioned with
      previousLines := newLines
      previousWidth := width
      previousHeight := height },
    buffer ++ moves)

section

variable (previousLines newLines : List JsString)

/-- The rows in which two lists of lines differ, where a missing line is an empty one. -/
def changedRows : List Nat :=
  (List.range (max newLines.length previousLines.length)).filter fun i =>
    previousLines.getD i [] ≠ newLines.getD i []

/-- The first row that is drawn again, `none` without a change. -/
def firstChanged : Option Nat :=
  let first := (changedRows previousLines newLines).head?
  if newLines.length > previousLines.length then some (first.getD previousLines.length) else first

def lastChanged : Nat :=
  if newLines.length > previousLines.length then newLines.length - 1
  else (changedRows previousLines newLines).getLast?.getD 0

end

section

variable (tui : TUI) (newLines : List JsString) (cursorPos : Option CursorPosition)

/-- All changes are in lines that are gone: the rows below the new content are erased. -/
def eraseDeleted (width height prevViewportTop : Nat) : TUI × List (Command JsString) :=
  if tui.previousLines.length > newLines.length then
    let targetRow := newLines.length - 1
    let extraLines := tui.previousLines.length - newLines.length
    if targetRow < prevViewportTop ∨ extraLines > height then
      tui.fullRender true newLines cursorPos width height
    else
      let lineDiff : Int := ((targetRow : Int) - prevViewportTop) -
        ((tui.hardwareCursorRow : Int) - prevViewportTop)
      let buffer : List (Command JsString) :=
        [.synchronized true] ++ moveRows lineDiff ++ [.carriageReturn] ++ [.down 1] ++
          Terminal.eraseRows extraLines ++ [.up extraLines, .synchronized false]
      let erased : TUI := { tui with cursorRow := targetRow, hardwareCursorRow := targetRow }
      let (positioned, moves) := erased.positionHardwareCursor cursorPos newLines.length
      ({ positioned with
          previousLines := newLines
          previousWidth := width
          previousHeight := height
          previousViewportTop := prevViewportTop },
        buffer ++ moves)
  else
    let (positioned, moves) := tui.positionHardwareCursor cursorPos newLines.length
    ({ positioned with
        previousLines := newLines
        previousWidth := width
        previousHeight := height
        previousViewportTop := prevViewportTop },
      moves)

/-- The rows from the first to the last change are drawn; a line that is too wide throws. -/
def drawChanged
    (width height prevViewportTop firstChanged : Nat) : Option (TUI × List (Command JsString)) :=
  let appendStart := newLines.length > tui.previousLines.length ∧
    firstChanged = tui.previousLines.length ∧ 0 < firstChanged
  let prevViewportBottom := prevViewportTop + height - 1
  let moveTargetRow := if appendStart then firstChanged - 1 else firstChanged
  let scroll := moveTargetRow - prevViewportBottom
  let currentScreenRow := min (height - 1) (tui.hardwareCursorRow - prevViewportTop)
  let moveToBottom := height - 1 - currentScreenRow
  let scrolling : List (Command JsString) :=
    if moveTargetRow > prevViewportBottom then
      (if moveToBottom > 0 then [.down moveToBottom] else []) ++
        (List.replicate scroll [.carriageReturn, .lineFeed]).flatten
    else []
  let hardwareCursorRow :=
    if moveTargetRow > prevViewportBottom then moveTargetRow else tui.hardwareCursorRow
  let viewportTop := prevViewportTop + scroll
  let lineDiff : Int := ((moveTargetRow : Int) - viewportTop) -
    ((hardwareCursorRow : Int) - viewportTop)
  let renderEnd := min (lastChanged tui.previousLines newLines) (newLines.length - 1)
  let drawn := (newLines.drop firstChanged).take (renderEnd + 1 - firstChanged)
  if drawn.any fun line => !isImageLine line && decide (width < visibleWidth cells line) then none
  else
    let shorter := tui.previousLines.length > newLines.length
    let extraLines := tui.previousLines.length - newLines.length
    let clearing : List (Command JsString) :=
      if shorter then
        (if renderEnd < newLines.length - 1 then [.down (newLines.length - 1 - renderEnd)]
          else []) ++ Terminal.eraseBelow extraLines ++ [.up extraLines]
      else []
    let finalCursorRow :=
      if shorter ∧ renderEnd < newLines.length - 1 then newLines.length - 1 else renderEnd
    let buffer : List (Command JsString) :=
      [.synchronized true] ++ scrolling ++ moveRows lineDiff ++
        (if appendStart then [.carriageReturn, .lineFeed] else [.carriageReturn]) ++
        Terminal.drawLines true drawn ++ clearing ++ [.synchronized false]
    let updated : TUI := { tui with
      cursorRow := newLines.length - 1
      hardwareCursorRow := finalCursorRow
      maxLinesRendered := max tui.maxLinesRendered newLines.length
      previousViewportTop := max viewportTop (finalCursorRow + 1 - height) }
    let (positioned, moves) := updated.positionHardwareCursor cursorPos newLines.length
    some ({ positioned with
        previousLines := newLines
        previousWidth := width
        previousHeight := height },
      buffer ++ moves)

end

/-- One render on a terminal of the given size; `termux` is the environment's flag. -/
def doRender (termux : Bool) (tui : TUI) (width height : Nat) (render : Render) :
    Option (TUI × List (Command JsString)) :=
  let widthChanged := tui.previousWidth ≠ 0 ∧ tui.previousWidth ≠ width
  let heightChanged := tui.previousHeight ≠ 0 ∧ tui.previousHeight ≠ height
  let previousBufferLength :=
    if tui.previousHeight > 0 then tui.previousViewportTop + tui.previousHeight else height
  let prevViewportTop :=
    if heightChanged then previousBufferLength - height else tui.previousViewportTop
  let newLines := newLines cells render height
  let cursorPos := cursorPos cells render height
  if tui.previousLines.length = 0 ∧ ¬ widthChanged ∧ ¬ heightChanged then
    some (tui.fullRender false newLines cursorPos width height)
  else if widthChanged then some (tui.fullRender true newLines cursorPos width height)
  else if heightChanged ∧ termux = false then
    some (tui.fullRender true newLines cursorPos width height)
  else if tui.clearOnShrink = true ∧ newLines.length < tui.maxLinesRendered ∧
      render.overlays = false then
    some (tui.fullRender true newLines cursorPos width height)
  else
    match firstChanged tui.previousLines newLines with
    | none =>
      let (positioned, moves) := tui.positionHardwareCursor cursorPos newLines.length
      some ({ positioned with previousViewportTop := prevViewportTop, previousHeight := height },
        moves)
    | some firstChanged =>
      if firstChanged ≥ newLines.length then
        some (tui.eraseDeleted newLines cursorPos width height prevViewportTop)
      else if firstChanged < prevViewportTop then
        some (tui.fullRender true newLines cursorPos width height)
      else tui.drawChanged cells newLines cursorPos width height prevViewportTop firstChanged

end TUI

end AcademicAgent
