import AcademicAgent.Tui.AnsiCodes

/-!
# Wrapping styled text

Text is split at its newlines, each line into words and spaces with the sequences before them,
and words that do not fit are broken between graphemes.
-/

namespace AcademicAgent.AnsiText

/-- How text is measured: `Intl.Segmenter` and `graphemeWidth`. -/
structure TextMetrics where
  segment : JsString → List JsString
  graphemeWidth : JsString → Nat
  /-- The segments of a text are its parts in order. -/
  flatten_segment : ∀ s, (segment s).flatten = s

def isPrintableAscii (str : JsString) : Bool := str.all fun code => 0x20 ≤ code && code ≤ 0x7E

/-- The code unit outside of sequences that an item is. -/
def AnsiItem.unit? : AnsiItem → Option CodeUnit
  | .unit c => some c
  | .code _ => none

def expandTab (c : CodeUnit) : JsString := if c = 0x09 then [0x20, 0x20, 0x20] else [c]

section Metrics

variable (metrics : TextMetrics) (width : Int)

def visibleWidth (str : JsString) : Nat :=
  if isPrintableAscii str then str.length
  else
    let clean := (ansiItems (str.flatMap expandTab)).filterMap AnsiItem.unit?
    ((metrics.segment clean).map metrics.graphemeWidth).sum

/-- The variables of the loop of `splitIntoTokensWithAnsi`. -/
structure TokenState where
  tokens : List JsString := []
  current : JsString := []
  pendingAnsi : JsString := []
  inWhitespace : Bool := false

def tokenStep (s : TokenState) : AnsiItem → TokenState
  | .code code => { s with pendingAnsi := s.pendingAnsi ++ code }
  | .unit char =>
    let charIsSpace := decide (char = 0x20)
    let s := if charIsSpace ≠ s.inWhitespace ∧ s.current ≠ [] then
      { s with tokens := s.tokens ++ [s.current], current := [] } else s
    { s with current := s.current ++ s.pendingAnsi ++ [char], pendingAnsi := []
             inWhitespace := charIsSpace }

def splitIntoTokensWithAnsi (text : JsString) : List JsString :=
  let s := (ansiItems text).foldl tokenStep {}
  let current := s.current ++ s.pendingAnsi
  if current = [] then s.tokens else s.tokens ++ [current]

/-- A sequence of a word, or a grapheme between sequences. -/
inductive WordSegment where
  | ansi (value : JsString)
  | grapheme (value : JsString)

/-- The segments of a word, from the code units that were met since the last sequence. -/
def wordSegments (portion : JsString) : List AnsiItem → List WordSegment
  | [] => (metrics.segment portion).map .grapheme
  | .unit c :: rest => wordSegments (portion ++ [c]) rest
  | .code s :: rest => (metrics.segment portion).map .grapheme ++ .ansi s :: wordSegments [] rest

/-- The variables of the loop of `breakLongWord`. -/
structure BreakState where
  lines : List JsString := []
  currentLine : JsString
  currentWidth : Nat := 0
  tracker : AnsiCodeTracker

def breakStep (s : BreakState) : WordSegment → BreakState
  | .ansi value =>
    { s with currentLine := s.currentLine ++ value, tracker := s.tracker.process value }
  | .grapheme grapheme =>
    if grapheme = [] then s
    else
      let graphemeWidth := visibleWidth metrics grapheme
      let s := if (s.currentWidth + graphemeWidth : Int) > width then
        { s with lines := s.lines ++ [s.currentLine ++ s.tracker.getLineEndReset]
                 currentLine := s.tracker.getActiveCodes, currentWidth := 0 } else s
      { s with currentLine := s.currentLine ++ grapheme
               currentWidth := s.currentWidth + graphemeWidth }

/-- `breakLongWord`, with the tracker after it. -/
def breakLongWord (word : JsString) (tracker : AnsiCodeTracker) : List JsString × AnsiCodeTracker :=
  let s := (wordSegments metrics [] (ansiItems word)).foldl (breakStep metrics width)
    { currentLine := tracker.getActiveCodes, tracker }
  let lines := if s.currentLine = [] then s.lines else s.lines ++ [s.currentLine]
  (if lines = [] then [[]] else lines, s.tracker)

/-- The variables of the loop of `wrapSingleLine`. -/
structure WrapState where
  wrapped : List JsString := []
  currentLine : JsString := []
  currentVisibleLength : Nat := 0
  tracker : AnsiCodeTracker := {}

def wrapStep (s : WrapState) (token : JsString) : WrapState :=
  let tokenVisibleLength := visibleWidth metrics token
  let isWhitespace := decide (trim token = [])
  if (tokenVisibleLength : Int) > width ∧ isWhitespace = false then
    let wrapped := if s.currentLine = [] then s.wrapped
      else s.wrapped ++ [s.currentLine ++ s.tracker.getLineEndReset]
    let (broken, tracker) := breakLongWord metrics width token s.tracker
    let currentLine := broken.getLast?.getD []
    { wrapped := wrapped ++ broken.dropLast
      currentLine
      currentVisibleLength := visibleWidth metrics currentLine
      tracker }
  else
    let s := if (s.currentVisibleLength + tokenVisibleLength : Int) > width ∧
        s.currentVisibleLength > 0 then
      let wrapped := s.wrapped ++ [trimEnd s.currentLine ++ s.tracker.getLineEndReset]
      if isWhitespace then
        { s with wrapped, currentLine := s.tracker.getActiveCodes, currentVisibleLength := 0 }
      else
        { s with wrapped, currentLine := s.tracker.getActiveCodes ++ token
                 currentVisibleLength := tokenVisibleLength }
    else
      { s with currentLine := s.currentLine ++ token
               currentVisibleLength := s.currentVisibleLength + tokenVisibleLength }
    { s with tracker := updateTrackerFromText token s.tracker }

def wrapSingleLine (line : JsString) : List JsString :=
  if line = [] then [[]]
  else if (visibleWidth metrics line : Int) ≤ width then [line]
  else
    let s := (splitIntoTokensWithAnsi line).foldl (wrapStep metrics width) {}
    let wrapped := if s.currentLine = [] then s.wrapped else s.wrapped ++ [s.currentLine]
    if wrapped = [] then [[]] else wrapped.map trimEnd

/-- One step of the loop of `wrapTextWithAnsi`: the lines so far and the tracker. -/
def wrapLineStep (s : List JsString × AnsiCodeTracker) (inputLine : JsString) :
    List JsString × AnsiCodeTracker :=
  let start := if s.1 = [] then [] else s.2.getActiveCodes
  (s.1 ++ wrapSingleLine metrics width (start ++ inputLine), updateTrackerFromText inputLine s.2)

def wrapTextWithAnsi (text : JsString) : List JsString :=
  if text = [] then [[]]
  else
    let result := ((text.splitOn lf).foldl (wrapLineStep metrics width) ([], {})).1
    if result = [] then [[]] else result

end Metrics

end AcademicAgent.AnsiText
