import AcademicAgent.Core.Json.Number

/-!
# Escape sequences and active styles

The escape sequences that styled text contains, and the tracker that reads them and
writes the sequences for the styles that are active.
-/

namespace AcademicAgent.AnsiText

def escape : CodeUnit := 0x1B

def bel : CodeUnit := 0x07

def bracket : CodeUnit := 0x5B
def closingBracket : CodeUnit := 0x5D
def underscore : CodeUnit := 0x5F
def backslash : CodeUnit := 0x5C
def semicolon : CodeUnit := 0x3B
def letterM : CodeUnit := 0x6D

/-- `/[mGKHJ]/`. -/
def isCsiFinal (c : CodeUnit) : Bool :=
  c = letterM || c = 0x47 || c = 0x4B || c = 0x48 || c = 0x4A

/-- The length of a string up to `BEL` or `ESC \`, with it. -/
def terminatedLength : JsString → Option Nat
  | [] => none
  | c :: cs =>
    if c = bel then some 1
    else if c = escape ∧ cs.head? = some backslash then some 2
    else (terminatedLength cs).map (· + 1)

/-- `extractAnsiCode`, on the text from the position on. -/
def extractAnsiCode : JsString → Option JsString
  | c :: next :: rest =>
    if c ≠ escape then none
    else if next = bracket then
      (rest.findIdx? isCsiFinal).map fun j => c :: next :: rest.take (j + 1)
    else if next = closingBracket ∨ next = underscore then
      (terminatedLength rest).map fun n => c :: next :: rest.take n
    else none
  | _ => none

/-- A sequence of a text, or a code unit outside of them. -/
inductive AnsiItem where
  | code (text : JsString)
  | unit (c : CodeUnit)
  deriving DecidableEq

def AnsiItem.text : AnsiItem → JsString
  | .code s => s
  | .unit c => [c]

def textOf (items : List AnsiItem) : JsString := items.flatMap AnsiItem.text

/-- What a loop that takes the sequences out of a text meets, when the first `skip`
code units belong to a sequence that it has met. -/
def ansiItemsFrom : Nat → JsString → List AnsiItem
  | _, [] => []
  | 0, c :: cs =>
    match extractAnsiCode (c :: cs) with
    | some code => .code code :: ansiItemsFrom (code.length - 1) cs
    | none => .unit c :: ansiItemsFrom 0 cs
  | skip + 1, _ :: cs => ansiItemsFrom skip cs

/-- The sequences and the other code units of a text. -/
def ansiItems (text : JsString) : List AnsiItem := ansiItemsFrom 0 text

inductive Osc8Terminator where
  | bel
  | st
  deriving DecidableEq

def Osc8Terminator.text : Osc8Terminator → JsString
  | .bel => [AnsiText.bel]
  | .st => [escape, backslash]

structure ActiveHyperlink where
  params : JsString
  url : JsString
  terminator : Osc8Terminator
  deriving DecidableEq

def osc8Start : JsString := [escape, closingBracket, 0x38, semicolon]

/-- `parseOsc8Hyperlink`: `none` for `undefined`, and `some none` for `null`. -/
def parseOsc8Hyperlink (ansiCode : JsString) : Option (Option ActiveHyperlink) :=
  if osc8Start <+: ansiCode then
    let terminator := if ansiCode.getLast? = some bel then Osc8Terminator.bel else .st
    let body := (ansiCode.drop 4).take (ansiCode.length - 4 - terminator.text.length)
    if semicolon ∈ body then
      let params := body.takeWhile (· ≠ semicolon)
      let url := body.drop (params.length + 1)
      some (if url = [] then none else some { params, url, terminator })
    else none
  else none

def formatOsc8Hyperlink (hyperlink : ActiveHyperlink) : JsString :=
  osc8Start ++ hyperlink.params ++ [semicolon] ++ hyperlink.url ++ hyperlink.terminator.text

def formatOsc8Close (terminator : Osc8Terminator) : JsString :=
  osc8Start ++ [semicolon] ++ terminator.text

structure AnsiCodeTracker where
  bold : Bool := false
  dim : Bool := false
  italic : Bool := false
  underline : Bool := false
  blink : Bool := false
  inverse : Bool := false
  hidden : Bool := false
  strikethrough : Bool := false
  /-- The full code, as `31` or `38;5;240`. -/
  fgColor : Option JsString := none
  bgColor : Option JsString := none
  activeHyperlink : Option ActiveHyperlink := none
  deriving DecidableEq

/-- `[\d;]`. -/
def isParam (c : CodeUnit) : Bool := isDigit c || c = semicolon

/-- The group of `/^\x1b\[([\d;]*)m/`. -/
def sgrParamsAt : JsString → Option JsString
  | c :: next :: rest =>
    if c = escape ∧ next = bracket ∧ (rest.dropWhile isParam).head? = some letterM then
      some (rest.takeWhile isParam)
    else none
  | _ => none

/-- The group of `/\x1b\[([\d;]*)m/`. -/
def sgrParams (ansiCode : JsString) : Option JsString := ansiCode.tails.findSome? sgrParamsAt

/-- `Number.parseInt(part, 10)` of digits. -/
def paramCode (part : JsString) : Option Nat := if part = [] then none else some (digitsValue part)

/-- How many parameters after `38` or `48` belong to its colour. -/
def colorLength (rest : List JsString) : Option Nat :=
  if rest[0]? = some (js "5") ∧ rest[1]?.isSome then some 2
  else if rest[0]? = some (js "2") ∧ rest[3]?.isSome then some 4
  else none

namespace AnsiCodeTracker

section

variable (tracker : AnsiCodeTracker)

/-- `reset()`: hyperlinks stay. -/
def reset : AnsiCodeTracker :=
  { activeHyperlink := tracker.activeHyperlink }

/-- The `switch` over one parameter. -/
def applyCode (code : Nat) : AnsiCodeTracker :=
  match code with
  | 0 => tracker.reset
  | 1 => { tracker with bold := true }
  | 2 => { tracker with dim := true }
  | 3 => { tracker with italic := true }
  | 4 => { tracker with underline := true }
  | 5 => { tracker with blink := true }
  | 7 => { tracker with inverse := true }
  | 8 => { tracker with hidden := true }
  | 9 => { tracker with strikethrough := true }
  | 21 => { tracker with bold := false }
  | 22 => { tracker with bold := false, dim := false }
  | 23 => { tracker with italic := false }
  | 24 => { tracker with underline := false }
  | 25 => { tracker with blink := false }
  | 27 => { tracker with inverse := false }
  | 28 => { tracker with hidden := false }
  | 29 => { tracker with strikethrough := false }
  | 39 => { tracker with fgColor := none }
  | 49 => { tracker with bgColor := none }
  | code =>
    if (30 ≤ code ∧ code ≤ 37) ∨ (90 ≤ code ∧ code ≤ 97) then
      { tracker with fgColor := some (decimalText code) }
    else if (40 ≤ code ∧ code ≤ 47) ∨ (100 ≤ code ∧ code ≤ 107) then
      { tracker with bgColor := some (decimalText code) }
    else tracker

/-- Set the colour that `38` or another code stands for. -/
def setColor (code : Nat) (colorCode : JsString) : AnsiCodeTracker :=
  if code = 38 then { tracker with fgColor := some colorCode }
  else { tracker with bgColor := some colorCode }

end

/-- The loop over the parameters, the first `skip` of which belong to a colour. -/
def applyParts : Nat → AnsiCodeTracker → List JsString → AnsiCodeTracker
  | _, tracker, [] => tracker
  | skip + 1, tracker, _ :: rest => applyParts skip tracker rest
  | 0, tracker, part :: rest =>
    match paramCode part with
    | none => applyParts 0 tracker rest
    | some code =>
      match if code = 38 ∨ code = 48 then colorLength rest else none with
      | some length =>
        applyParts length
          (tracker.setColor code ([semicolon].intercalate (part :: rest.take length))) rest
      | none => applyParts 0 (tracker.applyCode code) rest

section

variable (tracker : AnsiCodeTracker)

def process (ansiCode : JsString) : AnsiCodeTracker :=
  match parseOsc8Hyperlink ansiCode with
  | some hyperlink => { tracker with activeHyperlink := hyperlink }
  | none =>
    if ansiCode.getLast? ≠ some letterM then tracker
    else
      match sgrParams ansiCode with
      | none => tracker
      | some params =>
        if params = [] ∨ params = js "0" then tracker.reset
        else applyParts 0 tracker (params.splitOn semicolon)

/-- The codes of the attributes and colours that are on. -/
def codes : List JsString :=
  (if tracker.bold then [js "1"] else []) ++ (if tracker.dim then [js "2"] else []) ++
  (if tracker.italic then [js "3"] else []) ++ (if tracker.underline then [js "4"] else []) ++
  (if tracker.blink then [js "5"] else []) ++ (if tracker.inverse then [js "7"] else []) ++
  (if tracker.hidden then [js "8"] else []) ++
  (if tracker.strikethrough then [js "9"] else []) ++
  (nonEmpty tracker.fgColor).toList ++ (nonEmpty tracker.bgColor).toList

def sgr (params : JsString) : JsString := escape :: bracket :: params ++ [letterM]

/-- `getActiveCodes()`. -/
def getActiveCodes : JsString :=
  (if tracker.codes = [] then [] else sgr ([semicolon].intercalate tracker.codes)) ++
    (tracker.activeHyperlink.map formatOsc8Hyperlink).getD []

/-- `getLineEndReset()`. -/
def getLineEndReset : JsString :=
  (if tracker.underline then sgr (js "24") else []) ++
    (tracker.activeHyperlink.map fun hyperlink => formatOsc8Close hyperlink.terminator).getD []

end

end AnsiCodeTracker

def AnsiItem.track (tracker : AnsiCodeTracker) : AnsiItem → AnsiCodeTracker
  | .code s => tracker.process s
  | .unit _ => tracker

def updateTrackerFromText (text : JsString) (tracker : AnsiCodeTracker) : AnsiCodeTracker :=
  (ansiItems text).foldl AnsiItem.track tracker

end AcademicAgent.AnsiText
