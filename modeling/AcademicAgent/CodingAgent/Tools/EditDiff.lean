import AcademicAgent.Core.Lines
import AcademicAgent.Core.Occurrence
import AcademicAgent.Core.Json.Number
import Mathlib.Data.List.Sort

/-!
# Applying edits

The edit tool replaces texts of a file.
-/

namespace AcademicAgent

inductive LineEnding where
  | crlf
  | lf
  deriving DecidableEq

/-- The ending of the first line, if it is a carriage return and a line feed. -/
def detectLineEnding (content : JsString) : LineEnding :=
  match indexOf? [cr, lf] content, indexOf? [lf] content with
  | _, none => .lf
  | none, some _ => .lf
  | some crlfIdx, some lfIdx => if crlfIdx < lfIdx then .crlf else .lf

/-- `text.replace(/\r\n/g, "\n")`. -/
def replaceCrlf : JsString → JsString
  | a :: b :: rest =>
    if a = cr ∧ b = lf then lf :: replaceCrlf rest else a :: replaceCrlf (b :: rest)
  | text => text

def normalizeToLF (text : JsString) : JsString :=
  (replaceCrlf text).map fun c => if c = cr then lf else c

def restoreLineEndings (text : JsString) : LineEnding → JsString
  | .crlf => text.flatMap fun c => if c = lf then [cr, lf] else [c]
  | .lf => text

/-- The byte order mark of a text, if it has one, and the rest. -/
def stripBom (content : JsString) : JsString × JsString :=
  if content.head? = some 0xFEFF then ([0xFEFF], content.tail) else ([], content)

def singleQuotes : List CodeUnit := [0x2018, 0x2019, 0x201A, 0x201B]

def doubleQuotes : List CodeUnit := [0x201C, 0x201D, 0x201E, 0x201F]

def dashes : List CodeUnit := [0x2010, 0x2011, 0x2012, 0x2013, 0x2014, 0x2015, 0x2212]

def specialSpaces : List CodeUnit :=
  [0x00A0, 0x2002, 0x2003, 0x2004, 0x2005, 0x2006, 0x2007, 0x2008, 0x2009, 0x200A, 0x202F,
    0x205F, 0x3000]

/-- `text.replace` with a global pattern of one character class. -/
def replaceClass (characters : List CodeUnit) (replacement : CodeUnit) (text : JsString) :
    JsString :=
  text.map fun c => if c ∈ characters then replacement else c

/-- What is done to a text after Unicode normalization. -/
def cleanForFuzzyMatch (text : JsString) : JsString :=
  replaceClass specialSpaces 0x20 <| replaceClass dashes 0x2D <|
    replaceClass doubleQuotes 0x22 <| replaceClass singleQuotes 0x27 <|
      [lf].intercalate ((splitLines text).map trimEnd)

/-- A replacement: a text to find and the text to put there. -/
structure Edit where
  oldText : JsString
  newText : JsString
  deriving DecidableEq

def Edit.normalize (edit : Edit) : Edit :=
  { oldText := normalizeToLF edit.oldText, newText := normalizeToLF edit.newText }

structure FuzzyMatchResult where
  index : Nat
  matchLength : Nat
  usedFuzzyMatch : Bool
  contentForReplacement : JsString

structure MatchedEdit where
  editIndex : Nat
  matchIndex : Nat
  matchLength : Nat
  newText : JsString

structure AppliedEditsResult where
  baseContent : JsString
  newContent : JsString
  deriving DecidableEq

section

variable (path : JsString)

def getNotFoundError (editIndex totalEdits : Nat) : JsString :=
  if totalEdits = 1 then
    js "Could not find the exact text in " ++ path ++
      js ". The old text must match exactly including all whitespace and newlines."
  else
    js "Could not find edits[" ++ decimalText editIndex ++ js "] in " ++ path ++
      js ". The oldText must match exactly including all whitespace and newlines."

def getDuplicateError (editIndex totalEdits occurrences : Nat) : JsString :=
  if totalEdits = 1 then
    js "Found " ++ decimalText occurrences ++ js " occurrences of the text in " ++ path ++
      js ". The text must be unique. Please provide more context to make it unique."
  else
    js "Found " ++ decimalText occurrences ++ js " occurrences of edits[" ++
      decimalText editIndex ++ js "] in " ++ path ++
      js ". Each oldText must be unique. Please provide more context to make it unique."

def getEmptyOldTextError (editIndex totalEdits : Nat) : JsString :=
  if totalEdits = 1 then js "oldText must not be empty in " ++ path ++ js "."
  else
    js "edits[" ++ decimalText editIndex ++ js "].oldText must not be empty in " ++ path ++ js "."

def getNoChangeError (totalEdits : Nat) : JsString :=
  if totalEdits = 1 then
    js "No changes made to " ++ path ++ js ". The replacement produced identical content. This " ++
    js "might indicate an issue with special characters or the text not existing as expected."
  else js "No changes made to " ++ path ++ js ". The replacements produced identical content."

def getOverlapError (previous current : Nat) : JsString :=
  js "edits[" ++ decimalText previous ++ js "] and edits[" ++ decimalText current ++
    js "] overlap in " ++ path ++ js ". Merge them into one edit or target disjoint regions."

end

section Apply

variable (nfkc : JsString → JsString)

/-- The form of a text in which quotes, dashes, spaces and trailing whitespace do
not matter. -/
def normalizeForFuzzyMatch (text : JsString) : JsString := cleanForFuzzyMatch (nfkc text)

/-- Looks for a text as it is, and then in its normalized form. -/
def fuzzyFindText (content oldText : JsString) : Option FuzzyMatchResult :=
  match indexOf? oldText content with
  | some exactIndex =>
    some {
      index := exactIndex
      matchLength := oldText.length
      usedFuzzyMatch := false
      contentForReplacement := content }
  | none =>
    let fuzzyContent := normalizeForFuzzyMatch nfkc content
    let fuzzyOldText := normalizeForFuzzyMatch nfkc oldText
    (indexOf? fuzzyOldText fuzzyContent).map fun fuzzyIndex =>
      { index := fuzzyIndex
        matchLength := fuzzyOldText.length
        usedFuzzyMatch := true
        contentForReplacement := fuzzyContent }

/-- One less than the pieces that splitting the normalized content leaves. -/
def countOccurrences (content oldText : JsString) : Int :=
  (splitAll (normalizeForFuzzyMatch nfkc content) (normalizeForFuzzyMatch nfkc oldText)).length - 1

def checkOldTexts (path : JsString) (totalEdits : Nat) : Nat → List Edit → Except JsString Unit
  | _, [] => .ok ()
  | i, edit :: edits =>
    if edit.oldText = [] then .error (getEmptyOldTextError path i totalEdits)
    else checkOldTexts path totalEdits (i + 1) edits

/-- The content that the edits are matched against. -/
def baseContentOf (normalizedContent : JsString) (normalizedEdits : List Edit) : JsString :=
  if normalizedEdits.any fun edit =>
      (fuzzyFindText nfkc normalizedContent edit.oldText).any fun found => found.usedFuzzyMatch then
    normalizeForFuzzyMatch nfkc normalizedContent
  else normalizedContent

/-- Finds every edit in the base content, and rejects one found more than once. -/
def matchEdits (baseContent path : JsString) (totalEdits : Nat) :
    Nat → List Edit → Except JsString (List MatchedEdit)
  | _, [] => .ok []
  | i, edit :: edits =>
    match fuzzyFindText nfkc baseContent edit.oldText with
    | none => .error (getNotFoundError path i totalEdits)
    | some matchResult =>
      let occurrences := countOccurrences nfkc baseContent edit.oldText
      if 1 < occurrences then
        .error (getDuplicateError path i totalEdits occurrences.toNat)
      else do
        let matchedEdits ← matchEdits baseContent path totalEdits (i + 1) edits
        return {
          editIndex := i
          matchIndex := matchResult.index
          matchLength := matchResult.matchLength
          newText := edit.newText } :: matchedEdits

/-- Found edits in the order of their positions, ties in the order of the edits. -/
def sortMatches (matchedEdits : List MatchedEdit) : List MatchedEdit :=
  matchedEdits.mergeSort fun a b => a.matchIndex ≤ b.matchIndex

/-- Rejects a found edit that ends behind the start of the next. -/
def checkOverlap (path : JsString) : List MatchedEdit → Except JsString Unit
  | previous :: current :: matchedEdits =>
    if previous.matchIndex + previous.matchLength > current.matchIndex then
      .error (getOverlapError path previous.editIndex current.editIndex)
    else checkOverlap path (current :: matchedEdits)
  | _ => .ok ()

/-- Replaces the found regions, the last one first. -/
def replaceMatches (baseContent : JsString) (matchedEdits : List MatchedEdit) : JsString :=
  matchedEdits.foldr (fun edit newContent =>
    newContent.take edit.matchIndex ++ edit.newText ++
      newContent.drop (edit.matchIndex + edit.matchLength)) baseContent

def applyEditsToNormalizedContent (normalizedContent : JsString) (edits : List Edit)
    (path : JsString) : Except JsString AppliedEditsResult := do
  let normalizedEdits := edits.map Edit.normalize
  let totalEdits := normalizedEdits.length
  checkOldTexts path totalEdits 0 normalizedEdits
  let baseContent := baseContentOf nfkc normalizedContent normalizedEdits
  let matchedEdits ← matchEdits nfkc baseContent path totalEdits 0 normalizedEdits
  let matchedEdits := sortMatches matchedEdits
  checkOverlap path matchedEdits
  let newContent := replaceMatches baseContent matchedEdits
  if baseContent = newContent then throw (getNoChangeError path totalEdits)
  else return { baseContent, newContent }

/-- What the edit tool writes to a file that holds `rawContent`. -/
def editFile (rawContent : JsString) (edits : List Edit) (path : JsString) :
    Except JsString JsString := do
  if edits = [] then
    throw (js "Edit tool input is invalid. edits must contain at least one replacement.")
  let (bom, content) := stripBom rawContent
  let originalEnding := detectLineEnding content
  let applied ← applyEditsToNormalizedContent nfkc (normalizeToLF content) edits path
  return bom ++ restoreLineEndings applied.newContent originalEnding

end Apply

end AcademicAgent
