import AcademicAgent.Core.Json.Text

/-!
# JSON from a stream

A model may write JSON with raw control characters or unknown escapes in its strings; these are
repaired when the text does not parse.
-/

namespace AcademicAgent

def isControlCharacter (char : CodeUnit) : Bool := decide (char ≤ 0x1F)

def escapeControlCharacter (char : CodeUnit) : JsString :=
  if char = 0x08 then js "\\b"
  else if char = 0x0C then js "\\f"
  else if char = 0x0A then js "\\n"
  else if char = 0x0D then js "\\r"
  else if char = 0x09 then js "\\t"
  else Json.unicodeEscape char

def VALID_JSON_ESCAPES : JsString := js "\"\\/bfnrtu"

/-- The loop of `repairJson`, outside or inside a string. -/
def repairFrom : Bool → JsString → JsString
  | _, [] => []
  | false, char :: json => char :: repairFrom (decide (char = 0x22)) json
  | true, 0x22 :: json => 0x22 :: repairFrom false json
  | true, [0x5C] => [0x5C, 0x5C]
  | true, 0x5C :: 0x75 :: a :: b :: c :: d :: json =>
    if (Json.hexUnit a b c d).isSome then 0x5C :: 0x75 :: a :: b :: c :: d :: repairFrom true json
    else 0x5C :: 0x75 :: repairFrom true (a :: b :: c :: d :: json)
  | true, 0x5C :: nextChar :: json =>
    if nextChar ∈ VALID_JSON_ESCAPES then 0x5C :: nextChar :: repairFrom true json
    else 0x5C :: 0x5C :: repairFrom true (nextChar :: json)
  | true, char :: json =>
    (if isControlCharacter char then escapeControlCharacter char else [char]) ++
      repairFrom true json

def repairJson (json : JsString) : JsString := repairFrom false json

/-- `JSON.parse` with one more try on the repaired text; a text that does not parse has
the error that `JSON.parse` throws for it. -/
def parseJsonWithRepair (syntaxError : JsString → JsString) (json : JsString) :
    Except JsString Json :=
  match Json.parse json with
  | some value => .ok value
  | none =>
    if repairJson json ≠ json then
      match Json.parse (repairJson json) with
      | some value => .ok value
      | none => .error (syntaxError (repairJson json))
    else .error (syntaxError json)

section Streaming

variable (partialParse : JsString → Option Json)

/-- The value of an incomplete text, `result ?? {}`; nothing when the parser throws. -/
def parseIncomplete (json : JsString) : Option Json :=
  (partialParse json).map fun result => (Json.notNull result).getD .emptyObject

def parseStreamingJson (partialJson : JsString) : Json :=
  if partialJson = [] ∨ trim partialJson = [] then .emptyObject
  else
    match parseJsonWithRepair id partialJson with
    | .ok value => value
    | .error _ =>
      ((parseIncomplete partialParse partialJson).or
        (parseIncomplete partialParse (repairJson partialJson))).getD .emptyObject

@[simp] theorem parseStreamingJson_nil : parseStreamingJson partialParse [] = .emptyObject :=
  if_pos (Or.inl rfl)

theorem parseStreamingJson_of_parse {json : JsString} {value : Json}
    (hblank : trim json ≠ []) (h : Json.parse json = some value) :
    parseStreamingJson partialParse json = value := by
  have hne : json ≠ [] := by
    rintro rfl
    exact hblank rfl
  rw [parseStreamingJson, if_neg (not_or.mpr ⟨hne, hblank⟩), parseJsonWithRepair, h]

end Streaming

end AcademicAgent
