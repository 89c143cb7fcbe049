import AcademicAgent.Core.Json.Number

/-!
# Text patterns

Sequences of character classes, each once, at most once, or any number of times,
looked for in a text without regard to the case of letters.
-/

namespace AcademicAgent

inductive PatternItem where
  | one (holds : CodeUnit → Bool)
  | optional (holds : CodeUnit → Bool)
  | many (holds : CodeUnit → Bool)

/-- A pattern, found at the start of a text only or anywhere in it. -/
structure Pattern where
  items : List PatternItem
  anchored : Bool := false

namespace Pattern

section

variable (c : CodeUnit)

def lowerCase : CodeUnit := if 0x41 ≤ c ∧ c ≤ 0x5A then c + 0x20 else c

def letter : CodeUnit → Bool := fun x => lowerCase x == lowerCase c

/-- `.`: anything but the end of a line. -/
def anyUnit : Bool := !(c == lf || c == cr || c == 0x2028 || c == 0x2029)

end

def literal (text : String) : List PatternItem := (js text).map fun c => .one (letter c)

/-- `.?`. -/
def optionalUnit : List PatternItem := [.optional anyUnit]

/-- `\d+`. -/
def digits : List PatternItem := [.one isDigit, .many isDigit]

def matchesAt : List PatternItem → JsString → Bool
  | [], _ => true
  | .one holds :: items, text =>
    match text with
    | [] => false
    | c :: rest => holds c && matchesAt items rest
  | .optional holds :: items, text =>
    matchesAt items text ||
      match text with
      | [] => false
      | c :: rest => holds c && matchesAt items rest
  | .many holds :: items, text =>
    (List.range ((text.takeWhile holds).length + 1)).any fun n => matchesAt items (text.drop n)

/-- `pattern.test(text)`. -/
def test (p : Pattern) (text : JsString) : Bool :=
  if p.anchored then matchesAt p.items text
  else text.tails.any fun rest => matchesAt p.items rest

def ofText (text : String) : Pattern where
  items := literal text

end Pattern

end AcademicAgent
