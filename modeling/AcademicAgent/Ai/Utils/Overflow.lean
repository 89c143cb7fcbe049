import AcademicAgent.Ai.Types
import AcademicAgent.Core.Pattern

/-!
# Context overflow

An answer tells that the context was too long by its error, by more input than the
window takes, or by a cut-off answer without output.
-/

namespace AcademicAgent

namespace Pattern

/-- `[_ ]`. -/
def separator (c : CodeUnit) : Bool := c == 0x5F || c == 0x20

/-- A status code at the start, with or without some words, and no body. -/
def noBody (code words : String) : Pattern where
  items := literal code ++ [.many isWhitespace] ++ literal words ++ [.many isWhitespace] ++
    literal "(no body)"
  anchored := true

def heading (words : String) : Pattern where
  items := literal (words ++ ":")
  anchored := true

end Pattern

open Pattern in
def OVERFLOW_PATTERNS : List Pattern :=
  [ofText "prompt is too long", ofText "request_too_large",
    ofText "input is too long for requested model",
    ofText "exceeds the context window",
    { items := literal "input token count" ++ [.many anyUnit] ++ literal "exceeds the maximum" },
    { items := literal "maximum prompt length is " ++ digits },
    ofText "reduce the length of the messages",
    { items := literal "maximum context length is " ++ digits ++ literal " tokens" },
    { items := literal "exceeds the limit of " ++ digits },
    ofText "exceeds the available context size",
    ofText "greater than the context length",
    ofText "context window exceeds limit",
    ofText "exceeded model token limit",
    { items := literal "too large for model with " ++ digits ++
        literal " maximum context length" },
    ofText "model_context_window_exceeded",
    ofText "prompt too long; exceeded context length",
    ofText "prompt too long; exceeded max context length",
    { items := literal "context" ++ [.one separator] ++ literal "length" ++ [.one separator] ++
        literal "exceeded" },
    ofText "too many tokens",
    ofText "token limit exceeded",
    noBody "400" "", noBody "400" "status code",
    noBody "413" "", noBody "413" "status code"]

def NON_OVERFLOW_PATTERNS : List Pattern :=
  [Pattern.heading "Throttling error", Pattern.heading "Service unavailable",
    Pattern.ofText "rate limit",
    Pattern.ofText "too many requests"]

def isOverflowError (errorMessage : JsString) : Bool :=
  !NON_OVERFLOW_PATTERNS.any (fun p => p.test errorMessage) &&
    OVERFLOW_PATTERNS.any fun p => p.test errorMessage

/-- A context window of zero stands for an unknown one. -/
def isContextOverflow (message : AssistantMessage) (contextWindow : Nat) : Bool :=
  let inputTokens := message.usage.input + message.usage.cacheRead
  (match message.stopReason, nonEmpty message.errorMessage with
    | .error, some errorMessage => isOverflowError errorMessage
    | _, _ => false) ||
  (contextWindow != 0 && message.stopReason == .stop && contextWindow < inputTokens) ||
  (contextWindow != 0 && message.stopReason == .length && message.usage.output == 0 &&
    99 * contextWindow ≤ 100 * inputTokens)

end AcademicAgent
