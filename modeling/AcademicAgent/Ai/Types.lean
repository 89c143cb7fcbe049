import AcademicAgent.Core.JsDate
import AcademicAgent.Core.Json.Value

/-!
# Messages of the model API

Content blocks and the three message roles a provider understands.
-/

namespace AcademicAgent

structure TextContent where
  text : JsString
  textSignature : Option JsString := none
  deriving DecidableEq

structure ThinkingContent where
  thinking : JsString
  thinkingSignature : Option JsString := none
  redacted : Option Bool := none
  deriving DecidableEq

structure ImageContent where
  data : JsString
  mimeType : JsString
  deriving DecidableEq

structure ToolCall where
  id : JsString
  name : JsString
  arguments : Json
  thoughtSignature : Option JsString := none
  deriving DecidableEq

/-- A block of user, custom or tool-result content. -/
inductive ContentBlock where
  | text (c : TextContent)
  | image (c : ImageContent)
  deriving DecidableEq

/-- `string | (TextContent | ImageContent)[]`. -/
inductive MessageContent where
  | string (s : JsString)
  | blocks (bs : List ContentBlock)
  deriving DecidableEq

inductive AssistantBlock where
  | text (c : TextContent)
  | thinking (c : ThinkingContent)
  | toolCall (c : ToolCall)
  deriving DecidableEq

/-- The tool call of a block, `c.type === "toolCall"`. -/
def AssistantBlock.toolCall? : AssistantBlock → Option ToolCall
  | .toolCall c => some c
  | .text _ | .thinking _ => none

structure UsageCost where
  input : Decimal
  output : Decimal
  cacheRead : Decimal
  cacheWrite : Decimal
  total : Decimal
  deriving DecidableEq

structure Usage where
  input : Nat
  output : Nat
  cacheRead : Nat
  cacheWrite : Nat
  totalTokens : Nat
  cost : UsageCost
  deriving DecidableEq

inductive StopReason where
  | stop
  | length
  | toolUse
  | error
  | aborted
  deriving DecidableEq

structure UserMessage where
  content : MessageContent
  timestamp : Int
  deriving DecidableEq

structure AssistantMessage where
  content : List AssistantBlock
  api : JsString
  provider : JsString
  model : JsString
  responseModel : Option JsString := none
  responseId : Option JsString := none
  diagnostics : Option (List Json) := none
  usage : Usage
  stopReason : StopReason
  errorMessage : Option JsString := none
  timestamp : Int
  deriving DecidableEq

/-- `message.content.filter((c) => c.type === "toolCall")`. -/
def AssistantMessage.toolCalls (m : AssistantMessage) : List ToolCall :=
  m.content.filterMap AssistantBlock.toolCall?

structure ToolResultMessage where
  toolCallId : JsString
  toolName : JsString
  content : List ContentBlock
  details : Option Json
  isError : Bool
  timestamp : Int
  deriving DecidableEq

/-- A message of the model API. The time of a user message that stands for something
else may be no time. -/
inductive Message where
  | user (content : MessageContent) (timestamp : Date.Time)
  | assistant (m : AssistantMessage)
  | toolResult (m : ToolResultMessage)
  deriving DecidableEq

/-- The usage of a message that reached no provider. -/
def EMPTY_USAGE : Usage where
  input := 0
  output := 0
  cacheRead := 0
  cacheWrite := 0
  totalTokens := 0
  cost := ⟨.ofInt 0, .ofInt 0, .ofInt 0, .ofInt 0, .ofInt 0⟩

/-- The kinds of update a stream reports, with what they carry. -/
inductive UpdateKind where
  | textStart
  | textDelta (delta : JsString)
  | textEnd (content : JsString)
  | thinkingStart
  | thinkingDelta (delta : JsString)
  | thinkingEnd (content : JsString)
  | toolcallStart
  | toolcallDelta (delta : JsString)
  | toolcallEnd (toolCall : ToolCall)
  deriving DecidableEq

/-- An event of an assistant stream. `done` and `error` end it. -/
inductive AssistantMessageEvent where
  | start (partialMessage : AssistantMessage)
  | update (kind : UpdateKind) (contentIndex : Nat) (partialMessage : AssistantMessage)
  | done (message : AssistantMessage)
  | error (error : AssistantMessage)
  deriving DecidableEq

end AcademicAgent
