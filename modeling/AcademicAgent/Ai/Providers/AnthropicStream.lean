import AcademicAgent.Ai.Types
import AcademicAgent.Ai.Utils.JsonParse

/-!
# The Anthropic message stream

Content blocks are assembled from the events of a stream.
-/

namespace AcademicAgent

/-- `content_block` of a `content_block_start` event. -/
inductive ContentBlockStart where
  | text
  | thinking
  | redactedThinking (data : JsString)
  | toolUse (id name : JsString) (input : Option Json)
  deriving DecidableEq

/-- `delta` of a `content_block_delta` event. -/
inductive ContentBlockDelta where
  | text (text : JsString)
  | thinking (thinking : JsString)
  | inputJson (json : JsString)
  | signature (signature : JsString)
  | other
  deriving DecidableEq

/-- The token counts of an event; a count may be absent or null. -/
structure RawUsage where
  inputTokens : Option Nat
  outputTokens : Option Nat
  cacheReadInputTokens : Option Nat
  cacheCreationInputTokens : Option Nat
  deriving DecidableEq

inductive RawMessageStreamEvent where
  | messageStart (id : JsString) (usage : RawUsage)
  | contentBlockStart (index : Nat) (contentBlock : ContentBlockStart)
  | contentBlockDelta (index : Nat) (delta : ContentBlockDelta)
  | contentBlockStop (index : Nat)
  | messageDelta (stopReason : Option JsString) (usage : RawUsage)
  | messageStop
  deriving DecidableEq

/-- A block of the message with its scratch fields. -/
structure Block where
  content : AssistantBlock
  index : Option Nat
  partialJson : Option JsString
  deriving DecidableEq

/-- An update of the block at a place of the content. -/
structure BlockUpdate where
  contentIndex : Nat
  kind : UpdateKind
  deriving DecidableEq

/-- `fromClaudeCodeName`, over the names of the tools. -/
def fromClaudeCodeName (toLowerCase : JsString → JsString) (name : JsString)
    (tools : List JsString) : JsString :=
  (tools.find? fun tool => toLowerCase tool = toLowerCase name).getD name

/-- What the stream depends on besides its events: the names tools are known by, the
prices of the model, and the parser for incomplete JSON. -/
structure StreamSettings where
  toolName : JsString → JsString
  calculateCost : Usage → UsageCost
  parseIncomplete : JsString → Option Json

def REASONING_REDACTED : JsString := js "[Reasoning redacted]"

section Assembly

variable (settings : StreamSettings)

/-- The block that a start event opens, with the update that reports it. -/
def startBlock (index : Nat) : ContentBlockStart → Block × UpdateKind
  | .text => (⟨.text { text := [] }, some index, none⟩, .textStart)
  | .thinking =>
    (⟨.thinking { thinking := [], thinkingSignature := some [] }, some index, none⟩, .thinkingStart)
  | .redactedThinking data =>
    (⟨.thinking
        { thinking := REASONING_REDACTED, thinkingSignature := some data, redacted := some true },
      some index, none⟩, .thinkingStart)
  | .toolUse id name input =>
    (⟨.toolCall
        { id, name := settings.toolName name, arguments := input.getD .emptyObject },
      some index, some []⟩, .toolcallStart)

/-- What a delta makes of a block of its kind, with the update that reports it. -/
def applyDelta : Block → ContentBlockDelta → Option (Block × Option UpdateKind)
  | ⟨.text block, index, json⟩, .text text =>
    some (⟨.text { block with text := block.text ++ text }, index, json⟩, some (.textDelta text))
  | ⟨.thinking block, index, json⟩, .thinking thinking =>
    some (⟨.thinking { block with thinking := block.thinking ++ thinking }, index, json⟩,
      some (.thinkingDelta thinking))
  | ⟨.toolCall block, index, json⟩, .inputJson delta =>
    some (⟨.toolCall
        { block with
          arguments := parseStreamingJson settings.parseIncomplete (json.getD [] ++ delta) },
      index, some (json.getD [] ++ delta)⟩, some (.toolcallDelta delta))
  | ⟨.thinking block, index, json⟩, .signature signature =>
    some (⟨.thinking
        { block with thinkingSignature := some (block.thinkingSignature.getD [] ++ signature) },
      index, json⟩, none)
  | _, _ => none

/-- The block without its scratch fields when it is stopped, with the update. -/
def stopBlock : Block → Block × UpdateKind
  | ⟨.text block, _, json⟩ => (⟨.text block, none, json⟩, .textEnd block.text)
  | ⟨.thinking block, _, json⟩ => (⟨.thinking block, none, json⟩, .thinkingEnd block.thinking)
  | ⟨.toolCall block, _, json⟩ =>
    let block :=
      { block with arguments := parseStreamingJson settings.parseIncomplete (json.getD []) }
    (⟨.toolCall block, none, none⟩, .toolcallEnd block)

end Assembly

/-- The fields of the message that the stream writes. -/
structure StreamOutput where
  content : List Block
  responseId : Option JsString
  usage : Usage
  stopReason : StopReason
  errorMessage : Option JsString
  deriving DecidableEq

structure StreamState where
  output : StreamOutput
  updates : List BlockUpdate
  deriving DecidableEq

def StreamState.initial : StreamState := ⟨⟨[], none, EMPTY_USAGE, .stop, none⟩, []⟩

/-- `blocks.findIndex((b) => b.index === event.index)`. -/
def findBlock (blocks : List Block) (index : Nat) : Option Nat :=
  blocks.findIdx? fun b => b.index = some index

def mapStopReason (reason : JsString) : Except JsString StopReason :=
  if reason = js "end_turn" then .ok .stop
  else if reason = js "max_tokens" then .ok .length
  else if reason = js "tool_use" then .ok .toolUse
  else if reason = js "refusal" then .ok .error
  else if reason = js "pause_turn" then .ok .stop
  else if reason = js "stop_sequence" then .ok .stop
  else if reason = js "sensitive" then .ok .error
  else .error (js "Unhandled stop reason: " ++ reason)

section Stream

variable (settings : StreamSettings)

def totalUsage (usage : Usage) : Usage :=
  let usage :=
    { usage with
      totalTokens := usage.input + usage.output + usage.cacheRead + usage.cacheWrite }
  { usage with cost := settings.calculateCost usage }

/-- The body of the loop over the events; an error is thrown before the message is
changed. -/
def streamEvent (s : StreamState) : RawMessageStreamEvent → Except JsString StreamState
  | .messageStart id usage =>
    .ok { s with
      output :=
        { s.output with
          responseId := some id
          usage := totalUsage settings
            { s.output.usage with
              input := usage.inputTokens.getD 0
              output := usage.outputTokens.getD 0
              cacheRead := usage.cacheReadInputTokens.getD 0
              cacheWrite := usage.cacheCreationInputTokens.getD 0 } } }
  | .contentBlockStart index contentBlock =>
    let block := startBlock settings index contentBlock
    .ok
      { output := { s.output with content := s.output.content ++ [block.1] }
        updates := s.updates ++ [⟨s.output.content.length, block.2⟩] }
  | .contentBlockDelta index delta =>
    match findBlock s.output.content index with
    | none => .ok s
    | some i =>
      match s.output.content[i]?.bind (applyDelta settings · delta) with
      | none => .ok s
      | some (block, kind) =>
        .ok
          { output := { s.output with content := s.output.content.set i block }
            updates := s.updates ++ kind.toList.map (BlockUpdate.mk i) }
  | .contentBlockStop index =>
    match findBlock s.output.content index with
    | none => .ok s
    | some i =>
      match s.output.content[i]? with
      | none => .ok s
      | some block =>
        .ok
          { output := { s.output with content := s.output.content.set i (stopBlock settings block).1 }
            updates := s.updates ++ [⟨i, (stopBlock settings block).2⟩] }
  | .messageDelta stopReason usage => do
    let stopReason ←
      match nonEmpty stopReason with
      | some reason => mapStopReason reason
      | none => pure s.output.stopReason
    pure { s with
      output :=
        { s.output with
          stopReason
          usage := totalUsage settings
            { s.output.usage with
              input := usage.inputTokens.getD s.output.usage.input
              output := usage.outputTokens.getD s.output.usage.output
              cacheRead := usage.cacheReadInputTokens.getD s.output.usage.cacheRead
              cacheWrite := usage.cacheCreationInputTokens.getD s.output.usage.cacheWrite } } }
  | .messageStop => .ok s

/-- The loop over the events, with the error that a body throws. -/
def consumeEvents (s : StreamState) :
    List RawMessageStreamEvent → StreamState × Option JsString
  | [] => (s, none)
  | event :: events =>
    match streamEvent settings s event with
    | .ok s => consumeEvents s events
    | .error error => (s, some error)

/-- How a stream ends: the updates it reported, its final message, and whether it ends
with `done` or with `error`. -/
structure StreamResult where
  updates : List BlockUpdate
  message : StreamOutput
  done : Bool
  deriving DecidableEq

/-- The `catch` branch. -/
def failStream (aborted : Bool) (s : StreamState) (error : JsString) : StreamResult where
  updates := s.updates
  message :=
    { s.output with
      content := s.output.content.map fun block => ⟨block.content, none, none⟩
      stopReason := if aborted then .aborted else .error
      errorMessage := some error }
  done := false

/-- The stream over the events of a response, which may end with an error. The signal
is looked at when the events have ended. -/
def streamAnthropic (aborted : Bool) (events : List RawMessageStreamEvent × Option JsString) :
    StreamResult :=
  let consumed := consumeEvents settings .initial events.1
  match consumed.2.or events.2 with
  | some error => failStream aborted consumed.1 error
  | none =>
    if aborted then failStream aborted consumed.1 (js "Request was aborted")
    else if consumed.1.output.stopReason = .aborted ∨ consumed.1.output.stopReason = .error then
      failStream aborted consumed.1 (js "An unknown error occurred")
    else ⟨consumed.1.updates, consumed.1.output, true⟩

end Stream

end AcademicAgent
