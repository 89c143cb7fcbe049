import AcademicAgent.Ai.Types
import AcademicAgent.Ai.Utils.JsonParse

/-!
# The chat completions stream

One block is current at a time: text, reasoning or a tool call.
-/

namespace AcademicAgent

namespace Completions

structure ToolCallDelta where
  index : Option Nat
  id : Option JsString
  name : Option JsString
  arguments : Option JsString
  deriving DecidableEq

/-- An entry of `reasoning_details`, with the text that `JSON.stringify` gives for it. -/
structure ReasoningDetail where
  type : JsString
  id : Option JsString
  data : Option JsString
  text : JsString
  deriving DecidableEq

structure ChunkDelta where
  content : Option JsString
  reasoningContent : Option JsString
  reasoning : Option JsString
  reasoningText : Option JsString
  toolCalls : List ToolCallDelta
  reasoningDetails : List ReasoningDetail
  deriving DecidableEq

structure RawUsage where
  promptTokens : Option Nat
  completionTokens : Option Nat
  promptCacheHitTokens : Option Nat
  cachedTokens : Option Nat
  cacheWriteTokens : Option Nat
  deriving DecidableEq

structure Choice where
  usage : Option RawUsage
  finishReason : Option JsString
  delta : Option ChunkDelta
  deriving DecidableEq

structure Chunk where
  id : JsString
  model : Option JsString
  usage : Option RawUsage
  choice : Option Choice
  deriving DecidableEq

/-- A block of the message with its scratch fields. -/
structure StreamingBlock where
  content : AssistantBlock
  partialArgs : Option JsString
  streamIndex : Option Nat
  deriving DecidableEq

structure BlockUpdate where
  contentIndex : Nat
  kind : UpdateKind
  deriving DecidableEq

/-- What the stream depends on besides its chunks. -/
structure StreamSettings where
  modelId : JsString
  calculateCost : Usage → UsageCost
  parseIncomplete : JsString → Option Json

/-- The fields of the message that the stream writes. The current block is the last of
the content; the blocks before it are finished. -/
structure StreamState where
  finished : List StreamingBlock
  currentBlock : Option StreamingBlock
  responseId : Option JsString
  responseModel : Option JsString
  usage : Usage
  stopReason : StopReason
  errorMessage : Option JsString
  updates : List BlockUpdate
  deriving DecidableEq

def StreamState.initial : StreamState :=
  ⟨[], none, none, none, EMPTY_USAGE, .stop, none, []⟩

def StreamState.content (s : StreamState) : List StreamingBlock :=
  s.finished ++ s.currentBlock.toList

section Stream

variable (settings : StreamSettings)

def parseChunkUsage (rawUsage : RawUsage) : Usage :=
  let promptTokens := rawUsage.promptTokens.getD 0
  let reportedCachedTokens :=
    (rawUsage.cachedTokens.or rawUsage.promptCacheHitTokens).getD 0
  let cacheWriteTokens := rawUsage.cacheWriteTokens.getD 0
  let cacheReadTokens :=
    if 0 < cacheWriteTokens then reportedCachedTokens - cacheWriteTokens else reportedCachedTokens
  let input := promptTokens - cacheReadTokens - cacheWriteTokens
  let outputTokens := rawUsage.completionTokens.getD 0
  let usage : Usage :=
    { input
      output := outputTokens
      cacheRead := cacheReadTokens
      cacheWrite := cacheWriteTokens
      totalTokens := input + outputTokens + cacheReadTokens + cacheWriteTokens
      cost := EMPTY_USAGE.cost }
  { usage with cost := settings.calculateCost usage }

/-- The stop reason of a finish reason, and the error message that goes with it. -/
def mapStopReason (reason : JsString) : StopReason × Option JsString :=
  if reason = js "stop" ∨ reason = js "end" then (.stop, none)
  else if reason = js "length" then (.length, none)
  else if reason = js "function_call" ∨ reason = js "tool_calls" then (.toolUse, none)
  else (.error, some (js "Provider finish_reason: " ++ reason))

/-- The block that `finishCurrentBlock` leaves, and the update that it reports. -/
def finishBlock : StreamingBlock → StreamingBlock × UpdateKind
  | ⟨.text block, partialArgs, streamIndex⟩ =>
    (⟨.text block, partialArgs, streamIndex⟩, .textEnd block.text)
  | ⟨.thinking block, partialArgs, streamIndex⟩ =>
    (⟨.thinking block, partialArgs, streamIndex⟩, .thinkingEnd block.thinking)
  | ⟨.toolCall block, partialArgs, _⟩ =>
    let block :=
      { block with
        arguments := parseStreamingJson settings.parseIncomplete (partialArgs.getD []) }
    (⟨.toolCall block, none, none⟩, .toolcallEnd block)

section

variable (s : StreamState) (block : StreamingBlock) (kind : UpdateKind)

/-- Finishes the current block and makes another one current. -/
def openBlock : StreamState :=
  match s.currentBlock with
  | none =>
    { s with
      currentBlock := some block
      updates := s.updates ++ [⟨s.finished.length, kind⟩] }
  | some current =>
    { s with
      finished := s.finished ++ [(finishBlock settings current).1]
      currentBlock := some block
      updates := s.updates ++ [⟨s.finished.length, (finishBlock settings current).2⟩,
        ⟨s.finished.length + 1, kind⟩] }

/-- A change of the current block, with the update that reports it. -/
def updateCurrent : StreamState :=
  { s with
    currentBlock := some block
    updates := s.updates ++ [⟨s.finished.length, kind⟩] }

end

section

variable (s : StreamState)

def appendText (text : JsString) : StreamState :=
  match s.currentBlock with
  | some ⟨.text block, partialArgs, streamIndex⟩ =>
    updateCurrent s ⟨.text { block with text := block.text ++ text }, partialArgs, streamIndex⟩
      (.textDelta text)
  | _ =>
    updateCurrent (openBlock settings s ⟨.text { text := [] }, none, none⟩ .textStart)
      ⟨.text { text }, none, none⟩ (.textDelta text)

def appendThinking (field delta : JsString) : StreamState :=
  match s.currentBlock with
  | some ⟨.thinking block, partialArgs, streamIndex⟩ =>
    updateCurrent s
      ⟨.thinking { block with thinking := block.thinking ++ delta }, partialArgs, streamIndex⟩
      (.thinkingDelta delta)
  | _ =>
    updateCurrent
      (openBlock settings s
        ⟨.thinking { thinking := [], thinkingSignature := some field }, none, none⟩ .thinkingStart)
      ⟨.thinking { thinking := delta, thinkingSignature := some field }, none, none⟩
      (.thinkingDelta delta)

section

variable (toolCall : ToolCallDelta)

/-- Whether a fragment goes to a block that is current. -/
def sameToolCall (block : ToolCall) (streamIndex : Option Nat) : Bool :=
  match toolCall.index with
  | some index => streamIndex = some index
  | none => (nonEmpty toolCall.id).isSome && toolCall.id = some block.id

def startedCall : StreamingBlock :=
  ⟨.toolCall
      { id := toolCall.id.getD []
        name := toolCall.name.getD []
        arguments := .emptyObject },
    some [], toolCall.index⟩

def addFragment (block : ToolCall) (partialArgs : Option JsString)
    (streamIndex : Option Nat) : StreamingBlock :=
  let delta := toolCall.arguments.getD []
  ⟨.toolCall
      { block with
        id := if block.id = [] then toolCall.id.getD [] else block.id
        name := if block.name = [] then toolCall.name.getD [] else block.name
        arguments :=
          if delta = [] then block.arguments
          else parseStreamingJson settings.parseIncomplete (partialArgs.getD [] ++ delta) },
    some (partialArgs.getD [] ++ delta), streamIndex.or toolCall.index⟩

/-- Starts a call unless the fragment is for the current one. -/
def enterToolCall : StreamState :=
  match s.currentBlock with
  | some ⟨.toolCall block, _, streamIndex⟩ =>
    if sameToolCall toolCall block streamIndex then s
    else openBlock settings s (startedCall toolCall) .toolcallStart
  | _ => openBlock settings s (startedCall toolCall) .toolcallStart

def appendToolCall : StreamState :=
  let s := enterToolCall settings s toolCall
  match s.currentBlock with
  | some ⟨.toolCall block, partialArgs, streamIndex⟩ =>
    updateCurrent s (addFragment settings toolCall block partialArgs streamIndex)
      (.toolcallDelta (toolCall.arguments.getD []))
  | _ => s

end

/-- The call is one that an encrypted reasoning detail belongs to. -/
def isCallWithId (id : JsString) (block : StreamingBlock) : Bool :=
  match block.content with
  | .toolCall call => call.id = id
  | .text _ | .thinking _ => false

def signBlock (text : JsString) (block : StreamingBlock) : StreamingBlock :=
  match block.content with
  | .toolCall call =>
    { block with content := .toolCall { call with thoughtSignature := some text } }
  | .text _ | .thinking _ => block

/-- Changes the first block that meets a condition. -/
def modifyFirst (p : StreamingBlock → Bool) (f : StreamingBlock → StreamingBlock) :
    List StreamingBlock → List StreamingBlock
  | [] => []
  | block :: blocks => if p block then f block :: blocks else block :: modifyFirst p f blocks

/-- An entry of `reasoning_details`. -/
def applyReasoningDetail (detail : ReasoningDetail) : StreamState :=
  match nonEmpty detail.id, nonEmpty detail.data with
  | some id, some _ =>
    if detail.type = js "reasoning.encrypted" then
      if s.finished.any (isCallWithId id) then
        { s with finished := modifyFirst (isCallWithId id) (signBlock detail.text) s.finished }
      else
        { s with
          currentBlock := s.currentBlock.map fun block =>
            if isCallWithId id block then signBlock detail.text block else block }
    else s
  | _, _ => s

/-- The first reasoning field that is not empty, with what it holds. -/
def foundReasoning (delta : ChunkDelta) : Option (JsString × JsString) :=
  ((nonEmpty delta.reasoningContent).map (js "reasoning_content", ·)).or
    (((nonEmpty delta.reasoning).map (js "reasoning", ·)).or
      ((nonEmpty delta.reasoningText).map (js "reasoning_text", ·)))

def applyDelta (delta : ChunkDelta) : StreamState :=
  let s :=
    match nonEmpty delta.content with
    | some text => appendText settings s text
    | none => s
  let s :=
    match foundReasoning delta with
    | some (field, thinking) => appendThinking settings s field thinking
    | none => s
  delta.reasoningDetails.foldl applyReasoningDetail
    (delta.toolCalls.foldl (appendToolCall settings) s)

/-- The fields besides the content that a chunk sets. -/
def applyMeta (chunk : Chunk) : StreamState :=
  let s := { s with responseId := (nonEmpty s.responseId).or (some chunk.id) }
  let s :=
    match nonEmpty chunk.model with
    | some model =>
      if model ≠ settings.modelId then
        { s with responseModel := (nonEmpty s.responseModel).or (some model) }
      else s
    | none => s
  let s :=
    match chunk.usage.or (chunk.choice.bind Choice.usage) with
    | some usage => { s with usage := parseChunkUsage settings usage }
    | none => s
  match nonEmpty (chunk.choice.bind Choice.finishReason) with
  | some reason =>
    { s with
      stopReason := (mapStopReason reason).1
      errorMessage := (mapStopReason reason).2.or s.errorMessage }
  | none => s

def streamChunk (chunk : Chunk) : StreamState :=
  match chunk.choice.bind Choice.delta with
  | some delta => applyDelta settings (applyMeta settings s chunk) delta
  | none => applyMeta settings s chunk

/-- `finishCurrentBlock` at the end of the stream. -/
def finishStream : StreamState :=
  match s.currentBlock with
  | none => s
  | some current =>
    { s with
      currentBlock := some (finishBlock settings current).1
      updates := s.updates ++ [⟨s.finished.length, (finishBlock settings current).2⟩] }

end

/-- How a stream ends: its state, with the content of the final message, and whether it
ends with `done` or with `error`. -/
structure StreamResult where
  state : StreamState
  content : List StreamingBlock
  done : Bool
  deriving DecidableEq

/-- The `catch` branch. -/
def failStream (aborted : Bool) (s : StreamState) (error : JsString) : StreamResult where
  state :=
    { s with
      stopReason := if aborted then .aborted else .error
      errorMessage := some error }
  content := s.content.map fun block => ⟨block.content, none, none⟩
  done := false

/-- The stream over the chunks of a response, which may end with an error. -/
def streamOpenAICompletions (aborted : Bool) (chunks : List Chunk × Option JsString) :
    StreamResult :=
  let s := chunks.1.foldl (streamChunk settings) .initial
  match chunks.2 with
  | some error => failStream aborted s error
  | none =>
    let s := finishStream settings s
    if aborted ∨ s.stopReason = .aborted then failStream aborted s (js "Request was aborted")
    else if s.stopReason = .error then
      failStream aborted s
        ((nonEmpty s.errorMessage).getD (js "Provider returned an error stop reason"))
    else ⟨s, s.content, true⟩

end Stream

end Completions

end AcademicAgent
