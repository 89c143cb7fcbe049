import AcademicAgent.Ai.Types
import AcademicAgent.Ai.Utils.JsonParse

/-!
# The Responses stream

One output item is current at a time, with the block it fills.
-/

namespace AcademicAgent

namespace Responses

/-- A part of a message item; other kinds of part hold no text. -/
inductive ContentPart where
  | outputText (text : JsString)
  | refusal (refusal : JsString)
  | other
  deriving DecidableEq

/-- A reasoning item: the texts of its parts, and what `JSON.stringify` gives for it. -/
structure ReasoningItem where
  summary : Option (List JsString)
  content : Option (List JsString)
  text : JsString
  deriving DecidableEq

structure MessageItem where
  id : JsString
  phase : Option JsString
  content : List ContentPart
  deriving DecidableEq

structure FunctionCallItem where
  callId : JsString
  id : Option JsString
  name : JsString
  arguments : Option JsString
  deriving DecidableEq

inductive OutputItem where
  | reasoning (item : ReasoningItem)
  | message (item : MessageItem)
  | functionCall (item : FunctionCallItem)
  | other
  deriving DecidableEq

/-- The events that fill the message, and those of other types. -/
inductive ContentEvent where
  | created (id : JsString)
  | outputItemAdded (item : OutputItem)
  | reasoningSummaryPartAdded
  | reasoningSummaryTextDelta (delta : JsString)
  | reasoningSummaryPartDone
  | reasoningTextDelta (delta : JsString)
  | contentPartAdded (part : ContentPart)
  | outputTextDelta (delta : JsString)
  | refusalDelta (delta : JsString)
  | functionCallArgumentsDelta (delta : JsString)
  | functionCallArgumentsDone (arguments : JsString)
  | outputItemDone (item : OutputItem)
  | other
  deriving DecidableEq

/-- `response.usage`; a count may be absent. -/
structure ResponseUsage where
  inputTokens : Option Nat
  outputTokens : Option Nat
  totalTokens : Option Nat
  cachedTokens : Option Nat
  deriving DecidableEq

/-- The response of a terminal event; a response that is absent has no field. -/
structure ResponseObject where
  id : Option JsString
  status : Option JsString
  usage : Option ResponseUsage
  serviceTier : Option JsString
  deriving DecidableEq

structure ResponseError where
  code : Option JsString
  message : Option JsString
  deriving DecidableEq

/-- An event of a response. The response of `response.incomplete` has the status
`incomplete`, and only its usage is kept here. -/
inductive ResponseStreamEvent where
  | content (event : ContentEvent)
  | completed (response : ResponseObject)
  | incomplete (usage : Option ResponseUsage)
  | failed (error : Option ResponseError) (incompleteReason : Option JsString)
  | error (code : Option JsString) (message : JsString)
  deriving DecidableEq

/-- The usage of a message whose input is what the cache did not give. -/
structure StreamUsage where
  input : Int
  output : Nat
  cacheRead : Nat
  cacheWrite : Nat
  totalTokens : Nat
  cost : UsageCost
  deriving DecidableEq

/-- A block of the message with the text of its arguments, if it is a call. -/
structure StreamingBlock where
  content : AssistantBlock
  partialJson : Option JsString
  deriving DecidableEq

/-- The kinds of part whose deltas a message takes. -/
inductive PartKind where
  | outputText
  | refusal
  | other
  deriving DecidableEq

def ContentPart.kind : ContentPart → PartKind
  | outputText _ => .outputText
  | refusal _ => .refusal
  | other => .other

/-- `currentItem`, with what is looked at later: how many parts a summary has, and the
kinds of the parts of a message. -/
inductive CurrentItem where
  | reasoning (summaryParts : Nat)
  | message (content : List PartKind)
  | functionCall
  deriving DecidableEq

/-- An update of the block at a place of the content; the place is `-1` when there is
no block. -/
structure BlockUpdate where
  contentIndex : Int
  kind : UpdateKind
  deriving DecidableEq

/-- What the stream depends on besides its events. -/
structure StreamSettings where
  calculateCost : StreamUsage → UsageCost
  applyServiceTierPricing : UsageCost → Option JsString → UsageCost
  resolveServiceTier : Option JsString → Option JsString → Option JsString
  serviceTier : Option JsString
  parseIncomplete : JsString → Option Json

/-- The fields of the message that the stream writes. The current block is the last of
the content. -/
structure StreamState where
  finished : List StreamingBlock
  currentItem : Option CurrentItem
  currentBlock : Option StreamingBlock
  responseId : Option JsString
  usage : StreamUsage
  stopReason : StopReason
  updates : List BlockUpdate
  deriving DecidableEq

def EMPTY_STREAM_USAGE : StreamUsage := ⟨0, 0, 0, 0, 0, EMPTY_USAGE.cost⟩

def StreamState.initial : StreamState :=
  ⟨[], none, none, none, EMPTY_STREAM_USAGE, .stop, []⟩

namespace StreamState

section

variable (s : StreamState)

def content : List StreamingBlock := s.finished ++ s.currentBlock.toList

/-- `blockIndex()`. -/
def blockIndex : Int := s.content.length - 1

def startItem (item : CurrentItem) (block : StreamingBlock) (kind : UpdateKind) : StreamState :=
  { s with
    finished := s.content
    currentItem := some item
    currentBlock := some block
    updates := s.updates ++ [⟨s.content.length, kind⟩] }

/-- A change of the current block, with the updates that report it. -/
def updateBlock (block : StreamingBlock) (kinds : List UpdateKind) : StreamState :=
  { s with
    currentBlock := some block
    updates := s.updates ++ kinds.map (BlockUpdate.mk s.blockIndex) }

def finishBlock (block : StreamingBlock) (kind : UpdateKind) : StreamState :=
  { s with
    finished := s.finished ++ [block]
    currentBlock := none
    updates := s.updates ++ [⟨s.blockIndex, kind⟩] }

end

end StreamState

/-- A template writes an absent id as `undefined`. -/
def callItemId (item : FunctionCallItem) : JsString :=
  item.callId ++ js "|" ++ item.id.getD (js "undefined")

def encodeTextSignatureV1 (id : JsString) (phase : Option JsString) : JsString :=
  js "\x7b\"v\":1,\"id\":" ++ Json.quote id ++
    (match nonEmpty phase with
      | some phase => js ",\"phase\":" ++ Json.quote phase
      | none => []) ++ js "\x7d"

def mapStopReason (status : Option JsString) : Except JsString StopReason :=
  match nonEmpty status with
  | none => .ok .stop
  | some status =>
    if status = js "completed" then .ok .stop
    else if status = js "incomplete" then .ok .length
    else if status = js "failed" ∨ status = js "cancelled" then .ok .error
    else if status = js "in_progress" ∨ status = js "queued" then .ok .stop
    else .error (js "Unhandled stop reason: " ++ status)

section Stream

variable (settings : StreamSettings)

section

variable (s : StreamState)

/-- `response.output_item.added`. -/
def outputItemAdded : OutputItem → StreamState
  | .reasoning item =>
    s.startItem (.reasoning (item.summary.getD []).length) ⟨.thinking { thinking := [] }, none⟩
      .thinkingStart
  | .message item =>
    s.startItem (.message (item.content.map ContentPart.kind)) ⟨.text { text := [] }, none⟩
      .textStart
  | .functionCall item =>
    s.startItem .functionCall
      ⟨.toolCall { id := callItemId item, name := item.name, arguments := .emptyObject },
        some (item.arguments.getD [])⟩ .toolcallStart
  | .other => s

def appendThinking (delta : JsString) : StreamState :=
  match s.currentBlock with
  | some ⟨.thinking block, json⟩ =>
    s.updateBlock ⟨.thinking { block with thinking := block.thinking ++ delta }, json⟩
      [.thinkingDelta delta]
  | _ => s

/-- Text for the current block, when the last part of the message takes it. -/
def appendText (kind : PartKind) (delta : JsString) : StreamState :=
  match s.currentItem, s.currentBlock with
  | some (.message parts), some ⟨.text block, json⟩ =>
    if parts.getLast? = some kind then
      s.updateBlock ⟨.text { block with text := block.text ++ delta }, json⟩ [.textDelta delta]
    else s
  | _, _ => s

/-- Arguments for the current call, with the updates that report them. -/
def setArguments (block : ToolCall) (json : JsString) (kinds : List UpdateKind) : StreamState :=
  s.updateBlock
    ⟨.toolCall { block with arguments := parseStreamingJson settings.parseIncomplete json },
      some json⟩ kinds

/-- The texts of a list of parts, joined by blank lines. -/
def joinParts (parts : Option (List JsString)) : Option JsString :=
  nonEmpty (parts.map (js "\n\n").intercalate)

/-- The arguments of a call when its item is done. -/
def finalArguments (json : Option JsString) (item : FunctionCallItem) : Json :=
  parseStreamingJson settings.parseIncomplete
    ((nonEmpty json).getD ((nonEmpty item.arguments).getD (js "\x7b\x7d")))

/-- `response.output_item.done`. -/
def outputItemDone : OutputItem → StreamState
  | .reasoning item =>
    match s.currentBlock with
    | some ⟨.thinking block, json⟩ =>
      let thinking := ((joinParts item.summary).or (joinParts item.content)).getD block.thinking
      s.finishBlock
        ⟨.thinking { block with thinking, thinkingSignature := some item.text }, json⟩
        (.thinkingEnd thinking)
    | _ => s
  | .message item =>
    match s.currentBlock with
    | some ⟨.text _, json⟩ =>
      let text := item.content.flatMap fun
        | .outputText text => text
        | .refusal refusal => refusal
        | .other => []
      s.finishBlock
        ⟨.text { text, textSignature := some (encodeTextSignatureV1 item.id item.phase) }, json⟩
        (.textEnd text)
    | _ => s
  | .functionCall item =>
    match s.currentBlock with
    | some ⟨.toolCall block, json⟩ =>
      let toolCall := { block with arguments := finalArguments settings json item }
      s.finishBlock ⟨.toolCall toolCall, none⟩ (.toolcallEnd toolCall)
    | _ =>
      { s with
        finished := s.content
        currentBlock := none
        updates := s.updates ++ [⟨s.blockIndex, .toolcallEnd
          { id := callItemId item
            name := item.name
            arguments := finalArguments settings none item }⟩] }
  | .other => s

def contentEvent : ContentEvent → StreamState
  | .created id => { s with responseId := some id }
  | .outputItemAdded item => outputItemAdded s item
  | .reasoningSummaryPartAdded =>
    match s.currentItem with
    | some (.reasoning parts) => { s with currentItem := some (.reasoning (parts + 1)) }
    | _ => s
  | .reasoningSummaryTextDelta delta =>
    match s.currentItem with
    | some (.reasoning (_ + 1)) => appendThinking s delta
    | _ => s
  | .reasoningSummaryPartDone =>
    match s.currentItem with
    | some (.reasoning (_ + 1)) => appendThinking s (js "\n\n")
    | _ => s
  | .reasoningTextDelta delta =>
    match s.currentItem with
    | some (.reasoning _) => appendThinking s delta
    | _ => s
  | .contentPartAdded part =>
    match s.currentItem with
    | some (.message parts) =>
      if part = .other then s
      else { s with currentItem := some (.message (parts ++ [part.kind])) }
    | _ => s
  | .outputTextDelta delta => appendText s .outputText delta
  | .refusalDelta delta => appendText s .refusal delta
  | .functionCallArgumentsDelta delta =>
    match s.currentItem, s.currentBlock with
    | some .functionCall, some ⟨.toolCall block, json⟩ =>
      setArguments settings s block (json.getD [] ++ delta) [.toolcallDelta delta]
    | _, _ => s
  | .functionCallArgumentsDone arguments =>
    match s.currentItem, s.currentBlock with
    | some .functionCall, some ⟨.toolCall block, json⟩ =>
      let previousPartialJson := json.getD []
      let delta := arguments.drop previousPartialJson.length
      setArguments settings s block arguments
        (if previousPartialJson.isPrefixOf arguments ∧ delta ≠ [] then [.toolcallDelta delta]
          else [])
    | _, _ => s
  | .outputItemDone item => outputItemDone settings s item
  | .other => s

/-- The counts that a usage reports, with no cost yet. -/
def reportedCounts (usage : ResponseUsage) : StreamUsage :=
  let cachedTokens := usage.cachedTokens.getD 0
  { input := (usage.inputTokens.getD 0 : Int) - cachedTokens
    output := usage.outputTokens.getD 0
    cacheRead := cachedTokens
    cacheWrite := 0
    totalTokens := usage.totalTokens.getD 0
    cost := EMPTY_USAGE.cost }

def priceUsage (serviceTier : Option JsString) (usage : StreamUsage) : StreamUsage :=
  { usage with
    cost := settings.applyServiceTierPricing (settings.calculateCost usage)
      (settings.resolveServiceTier serviceTier settings.serviceTier) }

def hasToolCall (blocks : List StreamingBlock) : Bool :=
  blocks.any fun block => block.content.toolCall?.isSome

/-- `response.completed`, with the error that it throws for a status it does not know. -/
def completeResponse (response : ResponseObject) : StreamState × Option JsString :=
  let usage :=
    match response.usage with
    | some usage => reportedCounts usage
    | none => s.usage
  let s :=
    { s with
      responseId := (nonEmpty response.id).or s.responseId
      usage := priceUsage settings response.serviceTier usage }
  match mapStopReason response.status with
  | .ok stopReason =>
    ({ s with
        stopReason :=
          if hasToolCall s.content = true ∧ stopReason = .stop then .toolUse else stopReason },
      none)
  | .error error => (s, some error)

/-- The text of the error that a failed response throws. -/
def failedMessage (error : Option ResponseError) (incompleteReason : Option JsString) : JsString :=
  match error with
  | some error =>
    (nonEmpty error.code).getD (js "unknown") ++ js ": " ++
      (nonEmpty error.message).getD (js "no message")
  | none =>
    match nonEmpty incompleteReason with
    | some reason => js "incomplete: " ++ reason
    | none => js "Unknown error (no error details in response)"

/-- The body of the loop over the events, with the error that it throws. -/
def streamEvent : ResponseStreamEvent → StreamState × Option JsString
  | .content event => (contentEvent settings s event, none)
  | .completed response => completeResponse settings s response
  | .incomplete _ => (s, none)
  | .failed error incompleteReason => (s, some (failedMessage error incompleteReason))
  | .error code message =>
    (s, some (js "Error Code " ++ code.getD (js "null") ++ js ": " ++ message))

end

/-- The loop over the events: the message, and the error that a body throws. -/
def processResponsesStream (s : StreamState) :
    List ResponseStreamEvent → StreamState × Option JsString
  | [] => (s, none)
  | event :: events =>
    match streamEvent settings s event with
    | (s, none) => processResponsesStream s events
    | (s, some error) => (s, some error)

/-- How a stream ends: its message, and whether it ends with `done` or with `error`. -/
structure StreamResult where
  message : StreamState
  content : List AssistantBlock
  errorMessage : Option JsString
  done : Bool
  deriving DecidableEq

/-- The `catch` branch. -/
def failStream (aborted : Bool) (s : StreamState) (error : JsString) : StreamResult where
  message := { s with stopReason := if aborted then .aborted else .error }
  content := s.content.map StreamingBlock.content
  errorMessage := some error
  done := false

def finishStream (s : StreamState) : StreamResult where
  message := s
  content := s.content.map StreamingBlock.content
  errorMessage := none
  done := true

/-- The stream over the events of a response, which may end with an error. -/
def streamOpenAIResponses (aborted : Bool) (events : List ResponseStreamEvent × Option JsString) :
    StreamResult :=
  let processed := processResponsesStream settings .initial events.1
  match processed.2.or events.2 with
  | some error => failStream aborted processed.1 error
  | none =>
    if aborted then failStream aborted processed.1 (js "Request was aborted")
    else if processed.1.stopReason = .aborted ∨ processed.1.stopReason = .error then
      failStream aborted processed.1 (js "An unknown error occurred")
    else finishStream processed.1

end Stream

end Responses

end AcademicAgent
