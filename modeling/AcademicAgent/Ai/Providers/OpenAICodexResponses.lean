import AcademicAgent.Ai.Providers.AnthropicSse
import AcademicAgent.Ai.Providers.OpenAIResponsesShared
import AcademicAgent.Core.Json.Codec

/-!
# The Codex provider

The events of a response are JSON objects that come over server-sent events or over a
WebSocket.
-/

namespace AcademicAgent

namespace Responses

namespace Codex

/-- `event.key`, of any value. -/
def member (key : JsString) : Json.Tree → Option Json.Tree
  | .obj members => assocGet key members
  | _ => none

section

variable (key : JsString) (value : Json.Tree)

def stringMember : Option JsString :=
  match member key value with
  | some (.str s) => some s
  | _ => none

def countMember : Option Nat :=
  match member key value with
  | some (.num n) => (Decimal.toInt? n).map Int.toNat
  | _ => none

/-- A member, with `null` for one that is absent. -/
def memberOrNull : Json.Tree := (member key value).getD .null

end

/-- The type of an event, when it is a string that is not empty. -/
def eventType (event : Json) : Option JsString := nonEmpty (stringMember (js "type") event.tree)

/-- `response.usage`, when it is an object. -/
def readUsage (response : Json.Tree) : Option ResponseUsage :=
  match member (js "usage") response with
  | some (.obj members) =>
    some
      { inputTokens := countMember (js "input_tokens") (.obj members)
        outputTokens := countMember (js "output_tokens") (.obj members)
        totalTokens := countMember (js "total_tokens") (.obj members)
        cachedTokens := countMember (js "cached_tokens")
          (memberOrNull (js "input_tokens_details") (.obj members)) }
  | _ => none

/-- `event.response` of a terminal event. -/
def readResponse (event : Json) : ResponseObject :=
  let response := memberOrNull (js "response") event.tree
  { id := stringMember (js "id") response
    status := stringMember (js "status") response
    usage := readUsage response
    serviceTier := stringMember (js "service_tier") response }

/-- What the provider depends on besides its transports: the settings of the reducer,
how it reads an event that is not terminal, and the texts of syntax errors. -/
structure CodexSettings where
  stream : StreamSettings
  readContent : Json → ContentEvent
  syntaxError : JsString → JsString

/-- An error, and whether it is one of the API or of the protocol. -/
structure StreamError where
  message : JsString
  isCodexNonTransportError : Bool
  deriving DecidableEq

/-- How a sequence of events goes on: it ends, an error is thrown, or more is awaited. -/
inductive StreamEnd where
  | finished
  | failed (error : StreamError)
  | waiting
  deriving DecidableEq

def CODEX_RESPONSE_STATUSES : List JsString :=
  [js "completed", js "incomplete", js "failed", js "cancelled", js "queued", js "in_progress"]

def normalizeCodexStatus (status : Option JsString) : Option JsString :=
  status.filter fun s => s ∈ CODEX_RESPONSE_STATUSES

/-- The error of an `error` event. -/
def codexError (event : Json) : StreamError where
  message := js "Codex error: " ++
    ((nonEmpty (stringMember (js "message") event.tree)).or
      (nonEmpty (stringMember (js "code") event.tree))).getD event.stringify
  isCodexNonTransportError := true

/-- The error of a `response.failed` event. -/
def codexFailed (event : Json) : StreamError where
  message :=
    (nonEmpty (stringMember (js "message")
      (memberOrNull (js "error") (memberOrNull (js "response") event.tree)))).getD
        (js "Codex response failed")
  isCodexNonTransportError := true

/-- The types of event that carry the final response. -/
def COMPLETION_TYPES : List JsString :=
  [js "response.done", js "response.completed", js "response.incomplete"]

section Codex

variable (settings : CodexSettings)

def mapCodexEvents : List Json → StreamEnd → List ResponseStreamEvent × StreamEnd
  | [], ending => ([], ending)
  | event :: events, ending =>
    match eventType event with
    | none => mapCodexEvents events ending
    | some type =>
      if type = js "error" then ([], .failed (codexError event))
      else if type = js "response.failed" then ([], .failed (codexFailed event))
      else if type ∈ COMPLETION_TYPES then
        let response := readResponse event
        ([.completed { response with status := normalizeCodexStatus response.status }], .finished)
      else
        let mapped := mapCodexEvents events ending
        (.content (settings.readContent event) :: mapped.1, mapped.2)

/-- The error of a body whose data are not JSON. Reading the type of `null` throws too. -/
def parseEvent (transport data : JsString) : Except StreamError Json :=
  match Json.parse data with
  | some value =>
    if value.tree = .null then
      .error ⟨js "Cannot read properties of null (reading 'type')", false⟩
    else .ok value
  | none =>
    .error ⟨js "Invalid Codex " ++ transport ++ js " JSON: " ++ settings.syntaxError data, true⟩

def frameData (chunk : JsString) : Option JsString :=
  let dataLines := ((chunk.splitOn lf).filter (js "data:").isPrefixOf).map fun l => trim (l.drop 5)
  let data := trim ([lf].intercalate dataLines)
  if dataLines = [] ∨ data = [] ∨ data = js "[DONE]" then none else some data

def parseFrames : List JsString → List Json × Option StreamError
  | [] => ([], none)
  | chunk :: chunks =>
    match frameData chunk with
    | none => parseFrames chunks
    | some data =>
      match parseEvent settings (js "SSE") data with
      | .error error => ([], some error)
      | .ok event =>
        let rest := parseFrames chunks
        (event :: rest.1, rest.2)

/-- Reads the chunks of a body; what is behind the last blank line stays in the buffer. -/
def readFrames (readError : Option JsString) (decoder : TextDecoder) (buffer : JsString) :
    List (List UInt8) → List Json × StreamEnd
  | [] =>
    match readError with
    | some error => ([], .failed ⟨error, false⟩)
    | none => ([], .finished)
  | value :: chunks =>
    let decoded := TextDecoder.transducer.feed decoder value
    let frames := splitAll (buffer ++ decoded.2) [lf, lf]
    match parseFrames settings frames.dropLast with
    | (events, some error) => (events, .failed error)
    | (events, none) =>
      let rest := readFrames readError decoded.1 (frames.getLastD []) chunks
      (events ++ rest.1, rest.2)

def parseSSE (body : ResponseBody) : List Json × StreamEnd :=
  readFrames settings body.readError .new [] body.chunks

/-- What happens to a socket that is read: a message with its decoded text, an error, the
end of the connection, an abort, or the consumer asks for an event. -/
inductive SocketStep where
  | message (text : Option JsString)
  | error (message : JsString)
  | close (message : JsString)
  | abort
  | resume
  deriving DecidableEq

structure SocketState where
  queue : List Json
  done : Bool
  failed : Option StreamError
  sawCompletion : Bool
  aborted : Bool
  deriving DecidableEq

def SocketState.initial : SocketState := ⟨[], false, none, false, false⟩

def isCompletion (event : Json) : Bool :=
  match stringMember (js "type") event.tree with
  | some type => type ∈ COMPLETION_TYPES
  | none => false

section

variable (s : SocketState)

def onMessage (text : Option JsString) : SocketState :=
  match nonEmpty text with
  | none => s
  | some text =>
    match parseEvent settings (js "WebSocket") text with
    | .error error =>
      { s with
        failed := some ⟨error.message, true⟩
        done := true }
    | .ok event =>
      { s with
        queue := s.queue ++ [event]
        sawCompletion := s.sawCompletion || isCompletion event
        done := s.done || isCompletion event }

def onError (message : JsString) : SocketState :=
  { s with
    failed := some ⟨message, false⟩
    done := true }

def onClose (message : JsString) : SocketState :=
  { s with
    failed := if s.sawCompletion then s.failed else s.failed.or (some ⟨message, false⟩)
    done := true }

def onAbort : SocketState :=
  { s with
    failed := some ⟨js "Request was aborted", false⟩
    done := true
    aborted := true }

/-- How the loop ends when the queue is empty and nothing more comes. -/
def socketEnd : StreamEnd :=
  match s.failed with
  | some error => .failed error
  | none =>
    if s.sawCompletion then .finished
    else .failed ⟨js "WebSocket stream closed before response.completed", false⟩

end

/-- The events that the consumer takes from a socket, and how they end. -/
def parseWebSocket (s : SocketState) : List SocketStep → List Json × StreamEnd
  | [] => ([], .waiting)
  | .message text :: steps => parseWebSocket (onMessage settings s text) steps
  | .error message :: steps => parseWebSocket (onError s message) steps
  | .close message :: steps => parseWebSocket (onClose s message) steps
  | .abort :: steps => parseWebSocket (onAbort s) steps
  | .resume :: steps =>
    if s.aborted then ([], .failed ⟨js "Request was aborted", false⟩)
    else
      match s.queue with
      | event :: queue =>
        let rest := parseWebSocket { s with queue } steps
        (event :: rest.1, rest.2)
      | [] => if s.done then ([], socketEnd s) else parseWebSocket s steps

/-- What a request meets: whether its signal is aborted when the stream ends, the socket
if one is tried, with the error of its connection or its steps, and the body of the
response to a request for server-sent events, or the error that ends the requests. -/
structure CodexRun where
  aborted : Bool
  websocket : Option (Except JsString (List SocketStep))
  sse : Except JsString ResponseBody

/-- The signal is aborted, at the end or on the way. -/
def CodexRun.signalAborted (run : CodexRun) : Bool :=
  run.aborted ||
    match run.websocket with
    | some (.ok steps) => steps.any (· == .abort)
    | _ => false

def resolveCodexServiceTier (responseServiceTier requestServiceTier : Option JsString) :
    Option JsString :=
  if responseServiceTier = some (js "default") ∧
      (requestServiceTier = some (js "flex") ∨ requestServiceTier = some (js "priority")) then
    requestServiceTier
  else responseServiceTier.or requestServiceTier

/-- The settings of the reducer for this provider. -/
def CodexSettings.reducer (settings : CodexSettings) : StreamSettings :=
  { settings.stream with resolveServiceTier := resolveCodexServiceTier }

/-- The message that mapped events leave, and how they end. -/
def processMapped (mapped : List ResponseStreamEvent × StreamEnd) : StreamState × StreamEnd :=
  let processed := processResponsesStream settings.reducer .initial mapped.1
  match processed.2 with
  | some error => (processed.1, .failed ⟨error, false⟩)
  | none => (processed.1, mapped.2)

/-- A stream that did not throw is done unless the signal is aborted. -/
def endStream (aborted : Bool) (s : StreamState) : StreamResult :=
  if aborted then failStream aborted s (js "Request was aborted") else finishStream s

def streamSse (aborted : Bool) (sse : Except JsString ResponseBody) : StreamResult :=
  match sse with
  | .error error => failStream aborted .initial error
  | .ok body =>
    let events := parseSSE settings body
    match processMapped settings (mapCodexEvents settings events.1 events.2) with
    | (s, .failed error) => failStream aborted s error.message
    | (s, .finished) | (s, .waiting) => endStream aborted s

inductive SocketResult where
  | ended (result : StreamResult)
  | waiting
  | fallback
  deriving DecidableEq

/-- The stream over a socket, as far as it goes without server-sent events. -/
def streamWebSocket (aborted : Bool) (websocket : Except JsString (List SocketStep)) :
    SocketResult :=
  match websocket with
  | .error error => if aborted then .ended (failStream aborted .initial error) else .fallback
  | .ok steps =>
    let events := parseWebSocket settings .initial steps
    let mapped := mapCodexEvents settings events.1 events.2
    match processMapped settings mapped with
    | (_, .waiting) => .waiting
    | (s, .finished) => .ended (endStream aborted s)
    | (s, .failed error) =>
      let websocketStarted := !mapped.1.isEmpty
      if aborted || error.isCodexNonTransportError || websocketStarted then
        .ended (failStream aborted s error.message)
      else .fallback

def streamOpenAICodexResponses (run : CodexRun) : Option StreamResult :=
  match run.websocket with
  | none => some (streamSse settings run.signalAborted run.sse)
  | some websocket =>
    match streamWebSocket settings run.signalAborted websocket with
    | .ended result => some result
    | .waiting => none
    | .fallback => some (streamSse settings run.signalAborted run.sse)

end Codex

end Codex

end Responses

end AcademicAgent
