import AcademicAgent.Core.Occurrence
import AcademicAgent.Core.TextDecoder

/-!
# Server-sent events of the Anthropic provider

The body of a response is decoded chunk by chunk; complete lines are taken from a
buffer, and an empty line dispatches the event that the lines before it described.
-/

namespace AcademicAgent

structure ServerSentEvent where
  event : Option JsString
  data : JsString
  raw : List JsString
  deriving DecidableEq

structure SseDecoderState where
  event : Option JsString
  data : List JsString
  raw : List JsString
  deriving DecidableEq

def SseDecoderState.initial : SseDecoderState := ⟨none, [], []⟩

/-- Dispatches what is pending; nothing is when there is no event name and no data. -/
def flushSseEvent (state : SseDecoderState) : Option ServerSentEvent × SseDecoderState :=
  if nonEmpty state.event = none ∧ state.data.length = 0 then (none, state)
  else
    (some { event := state.event, data := [lf].intercalate state.data, raw := state.raw }, .initial)

def sseField (line : JsString) : JsString × JsString :=
  let (fieldName, value) :=
    match indexOf? [0x3A] line with
    | none => (line, [])
    | some delimiterIndex => (line.take delimiterIndex, line.drop (delimiterIndex + 1))
  (fieldName, if value.head? = some 0x20 then value.tail else value)

def decodeSseLine (line : JsString) (state : SseDecoderState) :
    Option ServerSentEvent × SseDecoderState :=
  if line = [] then flushSseEvent state
  else
    let state := { state with raw := state.raw ++ [line] }
    if line.head? = some 0x3A then (none, state)
    else
      let (fieldName, value) := sseField line
      if fieldName = js "event" then (none, { state with event := some value })
      else if fieldName = js "data" then (none, { state with data := state.data ++ [value] })
      else (none, state)

def nextLineBreakIndex (text : JsString) : Option Nat :=
  match indexOf? [cr] text, indexOf? [lf] text with
  | none, newlineIndex => newlineIndex
  | some carriageReturnIndex, none => some carriageReturnIndex
  | some carriageReturnIndex, some newlineIndex => some (min carriageReturnIndex newlineIndex)

/-- The first line of a text and what is behind its line break. -/
def consumeLine (text : JsString) : Option (JsString × JsString) :=
  (nextLineBreakIndex text).map fun lineBreakIndex =>
    let nextIndex :=
      if text[lineBreakIndex]? = some cr ∧ text[lineBreakIndex + 1]? = some lf then
        lineBreakIndex + 2
      else lineBreakIndex + 1
    (text.take lineBreakIndex, text.drop nextIndex)

/-- Takes the complete lines from a buffer, as many as the fuel allows. -/
def consumeLines : Nat → JsString → SseDecoderState →
    JsString × SseDecoderState × List ServerSentEvent
  | 0, buffer, state => (buffer, state, [])
  | fuel + 1, buffer, state =>
    match consumeLine buffer with
    | none => (buffer, state, [])
    | some (line, rest) =>
      let (event, state) := decodeSseLine line state
      let (buffer, state, events) := consumeLines fuel rest state
      (buffer, state, event.toList ++ events)

/-- Appends a text to the buffer and takes its complete lines. -/
def readText (buffer : JsString) (state : SseDecoderState) (text : JsString) :
    JsString × SseDecoderState × List ServerSentEvent :=
  consumeLines (buffer ++ text).length (buffer ++ text) state

/-- The end of a body: the rest of the buffer is a line, and what is pending is
dispatched. -/
def endOfBody (buffer : JsString) (state : SseDecoderState) : List ServerSentEvent :=
  let (event, state) := if buffer = [] then (none, state) else decodeSseLine buffer state
  event.toList ++ (flushSseEvent state).1.toList

/-- A response body: its chunks, and the error that the reader ends with, if any. -/
structure ResponseBody where
  chunks : List (List UInt8)
  readError : Option JsString
  deriving DecidableEq

/-- Reads chunks from one position of the stream on; the signal is looked at before
each read. Gives the messages and the error that is thrown behind them. -/
def readChunks (aborted : Nat → Bool) (readError : Option JsString) (i : Nat)
    (decoder : TextDecoder) (buffer : JsString) (state : SseDecoderState) :
    List (List UInt8) → List ServerSentEvent × Option JsString
  | [] =>
    if aborted i then ([], some (js "Request was aborted"))
    else
      match readError with
      | some error => ([], some error)
      | none =>
        let (buffer, state, events) := readText buffer state decoder.flush
        (events ++ endOfBody buffer state, none)
  | value :: chunks =>
    if aborted i then ([], some (js "Request was aborted"))
    else
      let (decoder, text) := TextDecoder.transducer.feed decoder value
      let (buffer, state, events) := readText buffer state text
      let (rest, error) := readChunks aborted readError (i + 1) decoder buffer state chunks
      (events ++ rest, error)

/-- The messages of a body, and the error that is thrown behind them. -/
def iterateSseMessages (aborted : Nat → Bool) (body : ResponseBody) :
    List ServerSentEvent × Option JsString :=
  readChunks aborted body.readError 0 .new [] .initial body.chunks

end AcademicAgent
