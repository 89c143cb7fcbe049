import AcademicAgent.Core.Json.Codec
import AcademicAgent.Core.Run

/-!
# WebSocket connections of a Codex session

The provider keeps one connection of a session for the next request, with what it needs to send
only the new part of the conversation.
-/

namespace AcademicAgent

open Option

namespace Codex

/-- A request body: its input, the response it goes on from, and the other fields. -/
structure RequestBody where
  input : Option (List Json) := none
  previousResponseId : Option JsString := none
  rest : Json := Json.emptyObject
  deriving DecidableEq

/-- What is known of the last response of a connection. -/
structure CachedWebSocketContinuationState where
  lastRequestBody : RequestBody
  lastResponseId : JsString
  lastResponseItems : List Json
  deriving DecidableEq

/-- A response that a request has received to its end: the full body of the request, the id
of the response, and its items as they are sent in the next input. -/
structure Completed where
  body : RequestBody
  responseId : Option JsString
  responseItems : List Json
  deriving DecidableEq

def requestBodyWithoutInput (body : RequestBody) : Json := body.rest

def responseInputsEqual (a b : Option (List Json)) : Bool :=
  (Json.array (a.getD [])).stringify == (Json.array (b.getD [])).stringify

def requestBodiesMatchExceptInput (a b : RequestBody) : Bool :=
  (requestBodyWithoutInput a).stringify == (requestBodyWithoutInput b).stringify

/-- The input that a request adds to the conversation so far. -/
def getCachedWebSocketInputDelta (body : RequestBody)
    (continuation : CachedWebSocketContinuationState) : Option (List Json) :=
  if requestBodiesMatchExceptInput body continuation.lastRequestBody then
    let currentInput := body.input.getD []
    let baseline := continuation.lastRequestBody.input.getD [] ++ continuation.lastResponseItems
    if currentInput.length < baseline.length then none
    else
      let start := currentInput.take baseline.length
      if responseInputsEqual (some start) (some baseline) then
        some (currentInput.drop baseline.length)
      else none
  else none

/-- The body that is sent, and the continuation that is kept. -/
def buildCachedWebSocketRequestBody (continuation : Option CachedWebSocketContinuationState)
    (body : RequestBody) : RequestBody × Option CachedWebSocketContinuationState :=
  match continuation with
  | none => (body, none)
  | some c =>
    match getCachedWebSocketInputDelta body c with
    | none => (body, none)
    | some delta =>
      if c.lastResponseId = [] then (body, none)
      else
        ({ body with previousResponseId := some c.lastResponseId, input := some delta }, some c)

/-- The ready states that matter: what is closing counts as closed. -/
inductive ReadyState where
  | connecting
  | «open»
  | closed
  deriving DecidableEq

/-- A socket, with the fields of its cache entry once it has one. -/
structure Connection where
  readyState : ReadyState := .connecting
  busy : Bool := false
  /-- An idle timer is pending. -/
  idleTimer : Bool := false
  continuation : Option CachedWebSocketContinuationState := none
  /-- The last response completed on the connection. It is history: no function reads it. -/
  lastCompleted : Option Completed := none
  deriving DecidableEq

/-- How a request gives its connection back: one of its own, one it took from the cache, or
one it has put there. -/
inductive Release where
  | own
  | reused
  | stored
  deriving DecidableEq

inductive Phase where
  | connecting (connection : Nat) (stores : Bool)
  | active (connection : Nat) (release : Release)
  | settled
  deriving DecidableEq

def Phase.connection? : Phase → Option Nat
  | .connecting k _ | .active k _ => some k
  | .settled => none

inductive Transport where
  | sse
  | websocket
  | websocketCached
  | auto
  deriving DecidableEq

/-- `options?.transport === "websocket-cached" || options?.transport === "auto"`. -/
def useCachedContext (transport : Option Transport) : Bool :=
  transport = some .websocketCached || transport = some .auto

/-- A request, the body it has sent, and the last response completed on its connection at
that time. -/
structure Request where
  body : RequestBody := {}
  transport : Option Transport := none
  phase : Phase := .settled
  sent : Option RequestBody := none
  sentAfter : Option Completed := none
  deriving DecidableEq

/-- The connections and requests of a session so far, by number, and the connection that the
cache holds for the session. -/
structure Sessions where
  connections : Nat → Connection := fun _ => {}
  opened : Nat := 0
  websocketSessionCache : Option Nat := none
  requests : Nat → Request := fun _ => {}
  started : Nat := 0

namespace Sessions

def setConnection (k : Nat) (f : Connection → Connection) (s : Sessions) : Sessions :=
  { s with connections := Function.update s.connections k (f (s.connections k)) }

def setRequest (r : Nat) (f : Request → Request) (s : Sessions) : Sessions :=
  { s with requests := Function.update s.requests r (f (s.requests r)) }

section

variable (reports : Bool)

/-- `isWebSocketReusable`, in a runtime that reports the state of a socket or does not. -/
def isWebSocketReusable (k : Nat) (s : Sessions) : Bool :=
  !reports || (s.connections k).readyState = .open

def closeWebSocketSilently (k : Nat) (s : Sessions) : Sessions :=
  s.setConnection k fun c => { c with readyState := .closed }

/-- `websocketSessionCache.delete(sessionId)`. -/
def deleteEntry (s : Sessions) : Sessions := { s with websocketSessionCache := none }

def addRequest (request : Request) (s : Sessions) : Sessions :=
  { s with requests := Function.update s.requests s.started request, started := s.started + 1 }

/-- `connectWebSocket`, for a new request that stores its connection or keeps it for itself. -/
def connectWebSocket (body : RequestBody) (transport : Option Transport) (stores : Bool)
    (s : Sessions) : Sessions :=
  { s with
    connections := Function.update s.connections s.opened {}
    opened := s.opened + 1 }.addRequest
      { body, transport, phase := .connecting s.opened stores }

/-- The body that a request sends on a connection, and the continuation that is kept. -/
def requestBody (fullBody : RequestBody) (transport : Option Transport) (release : Release)
    (continuation : Option CachedWebSocketContinuationState) :
    RequestBody × Option CachedWebSocketContinuationState :=
  if useCachedContext transport && release != .own then
    buildCachedWebSocketRequestBody continuation fullBody
  else (fullBody, continuation)

/-- The start of `processWebSocketStream` on an acquired connection: the body is sent. -/
def send (r k : Nat) (release : Release) (s : Sessions) : Sessions :=
  let c := s.connections k
  let request := s.requests r
  let built := requestBody request.body request.transport release c.continuation
  (s.setConnection k fun c => { c with continuation := built.2 }).setRequest r fun request =>
    { request with
      phase := .active k release, sent := some built.1, sentAfter := c.lastCompleted }

/-- `acquireWebSocket`, up to the wait for a connection. -/
def acquireWebSocket (body : RequestBody) (transport : Option Transport)
    (s : Sessions) : Sessions :=
  match s.websocketSessionCache with
  | none => s.connectWebSocket body transport true
  | some k =>
    let s := s.setConnection k fun c => { c with idleTimer := false }
    if (s.connections k).busy then s.connectWebSocket body transport false
    else if s.isWebSocketReusable reports k then
      ((s.setConnection k fun c => { c with busy := true }).addRequest
        { body, transport }).send s.started k .reused
    else ((s.closeWebSocketSilently k).deleteEntry).connectWebSocket body transport true

/-- The rest of `acquireWebSocket`, when the connection is established. -/
def connected (r k : Nat) (stores : Bool) (s : Sessions) : Sessions :=
  let s := s.setConnection k fun c => { c with readyState := .open }
  if stores then
    { (s.setConnection k fun c => { c with busy := true, continuation := none }) with
      websocketSessionCache := some k }.send r k .stored
  else s.send r k .own

def settle (r : Nat) (s : Sessions) : Sessions :=
  s.setRequest r fun request => { request with phase := .settled }

/-- A connection that fails, or is aborted, before it is established. -/
def connectFailed (r k : Nat) (s : Sessions) : Sessions :=
  (s.settle r).closeWebSocketSilently k

/-- `release({ keep })`. -/
def release (k : Nat) (keep : Bool) (s : Sessions) : Release → Sessions
  | .own => s.closeWebSocketSilently k
  | .reused =>
    if !keep || !s.isWebSocketReusable reports k then (s.closeWebSocketSilently k).deleteEntry
    else s.setConnection k fun c => { c with busy := false, idleTimer := true }
  | .stored =>
    if !keep || !s.isWebSocketReusable reports k then
      let s := s.setConnection k fun c => { c with readyState := .closed, idleTimer := false }
      if s.websocketSessionCache = some k then s.deleteEntry else s
    else s.setConnection k fun c => { c with busy := false, idleTimer := true }

/-- The continuation after a response that was not aborted. -/
def nextContinuation (request : Request) (variant : Release) (responseId : Option JsString)
    (responseItems : List Json) (continuation : Option CachedWebSocketContinuationState) :
    Option CachedWebSocketContinuationState :=
  match nonEmpty responseId with
  | some lastResponseId =>
    if useCachedContext request.transport && variant != .own then
      some ⟨request.body, lastResponseId, responseItems⟩
    else continuation
  | none => continuation

/-- The end of `processWebSocketStream` after a response, which may have been aborted. -/
def complete (r k : Nat) (variant : Release) (aborted : Bool)
    (responseId : Option JsString) (responseItems : List Json) (s : Sessions) : Sessions :=
  let request := s.requests r
  ((s.settle r).setConnection k fun c =>
    { c with
      lastCompleted := some ⟨request.body, responseId, responseItems⟩
      continuation :=
        if aborted then c.continuation
        else nextContinuation request variant responseId responseItems c.continuation }).release
    reports k (!aborted) variant

/-- The end of `processWebSocketStream` after an error. -/
def fail (r k : Nat) (variant : Release) (s : Sessions) : Sessions :=
  ((s.settle r).setConnection k fun c =>
    { c with continuation := if variant = .own then c.continuation else none }).release
      reports k false variant

end

def expire (k : Nat) (s : Sessions) : Sessions :=
  let s := s.setConnection k fun c => { c with idleTimer := false }
  if (s.connections k).busy then s else (s.closeWebSocketSilently k).deleteEntry

def closeOpenAICodexWebSocketSessions (s : Sessions) : Sessions :=
  match s.websocketSessionCache with
  | none => s
  | some k =>
    (s.setConnection k fun c => { c with idleTimer := false, readyState := .closed }).deleteEntry

end Sessions

/-- An operation of the provider, or an event of a socket. -/
inductive Input where
  | acquire (body : RequestBody) (transport : Option Transport)
  | connected (request : Nat)
  | connectFailed (request : Nat)
  | complete (request : Nat) (aborted : Bool) (responseId : Option JsString)
      (responseItems : List Json)
  | fail (request : Nat)
  | remoteClose (connection : Nat)
  | expire (connection : Nat)
  | close
  deriving DecidableEq

/-- One step. There is none for a request in another phase, a socket that is not open, or a
timer that is not pending. -/
def step (reports : Bool) (s : Sessions) : Input → Option Sessions
  | .acquire body transport => some (s.acquireWebSocket reports body transport)
  | .connected r =>
    match (s.requests r).phase with
    | .connecting k stores => some (s.connected r k stores)
    | _ => none
  | .connectFailed r =>
    match (s.requests r).phase with
    | .connecting k _ => some (s.connectFailed r k)
    | _ => none
  | .complete r aborted responseId responseItems =>
    match (s.requests r).phase with
    | .active k variant => some (s.complete reports r k variant aborted responseId responseItems)
    | _ => none
  | .fail r =>
    match (s.requests r).phase with
    | .active k variant => some (s.fail reports r k variant)
    | _ => none
  | .remoteClose k =>
    if (s.connections k).readyState = .open then some (s.closeWebSocketSilently k) else none
  | .expire k => if (s.connections k).idleTimer then some (s.expire k) else none
  | .close => some s.closeOpenAICodexWebSocketSessions

theorem step_cases {reports : Bool} {s t : Sessions} {i : Input} (h : step reports s i = some t) :
    match i with
    | .acquire body transport => t = s.acquireWebSocket reports body transport
    | .connected r =>
      ∃ k stores, (s.requests r).phase = .connecting k stores ∧ t = s.connected r k stores
    | .connectFailed r =>
      ∃ k stores, (s.requests r).phase = .connecting k stores ∧ t = s.connectFailed r k
    | .complete r aborted responseId responseItems =>
      ∃ k variant, (s.requests r).phase = .active k variant ∧
        t = s.complete reports r k variant aborted responseId responseItems
    | .fail r =>
      ∃ k variant, (s.requests r).phase = .active k variant ∧ t = s.fail reports r k variant
    | .remoteClose k =>
      (s.connections k).readyState = .open ∧ t = s.closeWebSocketSilently k
    | .expire k => (s.connections k).idleTimer = true ∧ t = s.expire k
    | .close => t = s.closeOpenAICodexWebSocketSessions := by
  cases i with
  | acquire body transport | close => exact (some.inj h).symm
  | connected r | connectFailed r =>
    cases hphase : (s.requests r).phase with
    | connecting k stores =>
      simp only [step, hphase, some.injEq] at h
      exact ⟨k, stores, hphase, h.symm⟩
    | active k variant | settled => simp [step, hphase] at h
  | complete r aborted responseId responseItems | fail r =>
    cases hphase : (s.requests r).phase with
    | connecting k stores | settled => simp [step, hphase] at h
    | active k variant =>
      simp only [step, hphase, some.injEq] at h
      exact ⟨k, variant, hphase, h.symm⟩
  | remoteClose k =>
    obtain ⟨hopen, ⟨⟩⟩ := ite_none_right_eq_some.mp h
    exact ⟨hopen, rfl⟩
  | expire k =>
    obtain ⟨htimer, ⟨⟩⟩ := ite_none_right_eq_some.mp h
    exact ⟨htimer, rfl⟩

end Codex

end AcademicAgent
