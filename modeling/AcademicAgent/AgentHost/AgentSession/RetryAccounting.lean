import AcademicAgent.Ai.Utils.Overflow
import AcademicAgent.Core.Run

/-!
# Retries of a session

A session counts the retries of a request.
-/

namespace AcademicAgent

open Pattern in
def RETRYABLE_PATTERNS : List Pattern :=
  [ofText "overloaded",
    { items := literal "provider" ++ optionalUnit ++ literal "returned" ++ optionalUnit ++
        literal "error" },
    { items := literal "rate" ++ optionalUnit ++ literal "limit" },
    ofText "too many requests",
    ofText "429", ofText "500", ofText "502", ofText "503", ofText "504",
    { items := literal "service" ++ optionalUnit ++ literal "unavailable" },
    { items := literal "server" ++ optionalUnit ++ literal "error" },
    { items := literal "internal" ++ optionalUnit ++ literal "error" },
    { items := literal "network" ++ optionalUnit ++ literal "error" },
    { items := literal "connection" ++ optionalUnit ++ literal "error" },
    { items := literal "connection" ++ optionalUnit ++ literal "refused" },
    { items := literal "connection" ++ optionalUnit ++ literal "lost" },
    { items := literal "websocket" ++ optionalUnit ++ literal "closed" },
    { items := literal "websocket" ++ optionalUnit ++ literal "error" },
    ofText "other side closed",
    ofText "fetch failed",
    { items := literal "upstream" ++ optionalUnit ++ literal "connect" },
    ofText "reset before headers",
    ofText "socket hang up",
    ofText "ended without",
    ofText "http2 request did not get a response",
    ofText "time out", ofText "timed out",
    ofText "timeout",
    ofText "terminated",
    ofText "retry delay"]

/-- `_isRetryableError`, for the context window of the session's model. -/
def isRetryableError (contextWindow : Nat) (message : AssistantMessage) : Bool :=
  match message.stopReason, nonEmpty message.errorMessage with
  | .error, some err =>
    !isContextOverflow message contextWindow && RETRYABLE_PATTERNS.any fun p => p.test err
  | _, _ => false

/-- `getRetrySettings()`. -/
structure RetrySettings where
  enabled : Bool := true
  maxRetries : Nat := 3
  baseDelayMs : Nat := 2000
  deriving DecidableEq

/-- An event of the agent that the session still has to handle, with whether the run that
it belongs to is a retry. -/
inductive PendingAgentEvent where
  | messageEnd (message : AssistantMessage) (retried : Bool)
  | agentEnd (retried : Bool)
  deriving DecidableEq

inductive RetryEvent where
  | messageEnd (message : AssistantMessage) (retried : Bool)
  | agentEnd
  | autoRetryStart (attempt maxAttempts delayMs : Nat) (errorMessage : JsString)
  | autoRetryEnd (success : Bool) (attempt : Nat) (finalError : Option JsString)
  deriving DecidableEq

/-- The retries of a session, and the agent's run. -/
structure RetryState where
  retryAttempt : Nat := 0
  /-- A promise that is not resolved. -/
  retryPromise : Bool := false
  /-- The controller of the wait before a retry, and whether it is aborted. -/
  retryAbortController : Option Bool := none
  lastAssistantMessage : Option AssistantMessage := none
  settings : RetrySettings
  contextWindow : Nat
  /-- The retries whose wait is over and that are about to start. -/
  scheduledRetries : Nat := 0
  isStreaming : Bool := false
  /-- Whether the run in progress is a retry. -/
  runIsRetry : Bool := false
  /-- The last assistant message of the run in progress. -/
  runLastAssistant : Option AssistantMessage := none
  agentEventQueue : List PendingAgentEvent := []
  /-- The events for the listeners so far. -/
  events : List RetryEvent := []
  deriving DecidableEq

namespace RetryState

def start (settings : RetrySettings) (contextWindow : Nat) : RetryState where
  settings
  contextWindow

def emit (event : RetryEvent) (s : RetryState) : RetryState :=
  { s with events := s.events ++ [event] }

def resolveRetry (s : RetryState) : RetryState := { s with retryPromise := false }

/-- A run of the agent, on a request or to go on. A running agent refuses it. -/
def startRun (isRetry : Bool) (s : RetryState) : RetryState :=
  if s.isStreaming then s
  else { s with isStreaming := true, runIsRetry := isRetry, runLastAssistant := none }

def assistantMessage (message : AssistantMessage) (s : RetryState) : RetryState :=
  { s with
    runLastAssistant := some message
    agentEventQueue := s.agentEventQueue ++ [.messageEnd message s.runIsRetry] }

/-- `_createRetryPromiseForAgentEnd`, for the last assistant message of the event. -/
def createRetryPromiseForAgentEnd (lastAssistant : Option AssistantMessage) (s : RetryState) :
    RetryState :=
  if s.retryPromise then s
  else if s.settings.enabled then
    match lastAssistant with
    | none => s
    | some message =>
      if isRetryableError s.contextWindow message then { s with retryPromise := true } else s
  else s

/-- The agent ends its run, with the last assistant message it reports. -/
def agentEnd (lastAssistant : Option AssistantMessage) (s : RetryState) : RetryState :=
  let s := s.createRetryPromiseForAgentEnd lastAssistant
  { s with isStreaming := false, agentEventQueue := s.agentEventQueue ++ [.agentEnd s.runIsRetry] }

/-- `_handleRetryableError`, up to the wait before the retry. -/
def handleRetryableError (message : AssistantMessage) (s : RetryState) : RetryState :=
  if s.settings.enabled then
    let s := { s with retryPromise := true, retryAttempt := s.retryAttempt + 1 }
    if s.settings.maxRetries < s.retryAttempt then
      let s := s.emit (.autoRetryEnd false (s.retryAttempt - 1) message.errorMessage)
      { s with retryAttempt := 0 }.resolveRetry
    else
      let delayMs := s.settings.baseDelayMs * 2 ^ (s.retryAttempt - 1)
      let errorMessage := (nonEmpty message.errorMessage).getD (js "Unknown error")
      let s := s.emit (.autoRetryStart s.retryAttempt s.settings.maxRetries delayMs errorMessage)
      { s with retryAbortController := some false }
  else s.resolveRetry

/-- `_processAgentEvent`, up to the wait before a retry. -/
def processAgentEvent (event : PendingAgentEvent) (s : RetryState) : RetryState :=
  match event with
  | .messageEnd message retried =>
    let s := { s.emit (.messageEnd message retried) with lastAssistantMessage := some message }
    if message.stopReason ≠ .error ∧ 0 < s.retryAttempt then
      { s.emit (.autoRetryEnd true s.retryAttempt none) with retryAttempt := 0 }
    else s
  | .agentEnd _ =>
    let s := s.emit .agentEnd
    match s.lastAssistantMessage with
    | none => s
    | some msg =>
      let s := { s with lastAssistantMessage := none }
      if isRetryableError s.contextWindow msg then s.handleRetryableError msg
      else s.resolveRetry

/-- The wait is over, and the retry is about to start. -/
def wake (s : RetryState) : RetryState :=
  { s with retryAbortController := none, scheduledRetries := s.scheduledRetries + 1 }

def cancelled (s : RetryState) : RetryState :=
  let attempt := s.retryAttempt
  let s := { s with retryAttempt := 0, retryAbortController := none }
  (s.emit (.autoRetryEnd false attempt (some (js "Retry cancelled")))).resolveRetry

def abortRetry (s : RetryState) : RetryState :=
  { s with retryAbortController := s.retryAbortController.map fun _ => true }.resolveRetry

end RetryState

/-- A step of the agent, of the session, or of its user. -/
inductive RetryInput where
  /-- A request, or another reason to run that is no retry. -/
  | startRun
  | assistantMessage (message : AssistantMessage)
  | agentEnd
  /-- A run that throws reports a message of its own. -/
  | runFailure (failure : AssistantMessage)
  | processAgentEvent
  | wake
  | cancelled
  /-- A retry starts, if there is something to go on from. -/
  | retry (canContinue : Bool)
  | abortRetry
  | setSettings (settings : RetrySettings)
  | setContextWindow (contextWindow : Nat)
  deriving DecidableEq

/-- One step. There is none for an agent that does not run, for an event that is not there
or has to wait, or for a wait that has not ended so. -/
def retryStep (s : RetryState) : RetryInput → Option RetryState
  | .startRun => some (s.startRun false)
  | .assistantMessage message =>
    if s.isStreaming then some (s.assistantMessage message) else none
  | .agentEnd => if s.isStreaming then some (s.agentEnd s.runLastAssistant) else none
  | .runFailure failure => if s.isStreaming then some (s.agentEnd (some failure)) else none
  | .processAgentEvent =>
    match s.retryAbortController, s.agentEventQueue with
    | none, event :: rest => some ({ s with agentEventQueue := rest }.processAgentEvent event)
    | _, _ => none
  | .wake => if s.retryAbortController = some false then some s.wake else none
  | .cancelled => if s.retryAbortController = some true then some s.cancelled else none
  | .retry canContinue =>
    if 0 < s.scheduledRetries then
      let s := { s with scheduledRetries := s.scheduledRetries - 1 }
      some (if canContinue then s.startRun true else s)
    else none
  | .abortRetry => some s.abortRetry
  | .setSettings settings => some { s with settings }
  | .setContextWindow contextWindow => some { s with contextWindow }

end AcademicAgent

/-!
# Accounting of retries

The listeners see episodes: starts that count up from one, and an end.
-/

namespace AcademicAgent

/-- The retries of an episode that is not closed, and whether the last one has produced a
message that is neither an error nor aborted. -/
structure Episode where
  attempts : Nat := 0
  produced : Bool := false
  deriving DecidableEq

/-- A message of a retry that is neither an error nor aborted. -/
def succeeds (message : AssistantMessage) (retried : Bool) : Bool :=
  retried && message.stopReason != .error && message.stopReason != .aborted

/-- An event in its place. Starts count up to the maximum; an end counts the starts before
it, and tells a success only after a successful message. An end that counts no start
tells of an error that is not retried at all. -/
def Episode.next (e : Episode) : RetryEvent → Option Episode
  | .messageEnd message retried =>
    some { e with produced := e.produced || succeeds message retried }
  | .agentEnd => some e
  | .autoRetryStart attempt maxAttempts _ _ =>
    if attempt = e.attempts + 1 ∧ attempt ≤ maxAttempts then some { attempts := attempt } else none
  | .autoRetryEnd success attempt _ =>
    if attempt = e.attempts ∧ (success → 0 < e.attempts ∧ e.produced) then some {} else none

/-- The episode that is open after some events, if each of them is in its place. -/
def openEpisode (events : List RetryEvent) : Option Episode := events.foldlM Episode.next {}

theorem openEpisode_append {events : List RetryEvent} {e : Episode} {event : RetryEvent}
    (h : openEpisode events = some e) : openEpisode (events ++ [event]) = e.next event := by
  rw [openEpisode, List.foldlM_append, ← openEpisode, h]
  simp

/-- A wait, a retry that is about to start, a retry that runs, or the end of one that is not
handled yet. -/
def RetryState.RetryInProgress (s : RetryState) : Prop :=
  s.retryAbortController ≠ none ∨ 0 < s.scheduledRetries ∨ (s.isStreaming ∧ s.runIsRetry) ∨
    .agentEnd true ∈ s.agentEventQueue

/-- Every event is in its place, and the counter counts the open episode. -/
def Counted (s : RetryState) : Prop :=
  ∃ e, openEpisode s.events = some e ∧ e.attempts = s.retryAttempt

/-- Besides, no episode is open when no retry is in progress. -/
structure Accounted (s : RetryState) : Prop where
  episodes : Counted s
  closed : ¬ s.RetryInProgress → s.retryAttempt = 0

/-- A handled event leaves an open episode open only for another retry, and closes it with a
message of the retry that was not aborted. -/
def Settles (s : RetryState) : PendingAgentEvent → Prop
  | .messageEnd message retried =>
    message.stopReason = .error ∨ (message.stopReason ≠ .aborted ∧ retried = true)
  | .agentEnd _ => s.settings.enabled = true ∧
      ∃ message ∈ s.lastAssistantMessage, isRetryableError s.contextWindow message = true

instance (s : RetryState) : ∀ event, Decidable (Settles s event)
  | .messageEnd .. => inferInstanceAs (Decidable (_ ∨ _))
  | .agentEnd _ => inferInstanceAs (Decidable (_ ∧ _))

/-- While an episode is open, each handled event settles it, and a retry starts. -/
def Settled (s : RetryState) (i : RetryInput) : Prop :=
  0 < s.retryAttempt →
    match i with
    | .processAgentEvent => ∀ event ∈ s.agentEventQueue.head?, Settles s event
    | .retry canContinue => canContinue = true ∧ s.isStreaming = false
    | _ => True

instance (s : RetryState) : ∀ i, Decidable (Settled s i)
  | .processAgentEvent => inferInstanceAs (Decidable (_ → ∀ event ∈ s.agentEventQueue.head?, _))
  | .retry _ => inferInstanceAs (Decidable (_ → _ ∧ _))
  | .startRun | .assistantMessage _ | .agentEnd | .runFailure _ | .wake | .cancelled
  | .abortRetry | .setSettings _ | .setContextWindow _ =>
    inferInstanceAs (Decidable (_ → True))

namespace Counted

variable {s t : RetryState}

section

variable (hs : Counted s)
include hs

theorem close {success : Bool} {finalError : Option JsString}
    (hevents : t.events = s.events ++ [.autoRetryEnd success s.retryAttempt finalError])
    (hattempt : t.retryAttempt = 0)
    (hsuccess : success = true → ∀ e, openEpisode s.events = some e → 0 < e.attempts ∧ e.produced) :
    Accounted t := by
  obtain ⟨e, he, hcount⟩ := hs
  refine ⟨⟨{}, ?_, hattempt.symm⟩, fun _ => hattempt⟩
  rw [hevents, openEpisode_append he]
  exact if_pos ⟨hcount.symm, fun h => hsuccess h e he⟩

theorem wait {maxAttempts delayMs : Nat} {errorMessage : JsString} (hevents : t.events =
      s.events ++ [.autoRetryStart (s.retryAttempt + 1) maxAttempts delayMs errorMessage])
    (hattempt : t.retryAttempt = s.retryAttempt + 1) (hmax : s.retryAttempt + 1 ≤ maxAttempts)
    (hwait : t.retryAbortController ≠ none) : Accounted t := by
  obtain ⟨e, he, hcount⟩ := hs
  refine ⟨⟨{ attempts := s.retryAttempt + 1 }, ?_, hattempt.symm⟩, fun h => absurd (.inl hwait) h⟩
  rw [hevents, openEpisode_append he]
  exact if_pos ⟨by rw [hcount], hmax⟩

theorem agentEnd : Counted (s.emit .agentEnd) := by
  obtain ⟨e, he, hcount⟩ := hs
  exact ⟨e, openEpisode_append he, hcount⟩

theorem handleRetryableError (message : AssistantMessage)
    (henabled : s.retryAttempt = 0 ∨ s.settings.enabled = true) :
    Accounted (s.handleRetryableError message) := by
  by_cases h : s.settings.enabled
  · by_cases hmax : s.settings.maxRetries < s.retryAttempt + 1
    · have hevents : (s.handleRetryableError message).events =
          s.events ++ [.autoRetryEnd false s.retryAttempt message.errorMessage] := by
        simp [RetryState.handleRetryableError, h, hmax, RetryState.emit, RetryState.resolveRetry]
      have hattempt : (s.handleRetryableError message).retryAttempt = 0 := by
        simp [RetryState.handleRetryableError, h, hmax, RetryState.emit, RetryState.resolveRetry]
      exact hs.close hevents hattempt fun hsuccess => by cases hsuccess
    · have heq : s.handleRetryableError message =
          { (s.emit (.autoRetryStart (s.retryAttempt + 1) s.settings.maxRetries
              (s.settings.baseDelayMs * 2 ^ s.retryAttempt)
              ((nonEmpty message.errorMessage).getD (js "Unknown error")))) with
            retryPromise := true
            retryAttempt := s.retryAttempt + 1
            retryAbortController := some false } := by
        simp [RetryState.handleRetryableError, h, hmax, RetryState.emit]
      rw [heq]
      exact hs.wait rfl rfl (Nat.le_of_not_lt hmax) (Option.some_ne_none false)
  · have hzero : s.retryAttempt = 0 := henabled.resolve_right h
    have heq : s.handleRetryableError message = s.resolveRetry := by
      rw [RetryState.handleRetryableError, if_neg h]
    rw [heq]
    exact ⟨hs, fun _ => hzero⟩

end

end Counted

namespace Accounted

variable {s : RetryState}

theorem start (settings : RetrySettings) (contextWindow : Nat) :
    Accounted (.start settings contextWindow) where
  episodes := ⟨{}, rfl, rfl⟩
  closed _ := rfl

section

variable (hs : Accounted s)
include hs

theorem of_progress {t : RetryState} (hevents : t.events = s.events)
    (hattempt : t.retryAttempt = s.retryAttempt) (hprogress : s.RetryInProgress → t.RetryInProgress) :
    Accounted t := by
  refine ⟨?_, fun h => ?_⟩
  · rw [Counted, hevents, hattempt]
    exact hs.episodes
  · rw [hattempt]
    exact hs.closed fun hp => h (hprogress hp)

theorem startRun (isRetry : Bool) : Accounted (s.startRun isRetry) := by
  rw [RetryState.startRun]
  split_ifs with hstreaming
  · exact hs
  · refine hs.of_progress rfl rfl fun hp => ?_
    rcases hp with hwait | hscheduled | hrun | hend
    · exact .inl hwait
    · exact .inr (.inl hscheduled)
    · exact absurd hrun.1 hstreaming
    · exact .inr (.inr (.inr hend))

theorem assistantMessage (message : AssistantMessage) : Accounted (s.assistantMessage message) := by
  refine hs.of_progress rfl rfl fun hp => ?_
  rcases hp with hwait | hscheduled | hrun | hend
  · exact .inl hwait
  · exact .inr (.inl hscheduled)
  · exact .inr (.inr (.inl hrun))
  · exact .inr (.inr (.inr (List.mem_append_left _ hend)))

end

theorem createRetryPromise_eq (lastAssistant : Option AssistantMessage) :
    ∃ promise, s.createRetryPromiseForAgentEnd lastAssistant = { s with retryPromise := promise } := by
  unfold RetryState.createRetryPromiseForAgentEnd
  split_ifs with hpromise henabled
  · exact ⟨s.retryPromise, rfl⟩
  · cases lastAssistant with
    | none => exact ⟨s.retryPromise, rfl⟩
    | some message =>
      by_cases hretryable : isRetryableError s.contextWindow message
      · exact ⟨true, if_pos hretryable⟩
      · exact ⟨s.retryPromise, if_neg hretryable⟩
  · exact ⟨s.retryPromise, rfl⟩

section

variable (hs : Accounted s)
include hs

theorem agentEnd (lastAssistant : Option AssistantMessage) :
    Accounted (s.agentEnd lastAssistant) := by
  obtain ⟨promise, hpromise⟩ := createRetryPromise_eq (s := s) lastAssistant
  rw [RetryState.agentEnd, hpromise]
  refine hs.of_progress rfl rfl fun hp => ?_
  rcases hp with hwait | hscheduled | hrun | hend
  · exact .inl hwait
  · exact .inr (.inl hscheduled)
  · refine .inr (.inr (.inr ?_))
    simp [hrun.2]
  · exact .inr (.inr (.inr (List.mem_append_left _ hend)))

theorem messageEnd {message : AssistantMessage} {retried : Bool}
    {rest : List PendingAgentEvent} (hqueue : s.agentEventQueue = .messageEnd message retried :: rest)
    (hsettles : 0 < s.retryAttempt → Settles s (.messageEnd message retried)) :
    Accounted ({ s with agentEventQueue := rest }.processAgentEvent (.messageEnd message retried)) := by
  obtain ⟨e, he, hcount⟩ := hs.episodes
  have hstep : openEpisode (s.events ++ [.messageEnd message retried]) =
      some { e with produced := e.produced || succeeds message retried } := openEpisode_append he
  by_cases hclose : message.stopReason ≠ .error ∧ 0 < s.retryAttempt
  · obtain ⟨hok, hopen⟩ := hclose
    obtain ⟨haborted, rfl⟩ := (hsettles hopen).resolve_left hok
    have hcounted : Counted (s.emit (.messageEnd message true)) := ⟨_, hstep, hcount⟩
    have heq : { s with agentEventQueue := rest }.processAgentEvent (.messageEnd message true) =
        { ((s.emit (.messageEnd message true)).emit (.autoRetryEnd true s.retryAttempt none)) with
          agentEventQueue := rest
          lastAssistantMessage := some message
          retryAttempt := 0 } := by
      simp [RetryState.processAgentEvent, hok, hopen, RetryState.emit]
    rw [heq]
    refine hcounted.close rfl rfl fun _ e' he' => ?_
    have hsame : e' = { e with produced := e.produced || succeeds message true } :=
      Option.some.inj (he'.symm.trans hstep)
    rw [hsame]
    exact ⟨by rw [hcount]; exact hopen, by simp [succeeds, hok, haborted]⟩
  · have heq : { s with agentEventQueue := rest }.processAgentEvent (.messageEnd message retried) =
        { (s.emit (.messageEnd message retried)) with
          agentEventQueue := rest
          lastAssistantMessage := some message } := by
      exact if_neg hclose
    rw [heq]
    refine ⟨⟨_, hstep, hcount⟩, fun h => hs.closed fun hp => h ?_⟩
    rcases hp with hwait | hscheduled | hrun | hend
    · exact .inl hwait
    · exact .inr (.inl hscheduled)
    · exact .inr (.inr (.inl hrun))
    · rw [hqueue] at hend
      exact .inr (.inr (.inr (by simpa using hend)))

theorem agentEndHandled {retried : Bool} {rest : List PendingAgentEvent}
    (hsettles : 0 < s.retryAttempt → Settles s (.agentEnd retried)) :
    Accounted ({ s with agentEventQueue := rest }.processAgentEvent (.agentEnd retried)) := by
  have hcounted : Counted { ({ s with agentEventQueue := rest }.emit .agentEnd) with
      lastAssistantMessage := none } := hs.episodes.agentEnd
  by_cases hopen : 0 < s.retryAttempt
  · obtain ⟨henabled, message, hlast, hretryable⟩ := hsettles hopen
    rw [Option.mem_def] at hlast
    have heq : { s with agentEventQueue := rest }.processAgentEvent (.agentEnd retried) =
        { ({ s with agentEventQueue := rest }.emit .agentEnd) with
          lastAssistantMessage := none }.handleRetryableError message := by
      simp [RetryState.processAgentEvent, RetryState.emit, hlast, hretryable]
    rw [heq]
    exact hcounted.handleRetryableError message (.inr henabled)
  · have hzero : s.retryAttempt = 0 := by omega
    simp only [RetryState.processAgentEvent]
    cases hlast : ({ s with agentEventQueue := rest }.emit .agentEnd).lastAssistantMessage with
    | none => exact ⟨hs.episodes.agentEnd, fun _ => hzero⟩
    | some message =>
      simp only
      split_ifs with hretryable
      · exact hcounted.handleRetryableError message (.inl hzero)
      · exact ⟨hcounted, fun _ => hzero⟩

theorem cancelled : Accounted s.cancelled :=
  hs.episodes.close rfl rfl fun h => by cases h

theorem retry (canContinue : Bool)
    (hstarts : 0 < s.retryAttempt → canContinue = true ∧ s.isStreaming = false) :
    Accounted (if canContinue then { s with scheduledRetries := s.scheduledRetries - 1 }.startRun true
      else { s with scheduledRetries := s.scheduledRetries - 1 }) := by
  by_cases hopen : 0 < s.retryAttempt
  · obtain ⟨rfl, hidle⟩ := hstarts hopen
    have heq : { s with scheduledRetries := s.scheduledRetries - 1 }.startRun true =
        { s with
          scheduledRetries := s.scheduledRetries - 1
          isStreaming := true
          runIsRetry := true
          runLastAssistant := none } := by
      simp [RetryState.startRun, hidle]
    rw [if_pos rfl, heq]
    exact ⟨hs.episodes, fun h => absurd (.inr (.inr (.inl ⟨rfl, rfl⟩))) h⟩
  · have hzero : s.retryAttempt = 0 := by omega
    have hnone : Accounted { s with scheduledRetries := s.scheduledRetries - 1 } :=
      ⟨hs.episodes, fun _ => hzero⟩
    split_ifs with hcontinue
    · exact hnone.startRun true
    · exact hnone

theorem step {t : RetryState} {i : RetryInput} (hsettled : Settled s i)
    (h : retryStep s i = some t) : Accounted t := by
  cases i with
  | startRun =>
    cases h
    exact hs.startRun false
  | assistantMessage message =>
    obtain ⟨-, ⟨⟩⟩ := Option.ite_none_right_eq_some.mp h
    exact hs.assistantMessage message
  | agentEnd =>
    obtain ⟨-, ⟨⟩⟩ := Option.ite_none_right_eq_some.mp h
    exact hs.agentEnd s.runLastAssistant
  | runFailure failure =>
    obtain ⟨-, ⟨⟩⟩ := Option.ite_none_right_eq_some.mp h
    exact hs.agentEnd (some failure)
  | processAgentEvent =>
    simp only [retryStep] at h
    cases hwait : s.retryAbortController with
    | some aborted => simp [hwait] at h
    | none =>
      cases hqueue : s.agentEventQueue with
      | nil => simp [hwait, hqueue] at h
      | cons event rest =>
        simp only [hwait, hqueue] at h
        cases h
        have hsettles : 0 < s.retryAttempt → Settles s event := fun hopen =>
          hsettled hopen event (by rw [hqueue]; rfl)
        cases event with
        | messageEnd message retried => simpa [hwait] using hs.messageEnd hqueue hsettles
        | agentEnd retried => simpa [hwait] using hs.agentEndHandled hsettles
  | wake =>
    obtain ⟨-, ⟨⟩⟩ := Option.ite_none_right_eq_some.mp h
    exact hs.of_progress rfl rfl fun _ => .inr (.inl (Nat.succ_pos _))
  | cancelled =>
    obtain ⟨-, ⟨⟩⟩ := Option.ite_none_right_eq_some.mp h
    exact hs.cancelled
  | retry canContinue =>
    obtain ⟨-, ⟨⟩⟩ := Option.ite_none_right_eq_some.mp h
    exact hs.retry canContinue hsettled
  | abortRetry =>
    cases h
    refine hs.of_progress rfl rfl fun hp => hp.imp_left fun hwait => ?_
    simpa [RetryState.abortRetry, RetryState.resolveRetry] using hwait
  | setSettings settings | setContextWindow contextWindow =>
    cases h
    exact hs.of_progress rfl rfl id

end

end Accounted

/-- In a run that settles each open episode, the listeners see every event in its place, the
counter counts the open episode, and none is open when no retry is in progress. -/
theorem retries_accounted {settings : RetrySettings} {contextWindow : Nat} {is : List RetryInput}
    {s : RetryState} (hsettled : Along retryStep Settled (.start settings contextWindow) is)
    (hrun : run retryStep (.start settings contextWindow) is = some s) : Accounted s :=
  run_invariant (fun _ _ _ hs hi h => hs.step hi h) (.start settings contextWindow) hsettled hrun

def sampleAnswer (stopReason : StopReason) (errorMessage : Option JsString) : AssistantMessage where
  content := []
  api := js "anthropic-messages"
  provider := js "anthropic"
  model := js "claude"
  usage := EMPTY_USAGE
  stopReason
  errorMessage
  timestamp := 0

/-- A request that is refused for its rate, and its retry, which ends in a given answer. -/
def retriedOnce (outcome : AssistantMessage) : List RetryInput :=
  [.startRun, .assistantMessage (sampleAnswer .error (some (js "429"))), .agentEnd,
    .processAgentEvent, .processAgentEvent, .wake, .retry true,
    .assistantMessage outcome, .agentEnd, .processAgentEvent, .processAgentEvent]

/-- A retry that succeeds closes its episode. -/
theorem retries_accounted_success :
    ∃ s, run retryStep (.start {} 200000) (retriedOnce (sampleAnswer .stop none)) = some s ∧
      Accounted s := by
  have hruns : Along retryStep Settled (.start {} 200000) (retriedOnce (sampleAnswer .stop none)) ∧
      (run retryStep (.start {} 200000) (retriedOnce (sampleAnswer .stop none))).isSome := by
    decide
  obtain ⟨s, hrun⟩ := Option.isSome_iff_exists.mp hruns.2
  exact ⟨s, hrun, retries_accounted hruns.1 hrun⟩

/-- A retry that ends in an error that is not retried leaves the counter behind. -/
theorem retries_not_accounted :
    ¬ ∀ is s, run retryStep (.start {} 200000) is = some s → Accounted s := by
  intro h
  have hleft : (run retryStep (.start {} 200000)
      (retriedOnce (sampleAnswer .error (some (js "401"))))).map
        (fun s => (s.retryAttempt, s.retryAbortController, s.scheduledRetries, s.isStreaming,
          s.agentEventQueue)) = some (1, none, 0, false, []) := by
    decide
  obtain ⟨s, hrun, hs⟩ := Option.map_eq_some_iff.mp hleft
  simp only [Prod.mk.injEq] at hs
  obtain ⟨hattempt, hwait, hscheduled, hstreaming, hqueue⟩ := hs
  have hclosed := (h _ s hrun).closed
  simp [RetryState.RetryInProgress, hattempt, hwait, hscheduled, hstreaming, hqueue] at hclosed

end AcademicAgent
