import AcademicAgent.AgentHost.AgentSession.Queueing

/-!
# The shown queue and the real one

A list shows the texts on their way from its queue, then the texts in the queue.
-/

namespace AcademicAgent

open List QueueState Option

/-- The texts of the user messages among some messages. -/
def userTexts (messages : List AgentMessage) : List JsString :=
  messages.filterMap AgentMessage.userText?

/-- The texts of the user messages on their way from one place. -/
def inFlight (origin : Origin) (as : List Announced) : List JsString :=
  userTexts ((as.filter fun a => a.origin = origin).map Announced.message)

/-- The lists show the user messages that wait in the queues. -/
def QueueState.Mirrored (s : QueueState) : Prop :=
  s.steeringMessages = userTexts s.steeringQueue.messages ∧
    s.followUpMessages = userTexts s.followUpQueue.messages

/-- The text of a message is found where the message came from. -/
def Found (s : QueueState) (a : Announced) : Prop :=
  ∀ text, a.message.userText? = some text →
    match a.origin with
    | .steering => text ≠ []
    | .followUp => text ≠ [] ∧ text ∉ s.steeringMessages
    | .direct => text = [] ∨ (text ∉ s.steeringMessages ∧ text ∉ s.followUpMessages)

/-- An event is handled for a message whose text is found where it came from, and a run
fails when it has announced the queued messages it took. -/
def Kept (s : QueueState) : QueueInput → Prop
  | .processAgentEvent => ∀ a ∈ s.agentEventQueue.head?, Found s a
  | .runFailure =>
    inFlight .steering s.pendingMessages = [] ∧ inFlight .followUp s.pendingMessages = []
  | _ => True

section Texts

variable (origin : Origin)

@[simp] theorem userTexts_append (ms ns : List AgentMessage) :
    userTexts (ms ++ ns) = userTexts ms ++ userTexts ns := by
  simp [userTexts]

@[simp] theorem inFlight_nil : inFlight origin [] = [] := rfl

@[simp] theorem inFlight_append (as bs : List Announced) :
    inFlight origin (as ++ bs) = inFlight origin as ++ inFlight origin bs := by
  simp [inFlight]

theorem inFlight_cons (a : Announced) (as : List Announced) :
    inFlight origin (a :: as) = inFlight origin [a] ++ inFlight origin as :=
  inFlight_append origin [a] as

theorem inFlight_singleton (a : Announced) : inFlight origin [a] =
      if a.origin = origin then a.message.userText?.toList else [] := by
  by_cases h : a.origin = origin
  · cases ht : a.message.userText? with
    | none => simp [inFlight, userTexts, h, ht]
    | some text => simp [inFlight, userTexts, h, ht]
  · simp [inFlight, userTexts, h]

@[simp] theorem inFlight_taken (messages : List AgentMessage) :
    inFlight origin (taken origin messages) = userTexts messages := by
  induction messages with
  | nil => rfl
  | cons m ms ih =>
    rw [taken, map_cons, inFlight_cons, inFlight_singleton, if_pos rfl]
    rw [taken] at ih
    rw [ih, userTexts, userTexts, filterMap_cons]
    cases m.userText? with
    | none => rfl
    | some text => rfl

theorem inFlight_taken_of_ne {other : Origin} (h : other ≠ origin)
    (messages : List AgentMessage) : inFlight origin (taken other messages) = [] := by
  have hempty : (taken other messages).filter (fun a => a.origin = origin) = [] := by
    rw [filter_eq_nil_iff]
    intro a ha
    obtain ⟨m, -, rfl⟩ := mem_map.mp ha
    simpa using h
  rw [inFlight, hempty]
  rfl

theorem inFlight_forget (h : origin ≠ .direct) (as : List Announced) :
    inFlight origin (as.map forget) = [] := by
  have hempty : (as.map forget).filter (fun a => a.origin = origin) = [] := by
    rw [filter_eq_nil_iff]
    intro a ha
    obtain ⟨b, -, rfl⟩ := mem_map.mp ha
    simp [forget, h.symm]
  rw [inFlight, hempty]
  rfl

end Texts

/-- A list shows what is on its way from its queue, then what waits there. Only a run of
the agent has messages to announce. -/
structure Tracked (s : QueueState) : Prop where
  steering : s.steeringMessages =
    inFlight .steering (s.agentEventQueue ++ s.pendingMessages) ++
      userTexts s.steeringQueue.messages
  followUp : s.followUpMessages =
    inFlight .followUp (s.agentEventQueue ++ s.pendingMessages) ++
      userTexts s.followUpQueue.messages
  idle : s.isStreaming = false → s.pendingMessages = []

section

variable (text : JsString) (images : Option (List ImageContent)) (timestamp : Int)

theorem userText?_userMessage :
    AgentMessage.userText? (.user (userMessage text images timestamp)) = some text := by
  have hnone : ((images.getD []).map ContentBlock.image).filterMap ContentBlock.text? = [] := by
    rw [filterMap_map]
    exact filterMap_eq_nil_iff.mpr fun c _ => rfl
  simp [AgentMessage.userText?, userMessage, MessageContent.plainText, ContentBlock.text?, hnone]

@[simp] theorem userTexts_userMessage
    : userTexts [.user (userMessage text images timestamp)] = [text] := by
  rw [userTexts, filterMap_cons, userText?_userMessage]
  rfl

end

@[simp] theorem userTexts_custom (m : CustomMessage) : userTexts [.custom m] = [] := rfl

namespace Tracked

variable {s : QueueState}

theorem start (steeringMode followUpMode : QueueMode) :
    Tracked (start steeringMode followUpMode) where
  steering := rfl
  followUp := rfl
  idle _ := rfl

theorem queueSteer (hs : Tracked s) (text : JsString) (images : Option (List ImageContent))
    (timestamp : Int) : Tracked (s.queueSteer text images timestamp) := by
  refine ⟨?_, hs.followUp, hs.idle⟩
  simp [QueueState.queueSteer, QueueState.emitQueueUpdate, hs.steering]

theorem queueFollowUp (hs : Tracked s) (text : JsString) (images : Option (List ImageContent))
    (timestamp : Int) : Tracked (s.queueFollowUp text images timestamp) := by
  refine ⟨hs.steering, ?_, hs.idle⟩
  simp [QueueState.queueFollowUp, QueueState.emitQueueUpdate, hs.followUp]

section

variable (hs : Tracked s) (env : PromptEnv) (text : JsString) (images : Option (List ImageContent))
include hs

theorem steer (timestamp : Int) : Tracked (settled s (s.steer env text images timestamp)) := by
  rw [QueueState.steer]
  cases throwIfExtensionCommand env text with
  | error e => exact hs
  | ok u => exact hs.queueSteer _ _ _

theorem followUpCall (timestamp : Int) :
    Tracked (settled s (s.followUp env text images timestamp)) := by
  rw [QueueState.followUp]
  cases throwIfExtensionCommand env text with
  | error e => exact hs
  | ok u => exact hs.queueFollowUp _ _ _

theorem promptMessage (options : PromptOptions) (timestamp : Int) :
    Tracked (settled s (s.promptMessage env text images options timestamp)) := by
  simp only [QueueState.promptMessage]
  by_cases hstreaming : s.isStreaming
  · rw [if_pos hstreaming]
    match options.streamingBehavior with
    | none => exact hs
    | some .followUp => exact hs.queueFollowUp _ _ _
    | some .steer => exact hs.queueSteer _ _ _
  · rw [if_neg hstreaming]
    cases env.preflightError with
    | some error => exact hs
    | none => exact ⟨hs.steering, hs.followUp, hs.idle⟩

end

section

variable (hs : Tracked s)
include hs

theorem prompt (env : PromptEnv) (text : JsString) (options : PromptOptions)
    (timestamp : Int) : Tracked (settled s (s.prompt env text options timestamp)) := by
  rw [QueueState.prompt]
  split_ifs with hcommand
  · exact hs
  · cases env.emitInput text options.images with
    | handled => exact hs
    | «continue» | transform text images => exact hs.promptMessage _ _ _ _ _

theorem clearQueue : Tracked s.clearQueue := by
  refine ⟨?_, ?_, fun h => ?_⟩
  · simp [QueueState.clearQueue, QueueState.emitQueueUpdate, inFlight_forget, userTexts]
  · simp [QueueState.clearQueue, QueueState.emitQueueUpdate, inFlight_forget, userTexts]
  · have hnone := hs.idle h
    simp [QueueState.clearQueue, QueueState.emitQueueUpdate, hnone]

theorem runDirect (hidle : s.isStreaming = false) (messages : List AgentMessage)
    (skip : Bool) (preparing : List UserMessage) :
    Tracked ({ s with skipInitialSteeringPoll := skip, preparing }.runPromptMessages
      (taken .direct messages)) := by
  have hnone := hs.idle hidle
  refine ⟨?_, ?_, fun h => by cases h⟩
  · simp [runPromptMessages, inFlight_taken_of_ne, hs.steering, hnone]
  · simp [runPromptMessages, inFlight_taken_of_ne, hs.followUp, hnone]

theorem takeSteering (hnone : s.pendingMessages = []) (skip : Bool) : Tracked ({ s with
      steeringQueue := s.steeringQueue.drain.2
      skipInitialSteeringPoll := skip }.runPromptMessages
        (taken .steering s.steeringQueue.drain.1)) := by
  have hdrain := congrArg userTexts s.steeringQueue.drain_append
  rw [userTexts_append] at hdrain
  refine ⟨?_, ?_, fun h => by cases h⟩
  · simp [runPromptMessages, hs.steering, hnone, ← hdrain]
  · simp [runPromptMessages, inFlight_taken_of_ne, hs.followUp, hnone]

theorem takeFollowUp (hnone : s.pendingMessages = []) (skip : Bool) : Tracked ({ s with
      followUpQueue := s.followUpQueue.drain.2
      skipInitialSteeringPoll := skip }.runPromptMessages
        (taken .followUp s.followUpQueue.drain.1)) := by
  have hdrain := congrArg userTexts s.followUpQueue.drain_append
  rw [userTexts_append] at hdrain
  refine ⟨?_, ?_, fun h => by cases h⟩
  · simp [runPromptMessages, inFlight_taken_of_ne, hs.steering, hnone]
  · simp [runPromptMessages, hs.followUp, hnone, ← hdrain]

theorem enqueueCustom (message : CustomMessage) :
    Tracked { s with steeringQueue := s.steeringQueue.enqueue (.custom message) } ∧
      Tracked { s with followUpQueue := s.followUpQueue.enqueue (.custom message) } := by
  refine ⟨⟨?_, hs.followUp, hs.idle⟩, ⟨hs.steering, ?_, hs.idle⟩⟩
  · simp [hs.steering]
  · simp [hs.followUp]

theorem sendCustomMessage (message : CustomMessage) (triggerTurn : Bool)
    (deliverAs : Option StreamingBehavior) :
    Tracked (s.sendCustomMessage message triggerTurn deliverAs) := by
  obtain ⟨hsteer, hfollowUp⟩ := hs.enqueueCustom message
  rw [QueueState.sendCustomMessage]
  split_ifs with hstreaming hdeliver htrigger
  · exact hfollowUp
  · exact hsteer
  · exact hs.runDirect (by simpa using hstreaming) [.custom message] _ _
  · exact hs

theorem agentPrompt {k : Nat} {customs : List CustomMessage} {t : QueueState}
    (h : s.agentPrompt k customs = some t) : Tracked t := by
  obtain ⟨user, -, rfl⟩ := map_eq_some_iff.mp h
  by_cases hstreaming : s.isStreaming
  · simp only [if_pos hstreaming]
    exact ⟨hs.steering, hs.followUp, hs.idle⟩
  · simp only [if_neg hstreaming]
    exact hs.runDirect (by simpa using hstreaming) _ _ _

theorem agentContinue (lastIsAssistant : Bool) : Tracked (s.agentContinue lastIsAssistant) := by
  rw [QueueState.agentContinue]
  split_ifs with hstreaming hlast
  · exact hs
  · have hnone := hs.idle (by simpa using hstreaming)
    by_cases hsteering : s.steeringQueue.drain.1 = []
    · by_cases hfollowUp : s.followUpQueue.drain.1 = []
      · simpa [hsteering, hfollowUp] using hs
      · simpa [hsteering, hfollowUp] using hs.takeFollowUp hnone false
    · simpa [hsteering] using hs.takeSteering hnone true
  · exact hs.runDirect (by simpa using hstreaming) [] _ _

end

theorem polls (h : s.polls) : s.isStreaming = true ∧ s.pendingMessages = [] := by
  simpa [QueueState.polls] using h

section

variable (hs : Tracked s)
include hs

theorem getSteeringMessages (h : s.polls) : Tracked s.getSteeringMessages := by
  obtain ⟨hstreaming, hnone⟩ := polls h
  rw [QueueState.getSteeringMessages]
  split_ifs with hskip
  · exact ⟨hs.steering, hs.followUp, hs.idle⟩
  · have ht := hs.takeSteering hnone s.skipInitialSteeringPoll
    rw [runPromptMessages] at ht
    rw [← hstreaming] at ht
    exact ht

theorem getFollowUpMessages (h : s.polls) : Tracked s.getFollowUpMessages := by
  obtain ⟨hstreaming, hnone⟩ := polls h
  have ht := hs.takeFollowUp hnone s.skipInitialSteeringPoll
  rw [runPromptMessages] at ht
  rw [← hstreaming] at ht
  exact ht

theorem messageStart {a : Announced} {rest : List Announced} (h : s.pendingMessages = a :: rest) :
    Tracked { s with pendingMessages := rest, agentEventQueue := s.agentEventQueue ++ [a] } := by
  refine ⟨?_, ?_, fun hidle => ?_⟩
  · simpa only [append_assoc, singleton_append, h] using hs.steering
  · simpa only [append_assoc, singleton_append, h] using hs.followUp
  · have hnone := hs.idle hidle
    rw [h] at hnone
    cases hnone

theorem endRun (hsteering : inFlight .steering s.pendingMessages = [])
    (hfollowUp : inFlight .followUp s.pendingMessages = []) :
    Tracked { s with isStreaming := false, pendingMessages := [] } := by
  refine ⟨?_, ?_, fun _ => rfl⟩
  · simpa only [inFlight_append, hsteering, inFlight_nil] using hs.steering
  · simpa only [inFlight_append, hfollowUp, inFlight_nil] using hs.followUp

end

end Tracked

section

variable {s : QueueState} {message : AgentMessage}

theorem processAgentEvent_direct (h : ∀ text, message.userText? = some text →
      text = [] ∨ (text ∉ s.steeringMessages ∧ text ∉ s.followUpMessages)) :
    s.processAgentEvent message = s := by
  rw [processAgentEvent]
  cases ht : message.userText? with
  | none => rfl
  | some text =>
    rcases h text ht with rfl | ⟨hsteering, hfollowUp⟩
    · rfl
    · simp [hsteering, hfollowUp]

theorem processAgentEvent_steering {text : JsString}
    {texts : List JsString} (ht : message.userText? = some text) (hne : text ≠ [])
    (hshown : s.steeringMessages = text :: texts) :
    s.processAgentEvent message = { s with steeringMessages := texts }.emitQueueUpdate := by
  simp [processAgentEvent, ht, hne, hshown]

theorem processAgentEvent_followUp {text : JsString}
    {texts : List JsString} (ht : message.userText? = some text) (hne : text ≠ [])
    (hnot : text ∉ s.steeringMessages) (hshown : s.followUpMessages = text :: texts) :
    s.processAgentEvent message = { s with followUpMessages := texts }.emitQueueUpdate := by
  simp [processAgentEvent, ht, hne, hnot, hshown]

end

theorem Tracked.processAgentEvent {s : QueueState} {a : Announced} {rest : List Announced}
    (hs : Tracked s) (hqueue : s.agentEventQueue = a :: rest) (hfound : Found s a) :
    Tracked ({ s with agentEventQueue := rest }.processAgentEvent a.message) := by
  have hsteering := hs.steering
  have hfollowUp := hs.followUp
  rw [hqueue, cons_append, inFlight_cons, inFlight_singleton] at hsteering hfollowUp
  cases ht : a.message.userText? with
  | none =>
    rw [processAgentEvent_direct (s := { s with agentEventQueue := rest })
      fun text h => by rw [ht] at h; cases h]
    refine ⟨?_, ?_, hs.idle⟩
    · simpa [ht] using hsteering
    · simpa [ht] using hfollowUp
  | some text =>
    have hfound := hfound text ht
    rw [ht] at hsteering hfollowUp
    cases ho : a.origin with
    | steering =>
      rw [ho] at hsteering hfollowUp hfound
      rw [processAgentEvent_steering (s := { s with agentEventQueue := rest }) ht hfound hsteering]
      refine ⟨?_, ?_, hs.idle⟩
      · simp [emitQueueUpdate]
      · simpa [emitQueueUpdate] using hfollowUp
    | followUp =>
      rw [ho] at hsteering hfollowUp hfound
      rw [processAgentEvent_followUp (s := { s with agentEventQueue := rest }) ht hfound.1 hfound.2
        hfollowUp]
      refine ⟨?_, ?_, hs.idle⟩
      · simpa [emitQueueUpdate] using hsteering
      · simp [emitQueueUpdate]
    | direct =>
      rw [ho] at hsteering hfollowUp hfound
      rw [processAgentEvent_direct (s := { s with agentEventQueue := rest })
        fun u hu => by rw [ht] at hu; cases hu; exact hfound]
      exact ⟨by simpa using hsteering, by simpa using hfollowUp, hs.idle⟩

theorem Tracked.step {s t : QueueState} {i : QueueInput} (hs : Tracked s) (hk : Kept s i)
    (h : queueStep s i = some t) : Tracked t := by
  cases i with
  | steer env text images timestamp =>
    cases h
    exact hs.steer env text images timestamp
  | followUp env text images timestamp =>
    cases h
    exact hs.followUpCall env text images timestamp
  | prompt env text options timestamp =>
    cases h
    exact hs.prompt env text options timestamp
  | sendUserMessage env content deliverAs timestamp =>
    cases h
    exact hs.prompt env _ _ timestamp
  | sendCustomMessage message triggerTurn deliverAs =>
    cases h
    exact hs.sendCustomMessage message triggerTurn deliverAs
  | clearQueue =>
    cases h
    exact hs.clearQueue
  | setSteeringMode mode | setFollowUpMode mode =>
    cases h
    exact ⟨hs.steering, hs.followUp, hs.idle⟩
  | agentPrompt k customs => exact hs.agentPrompt h
  | agentContinue lastIsAssistant =>
    cases h
    exact hs.agentContinue lastIsAssistant
  | getSteeringMessages =>
    obtain ⟨hpolls, ⟨⟩⟩ := ite_none_right_eq_some.mp h
    exact hs.getSteeringMessages hpolls
  | getFollowUpMessages =>
    obtain ⟨hpolls, ⟨⟩⟩ := ite_none_right_eq_some.mp h
    exact hs.getFollowUpMessages hpolls
  | messageStart =>
    rw [queueStep] at h
    cases hpending : s.pendingMessages with
    | nil => simp [hpending] at h
    | cons a rest =>
      rw [hpending] at h
      cases h
      exact hs.messageStart hpending
  | agentEnd =>
    obtain ⟨hpolls, ⟨⟩⟩ := ite_none_right_eq_some.mp h
    have hnone := (Tracked.polls hpolls).2
    exact ⟨hs.steering, hs.followUp, fun _ => hnone⟩
  | runFailure =>
    obtain ⟨-, ⟨⟩⟩ := ite_none_right_eq_some.mp h
    exact hs.endRun hk.1 hk.2
  | processAgentEvent =>
    rw [queueStep] at h
    cases hqueue : s.agentEventQueue with
    | nil => simp [hqueue] at h
    | cons a rest =>
      rw [hqueue] at h
      cases h
      exact hs.processAgentEvent hqueue (hk a (by rw [hqueue]; rfl))

/-- In a run that handles each message where it came from, once every announced message is
handled, the lists show the queues exactly when no message taken from a queue is still to
be announced. -/
theorem queue_mirrored {steeringMode followUpMode : QueueMode} {is : List QueueInput}
    {s : QueueState} (hkept : Along queueStep Kept (.start steeringMode followUpMode) is)
    (hrun : run queueStep (.start steeringMode followUpMode) is = some s)
    (hhandled : s.agentEventQueue = []) : s.Mirrored ↔
      inFlight .steering s.pendingMessages = [] ∧ inFlight .followUp s.pendingMessages = [] := by
  have hs : Tracked s := run_invariant (fun s i t hs hk h => Tracked.step hs hk h)
    (.start steeringMode followUpMode) hkept hrun
  rw [QueueState.Mirrored, hs.steering, hs.followUp, hhandled, nil_append]
  simp

/-- A prompt, and a steering message of a text and its images while the agent works on it. -/
def steeredRun (text : JsString) (images : Option (List ImageContent)) : List QueueInput :=
  [.prompt {} (js "go") {} 0, .agentPrompt 0 [], .messageStart, .processAgentEvent,
    .steer {} text images 1, .getSteeringMessages, .messageStart, .processAgentEvent]

/-- A steering message that repeats the prompt is shown until it is delivered. -/
theorem queue_mirrored_repeated :
    ∃ s, run queueStep (.start .all .all) (steeredRun (js "go") none) = some s ∧ s.Mirrored := by
  refine ⟨_, rfl, ?_⟩
  refine (@queue_mirrored .all .all (steeredRun (js "go") none) _ ?_ rfl rfl).mpr ⟨rfl, rfl⟩
  refine .cons rfl trivial (.cons rfl trivial (.cons rfl trivial (.cons rfl ?_
    (.cons rfl trivial (.cons rfl trivial (.cons rfl trivial (.cons rfl ?_ trivial)))))))
  · rintro a ⟨⟩ text ⟨⟩
    exact Or.inr ⟨by decide, by decide⟩
  · rintro a ⟨⟩ text ⟨⟩
    decide

/-- An image without a text stays shown after it is delivered. -/
theorem queue_not_mirrored :
    ¬ ∀ is s, run queueStep (.start .all .all) is = some s → s.agentEventQueue = [] →
      s.pendingMessages = [] → s.Mirrored := by
  intro h
  have hmirrored := h (steeredRun [] (some [⟨js "iVBORw0KGgo=", js "image/png"⟩])) _ rfl rfl rfl
  have hsteering : [[]] = [] := hmirrored.1
  cases hsteering

end AcademicAgent
