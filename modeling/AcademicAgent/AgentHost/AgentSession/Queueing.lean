import AcademicAgent.Agent.PendingMessageQueue
import AcademicAgent.AgentHost.ConvertToLlm
import AcademicAgent.Core.Run

/-!
# Queueing messages in a session

A session shows the texts of the user messages that wait in the agent's steering and follow-up
queues.
-/

namespace AcademicAgent

/-- The list that shows a message on its way: none for a message that was prompted
directly, or that was taken from its queue before the lists were cleared. -/
inductive Origin where
  | steering
  | followUp
  | direct
  deriving DecidableEq

/-- A message on its way to the session. The origin is the history of the message;
no function of the source reads it. -/
structure Announced where
  message : AgentMessage
  origin : Origin
  deriving DecidableEq

/-- A `queue_update` event. -/
structure QueueUpdate where
  steering : List JsString
  followUp : List JsString
  deriving DecidableEq

/-- The queues of the agent, and what the session knows of them. -/
structure QueueState where
  steeringMessages : List JsString := []
  followUpMessages : List JsString := []
  /-- The `queue_update` events so far. -/
  updates : List QueueUpdate := []
  steeringQueue : PendingMessageQueue
  followUpQueue : PendingMessageQueue
  isStreaming : Bool := false
  skipInitialSteeringPoll : Bool := false
  /-- Prompts that have passed their checks and wait to reach the agent. -/
  preparing : List UserMessage := []
  /-- Messages the agent loop has taken and is about to announce. -/
  pendingMessages : List Announced := []
  /-- Announced messages whose `message_start` is not handled yet. -/
  agentEventQueue : List Announced := []
  deriving DecidableEq

def QueueState.start (steeringMode followUpMode : QueueMode) : QueueState where
  steeringQueue := { mode := steeringMode }
  followUpQueue := { mode := followUpMode }

/-- What an extension answers to an `input` event. -/
inductive InputEventResult where
  | «continue»
  | handled
  | transform (text : JsString) (images : Option (List ImageContent))

/-- What a call finds outside the session at its time: extension commands, skills,
templates, input handlers, and whether a model can be prompted. -/
structure PromptEnv where
  getCommand : JsString → Bool := fun _ => false
  expandSkillCommand : JsString → JsString := id
  expandPromptTemplate : JsString → JsString := id
  emitInput : JsString → Option (List ImageContent) → InputEventResult := fun _ _ => .continue
  /-- The error for a missing model or credential. -/
  preflightError : Option JsString := none

/-- `"steer" | "followUp"`. -/
inductive StreamingBehavior where
  | steer
  | followUp
  deriving DecidableEq

structure PromptOptions where
  expandPromptTemplates : Bool := true
  images : Option (List ImageContent) := none
  streamingBehavior : Option StreamingBehavior := none

/-- The command name of a text that starts with a slash. -/
def commandName (text : JsString) : JsString := (text.drop 1).takeWhile (· != 0x20)

def userMessage (text : JsString) (images : Option (List ImageContent)) (timestamp : Int) :
    UserMessage where
  content := .blocks (.text { text } :: (images.getD []).map .image)
  timestamp

/-- `_getUserMessageText`, for user messages. -/
def AgentMessage.userText? : AgentMessage → Option JsString
  | .user m => some m.content.plainText
  | _ => none

namespace QueueState

def emitQueueUpdate (s : QueueState) : QueueState :=
  { s with updates := s.updates ++ [⟨s.steeringMessages, s.followUpMessages⟩] }

section

variable (text : JsString) (images : Option (List ImageContent)) (timestamp : Int) (s : QueueState)

def queueSteer : QueueState :=
  let s := { s with steeringMessages := s.steeringMessages ++ [text] }.emitQueueUpdate
  { s with steeringQueue := s.steeringQueue.enqueue (.user (userMessage text images timestamp)) }

def queueFollowUp : QueueState :=
  let s := { s with followUpMessages := s.followUpMessages ++ [text] }.emitQueueUpdate
  { s with followUpQueue := s.followUpQueue.enqueue (.user (userMessage text images timestamp)) }

end

/-- `_throwIfExtensionCommand`, for texts that start with a slash. -/
def throwIfExtensionCommand (env : PromptEnv) (text : JsString) : Except JsString Unit :=
  if text.head? = some 0x2F ∧ env.getCommand (commandName text) then
    .error (js "Extension command \"/" ++ commandName text ++
      js "\" cannot be queued. Use prompt() or execute the command when not streaming.")
  else .ok ()

section

variable (env : PromptEnv) (text : JsString) (images : Option (List ImageContent))

def steer (timestamp : Int) (s : QueueState) : Except JsString QueueState := do
  throwIfExtensionCommand env text
  let expandedText := env.expandPromptTemplate (env.expandSkillCommand text)
  return s.queueSteer expandedText images timestamp

def followUp (timestamp : Int) (s : QueueState) : Except JsString QueueState := do
  throwIfExtensionCommand env text
  let expandedText := env.expandPromptTemplate (env.expandSkillCommand text)
  return s.queueFollowUp expandedText images timestamp

/-- A prompt that no command and no extension has handled, up to the point where it is
queued or waits to reach the agent. -/
def promptMessage
    (options : PromptOptions) (timestamp : Int) (s : QueueState) : Except JsString QueueState :=
  let expandedText :=
    if options.expandPromptTemplates then env.expandPromptTemplate (env.expandSkillCommand text)
    else text
  if s.isStreaming then
    match options.streamingBehavior with
    | none => .error (js "Agent is already processing. Specify streamingBehavior " ++
        js "('steer' or 'followUp') to queue the message.")
    | some .followUp => .ok (s.queueFollowUp expandedText images timestamp)
    | some .steer => .ok (s.queueSteer expandedText images timestamp)
  else
    match env.preflightError with
    | some error => .error error
    | none =>
      .ok { s with preparing := s.preparing ++ [userMessage expandedText images timestamp] }

end

def prompt (env : PromptEnv) (text : JsString) (options : PromptOptions) (timestamp : Int)
    (s : QueueState) : Except JsString QueueState :=
  if options.expandPromptTemplates ∧ text.head? = some 0x2F ∧
      env.getCommand (commandName text) then .ok s
  else
    match env.emitInput text options.images with
    | .handled => .ok s
    | .continue => s.promptMessage env text options.images options timestamp
    | .transform text images =>
      s.promptMessage env text (images <|> options.images) options timestamp

def normalizeContent : MessageContent → JsString × Option (List ImageContent)
  | .string text => (text, none)
  | .blocks bs =>
    let images := bs.filterMap fun
      | .image c => some c
      | .text _ => none
    ((js "\n").intercalate (bs.filterMap ContentBlock.text?),
      if images = [] then none else some images)

def sendUserMessage (env : PromptEnv) (content : MessageContent)
    (deliverAs : Option StreamingBehavior) (timestamp : Int) (s : QueueState) :
    Except JsString QueueState :=
  let (text, images) := normalizeContent content
  s.prompt env text
    { expandPromptTemplates := false, images, streamingBehavior := deliverAs } timestamp

def taken (origin : Origin) (messages : List AgentMessage) : List Announced :=
  messages.map fun m => ⟨m, origin⟩

def runPromptMessages (messages : List Announced) (s : QueueState) : QueueState :=
  { s with isStreaming := true, pendingMessages := messages }

/-- A custom message, unless it is kept for the next turn. -/
def sendCustomMessage (message : CustomMessage) (triggerTurn : Bool)
    (deliverAs : Option StreamingBehavior) (s : QueueState) : QueueState :=
  if s.isStreaming then
    if deliverAs = some .followUp then
      { s with followUpQueue := s.followUpQueue.enqueue (.custom message) }
    else { s with steeringQueue := s.steeringQueue.enqueue (.custom message) }
  else if triggerTurn then s.runPromptMessages [⟨.custom message, .direct⟩]
  else s

/-- A message on its way, once the lists no longer show it. -/
def forget (a : Announced) : Announced := { a with origin := .direct }

/-- What was taken from the queues before is shown by no list from now on. -/
def clearQueue (s : QueueState) : QueueState :=
  { s with
    steeringMessages := []
    followUpMessages := []
    steeringQueue := s.steeringQueue.clear
    followUpQueue := s.followUpQueue.clear
    pendingMessages := s.pendingMessages.map forget
    agentEventQueue := s.agentEventQueue.map forget }.emitQueueUpdate

/-- A prompt reaches the agent, with the custom messages of its turn. A running agent
refuses it. -/
def agentPrompt (k : Nat) (customs : List CustomMessage) (s : QueueState) : Option QueueState :=
  s.preparing[k]?.map fun user =>
    let s := { s with preparing := s.preparing.eraseIdx k }
    if s.isStreaming then s
    else
      { s with skipInitialSteeringPoll := false }.runPromptMessages
        (taken .direct (.user user :: customs.map .custom))

/-- `agent.continue()`. After an assistant message it runs what is queued. -/
def agentContinue (lastIsAssistant : Bool) (s : QueueState) : QueueState :=
  if s.isStreaming then s
  else if lastIsAssistant then
    let (queuedSteering, steeringQueue) := s.steeringQueue.drain
    if queuedSteering = [] then
      let (queuedFollowUps, followUpQueue) := s.followUpQueue.drain
      if queuedFollowUps = [] then s
      else
        { s with followUpQueue, skipInitialSteeringPoll := false }.runPromptMessages
          (taken .followUp queuedFollowUps)
    else
      { s with steeringQueue, skipInitialSteeringPoll := true }.runPromptMessages
        (taken .steering queuedSteering)
  else { s with skipInitialSteeringPoll := false }.runPromptMessages []

def getSteeringMessages (s : QueueState) : QueueState :=
  if s.skipInitialSteeringPoll then { s with skipInitialSteeringPoll := false }
  else
    let (drained, steeringQueue) := s.steeringQueue.drain
    { s with steeringQueue, pendingMessages := taken .steering drained }

def getFollowUpMessages (s : QueueState) : QueueState :=
  let (drained, followUpQueue) := s.followUpQueue.drain
  { s with followUpQueue, pendingMessages := taken .followUp drained }

/-- The session handles a `message_start`: the text of a user message leaves the list
that shows it first. -/
def processAgentEvent (message : AgentMessage) (s : QueueState) : QueueState :=
  match message.userText? with
  | none => s
  | some messageText =>
    if messageText = [] then s
    else if messageText ∈ s.steeringMessages then
      { s with steeringMessages := s.steeringMessages.erase messageText }.emitQueueUpdate
    else if messageText ∈ s.followUpMessages then
      { s with followUpMessages := s.followUpMessages.erase messageText }.emitQueueUpdate
    else s

end QueueState

/-- A call of the session, a step of the agent loop, or the handling of an event. -/
inductive QueueInput where
  | steer (env : PromptEnv) (text : JsString) (images : Option (List ImageContent))
      (timestamp : Int)
  | followUp (env : PromptEnv) (text : JsString) (images : Option (List ImageContent))
      (timestamp : Int)
  | prompt (env : PromptEnv) (text : JsString) (options : PromptOptions) (timestamp : Int)
  | sendUserMessage (env : PromptEnv) (content : MessageContent)
      (deliverAs : Option StreamingBehavior) (timestamp : Int)
  | sendCustomMessage (message : CustomMessage) (triggerTurn : Bool)
      (deliverAs : Option StreamingBehavior)
  | clearQueue
  | setSteeringMode (mode : QueueMode)
  | setFollowUpMode (mode : QueueMode)
  | agentPrompt (k : Nat) (customs : List CustomMessage)
  | agentContinue (lastIsAssistant : Bool)
  | getSteeringMessages
  | getFollowUpMessages
  | messageStart
  | agentEnd
  | runFailure
  | processAgentEvent

section

variable (s : QueueState)

/-- A call that throws leaves the session as it is. -/
def settled : Except JsString QueueState → QueueState
  | .ok t => t
  | .error _ => s

/-- The loop takes messages only in a run, when it has announced what it took before. -/
def QueueState.polls : Bool := s.isStreaming && s.pendingMessages.isEmpty

/-- One step. There is none for a prompt that is not in preparation, for a loop that does
not poll, or for an event that is not there. -/
def queueStep : QueueInput → Option QueueState
  | .steer env text images timestamp => some (settled s (s.steer env text images timestamp))
  | .followUp env text images timestamp => some (settled s (s.followUp env text images timestamp))
  | .prompt env text options timestamp => some (settled s (s.prompt env text options timestamp))
  | .sendUserMessage env content deliverAs timestamp =>
    some (settled s (s.sendUserMessage env content deliverAs timestamp))
  | .sendCustomMessage message triggerTurn deliverAs =>
    some (s.sendCustomMessage message triggerTurn deliverAs)
  | .clearQueue => some s.clearQueue
  | .setSteeringMode mode => some { s with steeringQueue.mode := mode }
  | .setFollowUpMode mode => some { s with followUpQueue.mode := mode }
  | .agentPrompt k customs => s.agentPrompt k customs
  | .agentContinue lastIsAssistant => some (s.agentContinue lastIsAssistant)
  | .getSteeringMessages => if s.polls then some s.getSteeringMessages else none
  | .getFollowUpMessages => if s.polls then some s.getFollowUpMessages else none
  | .messageStart =>
    match s.pendingMessages with
    | [] => none
    | a :: rest =>
      some { s with pendingMessages := rest, agentEventQueue := s.agentEventQueue ++ [a] }
  | .agentEnd => if s.polls then some { s with isStreaming := false } else none
  | .runFailure =>
    if s.isStreaming then some { s with isStreaming := false, pendingMessages := [] } else none
  | .processAgentEvent =>
    match s.agentEventQueue with
    | [] => none
    | a :: rest => some ({ s with agentEventQueue := rest }.processAgentEvent a.message)

end

end AcademicAgent
