import AcademicAgent.Ai.Types
import AcademicAgent.Core.Run

/-!
# Tool calls

Tools and the events of the agent loop; a call is prepared, executed and finalized.
-/

namespace AcademicAgent

/-- A transcript's messages contain those of the model API. -/
class LlmMessage (μ : Type) where
  /-- The transcript message of an assistant message. -/
  assistant : AssistantMessage → μ
  /-- The transcript message of a tool result. -/
  toolResult : ToolResultMessage → μ
  /-- `message.role === "assistant"`. -/
  isAssistant : μ → Bool
  /-- An assistant message has the assistant's role. -/
  isAssistant_assistant : ∀ m, isAssistant (assistant m) = true

/-- A transcript without messages of an application. -/
instance : LlmMessage Message where
  assistant := .assistant
  toolResult := .toolResult
  isAssistant
    | .assistant _ => true
    | _ => false
  isAssistant_assistant _ := rfl

/-- How the tool calls of one assistant message are executed. -/
inductive ToolExecutionMode where
  | sequential
  | parallel
  deriving DecidableEq

structure AgentTool where
  name : JsString
  executionMode : Option ToolExecutionMode := none

/-- Final or intermediate result produced by a tool. -/
structure AgentToolResult where
  content : List ContentBlock
  details : Option Json
  terminate : Option Bool := none
  deriving DecidableEq

/-- Result returned from `beforeToolCall`. -/
structure BeforeToolCallResult where
  block : Option Bool := none
  reason : Option JsString := none

/-- Override returned from `afterToolCall`, field by field. -/
structure AfterToolCallResult where
  content : Option (List ContentBlock) := none
  details : Option Json := none
  isError : Option Bool := none
  terminate : Option Bool := none

/-- An event of the agent, for user interfaces and the agent's own state. -/
inductive AgentEvent (μ : Type) where
  | agentStart
  | agentEnd (messages : List μ)
  | turnStart
  | turnEnd (message : AssistantMessage) (toolResults : List ToolResultMessage)
  | messageStart (message : μ)
  | messageUpdate (message : μ) (assistantMessageEvent : AssistantMessageEvent)
  | messageEnd (message : μ)
  | toolExecutionStart (toolCallId toolName : JsString) (args : Json)
  | toolExecutionUpdate (toolCallId toolName : JsString) (args : Json)
      (partialResult : AgentToolResult)
  | toolExecutionEnd (toolCallId toolName : JsString) (result : AgentToolResult) (isError : Bool)
  deriving DecidableEq

namespace AgentEvent

variable {μ : Type}

/-- The message of a `message_end` event. -/
def ended? : AgentEvent μ → Option μ
  | .messageEnd message => some message
  | _ => none

/-- A `tool_execution_update` event. -/
def isToolUpdate : AgentEvent μ → Bool
  | .toolExecutionUpdate .. => true
  | _ => false

end AgentEvent

/-- What a callback does: it returns a value, or throws an error with a text. -/
abbrev Outcome (α : Type) := Except JsString α

/-- A call that is ready to execute, or settled without execution. -/
inductive ToolPreparation where
  | prepared (args : Json)
  | immediate (result : AgentToolResult) (isError : Bool)

structure ExecutedToolCallOutcome where
  result : AgentToolResult
  isError : Bool
  deriving DecidableEq

structure FinalizedToolCallOutcome where
  toolCall : ToolCall
  result : AgentToolResult
  isError : Bool
  deriving DecidableEq

def createErrorToolResult (message : JsString) : AgentToolResult where
  content := [.text { text := message }]
  details := some .emptyObject

/-- `args` is what preparing and validating the arguments makes of them, and
`before` what the `beforeToolCall` hook does; a hook that is not there returns
nothing. -/
def prepareToolCall (tools : List AgentTool) (toolCall : ToolCall) (args : Outcome Json)
    (before : Outcome (Option BeforeToolCallResult)) : ToolPreparation :=
  match tools.find? fun t => t.name = toolCall.name with
  | none =>
    .immediate (createErrorToolResult (js "Tool " ++ toolCall.name ++ js " not found")) true
  | some _ =>
    match args with
    | .error message => .immediate (createErrorToolResult message) true
    | .ok validatedArgs =>
      match before with
      | .error message => .immediate (createErrorToolResult message) true
      | .ok beforeResult =>
        if (beforeResult.bind (·.block)) = some true then
          .immediate (createErrorToolResult ((nonEmpty (beforeResult.bind (·.reason))).getD
            (js "Tool execution was blocked"))) true
        else .prepared validatedArgs

def executePreparedToolCall : Outcome AgentToolResult → ExecutedToolCallOutcome
  | .ok result => ⟨result, false⟩
  | .error message => ⟨createErrorToolResult message, true⟩

section

variable (toolCall : ToolCall) (executed : ExecutedToolCallOutcome)
  (after : Outcome (Option AfterToolCallResult))

/-- `after` is what the `afterToolCall` hook does. -/
def finalizeExecutedToolCall : FinalizedToolCallOutcome :=
  match after with
  | .error message => ⟨toolCall, createErrorToolResult message, true⟩
  | .ok none => ⟨toolCall, executed.result, executed.isError⟩
  | .ok (some afterResult) =>
    { toolCall
      result := {
        content := afterResult.content.getD executed.result.content
        details := (afterResult.details.bind Json.notNull).or executed.result.details
        terminate := afterResult.terminate.or executed.result.terminate }
      isError := afterResult.isError.getD executed.isError }

def createToolResultMessage (finalized : FinalizedToolCallOutcome) (now : Int) :
    ToolResultMessage where
  toolCallId := finalized.toolCall.id
  toolName := finalized.toolCall.name
  content := finalized.result.content
  details := finalized.result.details
  isError := finalized.isError
  timestamp := now

/-- A batch ends the run when every result of it asks for that. -/
def shouldTerminateToolBatch (finalizedCalls : List FinalizedToolCallOutcome) : Bool :=
  !finalizedCalls.isEmpty && finalizedCalls.all fun f => f.result.terminate = some true

@[simp] theorem finalizeExecutedToolCall_toolCall :
    (finalizeExecutedToolCall toolCall executed after).toolCall = toolCall := by
  unfold finalizeExecutedToolCall
  split <;> rfl

end

section Events

variable {μ : Type}

def toolExecutionStart (toolCall : ToolCall) : AgentEvent μ :=
  .toolExecutionStart toolCall.id toolCall.name toolCall.arguments

/-- The event that a call ends, `emitToolExecutionEnd`. -/
def toolExecutionEnd (finalized : FinalizedToolCallOutcome) : AgentEvent μ :=
  .toolExecutionEnd finalized.toolCall.id finalized.toolCall.name finalized.result
    finalized.isError

end Events

/-!
# The agent loop

The loop is a state machine that stops at every `await`.
-/

/-- What the loop does next, before it awaits anything else. -/
inductive Statement (μ : Type) where
  /-- `await emit(event)`. -/
  | emit (event : AgentEvent μ)
  /-- `currentContext.messages.push(message); newMessages.push(message)`. -/
  | push (message : μ)
  deriving DecidableEq

/-- An entry of a parallel batch before the executions start: a promise to come or a
settled call. -/
inductive BatchEntry where
  | waiting (toolCall : ToolCall)
  | settled (finalized : FinalizedToolCallOutcome)
  deriving DecidableEq

inductive Entry where
  /-- `execution` is the place of the call among the started executions. -/
  | executing (toolCall : ToolCall) (execution : Nat)
  | finalizing (toolCall : ToolCall) (executed : ExecutedToolCallOutcome)
  | settled (finalized : FinalizedToolCallOutcome)
  | rejected (toolCall : ToolCall) (error : JsString)
  deriving DecidableEq

/-- The tool calls of one assistant message while they are executed. -/
structure Batch where
  message : AssistantMessage
  mode : ToolExecutionMode
  /-- Calls not yet looked at. -/
  rest : List ToolCall
  /-- Entries of a parallel batch so far. -/
  entries : List BatchEntry := []
  finalizedCalls : List FinalizedToolCallOutcome := []
  messages : List ToolResultMessage := []
  deriving DecidableEq

/-- Where the loop stands once the statements before it are done. -/
inductive Pc where
  /-- `await config.getSteeringMessages()`. -/
  | pollSteering
  /-- `await config.getFollowUpMessages()`. -/
  | pollFollowUp
  /-- The transformations of the context and the call of the stream function. -/
  | callModel
  /-- The next event of the stream; a partial message may stand in the context. -/
  | streaming (addedPartial : Bool)
  /-- `await response.result()`. -/
  | awaitingResult (addedPartial : Bool)
  /-- `streamAssistantResponse` has returned. -/
  | responded (message : AssistantMessage)
  /-- The next call of a batch. -/
  | nextCall (batch : Batch)
  | preparing (batch : Batch) (toolCall : ToolCall)
  | executing (batch : Batch) (toolCall : ToolCall) (execution : Nat)
  | finalizing (batch : Batch) (toolCall : ToolCall) (executed : ExecutedToolCallOutcome)
  /-- `await Promise.all(…)` of a parallel batch. -/
  | awaitingPool (batch : Batch)
  /-- The results not yet reported, of one call or of a parallel batch. -/
  | results (batch : Batch) (finalizedCalls : List FinalizedToolCallOutcome)
  /-- `await config.shouldStopAfterTurn(…)`. -/
  | turnEnded (message : AssistantMessage) (toolResults : List ToolResultMessage)
  | returned
  | thrown (error : JsString)
  deriving DecidableEq

/-- A started execution, with the error of its first update that was not received. -/
structure Execution where
  toolCall : ToolCall
  updateError : Option JsString := none
  deriving DecidableEq

structure LoopState (μ : Type) where
  /-- `currentContext.messages`. -/
  context : List μ
  newMessages : List μ
  firstTurn : Bool := true
  hasMoreToolCalls : Bool := true
  todo : List (Statement μ)
  pc : Pc := .pollSteering
  executions : List Execution := []
  pool : List Entry := []
  deriving DecidableEq

structure LoopConfig where
  tools : List AgentTool
  toolExecution : Option ToolExecutionMode := none

/-- What happened at an entry of the pool. The end of a call is reported when it is
finalized. -/
inductive EntryInput where
  | executed (result : Outcome AgentToolResult)
  | finalized (after : Outcome (Option AfterToolCallResult)) (sink : Outcome Unit)

inductive LoopInput (μ : Type) where
  /-- The sink received the event, or threw. -/
  | received (sink : Outcome Unit)
  /-- Nothing but the loop itself; `now` is the clock. -/
  | resumed (now : Int)
  | polled (messages : List μ)
  /-- The stream function returned a stream. -/
  | called
  | streamEvent (event : AssistantMessageEvent)
  /-- The stream ended without `done` or `error`. -/
  | streamEnded
  | streamResult (message : AssistantMessage)
  | prepared (args : Outcome Json) (before : Outcome (Option BeforeToolCallResult))
  | executed (result : Outcome AgentToolResult)
  | finalized (after : Outcome (Option AfterToolCallResult))
  | shouldStop (stop : Bool)
  /-- A callback of the configuration or the stream threw. -/
  | threw (error : JsString)
  /-- An entry of the pool made progress. -/
  | entry (index : Nat) (input : EntryInput)
  /-- The entry of the pool that rejected first is the one at `index`. -/
  | poolRejected (index : Nat)
  /-- A tool reported an update. -/
  | toolUpdate (execution : Nat) (partialResult : AgentToolResult) (sink : Outcome Unit)

section Steps

variable {μ : Type} [LlmMessage μ]

/-- The events of a message that is there at once. -/
def messageEvents (message : μ) : List (Statement μ) :=
  [.emit (.messageStart message), .emit (.messageEnd message)]

/-- `runAgentLoop`, before its first `await`. -/
def runAgentLoop (prompts context : List μ) : LoopState μ where
  context := context ++ prompts
  newMessages := prompts
  todo := [.emit .agentStart, .emit .turnStart] ++ prompts.flatMap messageEvents

/-- `runAgentLoopContinue`, before its first `await`. -/
def runAgentLoopContinue (context : List μ) : Outcome (LoopState μ) :=
  match context.getLast? with
  | none => .error (js "Cannot continue: no messages in context")
  | some message =>
    if LlmMessage.isAssistant message then
      .error (js "Cannot continue from message role: assistant")
    else .ok { context, newMessages := [], todo := [.emit .agentStart, .emit .turnStart] }

namespace LoopState

variable (s : LoopState μ)

/-- The start of a turn: the pending messages are injected and the model is called. -/
def enterTurn (pendingMessages : List μ) : LoopState μ :=
  { s with
    firstTurn := false
    todo := (if s.firstTurn then [] else [.emit .turnStart]) ++
      pendingMessages.flatMap fun message => messageEvents message ++ [.push message]
    pc := .callModel }

/-- The end of the run: `await emit({ type: "agent_end", messages: newMessages })`. -/
def endRun (todo : List (Statement μ)) : LoopState μ :=
  { s with todo := todo ++ [.emit (.agentEnd s.newMessages)], pc := .returned }

/-- The context with its last message replaced, if that is a partial message. -/
def putAssistant (addedPartial : Bool) (message : AssistantMessage) : List μ :=
  (if addedPartial then s.context.dropLast else s.context) ++ [LlmMessage.assistant message]

/-- A settled batch: its results are appended and the turn ends. -/
def finishBatch (batch : Batch) : LoopState μ :=
  { s with
    context := s.context ++ batch.messages.map LlmMessage.toolResult
    newMessages := s.newMessages ++ batch.messages.map LlmMessage.toolResult
    hasMoreToolCalls := !shouldTerminateToolBatch batch.finalizedCalls
    todo := [.emit (.turnEnd batch.message batch.messages)]
    pc := .turnEnded batch.message batch.messages }

/-- A call of a batch is settled: its end is reported, and in a sequential batch also
its result. -/
def settle (batch : Batch) (finalized : FinalizedToolCallOutcome) : LoopState μ :=
  { s with
    todo := [.emit (toolExecutionEnd finalized)]
    pc :=
      match batch.mode with
      | .sequential =>
        .results { batch with finalizedCalls := batch.finalizedCalls ++ [finalized] } [finalized]
      | .parallel => .nextCall { batch with entries := batch.entries ++ [.settled finalized] } }

end LoopState

def executionMode (config : LoopConfig) (toolCalls : List ToolCall) : ToolExecutionMode :=
  if config.toolExecution = some .sequential ∨ toolCalls.any fun tc =>
      ((config.tools.find? fun t => t.name = tc.name).bind (·.executionMode)) =
        some .sequential then
    .sequential
  else .parallel

def BatchEntry.execution? : BatchEntry → Option Execution
  | .waiting toolCall => some { toolCall }
  | .settled _ => none

/-- The pool of a batch: the executions start together, in the order of the calls. -/
def startEntries (execution : Nat) : List BatchEntry → List Entry
  | [] => []
  | .waiting toolCall :: entries =>
    .executing toolCall execution :: startEntries (execution + 1) entries
  | .settled finalized :: entries => .settled finalized :: startEntries execution entries

/-- The finalized call of an entry that is settled. -/
def Entry.finalized? : Entry → Option FinalizedToolCallOutcome
  | .settled finalized => some finalized
  | _ => none

/-- One step of the loop itself, with nothing left to do before it. -/
def stepMain (config : LoopConfig) (s : LoopState μ) : LoopInput μ → Option (LoopState μ)
  | .polled messages =>
    match s.pc with
    | .pollSteering =>
      if s.hasMoreToolCalls ∨ messages ≠ [] then some (s.enterTurn messages)
      else some { s with pc := .pollFollowUp }
    | .pollFollowUp =>
      if messages ≠ [] then some ({ s with hasMoreToolCalls := true }.enterTurn messages)
      else some (s.endRun [])
    | _ => none
  | .called =>
    match s.pc with
    | .callModel => some { s with pc := .streaming false }
    | _ => none
  | .streamEvent event =>
    match s.pc with
    | .streaming addedPartial =>
      match event with
      | .start partialMessage =>
        some { s with
          context := s.context ++ [LlmMessage.assistant partialMessage]
          todo := [.emit (.messageStart (LlmMessage.assistant partialMessage))]
          pc := .streaming true }
      | .update _ _ partialMessage =>
        if addedPartial then
          some { s with
            context := s.putAssistant true partialMessage
            todo := [.emit (.messageUpdate (LlmMessage.assistant partialMessage) event)] }
        else some s
      | .done _ | .error _ => some { s with pc := .awaitingResult addedPartial }
    | _ => none
  | .streamEnded =>
    match s.pc with
    | .streaming addedPartial => some { s with pc := .awaitingResult addedPartial }
    | _ => none
  | .streamResult message =>
    match s.pc with
    | .awaitingResult addedPartial =>
      some { s with
        context := s.putAssistant addedPartial message
        todo := (if addedPartial then [] else
            [.emit (.messageStart (LlmMessage.assistant message))]) ++
          [.emit (.messageEnd (LlmMessage.assistant message))]
        pc := .responded message }
    | _ => none
  | .prepared args before =>
    match s.pc with
    | .preparing batch toolCall =>
      match prepareToolCall config.tools toolCall args before with
      | .immediate result isError => some (s.settle batch ⟨toolCall, result, isError⟩)
      | .prepared _ =>
        match batch.mode with
        | .sequential =>
          some { s with
            executions := s.executions ++ [{ toolCall }]
            pc := .executing batch toolCall s.executions.length }
        | .parallel =>
          some { s with pc := .nextCall { batch with
            entries := batch.entries ++ [.waiting toolCall] } }
    | _ => none
  | .executed result =>
    match s.pc with
    | .executing batch toolCall execution =>
      match (s.executions[execution]?).bind (·.updateError) with
      | some error => some { s with pc := .thrown error }
      | none => some { s with pc := .finalizing batch toolCall (executePreparedToolCall result) }
    | _ => none
  | .finalized after =>
    match s.pc with
    | .finalizing batch toolCall executed =>
      some (s.settle batch (finalizeExecutedToolCall toolCall executed after))
    | _ => none
  | .shouldStop stop =>
    match s.pc with
    | .turnEnded _ _ => some (if stop then s.endRun [] else { s with pc := .pollSteering })
    | _ => none
  | .threw error =>
    match s.pc with
    | .pollSteering | .pollFollowUp | .callModel | .streaming _ | .awaitingResult _
    | .turnEnded _ _ => some { s with pc := .thrown error }
    | _ => none
  | .poolRejected index =>
    match s.pc, s.pool[index]? with
    | .awaitingPool _, some (.rejected _ error) => some { s with pc := .thrown error }
    | _, _ => none
  | .resumed now =>
    match s.pc with
    | .responded message =>
      let s := { s with newMessages := s.newMessages ++ [LlmMessage.assistant message] }
      if message.stopReason = .error ∨ message.stopReason = .aborted then
        some (s.endRun [.emit (.turnEnd message [])])
      else if message.toolCalls = [] then
        some { s with
          hasMoreToolCalls := false
          todo := [.emit (.turnEnd message [])]
          pc := .turnEnded message [] }
      else
        some { s with pc := .nextCall {
          message
          mode := executionMode config message.toolCalls
          rest := message.toolCalls } }
    | .nextCall batch =>
      match batch.rest with
      | toolCall :: rest =>
        some { s with
          todo := [.emit (toolExecutionStart toolCall)]
          pc := .preparing { batch with rest } toolCall }
      | [] =>
        match batch.mode with
        | .sequential => some (s.finishBatch batch)
        | .parallel =>
          some { s with
            executions := s.executions ++ batch.entries.filterMap BatchEntry.execution?
            pool := startEntries s.executions.length batch.entries
            pc := .awaitingPool batch }
    | .awaitingPool batch =>
      match s.pool.mapM Entry.finalized? with
      | some finalizedCalls =>
        some { s with pc := .results { batch with finalizedCalls } finalizedCalls }
      | none => none
    | .results batch (finalized :: finalizedCalls) =>
      let toolResultMessage := createToolResultMessage finalized now
      some { s with
        todo := messageEvents (LlmMessage.toolResult toolResultMessage)
        pc := .results { batch with messages := batch.messages ++ [toolResultMessage] }
          finalizedCalls }
    | .results batch [] =>
      match batch.mode with
      | .sequential => some { s with pc := .nextCall batch }
      | .parallel => some (s.finishBatch batch)
    | _ => none
  | .received _ | .entry _ _ | .toolUpdate _ _ _ => none

/-- One step of an entry of the pool, with the events it emits. -/
def stepEntry (executions : List Execution) : Entry → EntryInput → Option (Entry × List (AgentEvent μ))
  | .executing toolCall execution, .executed result =>
    match (executions[execution]?).bind (·.updateError) with
    | some error => some (.rejected toolCall error, [])
    | none => some (.finalizing toolCall (executePreparedToolCall result), [])
  | .finalizing toolCall executed, .finalized after sink =>
    let finalized := finalizeExecutedToolCall toolCall executed after
    match sink with
    | .ok () => some (.settled finalized, [toolExecutionEnd finalized])
    | .error error => some (.rejected toolCall error, [toolExecutionEnd finalized])
  | _, _ => none

def stepLoop (config : LoopConfig) (s : LoopState μ) :
    LoopInput μ → Option (LoopState μ × List (AgentEvent μ))
  | .toolUpdate index partialResult sink => do
    let execution ← s.executions[index]?
    let updateError := execution.updateError.or (match sink with
      | .ok () => none
      | .error error => some error)
    return ({ s with executions := s.executions.set index { execution with updateError } },
      [.toolExecutionUpdate execution.toolCall.id execution.toolCall.name
        execution.toolCall.arguments partialResult])
  | .entry index input => do
    let entry ← s.pool[index]?
    let (entry, events) ← stepEntry s.executions entry input
    return ({ s with pool := s.pool.set index entry }, events)
  | .received sink =>
    match s.todo, sink with
    | .emit event :: todo, .ok () => some ({ s with todo }, [event])
    | .emit event :: _, .error error => some ({ s with todo := [], pc := .thrown error }, [event])
    | _, _ => none
  | .resumed now =>
    match s.todo with
    | .push message :: todo =>
      some ({ s with
        context := s.context ++ [message]
        newMessages := s.newMessages ++ [message]
        todo }, [])
    | .emit _ :: _ => none
    | [] => (stepMain config s (.resumed now)).map fun t => (t, [])
  | input =>
    match s.todo with
    | [] => (stepMain config s input).map fun t => (t, [])
    | _ :: _ => none

end Steps

end AcademicAgent
