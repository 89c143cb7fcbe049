import AcademicAgent.Agent.AgentLoop

/-!
# What a step of the loop can do

The steps of the loop as a relation, one case for each thing that can happen, and
the events that are emitted and still to be emitted as one script.
-/

namespace AcademicAgent

open Option

open LlmMessage (assistant)

variable {μ : Type} [LlmMessage μ]

variable {config : LoopConfig} {input : LoopInput μ}

/-- The inputs after which no more events of the stream are read. -/
def LoopInput.ClosesStream : LoopInput μ → Prop
  | .streamEnded | .streamEvent (.done _) | .streamEvent (.error _) => True
  | _ => False

/-- The inputs that can end the loop with an error, besides an event not received. -/
def LoopInput.FailsLoop : LoopInput μ → Prop
  | .threw _ | .poolRejected _ | .executed _ => True
  | _ => False

inductive Advance (config : LoopConfig) (s : LoopState μ) : LoopInput μ → LoopState μ → Prop
  | turnEntered {messages : List μ} (hpc : s.pc = .pollSteering)
      (hmore : s.hasMoreToolCalls = true ∨ messages ≠ []) :
      Advance config s (.polled messages) (s.enterTurn messages)
  | nothingSteered (hpc : s.pc = .pollSteering) (hmore : s.hasMoreToolCalls = false) :
      Advance config s (.polled []) { s with pc := .pollFollowUp }
  | followedUp {messages : List μ} (hpc : s.pc = .pollFollowUp) (hne : messages ≠ []) :
      Advance config s (.polled messages)
        ({ s with hasMoreToolCalls := true }.enterTurn messages)
  | nothingFollowed (hpc : s.pc = .pollFollowUp) : Advance config s (.polled []) (s.endRun [])
  | called (hpc : s.pc = .callModel) :
      Advance config s .called { s with pc := .streaming false }
  | streamStarted {addedPartial : Bool} {partialMessage : AssistantMessage}
      (hpc : s.pc = .streaming addedPartial) :
      Advance config s (.streamEvent (.start partialMessage)) { s with
        context := s.context ++ [assistant partialMessage]
        todo := [.emit (.messageStart (assistant partialMessage))]
        pc := .streaming true }
  | streamUpdated {kind : UpdateKind} {index : Nat} {partialMessage : AssistantMessage}
      (hpc : s.pc = .streaming true) :
      Advance config s (.streamEvent (.update kind index partialMessage)) { s with
        context := s.putAssistant true partialMessage
        todo := [.emit (.messageUpdate (assistant partialMessage)
          (.update kind index partialMessage))] }
  | updateIgnored {kind : UpdateKind} {index : Nat} {partialMessage : AssistantMessage}
      (hpc : s.pc = .streaming false) :
      Advance config s (.streamEvent (.update kind index partialMessage)) s
  | streamClosed {input : LoopInput μ} {addedPartial : Bool}
      (hpc : s.pc = .streaming addedPartial) (hinput : input.ClosesStream) :
      Advance config s input { s with pc := .awaitingResult addedPartial }
  | responded {addedPartial : Bool} {message : AssistantMessage}
      (hpc : s.pc = .awaitingResult addedPartial) :
      Advance config s (.streamResult message) { s with
        context := s.putAssistant addedPartial message
        todo := (if addedPartial then [] else
            [.emit (.messageStart (assistant message))]) ++
          [.emit (.messageEnd (assistant message))]
        pc := .responded message }
  | turnFailed {now : Int} {message : AssistantMessage} (hpc : s.pc = .responded message)
      (hstop : message.stopReason = .error ∨ message.stopReason = .aborted) :
      Advance config s (.resumed now)
        ({ s with newMessages := s.newMessages ++ [assistant message] }.endRun
          [.emit (.turnEnd message [])])
  | turnWithoutCalls {now : Int} {message : AssistantMessage} (hpc : s.pc = .responded message)
      (hnone : message.toolCalls = []) :
      Advance config s (.resumed now) { s with
        newMessages := s.newMessages ++ [assistant message]
        hasMoreToolCalls := false
        todo := [.emit (.turnEnd message [])]
        pc := .turnEnded message [] }
  | batchStarted {now : Int} {message : AssistantMessage} (hpc : s.pc = .responded message)
      (hstop : ¬ (message.stopReason = .error ∨ message.stopReason = .aborted)) :
      Advance config s (.resumed now) { s with
        newMessages := s.newMessages ++ [assistant message]
        pc := .nextCall {
          message
          mode := executionMode config message.toolCalls
          rest := message.toolCalls } }
  | callStarted {now : Int} {batch : Batch} {toolCall : ToolCall} {rest : List ToolCall}
      (hpc : s.pc = .nextCall batch) (hrest : batch.rest = toolCall :: rest) :
      Advance config s (.resumed now) { s with
        todo := [.emit (toolExecutionStart toolCall)]
        pc := .preparing { batch with rest } toolCall }
  | settledAtOnce {args : Outcome Json} {before : Outcome (Option BeforeToolCallResult)}
      {batch : Batch} {toolCall : ToolCall} {result : AgentToolResult} {isError : Bool}
      (hpc : s.pc = .preparing batch toolCall)
      (hprepared : prepareToolCall config.tools toolCall args before =
        .immediate result isError) :
      Advance config s (.prepared args before) (s.settle batch ⟨toolCall, result, isError⟩)
  | executionStarted {args : Outcome Json} {before : Outcome (Option BeforeToolCallResult)}
      {batch : Batch} {toolCall : ToolCall} {validatedArgs : Json}
      (hpc : s.pc = .preparing batch toolCall)
      (hprepared : prepareToolCall config.tools toolCall args before = .prepared validatedArgs)
      (hmode : batch.mode = .sequential) :
      Advance config s (.prepared args before) { s with
        executions := s.executions ++ [{ toolCall }]
        pc := .executing batch toolCall s.executions.length }
  | entryAdded {args : Outcome Json} {before : Outcome (Option BeforeToolCallResult)}
      {batch : Batch} {toolCall : ToolCall} {validatedArgs : Json}
      (hpc : s.pc = .preparing batch toolCall)
      (hprepared : prepareToolCall config.tools toolCall args before = .prepared validatedArgs)
      (hmode : batch.mode = .parallel) :
      Advance config s (.prepared args before) { s with pc := .nextCall { batch with
        entries := batch.entries ++ [.waiting toolCall] } }
  | executed {result : Outcome AgentToolResult} {batch : Batch} {toolCall : ToolCall}
      {execution : Nat} (hpc : s.pc = .executing batch toolCall execution) :
      Advance config s (.executed result)
        { s with pc := .finalizing batch toolCall (executePreparedToolCall result) }
  | finalized {after : Outcome (Option AfterToolCallResult)} {batch : Batch}
      {toolCall : ToolCall} {executed : ExecutedToolCallOutcome}
      (hpc : s.pc = .finalizing batch toolCall executed) :
      Advance config s (.finalized after)
        (s.settle batch (finalizeExecutedToolCall toolCall executed after))
  | poolStarted {now : Int} {batch : Batch} (hpc : s.pc = .nextCall batch)
      (hrest : batch.rest = []) (hmode : batch.mode = .parallel) :
      Advance config s (.resumed now) { s with
        executions := s.executions ++ batch.entries.filterMap BatchEntry.execution?
        pool := startEntries s.executions.length batch.entries
        pc := .awaitingPool batch }
  | poolSettled {now : Int} {batch : Batch} {finalizedCalls : List FinalizedToolCallOutcome}
      (hpc : s.pc = .awaitingPool batch)
      (hpool : s.pool.mapM Entry.finalized? = some finalizedCalls) :
      Advance config s (.resumed now)
        { s with pc := .results { batch with finalizedCalls } finalizedCalls }
  | resultReported {now : Int} {batch : Batch} {finalized : FinalizedToolCallOutcome}
      {finalizedCalls : List FinalizedToolCallOutcome}
      (hpc : s.pc = .results batch (finalized :: finalizedCalls)) :
      Advance config s (.resumed now) { s with
        todo := messageEvents (LlmMessage.toolResult (createToolResultMessage finalized now))
        pc := .results { batch with
          messages := batch.messages ++ [createToolResultMessage finalized now] }
          finalizedCalls }
  | callDone {now : Int} {batch : Batch} (hpc : s.pc = .results batch [])
      (hmode : batch.mode = .sequential) :
      Advance config s (.resumed now) { s with pc := .nextCall batch }
  | batchFinished {now : Int} {batch : Batch}
      (hpc : (s.pc = .nextCall batch ∧ batch.rest = [] ∧ batch.mode = .sequential) ∨
        (s.pc = .results batch [] ∧ batch.mode = .parallel)) :
      Advance config s (.resumed now) (s.finishBatch batch)
  | stopped {message : AssistantMessage} {toolResults : List ToolResultMessage}
      (hpc : s.pc = .turnEnded message toolResults) :
      Advance config s (.shouldStop true) (s.endRun [])
  | goesOn {message : AssistantMessage} {toolResults : List ToolResultMessage}
      (hpc : s.pc = .turnEnded message toolResults) :
      Advance config s (.shouldStop false) { s with pc := .pollSteering }
  | threw {input : LoopInput μ} {error : JsString} (hinput : input.FailsLoop) :
      Advance config s input { s with pc := .thrown error }

theorem Advance.of_stepMain {s t : LoopState μ} (h : stepMain config s input = some t) :
    Advance config s input t := by
  cases input with
  | polled messages =>
    simp only [stepMain] at h
    split at h
    · rename_i hpc
      split at h
      · rename_i hmore
        cases h
        exact .turnEntered hpc hmore
      · rename_i hmore
        obtain ⟨hmore, hnone⟩ := not_or.mp hmore
        cases h
        rw [not_ne_iff.mp hnone]
        exact .nothingSteered hpc (Bool.eq_false_iff.mpr hmore)
    · rename_i hpc
      split at h
      · rename_i hne
        cases h
        exact .followedUp hpc hne
      · rename_i hnone
        cases h
        rw [not_ne_iff.mp hnone]
        exact .nothingFollowed hpc
    · cases h
  | called =>
    simp only [stepMain] at h
    split at h
    · rename_i hpc
      cases h
      exact .called hpc
    · cases h
  | streamEvent event =>
    simp only [stepMain] at h
    split at h
    · rename_i addedPartial hpc
      cases event with
      | start partialMessage =>
        cases h
        exact .streamStarted hpc
      | update kind index partialMessage =>
        cases addedPartial with
        | true =>
          cases h
          exact .streamUpdated hpc
        | false =>
          cases h
          exact .updateIgnored hpc
      | done message | error error =>
        cases h
        exact .streamClosed hpc trivial
    · cases h
  | streamEnded =>
    simp only [stepMain] at h
    split at h
    · rename_i hpc
      cases h
      exact .streamClosed hpc trivial
    · cases h
  | streamResult message =>
    simp only [stepMain] at h
    split at h
    · rename_i hpc
      cases h
      exact .responded hpc
    · cases h
  | prepared args before =>
    simp only [stepMain] at h
    split at h
    · rename_i hpc
      split at h
      · rename_i hprepared
        cases h
        exact .settledAtOnce hpc hprepared
      · rename_i hprepared
        split at h
        · rename_i hmode
          cases h
          exact .executionStarted hpc hprepared hmode
        · rename_i hmode
          cases h
          exact .entryAdded hpc hprepared hmode
    · cases h
  | executed result =>
    simp only [stepMain] at h
    split at h
    · rename_i hpc
      split at h
      · cases h
        exact .threw trivial
      · cases h
        exact .executed hpc
    · cases h
  | finalized after =>
    simp only [stepMain] at h
    split at h
    · rename_i hpc
      cases h
      exact .finalized hpc
    · cases h
  | shouldStop stop =>
    simp only [stepMain] at h
    split at h
    · rename_i hpc
      cases stop with
      | true =>
        cases h
        exact .stopped hpc
      | false =>
        cases h
        exact .goesOn hpc
    · cases h
  | threw error =>
    simp only [stepMain] at h
    split at h <;> cases h <;> exact .threw trivial
  | poolRejected index =>
    simp only [stepMain] at h
    split at h <;> cases h
    exact .threw trivial
  | resumed now =>
    simp only [stepMain] at h
    split at h
    · rename_i message hpc
      split at h
      · rename_i hstop
        cases h
        exact .turnFailed hpc hstop
      · rename_i hstop
        split at h
        · rename_i hnone
          cases h
          exact .turnWithoutCalls hpc hnone
        · cases h
          exact .batchStarted hpc hstop
    · rename_i hpc
      split at h
      · rename_i hrest
        cases h
        exact .callStarted hpc hrest
      · rename_i hrest
        split at h
        · rename_i hmode
          cases h
          exact .batchFinished (.inl ⟨hpc, hrest, hmode⟩)
        · rename_i hmode
          cases h
          exact .poolStarted hpc hrest hmode
    · rename_i hpc
      split at h
      · rename_i hpool
        cases h
        exact .poolSettled hpc hpool
      · cases h
    · rename_i hpc
      cases h
      exact .resultReported hpc
    · rename_i hpc
      split at h
      · rename_i hmode
        cases h
        exact .callDone hpc hmode
      · rename_i hmode
        cases h
        exact .batchFinished (.inr ⟨hpc, hmode⟩)
    · cases h
  | received sink => cases h
  | entry index input => cases h
  | toolUpdate index partialResult sink => cases h

/-- A step of an entry of the pool, by what happens. -/
inductive EntryStep : Entry → EntryInput → Entry → List (AgentEvent μ) → Prop
  | executed {toolCall : ToolCall} {execution : Nat} {result : Outcome AgentToolResult} :
      EntryStep (.executing toolCall execution) (.executed result)
        (.finalizing toolCall (executePreparedToolCall result)) []
  | updateNotReceived {toolCall : ToolCall} {execution : Nat} {result : Outcome AgentToolResult}
      {error : JsString} :
      EntryStep (.executing toolCall execution) (.executed result) (.rejected toolCall error) []
  | finalized {toolCall : ToolCall} {executed : ExecutedToolCallOutcome}
      {after : Outcome (Option AfterToolCallResult)} :
      EntryStep (.finalizing toolCall executed) (.finalized after (.ok ()))
        (.settled (finalizeExecutedToolCall toolCall executed after))
        [toolExecutionEnd (finalizeExecutedToolCall toolCall executed after)]
  | endNotReceived {toolCall : ToolCall} {executed : ExecutedToolCallOutcome}
      {after : Outcome (Option AfterToolCallResult)} {error : JsString} :
      EntryStep (.finalizing toolCall executed) (.finalized after (.error error))
        (.rejected toolCall error)
        [toolExecutionEnd (finalizeExecutedToolCall toolCall executed after)]

omit [LlmMessage μ] in
theorem EntryStep.of_stepEntry {executions : List Execution} {entry entry' : Entry}
    {input : EntryInput} {events : List (AgentEvent μ)}
    (h : stepEntry executions entry input = some (entry', events)) :
    EntryStep entry input entry' events := by
  unfold stepEntry at h
  split at h
  · split at h
    · cases h
      exact .updateNotReceived
    · cases h
      exact .executed
  · split at h
    · cases h
      exact .finalized
    · cases h
      exact .endNotReceived
  · cases h

inductive LoopStep (config : LoopConfig) (s : LoopState μ) :
    LoopInput μ → LoopState μ → List (AgentEvent μ) → Prop
  | updated {index : Nat} {partialResult : AgentToolResult} {sink : Outcome Unit}
      {execution : Execution} {executions : List Execution} :
      LoopStep config s (.toolUpdate index partialResult sink) { s with executions }
        [.toolExecutionUpdate execution.toolCall.id execution.toolCall.name
          execution.toolCall.arguments partialResult]
  | entry {index : Nat} {input : EntryInput} {entry entry' : Entry} {events : List (AgentEvent μ)}
      (hentry : s.pool[index]? = some entry) (hstep : EntryStep entry input entry' events) :
      LoopStep config s (.entry index input) { s with pool := s.pool.set index entry' } events
  | received {event : AgentEvent μ} {todo : List (Statement μ)}
      (htodo : s.todo = .emit event :: todo) :
      LoopStep config s (.received (.ok ())) { s with todo } [event]
  | notReceived {event : AgentEvent μ} {todo : List (Statement μ)} {error : JsString}
      (htodo : s.todo = .emit event :: todo) :
      LoopStep config s (.received (.error error)) { s with todo := [], pc := .thrown error }
        [event]
  | pushed {now : Int} {message : μ} {todo : List (Statement μ)}
      (htodo : s.todo = .push message :: todo) :
      LoopStep config s (.resumed now) { s with
        context := s.context ++ [message]
        newMessages := s.newMessages ++ [message]
        todo } []
  | advanced {input : LoopInput μ} {t : LoopState μ} (htodo : s.todo = [])
      (hadvance : Advance config s input t) : LoopStep config s input t []

theorem LoopStep.of_stepLoop {s t : LoopState μ} {events : List (AgentEvent μ)}
    (h : stepLoop config s input = some (t, events)) : LoopStep config s input t events := by
  unfold stepLoop at h
  split at h
  · obtain ⟨execution, -, h⟩ := bind_eq_some_iff.mp h
    cases h
    exact .updated
  · obtain ⟨entry, hentry, h⟩ := bind_eq_some_iff.mp h
    obtain ⟨⟨entry', events'⟩, hstep, h⟩ := bind_eq_some_iff.mp h
    cases h
    exact .entry hentry (.of_stepEntry hstep)
  · split at h
    · rename_i htodo
      cases h
      exact .received htodo
    · rename_i htodo
      cases h
      exact .notReceived htodo
    · cases h
  · split at h
    · rename_i htodo
      cases h
      exact .pushed htodo
    · cases h
    · rename_i htodo
      obtain ⟨t', ht, h⟩ := map_eq_some_iff.mp h
      cases h
      exact .advanced htodo (.of_stepMain ht)
  · split at h
    · rename_i htodo
      obtain ⟨t', ht, h⟩ := map_eq_some_iff.mp h
      cases h
      exact .advanced htodo (.of_stepMain ht)
    · cases h

structure Traced (μ : Type) where
  state : LoopState μ
  trace : List (AgentEvent μ) := []
  deriving DecidableEq

def stepTraced (config : LoopConfig) (s : Traced μ) (input : LoopInput μ) : Option (Traced μ) :=
  (stepLoop config s.state input).map fun (t, events) => ⟨t, s.trace ++ events⟩

theorem LoopStep.of_stepTraced {s t : Traced μ} (h : stepTraced config s input = some t) :
    ∃ events, LoopStep config s.state input t.state events ∧ t.trace = s.trace ++ events := by
  obtain ⟨⟨t', events⟩, hstep, rfl⟩ := map_eq_some_iff.mp h
  exact ⟨events, .of_stepLoop hstep, rfl⟩

def Statement.event? : Statement μ → Option (AgentEvent μ)
  | .emit event => some event
  | .push _ => none

def Statement.pushed? : Statement μ → Option μ
  | .emit _ => none
  | .push message => some message

end AcademicAgent
