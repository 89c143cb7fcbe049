import AcademicAgent.Agent.LoopSteps
import AcademicAgent.Agent.PendingMessageQueue

/-!
# The agent

The agent owns the transcript and runs the loop on it.
-/

namespace AcademicAgent

open List Option

instance : LlmMessage AgentMessage where
  assistant := .assistant
  toolResult := .toolResult
  isAssistant := AgentMessage.isAssistant
  isAssistant_assistant _ := rfl

structure ActiveRun where
  aborted : Bool := false
  deriving DecidableEq

structure AgentModel where
  api : JsString
  provider : JsString
  id : JsString
  deriving DecidableEq

structure Agent where
  model : AgentModel
  config : LoopConfig
  messages : List AgentMessage := []
  isStreaming : Bool := false
  streamingMessage : Option AgentMessage := none
  /-- The set of ids, in the order they were added. -/
  pendingToolCalls : List JsString := []
  errorMessage : Option JsString := none
  steeringQueue : PendingMessageQueue := {}
  followUpQueue : PendingMessageQueue := {}
  activeRun : Option ActiveRun := none

variable {agent : Agent} {input : LoopInput AgentMessage} {index : Nat}

namespace Agent

variable (agent : Agent)

/-- The state after an event, before the listeners are called. -/
def reduce : AgentEvent AgentMessage → Agent
  | .messageStart message | .messageUpdate message _ =>
    { agent with streamingMessage := some message }
  | .messageEnd message =>
    { agent with streamingMessage := none, messages := agent.messages ++ [message] }
  | .toolExecutionStart toolCallId _ _ =>
    { agent with
      pendingToolCalls := if toolCallId ∈ agent.pendingToolCalls then agent.pendingToolCalls
        else agent.pendingToolCalls ++ [toolCallId] }
  | .toolExecutionEnd toolCallId _ _ _ =>
    { agent with pendingToolCalls := agent.pendingToolCalls.filter (· ≠ toolCallId) }
  | .turnEnd message _ =>
    { agent with errorMessage := (nonEmpty message.errorMessage).or agent.errorMessage }
  | .agentEnd _ => { agent with streamingMessage := none }
  | .agentStart | .turnStart | .toolExecutionUpdate _ _ _ _ => agent

/-- The start of `runWithLifecycle`. -/
def beginRun : Agent :=
  { agent with
    activeRun := some {}
    isStreaming := true
    streamingMessage := none
    errorMessage := none }

/-- `handleRunFailure`, before the listeners are called. -/
def handleRunFailure (error : JsString) (aborted : Bool) (now : Int) : Agent :=
  let failureMessage : AssistantMessage := {
    content := [.text { text := [] }]
    api := agent.model.api
    provider := agent.model.provider
    model := agent.model.id
    usage := EMPTY_USAGE
    stopReason := if aborted then .aborted else .error
    errorMessage := some error
    timestamp := now }
  { agent with
    messages := agent.messages ++ [AgentMessage.assistant failureMessage]
    errorMessage := some error }.reduce (.agentEnd [AgentMessage.assistant failureMessage])

def finishRun : Agent :=
  { agent with
    isStreaming := false
    streamingMessage := none
    pendingToolCalls := []
    activeRun := none }

end Agent

/-- A call of `runWithLifecycle` that has not settled. -/
structure AgentRun where
  loop : LoopState AgentMessage
  skipInitialSteeringPoll : Bool := false
  /-- The listeners are called for the failure of the run. -/
  failing : Bool := false
  /-- The transcript before the run. -/
  before : List AgentMessage

structure SettledRun where
  before : List AgentMessage
  after : List AgentMessage

/-- An agent with the runs in progress, the loops of those that have settled, and
the transcripts of these. -/
structure AgentWorld where
  agent : Agent
  runs : List AgentRun := []
  loops : List (LoopState AgentMessage) := []
  settled : List SettledRun := []

/-- What happens: a call of the agent, or progress of a run. -/
inductive AgentInput where
  | prompt (messages : List AgentMessage)
  | continueRun
  | abort
  | steer (message : AgentMessage)
  | followUp (message : AgentMessage)
  /-- The loop of a run takes a step other than a poll. Its events reach the state before
  the listeners, and what these do is part of the input. -/
  | loop (run : Nat) (input : LoopInput AgentMessage)
  /-- The loop of a run asks for queued messages. -/
  | poll (run : Nat)
  /-- The loop of a run has thrown. -/
  | failed (run : Nat) (now : Int)
  /-- A run is over: its loop has returned, or the listeners have been told of its failure. -/
  | finished (run : Nat)
  /-- A tool of a run that has settled makes progress. -/
  | late (loop : Nat) (input : LoopInput AgentMessage)

/-- What the sink did with the event of an input, if it has one. -/
def LoopInput.sink? : LoopInput AgentMessage → Option (Outcome Unit)
  | .received sink | .toolUpdate _ _ sink | .entry _ (.finalized _ sink) => some sink
  | _ => none

def LoopInput.isPolled : LoopInput AgentMessage → Bool
  | .polled _ => true
  | _ => false

/-- The sink throws: this is what it does without an active run, before it calls a listener. -/
def sinkThrows : Outcome Unit → Bool
  | .ok () => false
  | .error _ => true

/-- Whether an input can happen to a loop of the agent. -/
def Agent.permits (agent : Agent) (input : LoopInput AgentMessage) : Bool :=
  !input.isPolled && (agent.activeRun.isSome || input.sink?.all sinkThrows)

namespace AgentWorld

variable (w : AgentWorld)

/-- `runWithLifecycle`, up to the first `await` of the executor. -/
def runWithLifecycle (loop : LoopState AgentMessage) (skipInitialSteeringPoll : Bool) :
    AgentWorld :=
  { w with
    agent := w.agent.beginRun
    runs := w.runs ++ [{ loop, skipInitialSteeringPoll, before := w.agent.messages }] }

def runPromptMessages (messages : List AgentMessage) (skipInitialSteeringPoll : Bool) :
    AgentWorld :=
  w.runWithLifecycle (runAgentLoop messages w.agent.messages) skipInitialSteeringPoll

def runContinuation : AgentWorld :=
  match runAgentLoopContinue w.agent.messages with
  | .ok loop => w.runWithLifecycle loop false
  | .error error =>
    w.runWithLifecycle { context := [], newMessages := [], todo := [], pc := .thrown error } false

/-- `prompt`, with the input as messages. -/
def prompt (messages : List AgentMessage) : AgentWorld :=
  if w.agent.activeRun.isSome then w else w.runPromptMessages messages false

/-- `continue` with the last message of the assistant. -/
def continueQueued : AgentWorld :=
  let (queuedSteering, steeringQueue) := w.agent.steeringQueue.drain
  let (queuedFollowUps, followUpQueue) := w.agent.followUpQueue.drain
  if queuedSteering ≠ [] then
    { w with agent := { w.agent with steeringQueue } }.runPromptMessages queuedSteering true
  else if queuedFollowUps ≠ [] then
    { w with agent := { w.agent with steeringQueue, followUpQueue } }.runPromptMessages
      queuedFollowUps false
  else { w with agent := { w.agent with steeringQueue, followUpQueue } }

/-- `continue`. -/
def continueRun : AgentWorld :=
  if w.agent.activeRun.isSome then w
  else
    match w.agent.messages.getLast? with
    | none => w
    | some lastMessage =>
      if lastMessage.isAssistant then w.continueQueued else w.runContinuation

/-- The messages that a run is handed when its loop polls, with the agent and the run after it. -/
def poll (run : AgentRun) : Option (List AgentMessage × Agent × AgentRun) :=
  match run.loop.pc with
  | .pollSteering =>
    if run.skipInitialSteeringPoll then
      some ([], w.agent, { run with skipInitialSteeringPoll := false })
    else
      let (messages, steeringQueue) := w.agent.steeringQueue.drain
      some (messages, { w.agent with steeringQueue }, run)
  | .pollFollowUp =>
    let (messages, followUpQueue) := w.agent.followUpQueue.drain
    some (messages, { w.agent with followUpQueue }, run)
  | _ => none

section

variable (index : Nat)

/-- The loop of a run takes a step, and the agent reduces its state by the events. -/
def advance (agent : Agent) (run : AgentRun) (input : LoopInput AgentMessage) :
    Option AgentWorld :=
  (stepLoop agent.config run.loop input).map fun (loop, events) =>
    { w with
      agent := events.foldl Agent.reduce agent
      runs := w.runs.set index { run with loop } }

/-- The run has thrown: the agent is told of the failure. -/
def fail (run : AgentRun) (now : Int) : Option AgentWorld :=
  match run.failing, run.loop.todo, run.loop.pc with
  | false, [], .thrown error =>
    some { w with
      agent := w.agent.handleRunFailure error (w.agent.activeRun.any (·.aborted)) now
      runs := w.runs.set index { run with failing := true } }
  | _, _, _ => none

/-- The run is over, when its loop has returned or the listeners have been told of its failure. -/
def finish (run : AgentRun) : Option AgentWorld :=
  if run.failing = true ∨ run.loop.pc = .returned ∧ run.loop.todo = [] then
    some {
      agent := w.agent.finishRun
      runs := w.runs.eraseIdx index
      loops := w.loops ++ [run.loop]
      settled := w.settled ++ [{ before := run.before, after := w.agent.messages }] }
  else none

/-- A tool of a loop that has ended makes progress. -/
def progress (loop : LoopState AgentMessage) (input : LoopInput AgentMessage) :
    Option AgentWorld :=
  (stepLoop w.agent.config loop input).map fun (loop, events) =>
    { w with
      agent := events.foldl Agent.reduce w.agent
      loops := w.loops.set index loop }

end

def step : AgentInput → Option AgentWorld
  | .prompt messages => some (w.prompt messages)
  | .continueRun => some w.continueRun
  | .abort =>
    some { w with agent := { w.agent with
      activeRun := w.agent.activeRun.map fun _ => { aborted := true } } }
  | .steer message =>
    some { w with agent := { w.agent with
      steeringQueue := w.agent.steeringQueue.enqueue message } }
  | .followUp message =>
    some { w with agent := { w.agent with
      followUpQueue := w.agent.followUpQueue.enqueue message } }
  | .loop index input =>
    (w.runs[index]?.filter fun _ => w.agent.permits input).bind fun run =>
      w.advance index w.agent run input
  | .poll index =>
    w.runs[index]?.bind fun run => (w.poll run).bind fun (messages, agent, run) =>
      w.advance index agent run (.polled messages)
  | .failed index now => w.runs[index]?.bind fun run => w.fail index run now
  | .finished index => w.runs[index]?.bind fun run => w.finish index run
  | .late index input =>
    (w.loops[index]?.filter fun _ => w.agent.permits input).bind fun loop =>
      w.progress index loop input

end AgentWorld

namespace Agent

section

variable (agent : Agent) (event : AgentEvent AgentMessage)

theorem messages_reduce : agent.messages <+: (agent.reduce event).messages := by
  cases event with
  | messageEnd message => exact prefix_append _ _
  | _ => exact prefix_refl _

theorem activeRun_reduce : (agent.reduce event).activeRun = agent.activeRun := by
  cases event <;> rfl

end

theorem foldl_reduce (agent : Agent) (events : List (AgentEvent AgentMessage)) :
    agent.messages <+: (events.foldl reduce agent).messages ∧
      (events.foldl reduce agent).activeRun = agent.activeRun := by
  induction events generalizing agent with
  | nil => exact ⟨prefix_refl _, rfl⟩
  | cons event events ih =>
    obtain ⟨hmessages, hactive⟩ := ih (agent.reduce event)
    exact ⟨(agent.messages_reduce event).trans hmessages,
      hactive.trans (agent.activeRun_reduce event)⟩

structure Idle (agent : Agent) : Prop where
  isStreaming : agent.isStreaming = false
  streamingMessage : agent.streamingMessage = none
  pendingToolCalls : agent.pendingToolCalls = []
  activeRun : agent.activeRun = none

theorem idle_finishRun (agent : Agent) : agent.finishRun.Idle := ⟨rfl, rfl, rfl, rfl⟩

end Agent

/-- An event that a tool can cause after its loop has ended. -/
def AgentEvent.isLate : AgentEvent AgentMessage → Bool
  | .toolExecutionUpdate .. | .toolExecutionEnd .. => true
  | _ => false

theorem Agent.Idle.reduce (h : agent.Idle) {event : AgentEvent AgentMessage}
    (hlate : event.isLate = true) : (agent.reduce event).Idle := by
  cases event with
  | toolExecutionUpdate toolCallId toolName args partialResult => exact h
  | toolExecutionEnd toolCallId toolName result isError =>
    refine ⟨h.isStreaming, h.streamingMessage, ?_, h.activeRun⟩
    rw [Agent.reduce, h.pendingToolCalls]
    rfl
  | _ => cases hlate

theorem Agent.Idle.foldl {agent : Agent} (h : agent.Idle)
    {events : List (AgentEvent AgentMessage)} (hlate : ∀ event ∈ events, event.isLate = true) :
    (events.foldl Agent.reduce agent).Idle := by
  induction events generalizing agent with
  | nil => exact h
  | cons event events ih =>
    obtain ⟨hfirst, hrest⟩ := forall_mem_cons.mp hlate
    exact ih (h.reduce hfirst) hrest

def LoopState.Ended (s : LoopState AgentMessage) : Prop :=
  s.todo = [] ∧ (s.pc = .returned ∨ ∃ error, s.pc = .thrown error)

theorem stepMain_ended {config : LoopConfig} {s : LoopState AgentMessage}
    (h : s.pc = .returned ∨ ∃ error, s.pc = .thrown error) (input : LoopInput AgentMessage) :
    stepMain config s input = none := by
  rcases h with hpc | ⟨error, hpc⟩
  all_goals cases input <;> simp [stepMain, hpc]

theorem LoopState.Ended.step {config : LoopConfig} {s t : LoopState AgentMessage}
    {events : List (AgentEvent AgentMessage)} (h : s.Ended)
    (hstep : stepLoop config s input = some (t, events)) :
    t.Ended ∧ ∀ event ∈ events, event.isLate = true := by
  obtain ⟨htodo, hpc⟩ := h
  unfold stepLoop at hstep
  split at hstep
  · obtain ⟨execution, -, hstep⟩ := bind_eq_some_iff.mp hstep
    cases hstep
    refine ⟨⟨htodo, hpc⟩, fun event hevent => ?_⟩
    rw [mem_singleton.mp hevent]
    rfl
  · obtain ⟨entry, -, hstep⟩ := bind_eq_some_iff.mp hstep
    obtain ⟨⟨entry', events'⟩, hentry, hstep⟩ := bind_eq_some_iff.mp hstep
    cases hstep
    refine ⟨⟨htodo, hpc⟩, fun event hevent => ?_⟩
    cases EntryStep.of_stepEntry hentry with
    | executed | updateNotReceived => cases hevent
    | finalized | endNotReceived =>
      rw [mem_singleton.mp hevent]
      rfl
  · rw [htodo] at hstep
    cases hstep
  all_goals
    rw [htodo, stepMain_ended hpc] at hstep
    cases hstep

/-- At most one run is in progress, the agent is idle when there is none, and no run
takes anything from the transcript. -/
structure AgentWorld.Sound (w : AgentWorld) : Prop where
  one_run : w.runs.length ≤ 1
  active : w.agent.activeRun.isSome = true ↔ w.runs ≠ []
  idle : w.runs = [] → w.agent.Idle
  before : ∀ run ∈ w.runs, run.before <+: w.agent.messages
  failing : ∀ run ∈ w.runs, run.failing = true → run.loop.Ended
  ended : ∀ loop ∈ w.loops, loop.Ended
  settled : ∀ run ∈ w.settled, run.before <+: run.after

namespace AgentWorld

variable {w t : AgentWorld}

section

variable (h : w.Sound)
include h

theorem Sound.withAgent (hmessages : w.agent.messages <+: agent.messages)
    (hactive : agent.activeRun.isSome = w.agent.activeRun.isSome)
    (hidle : w.agent.Idle → agent.Idle) : AgentWorld.Sound { w with agent } where
  one_run := h.one_run
  active := by
    rw [hactive]
    exact h.active
  idle hnone := hidle (h.idle hnone)
  before run hrun := (h.before run hrun).trans hmessages
  failing := h.failing
  ended := h.ended
  settled := h.settled

theorem Sound.withQueues (steeringQueue followUpQueue : PendingMessageQueue) :
    AgentWorld.Sound { w with agent := { w.agent with steeringQueue, followUpQueue } } :=
  h.withAgent (prefix_refl _) rfl fun hidle =>
    ⟨hidle.isStreaming, hidle.streamingMessage, hidle.pendingToolCalls, hidle.activeRun⟩

theorem Sound.runs_eq_nil (hnone : ¬ w.agent.activeRun.isSome = true) : w.runs = [] := by
  by_contra hne
  exact hnone (h.active.mpr hne)

theorem Sound.runWithLifecycle (hnone : ¬ w.agent.activeRun.isSome = true)
    (loop : LoopState AgentMessage) (skip : Bool) : (w.runWithLifecycle loop skip).Sound := by
  have hruns := h.runs_eq_nil hnone
  refine ⟨?_, ?_, ?_, ?_, ?_, h.ended, h.settled⟩
  · rw [AgentWorld.runWithLifecycle, hruns]
    exact Nat.le_refl _
  · rw [AgentWorld.runWithLifecycle, hruns]
    exact ⟨fun _ => cons_ne_nil _ _, fun _ => rfl⟩
  · intro hnil
    rw [AgentWorld.runWithLifecycle, hruns] at hnil
    cases hnil
  · intro run hrun
    rw [AgentWorld.runWithLifecycle, hruns] at hrun
    rw [mem_singleton.mp hrun]
    exact prefix_refl _
  · intro run hrun hfailing
    rw [AgentWorld.runWithLifecycle, hruns] at hrun
    rw [mem_singleton.mp hrun] at hfailing
    cases hfailing

theorem Sound.prompt (messages : List AgentMessage) : (w.prompt messages).Sound := by
  unfold AgentWorld.prompt
  split
  · exact h
  · rename_i hnone
    exact h.runWithLifecycle hnone _ _

theorem Sound.continueRun : w.continueRun.Sound := by
  unfold AgentWorld.continueRun
  split
  · exact h
  rename_i hnone
  split
  · exact h
  · split
    · unfold continueQueued
      dsimp only
      split
      · exact (h.withQueues w.agent.steeringQueue.drain.2 w.agent.followUpQueue).runWithLifecycle
          hnone _ _
      · have hdrained := h.withQueues w.agent.steeringQueue.drain.2 w.agent.followUpQueue.drain.2
        split
        · exact hdrained.runWithLifecycle hnone _ _
        · exact hdrained
    · unfold runContinuation
      split
      all_goals exact h.runWithLifecycle hnone _ _

theorem Sound.advance {run run' : AgentRun} (hrun : w.runs[index]? = some run)
    (hsame : run'.before = run.before ∧ run'.failing = run.failing ∧ run'.loop = run.loop)
    (hagent : agent.messages = w.agent.messages ∧ agent.activeRun = w.agent.activeRun)
    (hstep : w.advance index agent run' input = some t) : t.Sound := by
  obtain ⟨⟨loop, events⟩, hloop, hstep⟩ := map_eq_some_iff.mp hstep
  cases hstep
  obtain ⟨hmessages, hactive⟩ := agent.foldl_reduce events
  have hmem := mem_of_getElem? hrun
  have hset : ∀ r ∈ w.runs.set index { run' with loop }, r = { run' with loop } ∨ r ∈ w.runs :=
    fun r hr => (mem_or_eq_of_mem_set hr).symm
  refine ⟨?_, ?_, ?_, ?_, ?_, h.ended, h.settled⟩
  · rw [length_set]
    exact h.one_run
  · rw [hactive, hagent.2, h.active, ne_eq, ne_eq, set_eq_nil_iff]
  · intro hnil
    rw [set_eq_nil_iff] at hnil
    rw [hnil] at hmem
    cases hmem
  · intro r hr
    rw [hagent.1] at hmessages
    rcases hset r hr with rfl | hr
    · exact (hsame.1 ▸ h.before run hmem).trans hmessages
    · exact (h.before r hr).trans hmessages
  · intro r hr hfailing
    rcases hset r hr with rfl | hr
    · have hended := h.failing run hmem (hsame.2.1 ▸ hfailing)
      rw [← hsame.2.2] at hended
      exact (hended.step hloop).1
    · exact h.failing r hr hfailing

theorem Sound.fail {run : AgentRun} {now : Int} (hrun : w.runs[index]? = some run)
    (hstep : w.fail index run now = some t) : t.Sound := by
  unfold AgentWorld.fail at hstep
  split at hstep
  · rename_i error hfailing htodo hpc
    cases hstep
    have hmem := mem_of_getElem? hrun
    have hset : ∀ r ∈ w.runs.set index { run with failing := true },
        r = { run with failing := true } ∨ r ∈ w.runs :=
      fun r hr => (mem_or_eq_of_mem_set hr).symm
    have hmessages : w.agent.messages <+: (w.agent.handleRunFailure error
        (w.agent.activeRun.any (·.aborted)) now).messages := prefix_append _ _
    refine ⟨?_, ?_, ?_, ?_, ?_, h.ended, h.settled⟩
    · rw [length_set]
      exact h.one_run
    · rw [ne_eq, set_eq_nil_iff]
      exact h.active
    · intro hnil
      rw [set_eq_nil_iff] at hnil
      rw [hnil] at hmem
      cases hmem
    · intro r hr
      rcases hset r hr with rfl | hr
      · exact (h.before run hmem).trans hmessages
      · exact (h.before r hr).trans hmessages
    · intro r hr _
      rcases hset r hr with rfl | hr
      · exact ⟨htodo, .inr ⟨error, hpc⟩⟩
      · exact h.failing r hr ‹_›
  · cases hstep

theorem Sound.finish {run : AgentRun} (hrun : w.runs[index]? = some run)
    (hstep : w.finish index run = some t) : t.Sound := by
  unfold AgentWorld.finish at hstep
  split at hstep
  · rename_i hover
    cases hstep
    have hmem := mem_of_getElem? hrun
    have hindex := (List.getElem?_eq_some_iff.mp hrun).1
    have hnil : w.runs.eraseIdx index = [] := by
      have hlength := length_eraseIdx_of_lt hindex
      have hone := h.one_run
      exact eq_nil_of_length_eq_zero (by omega)
    refine ⟨?_, ?_, fun _ => w.agent.idle_finishRun, ?_, ?_, ?_, ?_⟩
    · rw [hnil]
      exact Nat.zero_le _
    · rw [hnil]
      exact ⟨fun hsome => (by cases hsome), fun hne => absurd rfl hne⟩
    · intro r hr
      rw [hnil] at hr
      cases hr
    · intro r hr
      rw [hnil] at hr
      cases hr
    · intro loop hloop
      rcases mem_append.mp hloop with hloop | hloop
      · exact h.ended loop hloop
      · rw [mem_singleton.mp hloop]
        rcases hover with hfailing | ⟨hpc, htodo⟩
        · exact h.failing run hmem hfailing
        · exact ⟨htodo, .inl hpc⟩
    · intro r hr
      rcases mem_append.mp hr with hr | hr
      · exact h.settled r hr
      · rw [mem_singleton.mp hr]
        exact h.before run hmem
  · cases hstep

theorem Sound.progress {loop : LoopState AgentMessage}
    (hloop : w.loops[index]? = some loop) (hstep : w.progress index loop input = some t) :
    t.Sound := by
  obtain ⟨⟨loop', events⟩, hadvance, hstep⟩ := map_eq_some_iff.mp hstep
  cases hstep
  obtain ⟨hended, hlate⟩ := (h.ended loop (mem_of_getElem? hloop)).step hadvance
  obtain ⟨hmessages, hactive⟩ := w.agent.foldl_reduce events
  have hagent := h.withAgent hmessages (by rw [hactive]) fun hidle => hidle.foldl hlate
  refine ⟨hagent.one_run, hagent.active, hagent.idle, hagent.before, hagent.failing, ?_,
    hagent.settled⟩
  intro r hr
  rcases mem_or_eq_of_mem_set hr with hr | rfl
  · exact h.ended r hr
  · exact hended

theorem Sound.step {input : AgentInput} (hstep : w.step input = some t) : t.Sound := by
  cases input with
  | prompt messages =>
    cases hstep
    exact h.prompt messages
  | continueRun =>
    cases hstep
    exact h.continueRun
  | abort =>
    cases hstep
    refine h.withAgent (prefix_refl _) (by rw [isSome_map]) fun hidle =>
      ⟨hidle.isStreaming, hidle.streamingMessage, hidle.pendingToolCalls, ?_⟩
    rw [hidle.activeRun]
    rfl
  | steer message | followUp message =>
    cases hstep
    exact h.withQueues _ _
  | loop index input =>
    obtain ⟨run, hrun, hstep⟩ := bind_eq_some_iff.mp hstep
    obtain ⟨hrun, -⟩ := filter_eq_some_iff.mp hrun
    exact h.advance hrun ⟨rfl, rfl, rfl⟩ ⟨rfl, rfl⟩ hstep
  | poll index =>
    obtain ⟨run, hrun, hstep⟩ := bind_eq_some_iff.mp hstep
    obtain ⟨⟨messages, agent, run'⟩, hpoll, hstep⟩ := bind_eq_some_iff.mp hstep
    unfold AgentWorld.poll at hpoll
    split at hpoll
    · split at hpoll
      all_goals
        cases hpoll
        refine h.advance hrun ?_ ?_ hstep
        · exact ⟨rfl, rfl, rfl⟩
        · exact ⟨rfl, rfl⟩
    · cases hpoll
      refine h.advance hrun ?_ ?_ hstep
      · exact ⟨rfl, rfl, rfl⟩
      · exact ⟨rfl, rfl⟩
    · cases hpoll
  | failed index now =>
    obtain ⟨run, hrun, hstep⟩ := bind_eq_some_iff.mp hstep
    exact h.fail hrun hstep
  | finished index =>
    obtain ⟨run, hrun, hstep⟩ := bind_eq_some_iff.mp hstep
    exact h.finish hrun hstep
  | late index input =>
    obtain ⟨loop, hloop, hstep⟩ := bind_eq_some_iff.mp hstep
    obtain ⟨hloop, -⟩ := filter_eq_some_iff.mp hloop
    exact h.progress hloop hstep

end

/-- At most one run is in progress; without one the agent is idle; with one a call of
`prompt` or `continue` changes nothing; and the transcript before a settled run is the
beginning of the transcript after it. -/
structure Lifecycle (w : AgentWorld) : Prop where
  one_run : w.runs.length ≤ 1
  active : w.agent.activeRun.isSome = true ↔ w.runs ≠ []
  idle : w.runs = [] → w.agent.Idle
  prompt_rejected : w.runs ≠ [] → ∀ messages, w.step (.prompt messages) = some w
  continue_rejected : w.runs ≠ [] → w.step .continueRun = some w
  before_prefix : ∀ run ∈ w.settled, run.before <+: run.after

theorem Sound.lifecycle (h : w.Sound) : w.Lifecycle := by
  refine ⟨h.one_run, h.active, h.idle, fun hne messages => ?_, fun hne => ?_, h.settled⟩
  · rw [AgentWorld.step, AgentWorld.prompt, if_pos (h.active.mpr hne)]
  · rw [AgentWorld.step, AgentWorld.continueRun, if_pos (h.active.mpr hne)]

end AgentWorld

/-- The lifecycle of an agent holds in every state that its calls, its loops, the
tools and the listeners can reach. -/
theorem agent_lifecycle {agent : Agent} (hidle : agent.Idle) {t : AgentWorld}
    (h : Reachable AgentWorld.step { agent } t) : t.Lifecycle := by
  have hstart : AgentWorld.Sound { agent } := by
    refine ⟨Nat.zero_le _, ⟨fun hsome => ?_, fun hne => absurd rfl hne⟩, fun _ => hidle, ?_, ?_,
      ?_, ?_⟩
    · rw [hidle.activeRun] at hsome
      cases hsome
    · intro run hrun
      cases hrun
    · intro run hrun
      cases hrun
    · intro loop hloop
      cases hloop
    · intro run hrun
      cases hrun
  have hsound : t.Sound := Reachable.invariant (fun _ _ _ h hstep => h.step hstep) hstart h
  exact hsound.lifecycle

def toollessAgent : Agent where
  model := ⟨js "api", js "provider", js "model"⟩
  config := { tools := [] }

/-- A run whose first event a listener refuses, with a prompt in between. -/
def failedRun : List AgentInput :=
  [.prompt [.user ⟨.string (js "hi"), 0⟩], .loop 0 (.received (.error (js "refused"))),
    .prompt [], .failed 0 1, .finished 0]

theorem agent_lifecycle_failed_run :
    ∃ t, run AgentWorld.step { agent := toollessAgent } failedRun = some t ∧
      t.settled.length = 1 ∧ t.Lifecycle := by
  have hidle : toollessAgent.Idle := ⟨rfl, rfl, rfl, rfl⟩
  exact ⟨_, rfl, rfl, agent_lifecycle hidle ⟨failedRun, rfl⟩⟩

end AcademicAgent
