import AcademicAgent.Agent.BatchEvents

/-!
# Sequential and parallel batches

A batch of calls whose outcomes depend on them alone comes to an end in either mode,
with the same results and the same decision to terminate, in whatever order the
parallel executions complete.
-/

namespace AcademicAgent

open List Option LoopState AgentEvent

open AgentEvent (isMark)

variable {μ : Type}

variable {batch : Batch} {input : LoopInput μ} {s : Traced μ} {inputs : List (LoopInput μ)}
  {finalizedCalls : List FinalizedToolCallOutcome} {pool : List Entry}

variable {t : Traced μ}

/-- The batch whose calls are all settled and reported: `executeToolCalls` returns. -/
def LoopState.finishedBatch? (s : LoopState μ) : Option Batch :=
  match s.todo, s.pc with
  | [], .nextCall batch =>
    if batch.rest = [] ∧ batch.mode = .sequential then some batch else none
  | [], .results batch [] => if batch.mode = .parallel then some batch else none
  | _, _ => none

theorem LoopState.finishedBatch?_eq_some {s : LoopState μ} :
    s.finishedBatch? = some batch ↔ s.BatchDone batch := by
  unfold finishedBatch? LoopState.BatchDone
  split
  · rename_i batch' htodo hpc
    rw [ite_none_right_eq_some]
    constructor
    · rintro ⟨⟨hrest, hmode⟩, hsame⟩
      cases hsame
      exact ⟨htodo, .inl ⟨hpc, hrest, hmode⟩⟩
    · rintro ⟨-, ⟨hpc', hrest, hmode⟩ | ⟨hpc', -⟩⟩
      · cases hpc.symm.trans hpc'
        exact ⟨⟨hrest, hmode⟩, rfl⟩
      · cases hpc.symm.trans hpc'
  · rename_i batch' htodo hpc
    rw [ite_none_right_eq_some]
    constructor
    · rintro ⟨hmode, hsame⟩
      cases hsame
      exact ⟨htodo, .inr ⟨hpc, hmode⟩⟩
    · rintro ⟨-, ⟨hpc', -⟩ | ⟨hpc', hmode⟩⟩
      · cases hpc.symm.trans hpc'
      · cases hpc.symm.trans hpc'
        exact ⟨hmode, rfl⟩
  · rename_i hnext hresults
    constructor
    · nofun
    · rintro ⟨htodo, ⟨hpc, -⟩ | ⟨hpc, -⟩⟩
      · exact (hnext _ htodo hpc).elim
      · exact (hresults _ htodo hpc).elim

/-- What preparing, executing and finalizing a call amounts to, when each of them
depends on the call alone. -/
structure CallOutcomes where
  args : ToolCall → Outcome Json
  before : ToolCall → Outcome (Option BeforeToolCallResult)
  result : ToolCall → Outcome AgentToolResult
  after : ToolCall → Outcome (Option AfterToolCallResult)

namespace CallOutcomes

variable (outcomes : CallOutcomes)

/-- The input brings the outcome that the call has. -/
def Given (s : LoopState μ) : LoopInput μ → Prop
  | .prepared args before =>
    match s.pc with
    | .preparing _ toolCall => args = outcomes.args toolCall ∧ before = outcomes.before toolCall
    | _ => True
  | .executed result =>
    match s.pc with
    | .executing _ toolCall _ => result = outcomes.result toolCall
    | _ => True
  | .finalized after =>
    match s.pc with
    | .finalizing _ toolCall _ => after = outcomes.after toolCall
    | _ => True
  | .entry index input =>
    match s.pool[index]?, input with
    | some (.executing toolCall _), .executed result => result = outcomes.result toolCall
    | some (.finalizing toolCall _), .finalized after _ => after = outcomes.after toolCall
    | _, _ => True
  | _ => True

section

variable (tools : List AgentTool)

def finalizedCall (toolCall : ToolCall) : FinalizedToolCallOutcome :=
  match prepareToolCall tools toolCall (outcomes.args toolCall) (outcomes.before toolCall) with
  | .immediate result isError => ⟨toolCall, result, isError⟩
  | .prepared _ => finalizeExecutedToolCall toolCall
      (executePreparedToolCall (outcomes.result toolCall)) (outcomes.after toolCall)

def Ready (toolCall : ToolCall) : Prop :=
  ∃ args, prepareToolCall tools toolCall (outcomes.args toolCall) (outcomes.before toolCall) =
    .prepared args

/-- At every stage a call has the outcome that it has. -/
def rules : CallRules where
  prepared := outcomes.Ready tools
  executed := fun toolCall executed => outcomes.Ready tools toolCall ∧
    executed = executePreparedToolCall (outcomes.result toolCall)
  finalized := fun toolCall finalized => finalized = outcomes.finalizedCall tools toolCall

end

variable {outcomes}

theorem own (tools : List AgentTool) : (outcomes.rules tools).Own := by
  intro toolCall finalized hfinal
  rw [show finalized = outcomes.finalizedCall tools toolCall from hfinal, finalizedCall]
  split
  · rfl
  · exact finalizeExecutedToolCall_toolCall _ _ _

theorem finalizedCall_of_executed {tools : List AgentTool} {toolCall : ToolCall}
    {executed : ExecutedToolCallOutcome} (h : (outcomes.rules tools).executed toolCall executed) :
    finalizeExecutedToolCall toolCall executed (outcomes.after toolCall) =
      outcomes.finalizedCall tools toolCall := by
  obtain ⟨⟨args, hready⟩, rfl⟩ := h
  rw [finalizedCall, hready]

theorem Given.allows {config : LoopConfig} {s : LoopState μ} (h : outcomes.Given s input) :
    (outcomes.rules config.tools).Allows config s input := by
  cases input with
  | prepared args before =>
    intro batch toolCall hpc
    simp only [Given, hpc] at h
    obtain ⟨rfl, rfl⟩ := h
    split
    · rename_i result isError hprepared
      change _ = outcomes.finalizedCall config.tools toolCall
      rw [finalizedCall, hprepared]
    · rename_i validatedArgs hprepared
      exact ⟨validatedArgs, hprepared⟩
  | executed result =>
    intro batch toolCall execution hpc hready
    simp only [Given, hpc] at h
    exact ⟨hready, by rw [h]⟩
  | finalized after =>
    intro batch toolCall executed hpc hexecuted
    simp only [Given, hpc] at h
    rw [h]
    exact finalizedCall_of_executed hexecuted
  | entry index input =>
    intro entry hentry
    simp only [Given, hentry] at h
    split
    · rename_i toolCall execution result
      intro hready
      exact ⟨hready, by rw [show result = outcomes.result toolCall from h]⟩
    · rename_i toolCall executed after sink
      intro hexecuted
      rw [show after = outcomes.after toolCall from h]
      exact finalizedCall_of_executed hexecuted
    · trivial
  | _ => trivial

end CallOutcomes

section Execution

variable [LlmMessage μ] {config : LoopConfig} {outcomes : CallOutcomes}
  {message : AssistantMessage} {mode : ToolExecutionMode}

/-- `executeToolCalls` is called for a message, and the events are recorded from there. -/
structure StartsBatch (message : AssistantMessage) (mode : ToolExecutionMode) (s : Traced μ) :
    Prop where
  todo : s.state.todo = []
  pc : s.state.pc = .nextCall { message, mode, rest := message.toolCalls }
  quiet : PoolQuiet s.state.pool
  trace : s.trace = []

/-- The steps of a batch that has not returned, with calls that have their outcomes. -/
def Executes (config : LoopConfig) (outcomes : CallOutcomes) (s : Traced μ)
    (inputs : List (LoopInput μ)) (t : Traced μ) : Prop :=
  Along (stepTraced config)
      (fun s input => outcomes.Given s.state input ∧ s.state.finishedBatch? = none) s inputs ∧
    run (stepTraced config) s inputs = some t

omit [LlmMessage μ] in
theorem StartsBatch.working {rules : CallRules} (h : StartsBatch message mode s) :
    Working rules message s where
  inBatch := by
    refine ⟨?_, ?_⟩
    · rw [h.pc]
      refine ⟨rfl, [], rfl, ?_⟩
      cases mode with
      | sequential => exact ⟨.nil, .nil⟩
      | parallel => exact ⟨.nil, rfl⟩
    · rw [h.todo]
      rfl
  quiet := fun _ => h.quiet
  waiting := fun _ _ => h.todo
  marks := by
    refine ⟨[], ?_, ?_⟩
    · rw [h.pc]
      rfl
    · rw [Traced.marks_of_todo h.todo, h.trace, h.pc]
      cases mode <;> exact .nil

theorem Executes.working (hstart : StartsBatch message mode s)
    (h : Executes config outcomes s inputs t) :
    Working (outcomes.rules config.tools) message t ∨ Failed t := by
  have hinv : ∀ (s : Traced μ) input t, Working (outcomes.rules config.tools) message s ∨ Failed s →
      (outcomes.Given s.state input ∧ s.state.finishedBatch? = none) →
      stepTraced config s input = some t →
      Working (outcomes.rules config.tools) message t ∨ Failed t := ?_
  · exact run_invariant hinv (.inl hstart.working) h.1 h.2
  intro s input t hs hi hstep
  rcases hs with hworking | hfailed
  · refine hworking.step (CallOutcomes.own _) ?_ hi.1.allows hstep
    rintro ⟨batch, hdone⟩
    rw [← finishedBatch?_eq_some, hi.2] at hdone
    cases hdone
  · exact .inr (hfailed.step hstep)

/-- Each call starts once and ends once, after its start: calls with one id start and end
as often as there are such calls, and have never ended more often than started. -/
structure EachCallOnce (toolCalls : List ToolCall) (events : List (AgentEvent μ)) : Prop where
  started : ∀ id, events.countP (AgentEvent.starts id) = (toolCalls.map ToolCall.id).count id
  ended : ∀ id, events.countP (AgentEvent.ends id) = (toolCalls.map ToolCall.id).count id
  ordered : EndsFollowStarts events

omit [LlmMessage μ] in
theorem countP_starts_filter (id : JsString) (events : List (AgentEvent μ)) :
    (events.filter isMark).countP (starts id) =
      events.countP (starts id) := by
  rw [countP_filter]
  refine countP_congr fun event _ => ?_
  cases event <;> simp [starts, isMark, isToolStart]

omit [LlmMessage μ] in
theorem countP_ends_filter (id : JsString) (events : List (AgentEvent μ)) :
    (events.filter isMark).countP (ends id) = events.countP (ends id) := by
  rw [countP_filter]
  refine countP_congr fun event _ => ?_
  cases event <;> simp [ends, isMark, isToolEnd]

omit [LlmMessage μ] in
theorem Marks.eachCallOnce {toolCalls : List ToolCall} {events : List (AgentEvent μ)}
    (h : Marks toolCalls finalizedCalls (events.filter isMark))
    (hcalls : finalizedCalls.map FinalizedToolCallOutcome.toolCall = toolCalls) :
    EachCallOnce toolCalls events where
  started := fun id => by
    rw [← countP_starts_filter]
    refine countP_starts h.starts id
  ended := fun id => by
    rw [← countP_ends_filter, countP_ends h.ends, hcalls]
  ordered := fun past hpast id => by
    have hmarks := h.ordered (past.filter isMark) (hpast.filter _) id
    rw [countP_starts_filter, countP_ends_filter] at hmarks
    exact hmarks

def ToolResultMessage.undated (m : ToolResultMessage) : ToolResultMessage :=
  { m with timestamp := 0 }

omit [LlmMessage μ] in
theorem eq_map_of_forall₂ {tools : List AgentTool} {toolCalls : List ToolCall}
    (h : Forall₂ (outcomes.rules tools).finalized toolCalls finalizedCalls) :
    finalizedCalls = toolCalls.map (outcomes.finalizedCall tools) := by
  induction h with
  | nil => rfl
  | cons hcall _ ih =>
    rw [map_cons, ← ih]
    exact congrArg (· :: _) hcall

omit [LlmMessage μ] in
theorem Reports.undated {messages : List ToolResultMessage} (h : Reports finalizedCalls messages) :
    messages.map ToolResultMessage.undated = finalizedCalls.map (createToolResultMessage · 0) := by
  induction h with
  | nil => rfl
  | cons hmessage _ ih =>
    obtain ⟨now, rfl⟩ := hmessage
    rw [map_cons, map_cons, ih]
    rfl

theorem Executes.complete (hstart : StartsBatch message mode s)
    (h : Executes config outcomes s inputs t) (hdone : t.state.finishedBatch? = some batch) :
    batch.finalizedCalls = message.toolCalls.map (outcomes.finalizedCall config.tools) ∧
      batch.messages.map ToolResultMessage.undated =
        batch.finalizedCalls.map (createToolResultMessage · 0) ∧
      EachCallOnce message.toolCalls t.trace := by
  have hbatch := finishedBatch?_eq_some.mp hdone
  rcases h.working hstart with hworking | hfailed
  · obtain ⟨⟨-, hfinal, hreports⟩, hmarks⟩ := hworking.complete hbatch
    refine ⟨?_, ?_, hmarks.eachCallOnce (map_toolCall_of_forall₂ (CallOutcomes.own _) hfinal)⟩
    · exact eq_map_of_forall₂ hfinal
    · exact hreports.undated
  · exact absurd hbatch hfailed.not_done

end Execution

/-- The steps an entry of the pool is away from being settled. -/
def Entry.work : Entry → Nat
  | .executing _ _ => 2
  | .finalizing _ _ => 1
  | .settled _ | .rejected _ _ => 0

/-- The steps a pool is away from being settled and reported. -/
def poolWork (pool : List Entry) : Nat := (pool.map fun entry => entry.work + 3).sum

/-- A bound on the steps that the loop is away from the end of its batch. -/
def Pc.work (pool : List Entry) : Pc → Nat
  | .nextCall batch => 20 * batch.rest.length + 6 * batch.entries.length + 3
  | .preparing batch _ => 20 * batch.rest.length + 6 * batch.entries.length + 18
  | .executing batch _ _ => 20 * batch.rest.length + 6 * batch.entries.length + 16
  | .finalizing batch _ _ => 20 * batch.rest.length + 6 * batch.entries.length + 14
  | .awaitingPool _ => poolWork pool + 2
  | .results batch finalizedCalls => 20 * batch.rest.length + 3 * finalizedCalls.length +
    match batch.mode with
    | .sequential => 6 * batch.entries.length + 4
    | .parallel => 1
  | _ => 0

/-- The same, with the events about to be emitted. -/
def LoopState.work (s : LoopState μ) : Nat := s.todo.length + s.pc.work s.pool

/-- An input that is not an update that a tool reports. -/
def LoopInput.isOwn : LoopInput μ → Bool
  | .toolUpdate .. => false
  | _ => true

theorem poolWork_startEntries (execution : Nat) (entries : List BatchEntry) :
    poolWork (startEntries execution entries) ≤ 5 * entries.length := by
  induction entries generalizing execution with
  | nil => exact Nat.zero_le _
  | cons entry entries ih =>
    cases entry with
    | waiting toolCall =>
      have hrest := ih (execution + 1)
      simp only [poolWork, startEntries, map_cons, sum_cons, length_cons, Entry.work] at hrest ⊢
      omega
    | settled finalized =>
      have hrest := ih execution
      simp only [poolWork, startEntries, map_cons, sum_cons, length_cons, Entry.work] at hrest ⊢
      omega

theorem poolWork_set {index : Nat} {entry entry' : Entry} (hentry : pool[index]? = some entry)
    (hwork : entry'.work < entry.work) : poolWork (pool.set index entry') < poolWork pool := by
  induction pool generalizing index with
  | nil => cases hentry
  | cons first pool ih =>
    cases index with
    | zero =>
      cases hentry
      simp only [poolWork, set_cons_zero, map_cons, sum_cons]
      omega
    | succ index =>
      have hrest := ih hentry
      simp only [poolWork, set_cons_succ, map_cons, sum_cons] at hrest ⊢
      omega

theorem le_poolWork (h : pool.mapM Entry.finalized? = some finalizedCalls) :
    3 * finalizedCalls.length ≤ poolWork pool := by
  induction pool generalizing finalizedCalls with
  | nil =>
    cases h
    exact Nat.zero_le _
  | cons entry pool ih =>
    rw [mapM_cons] at h
    obtain ⟨finalized, hentry, h⟩ := bind_eq_some_iff.mp h
    obtain ⟨rest, hrest, h⟩ := bind_eq_some_iff.mp h
    cases h
    have hwork := ih hrest
    simp only [poolWork, map_cons, sum_cons, length_cons] at hwork ⊢
    omega

theorem LoopState.work_settle (s : LoopState μ) (batch : Batch)
    (finalized : FinalizedToolCallOutcome) : (s.settle batch finalized).work ≤
      20 * batch.rest.length + 6 * batch.entries.length + 10 := by
  cases hmode : batch.mode with
  | sequential =>
    simp only [work, settle, hmode, Pc.work, length_cons, length_nil]
    omega
  | parallel =>
    simp only [work, settle, hmode, Pc.work, length_cons, length_nil,
      length_append]
    omega

section Work

variable [LlmMessage μ] {rules : CallRules} {config : LoopConfig} {message : AssistantMessage}

theorem Working.advance_work {state : LoopState μ} (h : Working rules message s)
    (htodo : s.state.todo = []) (hadvance : Advance config s.state input state)
    (hin : InBatch rules message state) : state.work < s.state.work := by
  have hpoint := h.inBatch.point
  have hwork : s.state.work = s.state.pc.work s.state.pool := by
    rw [work, htodo]
    exact Nat.zero_add _
  cases hadvance with
  | threw | batchFinished hpc => exact hin.point.elim
  | callStarted hpc hrest =>
    rw [hwork, hpc]
    simp only [work, Pc.work, hrest, length_cons, length_nil]
    omega
  | settledAtOnce hpc | finalized hpc =>
    refine Nat.lt_of_le_of_lt (work_settle _ _ _) ?_
    rw [hwork, hpc]
    simp only [Pc.work]
    omega
  | executionStarted hpc | executed hpc =>
    rw [hwork, hpc]
    simp only [work, htodo, Pc.work, length_nil]
    omega
  | entryAdded hpc =>
    rw [hwork, hpc]
    simp only [work, htodo, Pc.work, length_nil, length_append, length_cons]
    omega
  | @poolStarted now batch hpc =>
    have hpool := poolWork_startEntries s.state.executions.length batch.entries
    rw [hwork, hpc]
    simp only [work, htodo, Pc.work, length_nil]
    omega
  | poolSettled hpc hpool =>
    have hreports := le_poolWork hpool
    rw [hpc] at hpoint
    obtain ⟨-, hmode, hrest, -⟩ := hpoint
    rw [hwork, hpc]
    simp only [work, htodo, Pc.work, hmode, hrest, length_nil]
    omega
  | resultReported hpc =>
    rw [hwork, hpc]
    simp only [work, messageEvents, Pc.work, length_cons, length_nil]
    omega
  | callDone hpc hmode =>
    rw [hwork, hpc]
    simp only [work, htodo, Pc.work, hmode, length_nil]
    omega
  | _ hpc =>
    simp only [hpc, BatchPoint] at hpoint

theorem Working.work_le (h : Working rules message s) (hstep : stepTraced config s input = some t)
    (ht : Working rules message t) :
    t.state.work + [input].countP LoopInput.isOwn ≤ s.state.work := by
  obtain ⟨events, hloop, -⟩ := LoopStep.of_stepTraced hstep
  have hin := ht.inBatch
  obtain ⟨state, trace⟩ := t
  cases hloop with
  | updated => exact Nat.le_refl _
  | @entry index input entry entry' events hentry hentryStep =>
    have hless : entry'.work < entry.work := by cases hentryStep <;> simp [Entry.work]
    have hnone : entry.finalized? = none := by cases hentryStep <;> rfl
    obtain ⟨batch, hpc⟩ := h.awaiting hentry hnone
    have hpool := poolWork_set hentry hless
    simp only [work, hpc, Pc.work, countP_cons, countP_nil, LoopInput.isOwn, if_true]
    omega
  | received htodo =>
    simp only [work, htodo, length_cons, countP_cons, countP_nil,
      LoopInput.isOwn, if_true]
    omega
  | notReceived => exact hin.point.elim
  | pushed htodo =>
    have hpush := h.inBatch.noPush
    rw [htodo] at hpush
    cases hpush
  | advanced htodo hadvance =>
    have hless := h.advance_work htodo hadvance hin
    have hcount := countP_le_length (p := LoopInput.isOwn) (l := [input])
    rw [length_singleton] at hcount
    omega

end Work

section Progress

variable [LlmMessage μ] {rules : CallRules} {config : LoopConfig} {outcomes : CallOutcomes}
  {message : AssistantMessage}

variable (config outcomes) in
/-- The loop can take a step, whatever the tools do meanwhile. -/
def CanGoOn (s : Traced μ) : Prop :=
  ∃ input : LoopInput μ, input.isOwn = true ∧ outcomes.Given s.state input ∧
    (stepTraced config s input).isSome = true

omit [LlmMessage μ] in
theorem mapM_of_quiet (h : PoolQuiet pool) :
    ∃ finalizedCalls, pool.mapM Entry.finalized? = some finalizedCalls := by
  induction pool with
  | nil => exact ⟨[], rfl⟩
  | cons entry pool ih =>
    obtain ⟨hentry, hpool⟩ := forall_mem_cons.mp h
    obtain ⟨finalized, hfinalized⟩ := Option.isSome_iff_exists.mp hentry
    obtain ⟨finalizedCalls, hcalls⟩ := ih hpool
    refine ⟨finalized :: finalizedCalls, ?_⟩
    simp only [mapM_cons, hfinalized, hcalls, Option.pure_def, Option.bind_eq_bind,
      Option.bind_some]

theorem canGoOn_of_resumed (htodo : s.state.todo = [])
    (hmain : (stepMain config s.state (.resumed 0)).isSome = true) : CanGoOn config outcomes s := by
  refine ⟨.resumed 0, rfl, trivial, ?_⟩
  simp only [stepTraced, stepLoop, htodo, isSome_map, hmain]

theorem canGoOn_of_awaitingPool (htodo : s.state.todo = []) (hpc : s.state.pc = .awaitingPool batch)
    : CanGoOn config outcomes s := by
  by_cases hall : PoolQuiet s.state.pool
  · refine canGoOn_of_resumed htodo ?_
    obtain ⟨finalizedCalls, hsettled⟩ := mapM_of_quiet hall
    simp only [stepMain, hpc, hsettled, isSome_some]
  · simp only [PoolQuiet, not_forall] at hall
    obtain ⟨entry, hmem, hopen⟩ := hall
    obtain ⟨index, hentry⟩ := mem_iff_getElem?.mp hmem
    cases entry with
    | executing toolCall execution =>
      refine ⟨.entry index (.executed (outcomes.result toolCall)), rfl, ?_, ?_⟩
      · simp only [CallOutcomes.Given, hentry]
      · simp only [stepTraced, stepLoop, hentry, stepEntry, isSome_map, bind_eq_bind,
          bind_some]
        cases (s.state.executions[execution]?).bind (·.updateError) <;> rfl
    | finalizing toolCall executed =>
      refine ⟨.entry index (.finalized (outcomes.after toolCall) (.ok ())), rfl, ?_, ?_⟩
      · simp only [CallOutcomes.Given, hentry]
      · simp only [stepTraced, stepLoop, hentry, stepEntry, isSome_map, bind_eq_bind,
          bind_some]
        rfl
    | settled finalized => exact absurd rfl hopen
    | rejected toolCall error =>
      refine ⟨.poolRejected index, rfl, trivial, ?_⟩
      simp only [stepTraced, stepLoop, htodo, stepMain, hpc, hentry, map_some,
        isSome_some]

theorem Working.canGoOn (h : Working rules message s) : CanGoOn config outcomes s := by
  have hpoint := h.inBatch.point
  cases htodo : s.state.todo with
  | cons statement todo =>
    cases statement with
    | emit event =>
      refine ⟨.received (.ok ()), rfl, trivial, ?_⟩
      simp only [stepTraced, stepLoop, htodo, map_some, isSome_some]
    | push pushed =>
      have hpush := h.inBatch.noPush
      rw [htodo] at hpush
      cases hpush
  | nil =>
    cases hpc : s.state.pc with
    | nextCall batch =>
      refine canGoOn_of_resumed htodo ?_
      cases hrest : batch.rest with
      | cons toolCall rest => simp only [stepMain, hpc, hrest, isSome_some]
      | nil =>
        cases hmode : batch.mode <;>
          simp only [stepMain, hpc, hrest, hmode, isSome_some]
    | preparing batch toolCall =>
      refine ⟨.prepared (outcomes.args toolCall) (outcomes.before toolCall), rfl, ?_, ?_⟩
      · simp only [CallOutcomes.Given, hpc, and_self]
      · simp only [stepTraced, stepLoop, htodo, stepMain, hpc, isSome_map]
        split
        · rfl
        · split <;> rfl
    | executing batch toolCall execution =>
      refine ⟨.executed (outcomes.result toolCall), rfl, ?_, ?_⟩
      · simp only [CallOutcomes.Given, hpc]
      · simp only [stepTraced, stepLoop, htodo, stepMain, hpc, isSome_map]
        split <;> rfl
    | finalizing batch toolCall executed =>
      refine ⟨.finalized (outcomes.after toolCall), rfl, ?_, ?_⟩
      · simp only [CallOutcomes.Given, hpc]
      · simp only [stepTraced, stepLoop, htodo, stepMain, hpc, isSome_map,
          isSome_some]
    | awaitingPool batch => exact canGoOn_of_awaitingPool htodo hpc
    | results batch finalizedCalls =>
      refine canGoOn_of_resumed htodo ?_
      cases finalizedCalls with
      | cons finalized finalizedCalls => simp only [stepMain, hpc, isSome_some]
      | nil => cases hmode : batch.mode <;> simp only [stepMain, hpc, hmode, isSome_some]
    | _ =>
      rw [hpc] at hpoint
      exact hpoint.elim

variable {mode : ToolExecutionMode}

theorem Failed.run {s t : Traced μ} {inputs : List (LoopInput μ)} (h : Failed s)
    (hrun : run (stepTraced config) s inputs = some t) : Failed t :=
  Reachable.invariant (fun _ _ _ hs hstep => hs.step hstep) h ⟨inputs, hrun⟩

theorem Executes.work_le (hs : Working (outcomes.rules config.tools) message s)
    (h : Executes config outcomes s inputs t) (hok : ¬ Failed t) :
    t.state.work + inputs.countP LoopInput.isOwn ≤ s.state.work := by
  obtain ⟨halong, hrun⟩ := h
  induction inputs generalizing s with
  | nil =>
    cases hrun
    exact Nat.le_refl _
  | cons input inputs ih =>
    obtain ⟨u, hstep, hrest⟩ := run_cons_eq_some.mp hrun
    have hopen : ¬ ∃ batch, s.state.BatchDone batch := by
      rintro ⟨batch, hdone⟩
      rw [← finishedBatch?_eq_some, halong.1.2] at hdone
      cases hdone
    rcases hs.step (CallOutcomes.own _) hopen halong.1.1.allows hstep with hu | hfailed
    · have hfirst := hs.work_le hstep hu
      have hafter := ih hu (halong.2 u hstep) hrest
      rw [← singleton_append, countP_append]
      omega
    · exact absurd (hfailed.run hrest) hok

variable (config outcomes) in
/-- A batch returns: unless its events are not received, it takes so many steps at most,
besides the updates that tools report, and it can always take the next one. -/
def ReturnsWithin (bound : Nat) (s : Traced μ) : Prop :=
  ∀ inputs t, Executes config outcomes s inputs t → ¬ Failed t →
    inputs.countP LoopInput.isOwn ≤ bound ∧
      (t.state.finishedBatch? = none → CanGoOn config outcomes t)

theorem StartsBatch.returns (h : StartsBatch message mode s) :
    ReturnsWithin config outcomes (20 * message.toolCalls.length + 3) s := by
  intro inputs t hexec hok
  have hworking := (hexec.working h).resolve_right hok
  have hbound := hexec.work_le h.working hok
  have hstart : s.state.work = 20 * message.toolCalls.length + 3 := by
    rw [work, h.todo, h.pc]
    exact Nat.zero_add _
  exact ⟨by omega, fun _ => hworking.canGoOn⟩

end Progress

section Agreement

variable [LlmMessage μ] {config : LoopConfig} {message : AssistantMessage}
  {mode : ToolExecutionMode}

/-- Only a pool that is awaited, or was when the loop threw, has entries in progress. -/
def PoolSettled (s : Traced μ) : Prop :=
  (∃ batch, s.state.pc = .awaitingPool batch) ∨ (∃ error, s.state.pc = .thrown error) ∨
    PoolQuiet s.state.pool

theorem PoolSettled.step (h : PoolSettled s) (hstep : stepTraced config s input = some t) :
    PoolSettled t := by
  obtain ⟨events, hloop, -⟩ := LoopStep.of_stepTraced hstep
  obtain ⟨state, trace⟩ := t
  cases hloop with
  | updated => exact h
  | received => exact h
  | pushed => exact h
  | notReceived => exact .inr (.inl ⟨_, rfl⟩)
  | @entry index input entry entry' events hentry hentryStep =>
    refine h.imp_right (Or.imp_right fun hquiet => ?_)
    have hsettled := hquiet entry (mem_of_getElem? hentry)
    cases hentryStep <;> cases hsettled
  | advanced htodo hadvance =>
    have hquiet : ∀ pc, s.state.pc = pc → (∀ batch, pc ≠ .awaitingPool batch) →
        (∀ error, pc ≠ .thrown error) → PoolQuiet s.state.pool := by
      intro pc hpc hwaits hthrown
      rcases h with ⟨batch, hwaiting⟩ | ⟨error, hfailed⟩ | hquiet
      · exact absurd (hpc.symm.trans hwaiting) (hwaits batch)
      · exact absurd (hpc.symm.trans hfailed) (hthrown error)
      · exact hquiet
    cases hadvance with
    | threw => exact .inr (.inl ⟨_, rfl⟩)
    | poolStarted => exact .inl ⟨_, rfl⟩
    | poolSettled hpc hpool => exact .inr (.inr (filterMap_of_mapM hpool).2)
    | batchFinished hpc =>
      refine .inr (.inr ?_)
      rcases hpc with ⟨hpc, -⟩ | ⟨hpc, -⟩ <;>
        exact hquiet _ hpc (fun _ => nofun) fun _ => nofun
    | _ hpc => exact .inr (.inr (hquiet _ hpc (fun _ => nofun) fun _ => nofun))

end Agreement

def listingConfig : LoopConfig where
  tools := [{ name := js "ls" }]

def listingCall : ToolCall := { id := js "1", name := js "ls", arguments := .emptyObject }

/-- An assistant message with that call and one of a tool that is not there. -/
def mixedCalls : AssistantMessage :=
  { content := [.toolCall listingCall,
      .toolCall { id := js "2", name := js "none", arguments := .emptyObject }]
    api := [], provider := [], model := [], usage := EMPTY_USAGE, stopReason := .toolUse
    timestamp := 0 }

/-- Preparing returns the arguments, the tool returns nothing, and the hooks do nothing. -/
def quietOutcomes : CallOutcomes where
  args := fun toolCall => .ok toolCall.arguments
  before := fun _ => .ok none
  result := fun _ => .ok ⟨[], none, none⟩
  after := fun _ => .ok none

def mixedStart (mode : ToolExecutionMode) : Traced Message where
  state := {
    context := []
    newMessages := []
    todo := []
    pc := .nextCall { message := mixedCalls, mode, rest := mixedCalls.toolCalls } }

def sequentialInputs : List (LoopInput Message) :=
  [.resumed 0, .received (.ok ()), .prepared (.ok .emptyObject) (.ok none),
    .executed (.ok ⟨[], none, none⟩), .finalized (.ok none), .received (.ok ()), .resumed 1,
    .received (.ok ()), .received (.ok ()), .resumed 1, .resumed 1, .received (.ok ()),
    .prepared (.ok .emptyObject) (.ok none), .received (.ok ()), .resumed 2, .received (.ok ()),
    .received (.ok ()), .resumed 2]

/-- The unknown tool is settled before the known one executes. -/
def parallelInputs : List (LoopInput Message) :=
  [.resumed 0, .received (.ok ()), .prepared (.ok .emptyObject) (.ok none), .resumed 0,
    .received (.ok ()), .prepared (.ok .emptyObject) (.ok none), .received (.ok ()), .resumed 0,
    .entry 0 (.executed (.ok ⟨[], none, none⟩)), .entry 0 (.finalized (.ok none) (.ok ())),
    .resumed 1, .resumed 1, .received (.ok ()), .received (.ok ()), .resumed 1,
    .received (.ok ()), .received (.ok ())]

theorem sequential_executes :
    ∃ s', Executes listingConfig quietOutcomes (mixedStart .sequential) sequentialInputs s' ∧
      s'.state.finishedBatch?.isSome = true := by
  refine ⟨_, ⟨?_, rfl⟩, rfl⟩
  repeat
    refine .cons rfl (by first | exact ⟨trivial, rfl⟩ | exact ⟨rfl, rfl⟩ | exact ⟨⟨rfl, rfl⟩, rfl⟩) ?_
  exact trivial

theorem parallel_executes :
    ∃ p', Executes listingConfig quietOutcomes (mixedStart .parallel) parallelInputs p' ∧
      p'.state.finishedBatch?.isSome = true := by
  refine ⟨_, ⟨?_, rfl⟩, rfl⟩
  repeat
    refine .cons rfl (by first | exact ⟨trivial, rfl⟩ | exact ⟨rfl, rfl⟩ | exact ⟨⟨rfl, rfl⟩, rfl⟩) ?_
  exact trivial

theorem mixedStart_startsBatch (mode : ToolExecutionMode) :
    StartsBatch mixedCalls mode (mixedStart mode) where
  todo := rfl
  pc := rfl
  quiet := nofun
  trace := rfl

end AcademicAgent
