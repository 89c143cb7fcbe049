import AcademicAgent.LeadAgent.AcademicCompaction
import AcademicAgent.LeadAgent.BlockingClarification

/-!
# Recorded outcomes

What a run records of its workflow is the last report of an acceptance check.
-/

namespace AcademicAgent.LeadAgent

open Json Resumable List Option

/-- The entry in which a run records what came of its workflow. -/
def resultEntry (options : LeadAgentRuntimeOptions) (request : LeadAgentTaskRequest)
    (plan : LeadWorkflowPlan) (execution : WorkflowExecutionResult ArtifactRef) : LeadEntry :=
  .custom (js "lead-agent.result") (record (workflowResultData (runTaskId options request)
    (synthesizeWorkflowFinalOutput plan.objective execution) plan execution))

section

variable (options : LeadAgentRuntimeOptions) (request : LeadAgentTaskRequest) (world : LeadWorld)

theorem runWorkflow_recorded (conversationContext : LeadConversationContext)
    (decision : LeadAgentDecision) (plan : LeadWorkflowPlan) (calls : List LeadCall)
    (branch : Branch) : ∃ (execution : WorkflowExecutionResult ArtifactRef) (noted : Branch),
      (executeWorkflowPlan (fun ref => some ref.id)
        ((workflowEnv options request conversationContext).after world calls)
          plan.toWorkflowPlan).2 = some execution ∧
      ((runWorkflow options request conversationContext decision plan).alone world calls
        branch).state = noted ++ [resultEntry options request plan execution] := by
  simp only [runWorkflow, alone_bind, alone_recordLeadEvent, callsOf_effect, callsOf_nil,
    append_nil, alone_awaitSettled, alone_emit, alone_recordLeadAssistantMessage, alone_pure,
    Finished.state_after]
  generalize branch ++ [_] = planned
  obtain ⟨hrun, hstate⟩ := performWorkflowPlan_alone
    (workflowEnv options request conversationContext) plan.toWorkflowPlan world calls planned
  exact ⟨_, _, hrun, rfl⟩

end

section

variable (options : LeadAgentRuntimeOptions) (request : LeadAgentTaskRequest)
  (plan : LeadWorkflowPlan) (execution : WorkflowExecutionResult ArtifactRef)

theorem customData_resultEntry :
    ∃ data, customData (resultEntry options request plan execution) (js "lead-agent.result") =
        some data ∧
      stringMember "taskId" data = some (runTaskId options request) ∧
      booleanMember "accepted" data = some (recordedAccepted execution) := by
  have hkeys : ((workflowResultData (runTaskId options request)
      (synthesizeWorkflowFinalOutput plan.objective execution) plan execution).map
        fun m => js m.1).Nodup := by
    simp only [workflowResultData, map_cons, map_nil]
    decide
  have htask : field "taskId" (record (workflowResultData (runTaskId options request)
      (synthesizeWorkflowFinalOutput plan.objective execution) plan execution)) =
        some (.str (runTaskId options request)) :=
    field_record hkeys mem_cons_self
  have haccepted : field "accepted" (record (workflowResultData (runTaskId options request)
      (synthesizeWorkflowFinalOutput plan.objective execution) plan execution)) =
        some (.bool (recordedAccepted execution)) :=
    field_record hkeys (mem_cons_of_mem _ (mem_cons_of_mem _ mem_cons_self))
  refine ⟨record (workflowResultData (runTaskId options request)
    (synthesizeWorkflowFinalOutput plan.objective execution) plan execution), ?_, ?_, ?_⟩
  · rw [resultEntry, customData, if_pos ⟨rfl, rfl⟩]
  · rw [stringMember, htask]
  · rw [booleanMember, haccepted]

theorem workflowResultFrom_resultEntry :
    ∃ summary, workflowResultFrom (resultEntry options request plan execution) = some summary ∧
      summary.accepted = recordedAccepted execution := by
  obtain ⟨data, hdata, htask, haccepted⟩ := customData_resultEntry options request plan execution
  rw [workflowResultFrom, hdata]
  simp only [some_or, bind_eq_bind, bind_some, htask, haccepted]
  exact ⟨_, rfl, rfl⟩

end

theorem recentWorkflowResults_last {branch later : Branch} {entry : LeadEntry}
    {summary : LeadWorkflowResultSummary} (hentry : workflowResultFrom entry = some summary)
    (hlater : later.filterMap workflowResultFrom = []) (sessionId objective : JsString)
    (maxChars : Nat) :
    (buildLeadConversationContext sessionId ((branch ++ [entry]) ++ later) objective
      maxChars).recentWorkflowResults.getLast? = some summary := by
  rw [buildLeadConversationContext, (recentWorkflowResults_trimForBudget _ _).1, untrimmedContext]
  rw [extractWorkflowResults, filterMap_append, filterMap_append, hlater,
    append_nil, filterMap_cons_some hentry, filterMap_nil]
  rw [getLast?_lastOf (by decide), getLast?_concat]

section

variable {env : WorkflowEnv ArtifactRef} {plan : WorkflowPlan ArtifactRef}

def WorkflowLoop.Reported (loop : WorkflowLoop ArtifactRef) : Prop :=
  loop.acceptanceReports = loop.stepResults.map (·.acceptanceReport)

theorem executeStep_reported {isLastStep : Bool} {step : WorkflowStep ArtifactRef}
    {loop next : WorkflowLoop ArtifactRef} (h : loop.Reported)
    (hstep : executeStep (fun ref => some ref.id) env plan isLastStep step loop = .ok next) :
    next.Reported := by
  rw [executeStep] at hstep
  simp only [mergeArtifactRefs_some] at hstep
  cases hstep
  rw [WorkflowLoop.Reported] at h ⊢
  rw [map_append, ← h]
  rfl

theorem executeSteps_reported {steps : List (WorkflowStep ArtifactRef)}
    {loop final : WorkflowLoop ArtifactRef} (h : loop.Reported)
    (hsteps : executeSteps (fun ref => some ref.id) env plan steps loop = .ok final) :
    final.Reported := by
  induction steps generalizing loop with
  | nil =>
    cases hsteps
    exact h
  | cons step rest ih =>
    rw [executeSteps] at hsteps
    split at hsteps
    · cases hsteps
    · next next hstep =>
      have hnext := executeStep_reported h hstep
      split at hsteps
      · exact ih hnext hsteps
      · cases hsteps
        exact hnext

theorem executeWorkflowPlan_reported {execution : WorkflowExecutionResult ArtifactRef}
    (h : (executeWorkflowPlan (fun ref => some ref.id) env plan).2 = some execution) :
    execution.acceptanceReports = execution.stepResults.map (·.acceptanceReport) := by
  rw [executeWorkflowPlan] at h
  split at h
  · cases h
  · next loop hsteps =>
    cases h
    refine executeSteps_reported ?_ hsteps
    unfold WorkflowLoop.Reported
    rfl

end

section

variable {α κ : Type} [DecidableEq κ] {key : α → κ} {earlier more : List (WorkflowStepResult α)}
  {steps : List (WorkflowStep α)} {accepted : Bool}

theorem StepsRecorded.accepted_eq (h : StepsRecorded key earlier steps more accepted) :
    accepted = (more.getLast?.map (·.passed)).getD true := by
  induction h with
  | done => rfl
  | stop recorded failed => exact failed.symm
  | @next earlier step rest r more accepted recorded passed later ih =>
    cases more with
    | nil =>
      rw [ih]
      exact passed.symm
    | cons r' more =>
      rw [getLast?_cons_cons]
      exact ih

theorem StepsRecorded.passed_of_mem_dropLast
    (h : StepsRecorded key earlier steps more accepted) : ∀ r ∈ more.dropLast, r.passed = true := by
  induction h with
  | done | stop => exact fun _ hr => by cases hr
  | @next earlier step rest r more accepted recorded passed later ih =>
    cases more with
    | nil => exact fun _ hr => by cases hr
    | cons r' more =>
      rw [dropLast_cons_cons]
      exact forall_mem_cons.mpr ⟨passed, ih⟩

end

/-- A result that the acceptance check accepts although it has a blocking question. -/
def Attempt.acceptedAsking (attempt : Attempt ArtifactRef) : Bool :=
  attempt.report.accepted && hasBlockingOpenQuestion attempt.result

section

variable {env : WorkflowEnv ArtifactRef} {plan : WorkflowPlan ArtifactRef}
  {done : Execution ArtifactRef} {execution : WorkflowExecutionResult ArtifactRef}

theorem recordedAccepted_eq_iff
    (h : (executeWorkflowPlan (fun ref => some ref.id) env plan).2 = some execution) :
    recordedAccepted execution = execution.accepted ↔
      ∀ last, execution.stepResults.getLast? = some last →
        ¬ (last.acceptanceReport.accepted = true ∧
          hasBlockingOpenQuestion last.workerResult = true) := by
  have haccepted := (executeWorkflowPlan_recorded env plan h).accepted_eq
  rw [recordedAccepted, executeWorkflowPlan_reported h, getLast?_map, haccepted]
  cases hlast : execution.stepResults.getLast? with
  | none =>
    refine iff_of_true rfl ?_
    intro last hsome
    cases hsome
  | some last =>
    simp only [map_some, getD_some, WorkflowStepResult.passed, some.injEq,
      forall_eq']
    cases last.acceptanceReport.accepted <;>
      cases hasBlockingOpenQuestion last.workerResult <;> simp

theorem exists_acceptedAsking_iff
    (hrun : executeWorkflowPlan (fun ref => some ref.id) env plan = (done, some execution)) :
    (∃ attempt ∈ done.calls, attempt.acceptedAsking = true) ↔
      ∃ last, execution.stepResults.getLast? = some last ∧ last.acceptanceReport.accepted = true ∧
          hasBlockingOpenQuestion last.workerResult = true := by
  obtain ⟨done', execution', hrun', hdisciplined⟩ := executeWorkflowPlan_disciplined env plan
  cases hrun.symm.trans hrun'
  have hsteps := executeWorkflowPlan_recorded env plan (congrArg Prod.snd hrun)
  rw [hdisciplined.calls_eq]
  constructor
  · rintro ⟨attempt, hattempt, hasks⟩
    rw [Attempt.acceptedAsking, Bool.and_eq_true] at hasks
    obtain ⟨r, hr, hmem⟩ := mem_flatMap.mp hattempt
    obtain ⟨-, -, hretried, last, hlast, hresult, hreport⟩ := hdisciplined.attempts r hr
    have hattempts := dropLast_append_getLast? last hlast
    rw [← hattempts, mem_append, mem_singleton] at hmem
    rcases hmem with hmem | rfl
    · rw [(hretried attempt hmem).1] at hasks
      cases hasks.1
    · rw [hresult, hreport] at hasks
      obtain ⟨final, hfinal⟩ : ∃ final, execution.stepResults.getLast? = some final :=
        ⟨_, getLast?_eq_some_getLast (ne_nil_of_mem hr)⟩
      have hresults := dropLast_append_getLast? final hfinal
      rw [← hresults, mem_append, mem_singleton] at hr
      rcases hr with hr | rfl
      · have hpassed := hsteps.passed_of_mem_dropLast r hr
        rw [WorkflowStepResult.passed, hasks.2] at hpassed
        simp at hpassed
      · exact ⟨r, hfinal, hasks⟩
  · rintro ⟨final, hfinal, hasks⟩
    have hr : final ∈ execution.stepResults := mem_of_getLast? hfinal
    obtain ⟨-, -, -, last, hlast, hresult, hreport⟩ := hdisciplined.attempts final hr
    refine ⟨last, mem_flatMap.mpr ⟨final, hr, mem_of_getLast? hlast⟩, ?_⟩
    rw [Attempt.acceptedAsking, hresult, hreport, hasks.1, hasks.2]
    rfl

end

/-- A run that executes the workflow of a plan: the plan in place of the one it obtains. -/
structure RunsWorkflow (options : LeadAgentRuntimeOptions) (request : LeadAgentTaskRequest)
    (world : LeadWorld) (branch : Branch) (plan : LeadWorkflowPlan) : Prop where
  planned : request.dispatchMode ≠ some .direct
  obtained : ∃ planned, obtainedPlan options request world branch = some planned ∧
    planInPlaceOf options request planned = plan
  unasked : plan.requiresClarification.filter (·.blocksExecution) = none
  mode_eq : plan.mode = .workflow

/-- The record of an execution is its outcome: the flag in the last entry of the branch, and
what later contexts report while no other result is recorded. -/
structure RecordsOutcome (plan : WorkflowPlan ArtifactRef)
    (execution : WorkflowExecutionResult ArtifactRef) (branch : Branch) : Prop where
  stored : (branch.getLast?.bind (customData · (js "lead-agent.result"))).bind
    (booleanMember "accepted") = some execution.accepted
  remembered : ∀ later : Branch, later.filterMap workflowResultFrom = [] →
    ∀ sessionId objective maxChars summary,
      (buildLeadConversationContext sessionId (branch ++ later) objective
        maxChars).recentWorkflowResults.getLast? = some summary → summary.accepted = true →
      execution.stepResults.length = plan.steps.length ∧ ∀ r ∈ execution.stepResults,
        r.acceptanceReport.accepted = true ∧ hasBlockingOpenQuestion r.workerResult = false

theorem workflowEnv_after (options : LeadAgentRuntimeOptions) (request : LeadAgentTaskRequest)
    (world : LeadWorld) (conversationContext : LeadConversationContext) {calls : List LeadCall}
    (h : workerCount calls = 0) :
    (workflowEnv options request conversationContext).after world calls =
      workflowEnv options request conversationContext world.workerRunner := by
  simp only [WorkflowEnv.after, workflowEnv, h, Nat.zero_add]

theorem RunsWorkflow.state_eq {options : LeadAgentRuntimeOptions}
    {request : LeadAgentTaskRequest} {world : LeadWorld} {branch : Branch}
    {plan : LeadWorkflowPlan} (h : RunsWorkflow options request world branch plan) :
    ∃ (execution : WorkflowExecutionResult ArtifactRef) (before : Branch),
      (executeWorkflowPlan (fun ref => some ref.id)
        (workflowEnv options request (runContext options request branch) world.workerRunner)
          plan.toWorkflowPlan).2 = some execution ∧
      ((runImpl options request).alone world [] branch).state =
        before ++ [resultEntry options request plan execution] := by
  obtain ⟨planned, hobtained, hplan⟩ := h.obtained
  obtain ⟨noted, calls, log, hcount, -, hrun⟩ := runImpl_alone h.planned hobtained
  obtain ⟨execution, before, hexecution, hstate⟩ := runWorkflow_recorded options request world
    (runContext options request branch)
    (decisionForWorkflowPlan plan (runDecision options request)) plan calls noted
  rw [workflowEnv_after options request world _ hcount] at hexecution
  refine ⟨execution, before, hexecution, ?_⟩
  rw [hrun, hplan]
  dsimp only
  rw [carryOutPlan, h.unasked, h.mode_eq]
  exact hstate

section

variable (options : LeadAgentRuntimeOptions) (request : LeadAgentTaskRequest)

theorem stored_iff
    (plan : LeadWorkflowPlan) (execution : WorkflowExecutionResult ArtifactRef) (before : Branch) :
    ((before ++ [resultEntry options request plan execution]).getLast?.bind
        (customData · (js "lead-agent.result"))).bind (booleanMember "accepted") =
          some execution.accepted ↔
      recordedAccepted execution = execution.accepted := by
  obtain ⟨data, hdata, -, haccepted⟩ := customData_resultEntry options request plan execution
  rw [getLast?_concat, bind_some, hdata, bind_some, haccepted, some.injEq]

/-- A run that executes a workflow records its outcome exactly when no worker of it returns a
result that is accepted with a blocking question. -/
theorem recorded_outcome_iff (world : LeadWorld) (branch : Branch) {plan : LeadWorkflowPlan}
    (h : RunsWorkflow options request world branch plan) :
    ∃ done execution, executeWorkflowPlan (fun ref => some ref.id)
        (workflowEnv options request (runContext options request branch) world.workerRunner)
          plan.toWorkflowPlan = (done, some execution) ∧
      (RecordsOutcome plan.toWorkflowPlan execution
          ((runImpl options request).alone world [] branch).state ↔
        ∀ attempt ∈ done.calls, attempt.acceptedAsking = false) := by
  obtain ⟨execution', before, hexecution, hfinal⟩ := h.state_eq
  obtain ⟨done, execution, hrun, hdisciplined⟩ := executeWorkflowPlan_disciplined
    (workflowEnv options request (runContext options request branch) world.workerRunner)
    plan.toWorkflowPlan
  have hsame : execution = execution' := by
    rw [hrun] at hexecution
    exact Option.some.inj hexecution
  subst hsame
  refine ⟨done, execution, hrun, ?_⟩
  have hrecorded : recordedAccepted execution = execution.accepted ↔
      ∀ attempt ∈ done.calls, attempt.acceptedAsking = false := by
    rw [recordedAccepted_eq_iff hexecution]
    constructor
    · intro hnone attempt hattempt
      refine Bool.eq_false_iff.mpr fun haccepts => ?_
      obtain ⟨last, hlast, hasks⟩ :=
        (exists_acceptedAsking_iff hrun).mp ⟨attempt, hattempt, haccepts⟩
      exact hnone last hlast hasks
    · intro hnone last hlast hasks
      obtain ⟨attempt, hattempt, haccepts⟩ :=
        (exists_acceptedAsking_iff hrun).mpr ⟨last, hlast, hasks⟩
      rw [hnone attempt hattempt] at haccepts
      cases haccepts
  rw [← hrecorded, hfinal]
  constructor
  · intro hrecords
    exact (stored_iff options request plan execution before).mp hrecords.stored
  · intro hflag
    refine ⟨(stored_iff options request plan execution before).mpr hflag, ?_⟩
    intro later hlater sessionId objective maxChars summary hsummary haccepted
    obtain ⟨read, hread, hreadFlag⟩ :=
      workflowResultFrom_resultEntry options request plan execution
    rw [recentWorkflowResults_last hread hlater] at hsummary
    cases hsummary
    rw [hreadFlag, hflag] at haccepted
    exact hdisciplined.accepted_iff.mp haccepted

end

def reviewPlan : LeadWorkflowPlan where
  taskId := js "t"
  sessionId := none
  steps := [plainStep]
  objective := js "o"
  rationale := []
  userVisibleSummary := []
  mode := .workflow
  stopConditions := []

/-- A planner of the one step, and workers that succeed with some questions. -/
def reviewWorld (openQuestions : List WorkerOpenQuestion) : LeadWorld where
  planner _ := .ok reviewPlan
  directRunner _ _ := .ok (js "done")
  workerRunner _ request := .ok {
    taskId := request.taskId
    status := .success
    summary := js "done"
    producedArtifacts := []
    warnings := []
    openQuestions := openQuestions }

theorem runsWorkflow_review (openQuestions : List WorkerOpenQuestion) :
    RunsWorkflow reviewerOptions { objective := js "o" } (reviewWorld openQuestions) []
      reviewPlan :=
  ⟨by decide, ⟨reviewPlan, rfl, rfl⟩, rfl, rfl⟩

/-- A run without questions. -/
theorem recorded_outcome_review : ∃ done execution, executeWorkflowPlan (fun ref => some ref.id)
        (workflowEnv reviewerOptions { objective := js "o" }
          (runContext reviewerOptions { objective := js "o" } []) (reviewWorld []).workerRunner)
          reviewPlan.toWorkflowPlan = (done, some execution) ∧
      (RecordsOutcome reviewPlan.toWorkflowPlan execution
          ((runImpl reviewerOptions { objective := js "o" }).alone (reviewWorld []) [] []).state ↔
        ∀ attempt ∈ done.calls, attempt.acceptedAsking = false) :=
  recorded_outcome_iff reviewerOptions { objective := js "o" } (reviewWorld []) []
    (runsWorkflow_review [])

/-- A run that is recorded as accepted although its worker asked a blocking question. -/
theorem recorded_outcome_differs :
    ¬ ∀ (options : LeadAgentRuntimeOptions) (request : LeadAgentTaskRequest) (world : LeadWorld)
      (branch : Branch) (plan : LeadWorkflowPlan),
      RunsWorkflow options request world branch plan →
      ∃ done execution, executeWorkflowPlan (fun ref => some ref.id)
          (workflowEnv options request (runContext options request branch) world.workerRunner)
            plan.toWorkflowPlan = (done, some execution) ∧
        RecordsOutcome plan.toWorkflowPlan execution
          ((runImpl options request).alone world [] branch).state := by
  intro h
  let question : WorkerOpenQuestion :=
    { question := js "which journal?", blocksExecution := some true }
  have hruns := runsWorkflow_review [question]
  obtain ⟨done, execution, hrun, hrecords⟩ := h _ _ _ _ _ hruns
  obtain ⟨execution', before, hexecution, hfinal⟩ := hruns.state_eq
  rw [hrun] at hexecution
  cases hexecution
  have hstored := hrecords.stored
  rw [hfinal, stored_iff] at hstored
  have hordered : orderedSteps reviewPlan.toWorkflowPlan = [plainStep] :=
    mergeSort_singleton _
  rw [executeWorkflowPlan, hordered] at hrun
  cases congrArg Prod.snd hrun
  exact absurd hstored (by decide)

end AcademicAgent.LeadAgent
