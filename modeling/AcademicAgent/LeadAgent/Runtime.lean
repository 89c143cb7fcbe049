import AcademicAgent.Core.Resumable
import AcademicAgent.LeadAgent.Synthesis

/-!
# The lead-agent runtime

A run appends the objective to the session, plans, and then asks the user, answers directly or
executes the workflow; what came of it is appended to the session.
-/

namespace AcademicAgent.LeadAgent

open Json Resumable

inductive LeadAgentPlannerSource where
  | llm
  | heuristic
  | fallback
  | custom
  deriving DecidableEq

structure PlannerValidationError where
  finalFailureReason : JsString
  firstErrors : List JsString
  secondErrors : List JsString
  repairAttempted : Bool
  deriving DecidableEq

inductive PlannerFailure where
  | validation (error : PlannerValidationError)
  | other (message : JsString)

/-- The events of a run, without the ids of its task and session. -/
inductive LeadAgentRunEvent where
  | plannerStart (objectivePreview : JsString)
  | plannerComplete (mode : WorkflowPlanMode) (stepProfiles : List JsString)
      (userVisibleSummary : JsString) (plannerSource : LeadAgentPlannerSource)
      (fallbackReason : Option JsString)
  | plannerError (error : PlannerValidationError)
  | plannerFallback (error : PlannerValidationError)
  | planSummary (mode : WorkflowPlanMode) (stepCount : Nat) (summary : JsString)
  | clarificationRequired (clarification : WorkflowClarification)
  | synthesisStart (acceptedArtifactCount rejectedStepCount : Nat)
  | synthesisComplete (finalOutputLength acceptedArtifactCount rejectedStepCount : Nat)
  | sessionMemoryUpdated (artifactKinds : List JsString) (issueCount : Nat)
      (hasWorkflowPlanSummary : Bool)
  | workflowStart (stepProfiles : List JsString)
  | workflowComplete (accepted : Bool) (stepCount : Nat) (producedArtifactKinds : List JsString)
  | workflowStepStart (stepId : JsString) (attempt : Nat)
  | workflowStepRetry (stepId : JsString) (attempt : Nat)
  | workflowStepComplete (stepId : JsString) (accepted : Bool) (decision : StepDecisionKind)
      (question : Option JsString)
  | workerStart (stepId : JsString) (attempt : Nat)
  | workerComplete (stepId : JsString) (status : WorkerResultStatus)
  | artifactCreated (stepId artifactId artifactKind : JsString)
  | acceptanceStart (stepId : JsString)
  | acceptanceComplete (stepId : JsString) (accepted : Bool) (issueCount : Nat)
  /-- What a planner, a direct runner or a worker reports while it runs. -/
  | reported (event : Tree)
  deriving DecidableEq

inductive LeadEffect where
  | append (entry : LeadEntry)
  | emit (event : LeadAgentRunEvent)
  deriving DecidableEq

/-- What a run awaits: a call of its surroundings, the heuristic planner, or a part of
itself that has settled. -/
inductive LeadCall where
  | plan (input : LeadTaskPlanningInput)
  | direct (request : LeadAgentTaskRequest) (context : LeadConversationContext)
  | worker (request : WorkerRequest ArtifactRef)
  | heuristicPlan
  | settled

abbrev LeadAnswer : LeadCall → Type
  | .plan _ => Except PlannerFailure LeadWorkflowPlan
  | .direct _ _ => Except JsString JsString
  | .worker _ => Except JsString (WorkerResult ArtifactRef)
  | .heuristicPlan | .settled => Unit

/-- A part of a run over the branch of the session. -/
abbrev LeadProgram := Resumable Branch LeadEffect LeadCall LeadAnswer

def applyLeadEffect (branch : Branch) : LeadEffect → Branch
  | .append entry => branch ++ [entry]
  | .emit _ => branch

def append (entry : LeadEntry) : LeadProgram Unit := effect (.append entry)

def emit (event : LeadAgentRunEvent) : LeadProgram Unit := effect (.emit event)

def askPlanner (input : LeadTaskPlanningInput) :
    LeadProgram (Except PlannerFailure LeadWorkflowPlan) :=
  .await (.plan input) .done

def askDirectRunner (request : LeadAgentTaskRequest) (context : LeadConversationContext) :
    LeadProgram (Except JsString JsString) :=
  .await (.direct request context) .done

def askWorker (request : WorkerRequest ArtifactRef) :
    LeadProgram (Except JsString (WorkerResult ArtifactRef)) :=
  .await (.worker request) .done

def awaitHeuristicPlan : LeadProgram Unit := .await .heuristicPlan .done

def awaitSettled : LeadProgram Unit := .await .settled .done

section

variable (env : WorkflowEnv ArtifactRef) (plan : WorkflowPlan ArtifactRef)

def attemptRequest (request : WorkerRequest ArtifactRef) (attempt maxAttempts : Nat)
    (previous : Option AcceptanceReport) : WorkerRequest ArtifactRef :=
  { request with
    attemptContext := some {
      attempt := attempt
      maxAttempts := maxAttempts
      previousIssues := previous.map (·.issues)
      previousFailureReason := previous.map failureReason } }

def workerResultOf (request : WorkerRequest ArtifactRef)
    (answer : Except JsString (WorkerResult ArtifactRef)) : WorkerResult ArtifactRef :=
  match answer with
  | .ok result => result
  | .error message => createFailedWorkerResult request.taskId message

/-- One attempt of a step, the worker's call with its number and the check. -/
def attemptStep (step : WorkflowStep ArtifactRef) (request : WorkerRequest ArtifactRef)
    (attempt maxAttempts : Nat) (previous : Option AcceptanceReport) (call : Nat) :
    LeadProgram (Attempt ArtifactRef) := do
  let request := attemptRequest request attempt maxAttempts previous
  emit (.workflowStepStart step.id attempt)
  emit (.workerStart step.id attempt)
  let answer ← askWorker request
  let result := workerResultOf request answer
  emit (.workerComplete step.id result.status)
  effects (result.producedArtifacts.map fun artifact =>
    .emit (.artifactCreated step.id artifact.id artifact.kind))
  emit (.acceptanceStart step.id)
  let report := env.createLeadAcceptanceReport call request result
  emit (.acceptanceComplete step.id report.accepted report.issues.length)
  return { request, result, report }

/-- The attempts of a step, as `runAttempts` makes them. -/
def attemptStepUntilSettled (step : WorkflowStep ArtifactRef)
    (request : WorkerRequest ArtifactRef) (maxAttempts : Nat) :
    Nat → Option AcceptanceReport → Execution ArtifactRef →
      LeadProgram (List (Attempt ArtifactRef) × Attempt ArtifactRef × Execution ArtifactRef)
  | 0, previous, execution => do
    let attempt ← attemptStep env step request maxAttempts maxAttempts previous
      execution.calls.length
    return ([], attempt, execution.call attempt)
  | left + 1, previous, execution => do
    let attempt ← attemptStep env step request (maxAttempts - (left + 1)) maxAttempts previous
      execution.calls.length
    if attempt.report.accepted || hasBlockingOpenQuestion attempt.result then
      return ([], attempt, execution.call attempt)
    else
      emit (.workflowStepRetry step.id (maxAttempts - (left + 1)))
      let rest ← attemptStepUntilSettled step request maxAttempts left (some attempt.report)
        ((execution.call attempt).write (workflowLogPath env.rootDir))
      return (attempt :: rest.1, rest.2)

section

variable (isLastStep : Bool) (step : WorkflowStep ArtifactRef)

def recordStep (request : WorkerRequest ArtifactRef) (loop : WorkflowLoop ArtifactRef)
    (ran : List (Attempt ArtifactRef) × Attempt ArtifactRef × Execution ArtifactRef) :
    WorkflowLoop ArtifactRef :=
  let result := ran.2.1.result
  let report := ran.2.1.report
  let stepBriefs := result.artifactBriefs.getD []
  let decision := decisionFor isLastStep result report
  { execution := (((ran.2.2.write (stepFile env plan step "worker-result.json")).write
      (stepFile env plan step "artifact-briefs.json")).write
        (stepFile env plan step "acceptance-report.json")).write (workflowLogPath env.rootDir)
    stepResults := loop.stepResults ++ [{
      step
      workerRequest := request
      workerResult := result
      artifactBriefs := stepBriefs
      acceptanceReport := report
      decision
      attempts := ran.1 ++ [ran.2.1] }]
    acceptanceReports := loop.acceptanceReports ++ [report]
    carriedArtifacts := mergeByKey (·.id) (loop.carriedArtifacts ++ result.producedArtifacts)
    artifactBriefs := loop.artifactBriefs ++ stepBriefs
    accepted := report.accepted && decision.kind != .askUser }

/-- One step, as `executeStep` runs it; the references have ids. -/
def performStep (loop : WorkflowLoop ArtifactRef) : LeadProgram (WorkflowLoop ArtifactRef) := do
  let inputArtifacts := mergeByKey (·.id) (step.inputArtifactRefs ++ loop.carriedArtifacts)
  let request := workerRequestForStep env plan step inputArtifacts
    (env.contextMetadata step inputArtifacts loop.stepResults loop.artifactBriefs)
  let requested := loop.execution.write (stepFile env plan step "worker-request.json")
  let maxAttempts := maxAttemptsForRequest request
  let ran ← attemptStepUntilSettled env step request maxAttempts (maxAttempts - 1) none requested
  let report := ran.2.1.report
  let decision := decisionFor isLastStep ran.2.1.result report
  emit (.workflowStepComplete step.id report.accepted decision.kind decision.question)
  return recordStep env plan isLastStep step request loop ran

end

/-- The steps, as `executeSteps` runs them. -/
def performSteps : List (WorkflowStep ArtifactRef) → WorkflowLoop ArtifactRef →
    LeadProgram (WorkflowLoop ArtifactRef)
  | [], loop => .done loop
  | step :: rest, loop => do
    let loop ← performStep env plan rest.isEmpty step loop
    if loop.accepted then performSteps rest loop else .done loop

def startedExecution : Execution ArtifactRef :=
  (({} : Execution ArtifactRef).write
    (taskJsonPath env.rootDir plan.taskId (js "workflow-plan.json"))).write
      (workflowLogPath env.rootDir)

def executionResult (loop : WorkflowLoop ArtifactRef) : WorkflowExecutionResult ArtifactRef where
  taskId := plan.taskId
  sessionId := plan.sessionId
  accepted := loop.accepted
  stepResults := loop.stepResults
  artifactBriefs := loop.artifactBriefs
  producedArtifacts := loop.carriedArtifacts
  acceptanceReports := loop.acceptanceReports

def performWorkflowPlan : LeadProgram (WorkflowExecutionResult ArtifactRef) := do
  emit (.workflowStart ((orderedSteps plan).map (·.profileId)))
  let loop ← performSteps env plan (orderedSteps plan) { execution := startedExecution env plan }
  emit (.workflowComplete loop.accepted loop.stepResults.length
    (loop.carriedArtifacts.map (·.kind)))
  return executionResult plan loop

end

structure LeadAgentResult where
  taskId : JsString
  finalOutput : JsString
  decision : LeadAgentDecision
  clarification : Option WorkflowClarification := none
  workflowPlan : LeadWorkflowPlan
  artifactBriefs : List ArtifactBrief := []
  acceptanceReport : Option AcceptanceReport := none
  workerResult : Option (WorkerResult ArtifactRef) := none

/-- What a runtime is made with; the environment of a workflow is made for each run, and the
models and tools of the direct runner are its own. -/
structure LeadAgentRuntimeOptions where
  toLowerCase : JsString → JsString
  profiles : List WorkerProfile
  sessionId : JsString
  rootDir : JsString
  /-- The task id of a request without one, from the time. -/
  defaultTaskId : JsString
  plannerSource : LeadAgentPlannerSource
  confirmPlan : Bool := false
  contextMetadata : LeadAgentTaskRequest → LeadConversationContext → WorkflowStep ArtifactRef →
    List ArtifactRef → List (WorkflowStepResult ArtifactRef) → List ArtifactBrief → JsonObject
  createLeadAcceptanceReport : Nat → WorkerRequest ArtifactRef → WorkerResult ArtifactRef →
    AcceptanceReport

section

variable (options : LeadAgentRuntimeOptions) (request : LeadAgentTaskRequest)

section

variable (conversationContext : LeadConversationContext)

/-- The environment of the workflow of a run; the workers are those that the run calls. -/
def workflowEnv (workerRunner : Nat → WorkerRequest ArtifactRef →
      Except JsString (WorkerResult ArtifactRef) := fun _ _ => .error []) :
    WorkflowEnv ArtifactRef where
  rootDir := options.rootDir
  profiles := options.profiles
  constraints := request.constraints.getD []
  contextMetadata := options.contextMetadata request conversationContext
  workerRunner := workerRunner
  createLeadAcceptanceReport := options.createLeadAcceptanceReport

def runTaskId : JsString := request.taskId.getD options.defaultTaskId

def textMessage (text : JsString) : Tree :=
  .arr [record [("type", some (.str (js "text"))), ("text", some (.str text))]]

def recordLeadEvent (customType : String) (data : List (String × Option Tree)) : LeadProgram Unit :=
  append (.custom (js customType) (record data))

def recordLeadAssistantMessage (finalOutput : JsString) : LeadProgram Unit :=
  append (.message .assistant (textMessage finalOutput))

/-- A string, or `null`. -/
def orNull (s : Option JsString) : Tree := (s.map .str).getD .null

def DecisionMode.text : DecisionMode → JsString
  | .direct => js "direct"
  | .worker => js "worker"

def WorkflowPlanMode.text : WorkflowPlanMode → JsString
  | .direct => js "direct"
  | .workflow => js "workflow"

def emitPlanSummary (plan : LeadWorkflowPlan) : LeadProgram Unit :=
  emit (.planSummary plan.mode plan.steps.length plan.userVisibleSummary)

def objectivePreview (objective : JsString) : JsString :=
  if objective.length ≤ 160 then objective else objective.take 157 ++ js "..."

def Severity.text : Severity → JsString
  | .info => js "info"
  | .warning => js "warning"
  | .error => js "error"

def artifactRefJson (artifact : ArtifactRef) : Tree :=
  record [("id", some (.str artifact.id)), ("kind", some (.str artifact.kind)),
    ("uri", some (.str artifact.uri)), ("title", (nonEmpty artifact.title).map .str),
    ("mediaType", (nonEmpty artifact.mediaType).map .str),
    ("version", (nonEmpty artifact.version).map .str),
    ("metadata", artifact.metadata.map .obj)]

def artifactBriefJson (brief : ArtifactBrief) : Tree :=
  record [("artifactId", some (.str brief.artifactId)), ("kind", some (.str brief.kind)),
    ("brief", some (.str brief.brief)), ("title", (nonEmpty brief.title).map .str),
    ("keyFindings", brief.keyFindings.map stringsTree),
    ("limitations", brief.limitations.map stringsTree)]

def acceptanceIssueJson (issue : AcceptanceIssue) : Tree :=
  record [("code", some (.str issue.code)), ("severity", some (.str issue.severity.text)),
    ("message", some (.str issue.message)), ("artifactId", (nonEmpty issue.artifactId).map .str)]

def acceptanceIssueSummary (reports : List AcceptanceReport) : List Tree :=
  reports.flatMap fun report => report.issues.map acceptanceIssueJson

def stepResultJson (result : WorkflowStepResult ArtifactRef) : Tree :=
  record [("stepId", some (.str result.step.id)), ("profileId", some (.str result.step.profileId)),
    ("accepted", some (.bool result.acceptanceReport.accepted)),
    ("producedArtifactKinds",
      some (stringsTree (result.workerResult.producedArtifacts.map (·.kind)))),
    ("issueCodes", some (stringsTree (result.acceptanceReport.issues.map (·.code))))]

/-- The flag of a workflow that is recorded in the session. -/
def recordedAccepted (execution : WorkflowExecutionResult ArtifactRef) : Bool :=
  (execution.acceptanceReports.getLast?.map (·.accepted)).getD execution.accepted

def workflowResultData (taskId finalOutput : JsString) (plan : LeadWorkflowPlan)
    (execution : WorkflowExecutionResult ArtifactRef) : List (String × Option Tree) :=
  [("taskId", some (.str taskId)), ("finalOutput", some (.str finalOutput)),
    ("accepted", some (.bool (recordedAccepted execution))),
    ("producedArtifacts", some (.arr (execution.producedArtifacts.map artifactRefJson))),
    ("artifactBriefs", some (.arr (execution.artifactBriefs.map artifactBriefJson))),
    ("issues", some (.arr (acceptanceIssueSummary execution.acceptanceReports))),
    ("workflowPlanSummary", some (record [("mode", some (.str plan.mode.text)),
      ("stepCount", some (.num (.ofInt plan.steps.length))),
      ("stepProfiles", some (stringsTree (plan.steps.map (·.profileId))))])),
    ("stepResultsSummary", some (.arr (execution.stepResults.map stepResultJson)))]

def rejectedStepCount (execution : WorkflowExecutionResult ArtifactRef) : Nat :=
  (rejectedStepResults execution).length

/-- Answer directly: `synthesizeDirect` with what both direct paths do around it. -/
def runDirectly (decision : LeadAgentDecision)
    (plan : LeadWorkflowPlan) : LeadProgram (Except JsString LeadAgentResult) := do
  emit (.synthesisStart 0 0)
  let answer ← askDirectRunner request conversationContext
  match answer with
  | .error message => return .error message
  | .ok finalOutput =>
    awaitSettled
    emit (.synthesisComplete finalOutput.length 0 0)
    recordLeadAssistantMessage finalOutput
    recordLeadEvent "lead-agent.result" [("taskId", some (.str (runTaskId options request))),
      ("finalOutput", some (.str finalOutput)), ("accepted", some (.bool true))]
    emit (.sessionMemoryUpdated [] 0 false)
    return .ok {
      taskId := runTaskId options request
      finalOutput, decision
      workflowPlan := plan }

/-- The plan of a run with its source: the planner's, or the heuristic one when the planner
fails its validation. -/
def obtainPlan :
    LeadProgram (Except JsString (LeadWorkflowPlan × LeadAgentPlannerSource × Option JsString)) := do
  let input := createLeadTaskPlanningInput request (runTaskId options request) options.sessionId
    conversationContext
  emit (.plannerStart (objectivePreview request.objective))
  let answer ← askPlanner input
  match answer with
  | .ok plan => return .ok (plan, options.plannerSource, none)
  | .error (.other message) => return .error message
  | .error (.validation error) =>
    emit (.plannerError error)
    emit (.plannerFallback error)
    awaitHeuristicPlan
    return .ok (createHeuristicWorkflowPlan options.toLowerCase input options.profiles,
      .fallback, some error.finalFailureReason)

end

section

variable (decision : LeadAgentDecision) (plan : LeadWorkflowPlan)

/-- The plan that is followed, and the note of an override. -/
def followedPlan :
    LeadProgram LeadWorkflowPlan := do
  if overridesPlan request decision plan then
    recordLeadEvent "lead-agent.planner_override"
      [("taskId", some (.str (runTaskId options request))),
        ("requestedProfileId", some (orNull request.profileId)),
        ("plannedMode", some (.str plan.mode.text)),
        ("plannedStepProfileIds", some (stringsTree (plan.steps.map (·.profileId)))),
        ("reason", some (.str (js "Explicit profileId was not present in planner output; " ++
          js "falling back to a single-step workflow.")))]
    return createSingleStepWorkflowPlan (runTaskId options request) options.sessionId request
      decision options.profiles
  else return plan

def runClarification
    (clarification : WorkflowClarification) : LeadProgram (Except JsString LeadAgentResult) := do
  emit (.clarificationRequired clarification)
  recordLeadAssistantMessage clarification.question
  recordLeadEvent "lead-agent.clarification" [("taskId", some (.str (runTaskId options request))),
    ("question", some (.str clarification.question)),
    ("reason", some (.str clarification.reason)),
    ("blocksExecution", some (.bool clarification.blocksExecution))]
  return .ok {
    taskId := runTaskId options request
    finalOutput := clarification.question
    decision
    clarification := some clarification
    workflowPlan := plan }

end

section

variable (conversationContext : LeadConversationContext)

/-- Execute the workflow and record what came of it. -/
def runWorkflow (decision : LeadAgentDecision)
    (plan : LeadWorkflowPlan) : LeadProgram (Except JsString LeadAgentResult) := do
  recordLeadEvent "lead-agent.workflow_plan" [("taskId", some (.str (runTaskId options request))),
    ("mode", some (.str plan.mode.text)), ("stepCount", some (.num (.ofInt plan.steps.length))),
    ("confirmPlan", some (.bool options.confirmPlan))]
  let execution ← performWorkflowPlan (workflowEnv options request conversationContext)
    plan.toWorkflowPlan
  awaitSettled
  let rejectedSteps := rejectedStepCount execution
  emit (.synthesisStart execution.producedArtifacts.length rejectedSteps)
  let finalOutput := synthesizeWorkflowFinalOutput plan.objective execution
  emit (.synthesisComplete finalOutput.length execution.producedArtifacts.length rejectedSteps)
  recordLeadAssistantMessage finalOutput
  recordLeadEvent "lead-agent.result"
    (workflowResultData (runTaskId options request) finalOutput plan execution)
  emit (.sessionMemoryUpdated (execution.producedArtifacts.map (·.kind))
    (acceptanceIssueSummary execution.acceptanceReports).length true)
  return .ok {
    taskId := runTaskId options request
    finalOutput, decision
    workflowPlan := plan
    artifactBriefs := execution.artifactBriefs
    acceptanceReport := execution.acceptanceReports.getLast?
    workerResult := execution.stepResults.getLast?.map (·.workerResult) }

/-- Ask, answer directly or execute the workflow, as a plan says. -/
def carryOutPlan (workflowDecision : LeadAgentDecision) (plan : LeadWorkflowPlan) :
    LeadProgram (Except JsString LeadAgentResult) :=
  match plan.requiresClarification.filter (·.blocksExecution) with
  | some clarification => runClarification options request workflowDecision plan clarification
  | none =>
    match plan.mode with
    | .direct => runDirectly options request conversationContext workflowDecision plan
    | .workflow => runWorkflow options request conversationContext workflowDecision plan

def runPlan (decision : LeadAgentDecision)
    (planned : LeadWorkflowPlan × LeadAgentPlannerSource × Option JsString) :
    LeadProgram (Except JsString LeadAgentResult) := do
  let plan ← followedPlan options request decision planned.1
  emit (.plannerComplete plan.mode ((orderedSteps plan.toWorkflowPlan).map (·.profileId))
    plan.userVisibleSummary planned.2.1 planned.2.2)
  emitPlanSummary plan
  carryOutPlan options request conversationContext (decisionForWorkflowPlan plan decision) plan

end

def recordDecision (decision : LeadAgentDecision) : LeadProgram Unit :=
  recordLeadEvent "lead-agent.decision" [("taskId", some (.str (runTaskId options request))),
    ("mode", some (.str decision.mode.text)), ("workerType", some (orNull decision.workerType)),
    ("profileId", some (orNull decision.profileId)), ("reason", some (.str decision.reason))]

def runImpl : LeadProgram (Except JsString LeadAgentResult) := do
  append (.message .user (textMessage request.objective))
  let branch ← state
  let conversationContext := buildLeadConversationContext options.sessionId branch
    request.objective
  let decision := planLeadAgentTask options.toLowerCase request options.profiles
  recordDecision options request decision
  if request.dispatchMode = some .direct then
    let plan := createDirectWorkflowPlan (runTaskId options request) options.sessionId request
    emitPlanSummary plan
    runDirectly options request conversationContext decision plan
  else
    let planned ← obtainPlan options request conversationContext
    match planned with
    | .error message => return .error message
    | .ok planned => runPlan options request conversationContext decision planned

end

end AcademicAgent.LeadAgent
