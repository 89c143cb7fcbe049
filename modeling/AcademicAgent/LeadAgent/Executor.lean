import AcademicAgent.Core.Json.DecimalOrder
import AcademicAgent.Core.KeyedMerge
import AcademicAgent.Core.Path
import AcademicAgent.LeadAgent.Contracts

/-!
# Execution of workflow plans

The steps of a plan run one after another in their order.
-/

namespace AcademicAgent.LeadAgent

open Json

/-- `String.prototype.padStart` with zeros, to two code units. -/
def padStart2 (s : JsString) : JsString := List.replicate (2 - s.length) 0x30 ++ s

def stepDirName (order : Decimal) (profileId : JsString) : JsString :=
  padStart2 order.toString ++ js "-" ++ profileId

def ensureTaskDir (rootDir taskId : JsString) : JsString :=
  Path.join [rootDir, js "tasks", taskId]

def ensureStepDir (rootDir taskId : JsString) (order : Decimal) (profileId : JsString) : JsString :=
  Path.join [ensureTaskDir rootDir taskId, js "steps", stepDirName order profileId]

/-- The file of `writeTaskJson`. -/
def taskJsonPath (rootDir taskId filename : JsString) : JsString :=
  Path.join [ensureTaskDir rootDir taskId, filename]

/-- The file of `writeStepJson`. -/
def stepJsonPath (rootDir taskId : JsString) (order : Decimal) (profileId filename : JsString) :
    JsString :=
  Path.join [ensureStepDir rootDir taskId order profileId, filename]

/-- The file of `appendWorkflowLog`. -/
def workflowLogPath (rootDir : JsString) : JsString :=
  Path.join [rootDir, js "session-workflow-log.jsonl"]

/-- The profile of a worker; only its id is read, the rest is passed along. -/
structure WorkerProfile where
  id : JsString
  rest : JsonObject := []

/-- A step of a plan over references of some type; the budget is passed along. -/
structure WorkflowStep (α : Type) where
  id : JsString
  order : Decimal
  profileId : JsString
  objective : JsString
  inputArtifactRefs : List α
  expectedArtifactKinds : List JsString
  expectedOutputs : List JsString
  acceptanceCriteria : List JsString
  budget : Option Tree := none

/-- What the executor reads of a plan; the session id is passed along. -/
structure WorkflowPlan (α : Type) where
  taskId : JsString
  sessionId : Option Tree
  steps : List (WorkflowStep α)

inductive OutputRequirement where
  | artifact (id label : JsString) (required : Bool) (artifactKind : JsString) (minCount : Nat)
  | narrative (id label : JsString) (required : Bool) («section» : JsString)
      (mustMention : List JsString)

structure ExpectedWorkerOutput where
  contractId : JsString
  profileId : JsString
  successMode : JsString
  requirements : List OutputRequirement

inductive Severity where
  | info
  | warning
  | error
  deriving DecidableEq

structure AcceptanceIssue where
  code : JsString
  message : JsString
  severity : Severity
  artifactId : Option JsString := none

structure AcceptanceReport where
  taskId : JsString
  accepted : Bool
  checkedAt : JsString
  issues : List AcceptanceIssue
  summary : Option JsString := none

structure WorkerAttemptContext where
  attempt : Nat
  maxAttempts : Nat
  previousIssues : Option (List AcceptanceIssue)
  previousFailureReason : Option JsString

structure WorkerRetryPolicy where
  maxAttempts : Int

structure WorkerRequest (α : Type) where
  taskId : JsString
  workerType : JsString
  objective : JsString
  constraints : List JsString
  inputArtifacts : List α
  expectedOutputs : List JsString
  acceptanceCriteria : List JsString
  outputContract : ExpectedWorkerOutput
  attemptContext : Option WorkerAttemptContext := none
  legacyExpectedOutputs : List JsString
  legacyAcceptanceCriteria : List JsString
  executionBudget : Option Tree
  retryPolicy : Option WorkerRetryPolicy := none
  profile : Option WorkerProfile
  metadata : JsonObject

inductive WorkerResultStatus where
  | success
  | failed
  | cancelled
  deriving DecidableEq

structure WorkerOpenQuestion where
  question : JsString
  blocksExecution : Option Bool := none

structure ArtifactBrief where
  artifactId : JsString
  kind : JsString
  title : Option JsString := none
  brief : JsString
  keyFindings : Option (List JsString) := none
  limitations : Option (List JsString) := none

structure WorkerResult (α : Type) where
  taskId : JsString
  status : WorkerResultStatus
  summary : JsString
  structuredOutputs : Option Tree := none
  producedArtifacts : List α
  artifactBriefs : Option (List ArtifactBrief) := none
  warnings : List JsString
  openQuestions : List WorkerOpenQuestion
  failureReason : Option JsString := none

inductive StepDecisionKind where
  | «continue»
  | retry
  | askUser
  | stop
  | synthesize
  deriving DecidableEq

structure StepDecision where
  kind : StepDecisionKind
  reason : JsString
  question : Option JsString := none

/-- One call of a worker: what it was asked, what came of it and how that was judged. -/
structure Attempt (α : Type) where
  request : WorkerRequest α
  result : WorkerResult α
  report : AcceptanceReport

/-- The result of a step, with the calls of its worker in order. -/
structure WorkflowStepResult (α : Type) where
  step : WorkflowStep α
  workerRequest : WorkerRequest α
  workerResult : WorkerResult α
  artifactBriefs : List ArtifactBrief
  acceptanceReport : AcceptanceReport
  decision : StepDecision
  attempts : List (Attempt α)

structure WorkflowExecutionResult (α : Type) where
  taskId : JsString
  sessionId : Option Tree
  accepted : Bool
  stepResults : List (WorkflowStepResult α)
  artifactBriefs : List ArtifactBrief
  producedArtifacts : List α
  acceptanceReports : List AcceptanceReport

def outputContractForStep {α : Type} (step : WorkflowStep α) (profile : Option WorkerProfile) :
    ExpectedWorkerOutput where
  contractId := js "step:" ++ step.profileId ++ js ":" ++ step.id
  profileId := (profile.map (·.id)).getD step.profileId
  successMode := js "all-required"
  requirements :=
    step.expectedArtifactKinds.map (fun kind => .artifact kind kind true kind 1) ++
      (step.expectedOutputs.filter (· ∉ step.expectedArtifactKinds)).map fun label =>
        .narrative label label true label [label]

/-- The world around an execution: its options, the metadata of a request with the
context package made for it, and what each call of a worker and of the acceptance
check gives. -/
structure WorkflowEnv (α : Type) where
  rootDir : JsString
  profiles : List WorkerProfile
  constraints : List JsString
  contextMetadata : WorkflowStep α → List α → List (WorkflowStepResult α) →
    List ArtifactBrief → JsonObject
  workerRunner : Nat → WorkerRequest α → Except JsString (WorkerResult α)
  createLeadAcceptanceReport : Nat → WorkerRequest α → WorkerResult α → AcceptanceReport

section

variable {α κ : Type} [DecidableEq κ] (refId : α → Option κ) (env : WorkflowEnv α)
  (plan : WorkflowPlan α)

def workerRequestForStep (step : WorkflowStep α) (inputArtifacts : List α)
    (metadata : JsonObject) : WorkerRequest α :=
  let profile := env.profiles.find? (·.id = step.profileId)
  { taskId := plan.taskId ++ js ":" ++ step.id
    workerType := step.profileId
    objective := step.objective
    constraints := env.constraints
    inputArtifacts
    expectedOutputs := step.expectedOutputs
    acceptanceCriteria := step.acceptanceCriteria
    outputContract := outputContractForStep step profile
    legacyExpectedOutputs := step.expectedOutputs
    legacyAcceptanceCriteria := step.acceptanceCriteria
    executionBudget := step.budget
    profile
    metadata := setMember (js "workflowStepOrder") (.num step.order)
      (setMember (js "workflowStepId") (.str step.id)
        (setMember (js "leadTaskId") (.str plan.taskId) metadata)) }

/-- The references of both lists by id; a reference without one throws. -/
def mergeArtifactRefs (left right : List α) : Option (List α) :=
  ((left ++ right).mapM fun artifact => (refId artifact).map fun id => (id, artifact)).map
    fun keyed => (keyed.foldl (fun refs p => assocSet p.1 p.2 refs) []).map Prod.snd

def createFailedWorkerResult (taskId message : JsString) : WorkerResult α where
  taskId := taskId
  status := .failed
  summary := js "Worker failed before producing an accepted result."
  producedArtifacts := []
  warnings := [message]
  openQuestions :=
    [{ question := js "Retry with a narrower worker request or handle the task directly " ++
        js "in the lead agent." }]
  failureReason := some message

/-- `DEFAULT_RETRY_ATTEMPTS`. -/
def defaultRetryAttempts : Int := 2

def maxAttemptsForRequest (request : WorkerRequest α) : Nat :=
  (max ((request.retryPolicy.map (·.maxAttempts)).getD defaultRetryAttempts) 1).toNat

def hasBlockingOpenQuestion (result : WorkerResult α) : Bool :=
  result.openQuestions.any (·.blocksExecution == some true)

def questionForWorkerResult (result : WorkerResult α) : Option JsString :=
  (result.openQuestions.find? (·.blocksExecution == some true)).map (·.question)

/-- The messages of the errors in a report, as one text. -/
def failureReason (report : AcceptanceReport) : JsString :=
  (js "; ").intercalate ((report.issues.filter (·.severity = .error)).map (·.message))

/-- What an execution has done: the files it wrote and the workers it called. -/
structure Execution (α : Type) where
  writes : List JsString := []
  calls : List (Attempt α) := []

def Execution.write (execution : Execution α) (path : JsString) : Execution α :=
  { execution with writes := execution.writes ++ [path] }

def Execution.call (execution : Execution α) (attempt : Attempt α) : Execution α :=
  { execution with calls := execution.calls ++ [attempt] }

/-- One call of the worker of a step and the check of what it returned. -/
def callWorker (request : WorkerRequest α) (attempt maxAttempts : Nat)
    (previous : Option AcceptanceReport) (execution : Execution α) : Attempt α :=
  let call := execution.calls.length
  let request := { request with
    attemptContext := some {
      attempt := attempt
      maxAttempts := maxAttempts
      previousIssues := previous.map (·.issues)
      previousFailureReason := previous.map failureReason } }
  let result := match env.workerRunner call request with
    | .ok result => result
    | .error message => createFailedWorkerResult request.taskId message
  { request, result, report := env.createLeadAcceptanceReport call request result }

/-- The calls of a step: those that are retried, and the last. The number is of the
attempts left after the next one. -/
def runAttempts (request : WorkerRequest α) (maxAttempts : Nat) :
    Nat → Option AcceptanceReport → Execution α → List (Attempt α) × Attempt α × Execution α
  | 0, previous, execution =>
    let attempt := callWorker env request maxAttempts maxAttempts previous execution
    ([], attempt, execution.call attempt)
  | left + 1, previous, execution =>
    let attempt := callWorker env request (maxAttempts - (left + 1)) maxAttempts previous execution
    if attempt.report.accepted || hasBlockingOpenQuestion attempt.result then
      ([], attempt, execution.call attempt)
    else
      let rest := runAttempts request maxAttempts left (some attempt.report)
        ((execution.call attempt).write (workflowLogPath env.rootDir))
      (attempt :: rest.1, rest.2)

def decisionFor (isLastStep : Bool) (result : WorkerResult α) (report : AcceptanceReport) :
    StepDecision :=
  if hasBlockingOpenQuestion result then
    { kind := .askUser
      reason := js "Worker reported a blocking open question."
      question := questionForWorkerResult result }
  else if report.accepted then
    { kind := if isLastStep then .synthesize else .continue
      reason := if isLastStep then js "Final workflow step accepted."
        else js "Workflow step accepted; continuing." }
  else
    { kind := .stop
      reason := js "Workflow step was not accepted." }

structure WorkflowLoop (α : Type) where
  execution : Execution α
  stepResults : List (WorkflowStepResult α) := []
  acceptanceReports : List AcceptanceReport := []
  carriedArtifacts : List α := []
  artifactBriefs : List ArtifactBrief := []
  accepted : Bool := true

def stepFile (step : WorkflowStep α) (filename : String) : JsString :=
  stepJsonPath env.rootDir plan.taskId step.order step.profileId (js filename)

/-- One step; an error leaves what has been done so far. -/
def executeStep (isLastStep : Bool) (step : WorkflowStep α) (loop : WorkflowLoop α) :
    Except (Execution α) (WorkflowLoop α) :=
  match mergeArtifactRefs refId step.inputArtifactRefs loop.carriedArtifacts with
  | none => .error loop.execution
  | some inputArtifacts =>
    let request := workerRequestForStep env plan step inputArtifacts
      (env.contextMetadata step inputArtifacts loop.stepResults loop.artifactBriefs)
    let requested := loop.execution.write (stepFile env plan step "worker-request.json")
    let maxAttempts := maxAttemptsForRequest request
    let ran := runAttempts env request maxAttempts (maxAttempts - 1) none requested
    let result := ran.2.1.result
    let report := ran.2.1.report
    let stepBriefs := result.artifactBriefs.getD []
    let execution := (((ran.2.2.write (stepFile env plan step "worker-result.json")).write
      (stepFile env plan step "artifact-briefs.json")).write
        (stepFile env plan step "acceptance-report.json")).write (workflowLogPath env.rootDir)
    match mergeArtifactRefs refId loop.carriedArtifacts result.producedArtifacts with
    | none => .error execution
    | some carriedArtifacts =>
      let decision := decisionFor isLastStep result report
      .ok {
        execution
        stepResults := loop.stepResults ++ [{
          step
          workerRequest := request
          workerResult := result
          artifactBriefs := stepBriefs
          acceptanceReport := report
          decision
          attempts := ran.1 ++ [ran.2.1] }]
        acceptanceReports := loop.acceptanceReports ++ [report]
        carriedArtifacts
        artifactBriefs := loop.artifactBriefs ++ stepBriefs
        accepted := report.accepted && decision.kind != .askUser }

/-- The loop over the steps, which ends at the first that is not accepted. -/
def executeSteps : List (WorkflowStep α) → WorkflowLoop α →
    Except (Execution α) (WorkflowLoop α)
  | [], loop => .ok loop
  | step :: rest, loop =>
    match executeStep refId env plan rest.isEmpty step loop with
    | .error execution => .error execution
    | .ok loop => if loop.accepted then executeSteps rest loop else .ok loop

/-- The steps of a plan by their order, equal ones as they stand in the plan. -/
def orderedSteps : List (WorkflowStep α) := plan.steps.mergeSort fun a b => a.order.le b.order

/-- What the execution of a plan has done, and its result unless it throws. -/
def executeWorkflowPlan : Execution α × Option (WorkflowExecutionResult α) :=
  let started := (({} : Execution α).write
    (taskJsonPath env.rootDir plan.taskId (js "workflow-plan.json"))).write
      (workflowLogPath env.rootDir)
  match executeSteps refId env plan (orderedSteps plan) { execution := started } with
  | .error execution => (execution, none)
  | .ok loop =>
    (loop.execution.write (workflowLogPath env.rootDir), some {
      taskId := plan.taskId
      sessionId := plan.sessionId
      accepted := loop.accepted
      stepResults := loop.stepResults
      artifactBriefs := loop.artifactBriefs
      producedArtifacts := loop.carriedArtifacts
      acceptanceReports := loop.acceptanceReports })

end

end AcademicAgent.LeadAgent
