import AcademicAgent.LeadAgent.ExecutorDiscipline
import AcademicAgent.LeadAgent.Routing

/-!
# Acceptance and synthesis

A worker's result is judged by the contract of its request, and its warnings and open questions
are listed as issues besides.
-/

namespace AcademicAgent.LeadAgent

open Json

def WorkerResultStatus.text : WorkerResultStatus → JsString
  | .success => js "success"
  | .failed => js "failed"
  | .cancelled => js "cancelled"

section

variable (toLowerCase : JsString → JsString)

def missingToken (text : JsString) (mustMention : List JsString) : Option JsString :=
  mustMention.find? fun token => !decide (toLowerCase token <:+: toLowerCase text)

def issuesForRequirement (requirement : OutputRequirement) (result : WorkerResult ArtifactRef) :
    List AcceptanceIssue :=
  match requirement with
  | .artifact _ _ required artifactKind minCount =>
    if required && decide ((result.producedArtifacts.filter (·.kind = artifactKind)).length <
        minCount) then
      [{ code := js "artifact_missing"
         message := js "Missing artifact kind: " ++ artifactKind
         severity := .error }]
    else []
  | .narrative _ _ required «section» mustMention =>
    let text := trim result.summary
    if !required then []
    else if text = [] then
      [{ code := js "narrative_output_missing"
         message := js "Missing narrative output: " ++ «section»
         severity := .error }]
    else
      match missingToken toLowerCase text mustMention with
      | some token =>
        [{ code := js "narrative_output_missing_token"
           message := «section» ++ js " missing token: " ++ token
           severity := .error }]
      | none => []

def createAcceptanceReport (checkedAt : JsString) (result : WorkerResult ArtifactRef)
    (issues : List AcceptanceIssue) : AcceptanceReport where
  taskId := result.taskId
  accepted := result.status = .success && !issues.any (·.severity = .error)
  checkedAt := checkedAt
  issues := issues
  summary := some result.summary

def statusIssues (result : WorkerResult ArtifactRef) : List AcceptanceIssue :=
  if result.status = .success then []
  else [{
    code := js "worker_failed"
    message := result.failureReason.getD
      (js "Worker returned status " ++ result.status.text ++ js ".")
    severity := .error }]

def warningIssue (warning : JsString) : AcceptanceIssue where
  code := js "worker_warning"
  message := warning
  severity := .warning

def questionIssue (question : WorkerOpenQuestion) : AcceptanceIssue where
  code := js "worker_open_question"
  message := question.question
  severity := .info

def contractIssues (request : WorkerRequest ArtifactRef) (result : WorkerResult ArtifactRef) :
    List AcceptanceIssue :=
  statusIssues result ++
    request.outputContract.requirements.flatMap (issuesForRequirement toLowerCase · result) ++
    result.warnings.map warningIssue

/-- The store is read for requirements with a schema only, which no step has. -/
def createLeadContractAcceptanceReport (checkedAt : JsString)
    (request : WorkerRequest ArtifactRef) (result : WorkerResult ArtifactRef) : AcceptanceReport :=
  createAcceptanceReport checkedAt result
    (contractIssues toLowerCase request result ++ result.openQuestions.map questionIssue)

end

def placeholderSummaryPrefix : JsString :=
  js "Generated placeholder structured output for plumbing validation"

def machineMarkerKeys : List JsString :=
  [js "runnerMode", js "modelBacked", js "verificationRequired"]

/-- `value.runnerMode === "placeholder-structured-runner"`. -/
def isPlaceholder (value : Tree) : Bool :=
  stringMember "runnerMode" value == some (js "placeholder-structured-runner")

def placeholderResult (result : WorkerResult ArtifactRef) : Bool :=
  result.structuredOutputs.any isPlaceholder ||
    result.producedArtifacts.any fun artifact => artifact.metadata.any fun m => isPlaceholder (.obj m)

def sanitizedSummary (result : WorkerResult ArtifactRef) : Option JsString :=
  if placeholderResult result || decide (placeholderSummaryPrefix <+: result.summary) then none
  else nonEmpty (some (trim result.summary))

mutual

def sanitizedJson : Tree → Option Tree
  | .arr xs => some (.arr (sanitizedElements xs))
  | .obj ms =>
    match sanitizedMembers ms with
    | [] => none
    | m :: ms => some (.obj (m :: ms))
  | value => some value

def sanitizedElements : List Tree → List Tree
  | [] => []
  | x :: xs => (sanitizedJson x).toList ++ sanitizedElements xs

def sanitizedMembers : List (JsString × Tree) → List (JsString × Tree)
  | [] => []
  | (k, x) :: ms =>
    (if k ∈ machineMarkerKeys then [] else ((sanitizedJson x).map fun y => (k, y)).toList) ++
      sanitizedMembers ms

end

def structuredOutputSummary (result : WorkerResult ArtifactRef) : Option JsString :=
  match result.structuredOutputs.bind sanitizedJson with
  | some (.obj (m :: ms)) => some ((js ", ").intercalate ((m :: ms).map Prod.fst))
  | _ => none

def artifactLabel (artifact : ArtifactRef) : JsString :=
  artifact.id ++ js " (" ++ artifact.kind ++ js ")" ++
    ((nonEmpty artifact.title).map fun title => js ": " ++ title).getD []

def briefForArtifact (artifact : ArtifactRef) (briefs : List ArtifactBrief) :
    Option ArtifactBrief :=
  briefs.find? (·.artifactId = artifact.id)

abbrev StepResults := List (WorkflowStepResult ArtifactRef)

/-- A step whose report was accepted and whose worker succeeded. -/
def isAcceptedStep (stepResult : WorkflowStepResult ArtifactRef) : Bool :=
  stepResult.acceptanceReport.accepted && stepResult.workerResult.status = .success

section

variable (execution : WorkflowExecutionResult ArtifactRef)

def acceptedStepResults : StepResults :=
  execution.stepResults.filter isAcceptedStep

def rejectedStepResults : StepResults :=
  execution.stepResults.filter (!isAcceptedStep ·)

end

section

variable (stepResults : StepResults)

def acceptedArtifacts : List ArtifactRef :=
  stepResults.flatMap (·.workerResult.producedArtifacts)

def acceptedBriefs : List ArtifactBrief :=
  stepResults.flatMap (·.artifactBriefs)

def acceptedWarnings : List JsString :=
  stepResults.flatMap (·.workerResult.warnings)

/-- The messages of the issues of the accepted steps that are more than information. -/
def acceptedIssues : List JsString :=
  ((stepResults.flatMap (·.acceptanceReport.issues)).filter (·.severity ≠ .info)).map (·.message)

end

/-- The first of equal messages, without the blank ones. -/
def distinctMessages : List JsString → List JsString
  | [] => []
  | message :: messages =>
    (if trim message = [] then [] else [message]) ++
      (distinctMessages messages).filter (· ≠ message)

def rejectedMessages (stepResult : WorkflowStepResult ArtifactRef) : List JsString :=
  stepResult.acceptanceReport.issues.map (·.message) ++
    (nonEmpty stepResult.workerResult.failureReason).toList ++ [stepResult.decision.reason]

def rejectedLimitations (stepResults : StepResults) : List JsString :=
  stepResults.flatMap fun stepResult => distinctMessages (rejectedMessages stepResult)

def literatureSearchResults : JsString := js "literature-search-results"

section

variable (artifacts : List ArtifactRef) (briefs : List ArtifactBrief)

def hasLiteratureArtifact : Bool :=
  artifacts.any (·.kind = literatureSearchResults) || briefs.any (·.kind = literatureSearchResults)

def renderAcceptedOutputBullets (stepResults : StepResults) : List JsString :=
  stepResults.flatMap fun stepResult =>
    let profileId := stepResult.step.profileId
    ((sanitizedSummary stepResult.workerResult).map fun summary =>
      profileId ++ js ": " ++ summary).toList ++
    ((structuredOutputSummary stepResult.workerResult).map fun structured =>
      profileId ++ js " structured outputs: " ++ structured).toList

def placeholderLimitation (stepResults : StepResults) : Option JsString :=
  if stepResults.any fun stepResult => placeholderResult stepResult.workerResult then
    some (js "部分下游结构化分析目前为占位管线输出，尚未接入真实模型推理。")
  else none

/-- A section with bullets, or with one for the fallback; without either it is empty. -/
def renderBulletSection (title : JsString) (values : List JsString)
    (fallback : Option JsString := none) : JsString :=
  match values, fallback with
  | [], none => []
  | [], some fallback => js "\n\n" ++ title ++ js "\n- " ++ fallback
  | values, _ =>
    js "\n\n" ++ title ++ js "\n" ++ (js "\n").intercalate (values.map (js "- " ++ ·))

def renderAcceptedArtifacts : List JsString :=
  artifacts.map fun artifact =>
    artifactLabel artifact ++
      ((briefForArtifact artifact briefs).map fun brief => js " - " ++ brief.brief).getD []

end

/-- The limitations of a synthesis, without the empty ones. -/
def limitationsOf (limitations : List JsString) : List JsString := limitations.filter (· ≠ [])

def literatureLimitations (stepResults rejectedSteps : StepResults) : List JsString :=
  limitationsOf ((acceptedBriefs stepResults).flatMap (fun brief => brief.limitations.getD []) ++
    acceptedWarnings stepResults ++ acceptedIssues stepResults ++
    rejectedLimitations rejectedSteps ++ (placeholderLimitation stepResults).toList ++
    [js "Artifact refs and briefs are pointers; no full artifact content was loaded, so " ++
      js "this is not full-text screening."])

def renderLiteratureSynthesis (objective : JsString) (stepResults rejectedSteps : StepResults) :
    JsString :=
  let artifacts := acceptedArtifacts stepResults
  let briefs := acceptedBriefs stepResults
  let candidateOverview :=
    briefs.map (fun brief => brief.artifactId ++ js ": " ++ brief.brief) ++
      briefs.flatMap (fun brief => brief.keyFindings.getD []) ++
      renderAcceptedOutputBullets stepResults
  (js "\n").intercalate [
    js "Lead-level synthesis",
    js "检索目标: " ++ objective,
    renderBulletSection (js "检索结果 artifact") (renderAcceptedArtifacts artifacts briefs)
      (some (js "No accepted artifacts are available.")),
    renderBulletSection (js "候选结果概况") candidateOverview
      (some (js "No accepted candidate overview is available.")),
    renderBulletSection (js "检索缺口 / provider warnings")
      (literatureLimitations stepResults rejectedSteps),
    renderBulletSection (js "下一步建议") [
      js "根据目标研究场景收窄关键词、数据库和纳入标准。",
      js "在引用前读取全文并完成正式筛选。"]]

def generalLimitations (stepResults rejectedSteps : StepResults) : List JsString :=
  limitationsOf (acceptedWarnings stepResults ++ acceptedIssues stepResults ++
    rejectedLimitations rejectedSteps ++ (placeholderLimitation stepResults).toList ++
    if acceptedArtifacts stepResults ≠ [] ∨ acceptedBriefs stepResults ≠ [] then
      [js "Artifact refs and briefs are pointers; no full artifact content was loaded " ++
        js "unless explicitly provided."]
    else [])

def renderGeneralSynthesis (objective : JsString) (stepResults rejectedSteps : StepResults) :
    JsString :=
  let artifacts := acceptedArtifacts stepResults
  let briefs := acceptedBriefs stepResults
  (js "\n").intercalate [
    js "Lead-level synthesis",
    js "Objective: " ++ objective,
    renderBulletSection (js "Accepted worker outputs") (renderAcceptedOutputBullets stepResults)
      (some (js "No accepted worker outputs are available yet.")),
    renderBulletSection (js "Accepted artifacts") (renderAcceptedArtifacts artifacts briefs)
      (some (js "No accepted artifacts are available.")),
    renderBulletSection (js "Limitations") (generalLimitations stepResults rejectedSteps)]

def synthesizeWorkflowFinalOutput (objective : JsString)
    (execution : WorkflowExecutionResult ArtifactRef) : JsString :=
  let acceptedSteps := acceptedStepResults execution
  let rejectedSteps := rejectedStepResults execution
  if hasLiteratureArtifact (acceptedArtifacts acceptedSteps) (acceptedBriefs acceptedSteps) then
    renderLiteratureSynthesis objective acceptedSteps rejectedSteps
  else renderGeneralSynthesis objective acceptedSteps rejectedSteps

end AcademicAgent.LeadAgent
