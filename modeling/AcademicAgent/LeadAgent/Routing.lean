import AcademicAgent.LeadAgent.LeadContext

/-!
# Routing of lead tasks

A request is handled directly or by a worker, by its dispatch mode, the profile or type it
names and the words of its objective.
-/

namespace AcademicAgent.LeadAgent

open Json

inductive AcademicTaskType where
  | writing
  | research
  | review
  | revision
  | methods
  | citation
  deriving DecidableEq

inductive LeadAgentDispatchMode where
  | auto
  | direct
  | worker
  deriving DecidableEq

/-- A request; its callbacks are the events of a run. -/
structure LeadAgentTaskRequest where
  taskId : Option JsString := none
  objective : JsString
  constraints : Option (List JsString) := none
  inputArtifacts : Option (List ArtifactRef) := none
  expectedOutputs : Option (List JsString) := none
  acceptanceCriteria : Option (List JsString) := none
  metadata : Option JsonObject := none
  taskType : Option AcademicTaskType := none
  profileId : Option JsString := none
  dispatchMode : Option LeadAgentDispatchMode := none

inductive DecisionMode where
  | direct
  | worker
  deriving DecidableEq

structure LeadAgentDecision where
  mode : DecisionMode
  workerType : Option JsString := none
  profileId : Option JsString := none
  reason : JsString

inductive WorkflowPlanMode where
  | direct
  | workflow
  deriving DecidableEq

structure WorkflowClarification where
  question : JsString
  reason : JsString
  blocksExecution : Bool
  deriving DecidableEq

/-- A plan with what the runtime reads of it besides what is executed. -/
structure LeadWorkflowPlan extends WorkflowPlan ArtifactRef where
  objective : JsString
  rationale : JsString
  userVisibleSummary : JsString
  mode : WorkflowPlanMode
  stopConditions : List JsString
  requiresClarification : Option WorkflowClarification := none

namespace WorkerProfile

variable (profile : WorkerProfile)

def name : JsString := (stringMember "name" (.obj profile.rest)).getD []

def capabilities : List JsString := stringArrayFrom (field "capabilities" (.obj profile.rest))

def expectedOutputs : Option (List JsString) :=
  (field "expectedOutputs" (.obj profile.rest)).map fun value => stringArrayFrom (some value)

def acceptanceChecklist : Option (List JsString) :=
  (field "acceptanceChecklist" (.obj profile.rest)).map fun value => stringArrayFrom (some value)

end WorkerProfile

section

variable (toLowerCase : JsString → JsString)

def includesAny (text : JsString) (terms : List JsString) : Bool :=
  terms.any fun term => decide (term <:+: toLowerCase text)

def profileIdForTaskType : AcademicTaskType → Option JsString
  | .writing => none
  | .research => some (js "researcher")
  | .review => some (js "reviewer")
  | .revision => some (js "reviser")
  | .methods => some (js "method-auditor")
  | .citation => some (js "citation-checker")

def findProfile (profiles : List WorkerProfile) (profileId : Option JsString) :
    Option WorkerProfile :=
  (nonEmpty profileId).bind fun id => profiles.find? (·.id = id)

def profileForObjective (objective : JsString) (profiles : List WorkerProfile) :
    Option WorkerProfile :=
  let named (id : String) := profiles.find? (·.id = js id)
  if includesAny toLowerCase objective
      [js "citation", js "reference", js "引用", js "参考文献"] then
    named "citation-checker"
  else if includesAny toLowerCase objective
      [js "method", js "statistics", js "统计", js "方法", js "reproducibility", js "复现"] then
    named "method-auditor"
  else if includesAny toLowerCase objective
      [js "review", js "审稿", js "退修", js "comment", js "意见", js "核查"] then
    named "reviewer"
  else if includesAny toLowerCase objective
      [js "literature", js "文献", js "检索", js "search papers", js "find papers", js "寻找"] then
    named "literature-searcher"
  else if includesAny toLowerCase objective [js "evidence", js "research", js "证据"] then
    named "researcher"
  else
    profiles.find? fun profile =>
      includesAny toLowerCase objective (profile.id :: profile.name :: profile.capabilities)

section

variable (request : LeadAgentTaskRequest) (profiles : List WorkerProfile)

def chooseWorkerProfile : Option WorkerProfile :=
  match findProfile profiles request.profileId, request.taskType with
  | some explicitProfile, _ => some explicitProfile
  | none, none => profileForObjective toLowerCase request.objective profiles
  | none, some taskType =>
    match findProfile profiles (profileIdForTaskType taskType) with
    | some taskProfile => some taskProfile
    | none =>
      if taskType = .writing then none
      else profileForObjective toLowerCase request.objective profiles

def workerDecision (profileId reason : JsString) : LeadAgentDecision where
  mode := .worker
  workerType := some profileId
  profileId := some profileId
  reason := reason

def planLeadAgentTask : LeadAgentDecision :=
  if request.dispatchMode = some .direct then
    { mode := .direct
      reason := js "Task was forced into direct lead-author mode by dispatchMode." }
  else
    match chooseWorkerProfile toLowerCase request profiles with
    | some profile =>
      workerDecision profile.id (js "Task has a separable " ++ profile.name ++
        js " pass with structured acceptance criteria.")
    | none =>
      let fallbackProfile :=
        if request.dispatchMode = some .worker then
          (profiles.find? (·.id = js "researcher")).or profiles.head?
        else none
      match fallbackProfile with
      | some profile =>
        workerDecision profile.id (js "Worker dispatch was forced; no explicit profile " ++
          js "matched, so the researcher profile was selected.")
      | none =>
        { mode := .direct
          reason := js "Task appears to require unified lead-author writing or revision " ++
            js "rather than a separable worker pass." }

end

def createDirectWorkflowPlan (taskId sessionId : JsString) (request : LeadAgentTaskRequest) :
    LeadWorkflowPlan where
  taskId := taskId
  sessionId := some (.str sessionId)
  objective := request.objective
  rationale := js "Task was selected for direct lead-author synthesis."
  userVisibleSummary := js "I will handle this directly."
  mode := .direct
  steps := []
  stopConditions := [js "Final answer produced"]

def expectedArtifactKindsForFallback (request : LeadAgentTaskRequest) : List JsString :=
  (request.expectedOutputs.map (·.filter fun output =>
    js "-table" <:+ output ∨ js "-audit" <:+ output)).getD []

def createSingleStepWorkflowPlan (taskId sessionId : JsString) (request : LeadAgentTaskRequest)
    (decision : LeadAgentDecision) (profiles : List WorkerProfile) : LeadWorkflowPlan :=
  let profile := profiles.find? fun candidate => some candidate.id = decision.profileId
  let profileId := (decision.profileId.or (profile.map (·.id))).getD (js "researcher")
  { taskId
    sessionId := some (.str sessionId)
    objective := request.objective
    rationale := decision.reason
    userVisibleSummary := js "I will run the " ++ (profile.map (·.name)).getD profileId ++
      js " worker and synthesize the accepted result."
    mode := .workflow
    steps := [{
      id := profileId
      order := .ofInt 1
      profileId
      objective := request.objective
      inputArtifactRefs := request.inputArtifacts.getD []
      expectedArtifactKinds := expectedArtifactKindsForFallback request
      expectedOutputs := (request.expectedOutputs.or
        (profile.bind (·.expectedOutputs))).getD [js "worker summary"]
      acceptanceCriteria := (request.acceptanceCriteria.or
        (profile.bind (·.acceptanceChecklist))).getD [] }]
    stopConditions := [js "Worker result accepted"] }

/-- What a planner is given; the context is read by the planners of a model only. -/
structure LeadTaskPlanningInput where
  taskId : JsString
  sessionId : JsString
  objective : JsString
  constraints : List JsString
  expectedOutputs : List JsString
  inputArtifacts : List ArtifactRef
  availableArtifactRefs : List ArtifactRef
  conversationContext : LeadConversationContext

def createLeadTaskPlanningInput (request : LeadAgentTaskRequest) (taskId sessionId : JsString)
    (conversationContext : LeadConversationContext) : LeadTaskPlanningInput where
  taskId := taskId
  sessionId := sessionId
  objective := request.objective
  constraints := request.constraints.getD []
  expectedOutputs := request.expectedOutputs.getD []
  inputArtifacts := request.inputArtifacts.getD []
  availableArtifactRefs := mergeByKey (·.id)
    (request.inputArtifacts.getD [] ++ conversationContext.priorArtifacts)
  conversationContext := conversationContext

def heuristicResearchTerms : List JsString :=
  [js "literature", js "research", js "recent research", js "latest research",
    js "research progress", js "frontier", js "hotspot", js "文献", js "检索", js "找文献",
    js "研究", js "最近研究", js "最新研究", js "研究进展", js "研究现状", js "综述",
    js "文献综述", js "前沿", js "热点"]

def heuristicWritingTerms : List JsString :=
  [js "write", js "writing", js "draft", js "review article", js "literature review",
    js "写", js "撰写", js "初稿", js "文章", js "综述", js "文献综述"]

/-- The terms besides those of writing that ask for a researcher. -/
def heuristicResearcherTerms : List JsString :=
  [js "research", js "recent research", js "latest research", js "research progress",
    js "研究", js "最近研究", js "最新研究", js "研究进展", js "研究现状", js "前沿",
    js "热点"]

def hasProfile (profiles : List WorkerProfile) (profileId : JsString) : Bool :=
  profiles.any (·.id = profileId)

def stepObjective (userObjective workerObjective : JsString) : JsString :=
  js "User objective: " ++ userObjective ++ js "\n\nStep objective: " ++ workerObjective

section

variable (input : LeadTaskPlanningInput)

/-- The steps that the heuristic planner chooses from; their orders are set by their places. -/
def heuristicSteps (profiles : List WorkerProfile) : List (WorkflowStep ArtifactRef) :=
  let needsWriter := includesAny toLowerCase input.objective heuristicWritingTerms
  let needsResearcher :=
    needsWriter || includesAny toLowerCase input.objective heuristicResearcherTerms
  (if hasProfile profiles (js "literature-searcher") then [{
      id := js "literature-search"
      order := .ofInt 0
      profileId := js "literature-searcher"
      objective := stepObjective input.objective
        (js "Run literature retrieval and produce literature-search-results with " ++
          js "candidate bibliography and retrieval gaps.")
      inputArtifactRefs := input.inputArtifacts
      expectedArtifactKinds := [js "literature-search-results"]
      expectedOutputs := (nonEmptyList input.expectedOutputs).getD
        [js "search strategy", js "bibliography candidates", js "retrieval gaps"]
      acceptanceCriteria :=
        [js "Candidate bibliography is separated from verified evidence"] }]
    else []) ++
  (if needsResearcher && hasProfile profiles (js "researcher") then [{
      id := js "evidence-summary"
      order := .ofInt 0
      profileId := js "researcher"
      objective := stepObjective input.objective
        (js "Synthesize accepted literature outputs into evidence summary, evidence " ++
          js "table, and uncertainty notes.")
      inputArtifactRefs := []
      expectedArtifactKinds := [js "evidence-table"]
      expectedOutputs := [js "evidence summary", js "evidence-table", js "uncertainty notes"]
      acceptanceCriteria :=
        [js "Evidence is separated from interpretation", js "Uncertainty is explicit"] }]
    else []) ++
  (if needsWriter && hasProfile profiles (js "writer") then [{
      id := js "draft"
      order := .ofInt 0
      profileId := js "writer"
      objective := stepObjective input.objective
        (js "Draft a bounded academic synthesis from accepted literature and evidence outputs.")
      inputArtifactRefs := []
      expectedArtifactKinds := [js "draft-text"]
      expectedOutputs := [js "draft text"]
      acceptanceCriteria := [js "Claims are bounded", js "Style is consistent"] }]
    else [])

/-- The step of the first profile, when no other was chosen. -/
def fallbackStep (fallback : WorkerProfile) : WorkflowStep ArtifactRef where
  id := fallback.id
  order := .ofInt 1
  profileId := fallback.id
  objective := stepObjective input.objective
    (js "Run the best available academic worker for this task.")
  inputArtifactRefs := input.inputArtifacts
  expectedArtifactKinds := []
  expectedOutputs := fallback.expectedOutputs.getD [js "worker summary"]
  acceptanceCriteria := fallback.acceptanceChecklist.getD []

def numberSteps (steps : List (WorkflowStep ArtifactRef)) : List (WorkflowStep ArtifactRef) :=
  steps.zipIdx.map fun step => { step.1 with order := .ofInt (step.2 + 1) }

def createHeuristicWorkflowPlan (profiles : List WorkerProfile) : LeadWorkflowPlan :=
  if includesAny toLowerCase input.objective heuristicResearchTerms then
    let steps := numberSteps (heuristicSteps toLowerCase input profiles)
    { taskId := input.taskId
      sessionId := some (.str input.sessionId)
      objective := input.objective
      rationale := js "Heuristic planner selected a workflow for a research or " ++
        js "literature-review request."
      userVisibleSummary :=
        js "I will search, synthesize evidence, and draft only when requested."
      mode := .workflow
      steps := if steps.isEmpty then (profiles.head?.map (fallbackStep input)).toList else steps
      stopConditions := [js "Workflow outputs accepted"] }
  else
    { taskId := input.taskId
      sessionId := some (.str input.sessionId)
      objective := input.objective
      rationale := js "Heuristic planner found no separable academic retrieval or research step."
      userVisibleSummary := js "I will handle this directly."
      mode := .direct
      steps := []
      stopConditions := [js "Final answer produced"] }

end

end

/-- Whether the runtime puts a plan of one step in the place of the planner's. -/
def overridesPlan (request : LeadAgentTaskRequest) (decision : LeadAgentDecision)
    (plan : LeadWorkflowPlan) : Bool :=
  (decision.mode = .worker && plan.mode = .direct) ||
    ((nonEmpty request.profileId).any fun id =>
      !plan.steps.any (·.profileId = id) && decide (plan.steps.length ≤ 1))

def decisionForWorkflowPlan (plan : LeadWorkflowPlan) (fallback : LeadAgentDecision) :
    LeadAgentDecision :=
  match plan.mode, (orderedSteps plan.toWorkflowPlan).head? with
  | .direct, _ => { mode := .direct, reason := plan.rationale }
  | .workflow, none => fallback
  | .workflow, some firstStep => workerDecision firstStep.profileId plan.rationale

end AcademicAgent.LeadAgent
