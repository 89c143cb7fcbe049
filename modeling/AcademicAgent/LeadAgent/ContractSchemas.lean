import AcademicAgent.Core.Json.Schema
import AcademicAgent.LeadAgent.Contracts

/-!
# Published contract schemas

Every published contract type has a JSON schema and a guard.
-/

namespace AcademicAgent.LeadAgent

open Json List

open Schema (opened openedMembers validates)

def stringArraySchema : Schema := .array .string

def jsonObjectSchema : Schema := .object [] [] true

def workerToolPolicySchema : Schema :=
  .object []
    [("maxCalls", .number), ("defaultProviders", stringArraySchema),
      ("allowedProviders", stringArraySchema), ("maxResultsPerProvider", .number),
      ("timeoutMs", .number), ("requireArtifactOutput", .boolean), ("allowRefresh", .boolean)]
    false

def artifactRefSchema : Schema :=
  .object ["id", "kind", "uri"]
    [("id", .string), ("kind", .string), ("uri", .string), ("title", .string),
      ("mediaType", .string), ("version", .string), ("metadata", jsonObjectSchema)]
    false

def artifactBriefSchema : Schema :=
  .object ["artifactId", "kind", "brief"]
    [("artifactId", .string), ("kind", .string), ("title", .string), ("brief", .string),
      ("keyFindings", stringArraySchema), ("limitations", stringArraySchema)]
    false

def artifactManifestSchema : Schema :=
  .object ["id", "artifacts", "createdAt"]
    [("id", .string), ("artifacts", .array artifactRefSchema), ("createdAt", .string),
      ("updatedAt", .string), ("metadata", jsonObjectSchema)]
    false

def executionTraceEventSchema : Schema :=
  .object ["type", "timestamp"]
    [("type", .string), ("timestamp", .string), ("message", .string), ("data", jsonObjectSchema)]
    false

def executionTraceSchema : Schema :=
  .object ["runId", "startedAt", "events"]
    [("runId", .string), ("sessionId", .string), ("startedAt", .string), ("endedAt", .string),
      ("events", .array executionTraceEventSchema)]
    false

def workerProfileSchema : Schema :=
  .object ["id", "name", "capabilities"]
    [("id", .string), ("name", .string), ("description", .string), ("rolePrompt", .string),
      ("capabilities", stringArraySchema), ("expectedOutputs", stringArraySchema),
      ("acceptanceChecklist", stringArraySchema), ("allowedTools", stringArraySchema),
      ("toolPolicy", workerToolPolicySchema), ("inputRequirements", stringArraySchema),
      ("boundaries", stringArraySchema)]
    false

def workerRequestSchema : Schema :=
  .object
    ["taskId", "workerType", "objective", "constraints", "inputArtifacts", "expectedOutputs",
      "acceptanceCriteria"]
    [("taskId", .string), ("workerType", .string), ("objective", .string),
      ("constraints", stringArraySchema), ("inputArtifacts", .array artifactRefSchema),
      ("expectedOutputs", stringArraySchema), ("acceptanceCriteria", stringArraySchema),
      ("outputContract", jsonObjectSchema), ("attemptContext", jsonObjectSchema),
      ("legacyExpectedOutputs", stringArraySchema),
      ("legacyAcceptanceCriteria", stringArraySchema), ("executionBudget", jsonObjectSchema),
      ("retryPolicy", jsonObjectSchema), ("profile", workerProfileSchema),
      ("metadata", jsonObjectSchema)]
    false

/-- The schema of one open question, written inside that of a worker's result. -/
def workerOpenQuestionSchema : Schema :=
  .object ["question"] [("question", .string), ("blocksExecution", .boolean)] false

def workerResultSchema : Schema :=
  .object
    ["taskId", "status", "summary", "producedArtifacts", "warnings", "openQuestions",
      "executionTrace"]
    [("taskId", .string), ("status", .enum ["success", "failed", "cancelled"]),
      ("summary", .string), ("structuredOutputs", jsonObjectSchema),
      ("producedArtifacts", .array artifactRefSchema),
      ("artifactBriefs", .array artifactBriefSchema), ("warnings", stringArraySchema),
      ("openQuestions", .array workerOpenQuestionSchema),
      ("executionTrace", executionTraceSchema), ("failureReason", .string)]
    false

/-- The schema of one issue, written inside that of an acceptance report. -/
def acceptanceIssueSchema : Schema :=
  .object ["code", "message", "severity"]
    [("code", .string), ("message", .string), ("severity", .enum ["info", "warning", "error"]),
      ("artifactId", .string)]
    false

def acceptanceReportSchema : Schema :=
  .object ["taskId", "accepted", "checkedAt", "issues"]
    [("taskId", .string), ("accepted", .boolean), ("checkedAt", .string),
      ("issues", .array acceptanceIssueSchema), ("summary", .string)]
    false

def workflowStepSchema : Schema :=
  .object
    ["id", "order", "profileId", "objective", "inputArtifactRefs", "expectedArtifactKinds",
      "expectedOutputs", "acceptanceCriteria"]
    [("id", .string), ("order", .number), ("profileId", .string), ("objective", .string),
      ("inputArtifactRefs", .array artifactRefSchema),
      ("expectedArtifactKinds", stringArraySchema), ("expectedOutputs", stringArraySchema),
      ("acceptanceCriteria", stringArraySchema), ("budget", jsonObjectSchema)]
    false

def workflowPlanSchema : Schema :=
  .object
    ["taskId", "sessionId", "objective", "rationale", "userVisibleSummary", "mode", "steps",
      "stopConditions"]
    [("taskId", .string), ("sessionId", .string), ("objective", .string),
      ("rationale", .string), ("userVisibleSummary", .string),
      ("mode", .enum ["direct", "workflow"]), ("steps", .array workflowStepSchema),
      ("stopConditions", stringArraySchema), ("requiresClarification", jsonObjectSchema)]
    false

def hasOptionalStringArray : String → Tree → Bool := hasOptional isStringArray

def isArtifactBrief (value : Tree) : Bool :=
  isRecord value && has isString "artifactId" value && has isString "kind" value &&
    hasOptionalString "title" value && has isString "brief" value &&
    hasOptionalStringArray "keyFindings" value && hasOptionalStringArray "limitations" value

def isArtifactBriefArray : Tree → Bool := isArrayOf isArtifactBrief

def isExecutionTraceEvent (value : Tree) : Bool :=
  isRecord value && has isString "type" value && has isString "timestamp" value &&
    hasOptionalString "message" value && hasOptionalJsonObject "data" value

def isExecutionTrace (value : Tree) : Bool :=
  isRecord value && has isString "runId" value && hasOptionalString "sessionId" value &&
    has isString "startedAt" value && hasOptionalString "endedAt" value &&
    has (isArrayOf isExecutionTraceEvent) "events" value

/-- `value === text` for one of the texts. -/
def isOneOf (texts : List String) (value : Tree) : Bool :=
  texts.any fun text => value == .str (js text)

def isWorkerResultStatus : Tree → Bool := isOneOf ["success", "failed", "cancelled"]

section

variable (value : Tree)

def isWorkerRetryPolicy : Bool :=
  isRecord value && has isNumber "maxAttempts" value &&
    hasOptional (isArrayOf isWorkerResultStatus) "retryableStatuses" value

def isWorkerToolPolicy : Bool :=
  isRecord value && hasOptional isNumber "maxCalls" value &&
    hasOptional isStringArray "defaultProviders" value &&
    hasOptional isStringArray "allowedProviders" value &&
    hasOptional isNumber "maxResultsPerProvider" value &&
    hasOptional isNumber "timeoutMs" value &&
    hasOptional isBoolean "requireArtifactOutput" value &&
    hasOptional isBoolean "allowRefresh" value

def isWorkerProfile : Bool :=
  isRecord value && has isString "id" value && has isString "name" value &&
    hasOptionalString "description" value && hasOptionalString "rolePrompt" value &&
    has isStringArray "capabilities" value && hasOptionalStringArray "expectedOutputs" value &&
    hasOptionalStringArray "acceptanceChecklist" value &&
    hasOptionalStringArray "allowedTools" value &&
    hasOptional isWorkerToolPolicy "toolPolicy" value &&
    hasOptionalStringArray "inputRequirements" value && hasOptionalStringArray "boundaries" value

def isSchemaRef : Bool :=
  isRecord value && has isString "id" value && has (isOneOf ["v1"]) "version" value

def isOutputRequirementBase : Bool :=
  has isString "id" value && has isString "label" value && has isBoolean "required" value &&
    hasOptional isString "description" value

def isOutputRequirement : Bool :=
  if !isRecord value || !isOutputRequirementBase value then
    false
  else if has (isOneOf ["artifact"]) "kind" value then
    has isString "artifactKind" value && hasOptional isNumber "minCount" value &&
      hasOptional isSchemaRef "schemaRef" value
  else if has (isOneOf ["structured"]) "kind" value then
    has isString "path" value && hasOptional isSchemaRef "schemaRef" value
  else if has (isOneOf ["narrative"]) "kind" value then
    has isString "section" value && hasOptional isNumber "minChars" value &&
      hasOptional isStringArray "mustMention" value
  else
    false

def isExpectedWorkerOutput : Bool :=
  isRecord value && has isString "contractId" value && has isString "profileId" value &&
    has (isOneOf ["all-required"]) "successMode" value &&
    has (isArrayOf isOutputRequirement) "requirements" value

def isAcceptanceIssue : Bool :=
  isRecord value && has isString "code" value && has isString "message" value &&
    has (isOneOf ["info", "warning", "error"]) "severity" value &&
    hasOptionalString "artifactId" value

def isWorkerAttemptContext : Bool :=
  isRecord value && has isNumber "attempt" value && has isNumber "maxAttempts" value &&
    hasOptional (isArrayOf isAcceptanceIssue) "previousIssues" value &&
    hasOptional isString "previousFailureReason" value

def isWorkerRequest : Bool :=
  isRecord value && has isString "taskId" value && has isString "workerType" value &&
    has isString "objective" value && has isStringArray "constraints" value &&
    has isArtifactRefArray "inputArtifacts" value && has isStringArray "expectedOutputs" value &&
    has isStringArray "acceptanceCriteria" value &&
    hasOptional isExpectedWorkerOutput "outputContract" value &&
    hasOptional isWorkerAttemptContext "attemptContext" value &&
    hasOptionalStringArray "legacyExpectedOutputs" value &&
    hasOptionalStringArray "legacyAcceptanceCriteria" value &&
    hasOptional isWorkerBudget "executionBudget" value &&
    hasOptional isWorkerRetryPolicy "retryPolicy" value &&
    hasOptional isWorkerProfile "profile" value && hasOptionalJsonObject "metadata" value

def isWorkerOpenQuestion : Bool :=
  isRecord value && has isString "question" value && hasOptional isBoolean "blocksExecution" value

end

def isWorkerOpenQuestionArray : Tree → Bool := isArrayOf isWorkerOpenQuestion

def isWorkerResult (value : Tree) : Bool :=
  isRecord value && has isString "taskId" value && has isWorkerResultStatus "status" value &&
    has isString "summary" value && hasOptionalJsonObject "structuredOutputs" value &&
    has isArtifactRefArray "producedArtifacts" value &&
    hasOptional isArtifactBriefArray "artifactBriefs" value &&
    has isStringArray "warnings" value && has isWorkerOpenQuestionArray "openQuestions" value &&
    has isExecutionTrace "executionTrace" value && hasOptionalString "failureReason" value

def isAcceptanceReport (value : Tree) : Bool :=
  isRecord value && has isString "taskId" value && has isBoolean "accepted" value &&
    has isString "checkedAt" value && has (isArrayOf isAcceptanceIssue) "issues" value &&
    hasOptionalString "summary" value

/-- The types that are published with a schema and a guard. -/
inductive ContractType where
  | artifactRef
  | artifactBrief
  | artifactManifest
  | executionTraceEvent
  | executionTrace
  | workerProfile
  | workerRequest
  | workerResult
  | acceptanceReport
  | workflowStep
  | workflowPlan
  deriving DecidableEq

namespace ContractType

def schema : ContractType → Schema
  | artifactRef => artifactRefSchema
  | artifactBrief => artifactBriefSchema
  | artifactManifest => artifactManifestSchema
  | executionTraceEvent => executionTraceEventSchema
  | executionTrace => executionTraceSchema
  | workerProfile => workerProfileSchema
  | workerRequest => workerRequestSchema
  | workerResult => workerResultSchema
  | acceptanceReport => acceptanceReportSchema
  | workflowStep => workflowStepSchema
  | workflowPlan => workflowPlanSchema

def guard : ContractType → Tree → Bool
  | artifactRef => isArtifactRef
  | artifactBrief => isArtifactBrief
  | artifactManifest => isArtifactManifest
  | executionTraceEvent => isExecutionTraceEvent
  | executionTrace => isExecutionTrace
  | workerProfile => isWorkerProfile
  | workerRequest => isWorkerRequest
  | workerResult => isWorkerResult
  | acceptanceReport => isAcceptanceReport
  | workflowStep => isWorkflowStep
  | workflowPlan => isWorkflowPlan

/-- Whether the members that the schema describes as any object have the types
the guard asks of them. -/
def looseMembersTyped : ContractType → Tree → Bool
  | workerRequest, value =>
    hasOptional isExpectedWorkerOutput "outputContract" value &&
      hasOptional isWorkerAttemptContext "attemptContext" value &&
      hasOptional isWorkerBudget "executionBudget" value &&
      hasOptional isWorkerRetryPolicy "retryPolicy" value
  | workflowStep, value => hasOptional isWorkerBudget "budget" value
  | workflowPlan, value =>
    hasOptional (isArrayOf (hasOptional isWorkerBudget "budget")) "steps" value &&
      hasOptional isWorkflowClarification "requiresClarification" value
  | _, _ => true

/-- Whether no record that the schema declares has a member it does not declare. -/
def noUndeclaredMember (type : ContractType) (value : Tree) : Bool := type.schema.closed value

end ContractType

theorem string_validates : Schema.string.validates = isString := by
  funext value
  cases value <;> rfl

theorem number_validates : Schema.number.validates = isNumber := by
  funext value
  cases value <;> rfl

theorem boolean_validates : Schema.boolean.validates = isBoolean := by
  funext value
  cases value <;> rfl

theorem enum_validates (values : List String) :
    (Schema.enum values).validates = isOneOf values := by
  funext value
  cases value with
  | str s =>
    have hsame : ∀ text : String, (js text == s) = (Tree.str s == Tree.str (js text)) := by
      intro text
      rw [Bool.eq_iff_iff, beq_iff_eq, beq_iff_eq, Tree.str.injEq]
      exact eq_comm
    simp only [validates, isOneOf, hsame]
  | _ => simp [validates, isOneOf]

theorem array_validates (items : Schema) :
    (Schema.array items).validates = isArrayOf items.validates := by
  funext value
  cases value <;> simp [validates, isArrayOf]

theorem object_validates (required : List String) (properties : List (String × Schema))
    (value : Tree) : (Schema.object required properties true).validates value =
      (isRecord value && required.all (fun key => (field key value).isSome) &&
        properties.all fun p => hasOptional p.2.validates p.1 value) := by
  cases value with
  | obj ms =>
    have hmembers : ∀ properties : List (String × Schema), Schema.validatesMembers properties ms =
          properties.all fun p => hasOptional p.2.validates p.1 (.obj ms) := by
      intro properties
      induction properties with
      | nil => simp [Schema.validatesMembers]
      | cons p properties ih =>
        obtain ⟨key, schema⟩ := p
        simp only [Schema.validatesMembers, all_cons, ih]
        rfl
    simp only [validates, hmembers, isRecord, Bool.true_and, Bool.true_or, Bool.and_true]
    rfl
  | _ => simp [validates, isRecord]

theorem jsonObject_validates : jsonObjectSchema.opened.validates = isJsonObject := by
  funext value
  rw [jsonObjectSchema, opened, openedMembers, object_validates]
  simp [isJsonObject]

theorem stringArray_validates : stringArraySchema.opened.validates = isStringArray := by
  rw [stringArraySchema, opened, opened, array_validates, string_validates]
  rfl

theorem has_eq (guard : Tree → Bool) (key : String) (value : Tree) :
    has guard key value = ((field key value).isSome && hasOptional guard key value) := by
  rw [has, hasOptional]
  cases field key value <;> rfl

theorem hasOptional_loose {guard : Tree → Bool} (hguard : ∀ v, guard v = (isRecord v && guard v))
    (key : String) (value : Tree) : hasOptional guard key value =
      (hasOptional isJsonObject key value && hasOptional guard key value) := by
  rw [hasOptional, hasOptional]
  cases field key value with
  | none => rfl
  | some member => exact hguard member

theorem isArtifactRef_eq : isArtifactRef = artifactRefSchema.opened.validates := by
  funext value
  simp only [artifactRefSchema, opened, openedMembers, object_validates,
    all_cons, all_nil, string_validates, jsonObject_validates, isArtifactRef,
    hasOptionalString, hasOptionalJsonObject, has_eq, Bool.and_true]
  ac_rfl

theorem isArtifactBrief_eq : isArtifactBrief = artifactBriefSchema.opened.validates := by
  funext value
  simp only [artifactBriefSchema, opened, openedMembers, object_validates,
    all_cons, all_nil, string_validates, stringArray_validates, isArtifactBrief,
    hasOptionalString, hasOptionalStringArray, has_eq, Bool.and_true]
  ac_rfl

theorem isArtifactManifest_eq : isArtifactManifest = artifactManifestSchema.opened.validates := by
  funext value
  simp only [artifactManifestSchema, opened, openedMembers, object_validates,
    all_cons, all_nil, string_validates, array_validates, jsonObject_validates,
    ← isArtifactRef_eq, isArtifactManifest, isArtifactRefArray, hasOptionalString,
    hasOptionalJsonObject, has_eq, Bool.and_true]
  ac_rfl

theorem isExecutionTraceEvent_eq :
    isExecutionTraceEvent = executionTraceEventSchema.opened.validates := by
  funext value
  simp only [executionTraceEventSchema, opened, openedMembers, object_validates,
    all_cons, all_nil, string_validates, jsonObject_validates, isExecutionTraceEvent,
    hasOptionalString, hasOptionalJsonObject, has_eq, Bool.and_true]
  ac_rfl

theorem isExecutionTrace_eq : isExecutionTrace = executionTraceSchema.opened.validates := by
  funext value
  simp only [executionTraceSchema, opened, openedMembers, object_validates,
    all_cons, all_nil, string_validates, array_validates, ← isExecutionTraceEvent_eq,
    isExecutionTrace, hasOptionalString, has_eq, Bool.and_true]
  ac_rfl

theorem isWorkerToolPolicy_eq : isWorkerToolPolicy = workerToolPolicySchema.opened.validates := by
  funext value
  simp only [workerToolPolicySchema, opened, openedMembers, object_validates,
    all_cons, all_nil, number_validates, boolean_validates, stringArray_validates,
    isWorkerToolPolicy, Bool.and_true]
  ac_rfl

theorem isWorkerProfile_eq : isWorkerProfile = workerProfileSchema.opened.validates := by
  funext value
  simp only [workerProfileSchema, opened, openedMembers, object_validates,
    all_cons, all_nil, string_validates, stringArray_validates,
    ← isWorkerToolPolicy_eq, isWorkerProfile, hasOptionalString, hasOptionalStringArray, has_eq,
    Bool.and_true]
  ac_rfl

theorem isWorkerOpenQuestion_eq :
    isWorkerOpenQuestion = workerOpenQuestionSchema.opened.validates := by
  funext value
  simp only [workerOpenQuestionSchema, opened, openedMembers, object_validates,
    all_cons, all_nil, string_validates, boolean_validates, isWorkerOpenQuestion,
    has_eq, Bool.and_true]
  ac_rfl

theorem isWorkerResult_eq : isWorkerResult = workerResultSchema.opened.validates := by
  funext value
  simp only [workerResultSchema, opened, openedMembers, object_validates,
    all_cons, all_nil, string_validates, enum_validates, array_validates,
    stringArray_validates, jsonObject_validates, ← isArtifactRef_eq, ← isArtifactBrief_eq,
    ← isWorkerOpenQuestion_eq, ← isExecutionTrace_eq, isWorkerResult, isWorkerResultStatus,
    isArtifactRefArray, isArtifactBriefArray, isWorkerOpenQuestionArray, hasOptionalString,
    hasOptionalJsonObject, has_eq, Bool.and_true]
  ac_rfl

theorem isAcceptanceIssue_eq : isAcceptanceIssue = acceptanceIssueSchema.opened.validates := by
  funext value
  simp only [acceptanceIssueSchema, opened, openedMembers, object_validates,
    all_cons, all_nil, string_validates, enum_validates, isAcceptanceIssue,
    hasOptionalString, has_eq, Bool.and_true]
  ac_rfl

theorem isAcceptanceReport_eq : isAcceptanceReport = acceptanceReportSchema.opened.validates := by
  funext value
  simp only [acceptanceReportSchema, opened, openedMembers, object_validates,
    all_cons, all_nil, string_validates, boolean_validates, array_validates,
    ← isAcceptanceIssue_eq, isAcceptanceReport, hasOptionalString, has_eq, Bool.and_true]
  ac_rfl

theorem isRecord_and (value : Tree) (rest : Bool) :
    (isRecord value && rest) = (isRecord value && (isRecord value && rest)) := by
  rw [← Bool.and_assoc, Bool.and_self]

section

variable (v : Tree)

theorem isWorkerBudget_record : isWorkerBudget v = (isRecord v && isWorkerBudget v) := by
  simp only [isWorkerBudget, Bool.and_assoc]
  exact isRecord_and v _

theorem isWorkerRetryPolicy_record :
    isWorkerRetryPolicy v = (isRecord v && isWorkerRetryPolicy v) := by
  simp only [isWorkerRetryPolicy, Bool.and_assoc]
  exact isRecord_and v _

theorem isExpectedWorkerOutput_record :
    isExpectedWorkerOutput v = (isRecord v && isExpectedWorkerOutput v) := by
  simp only [isExpectedWorkerOutput, Bool.and_assoc]
  exact isRecord_and v _

theorem isWorkerAttemptContext_record :
    isWorkerAttemptContext v = (isRecord v && isWorkerAttemptContext v) := by
  simp only [isWorkerAttemptContext, Bool.and_assoc]
  exact isRecord_and v _

theorem isWorkflowClarification_record :
    isWorkflowClarification v = (isRecord v && isWorkflowClarification v) := by
  simp only [isWorkflowClarification, Bool.and_assoc]
  exact isRecord_and v _

end

theorem isWorkerRequest_eq (value : Tree) :
    isWorkerRequest value = (workerRequestSchema.opened.validates value &&
      ContractType.workerRequest.looseMembersTyped value) := by
  rw [isWorkerRequest, hasOptional_loose isExpectedWorkerOutput_record,
    hasOptional_loose isWorkerAttemptContext_record, hasOptional_loose isWorkerBudget_record,
    hasOptional_loose isWorkerRetryPolicy_record]
  simp only [workerRequestSchema, opened, openedMembers, object_validates,
    all_cons, all_nil, string_validates, array_validates, stringArray_validates,
    jsonObject_validates, ← isArtifactRef_eq, ← isWorkerProfile_eq, isArtifactRefArray,
    ContractType.looseMembersTyped, hasOptionalStringArray, hasOptionalJsonObject, has_eq,
    Bool.and_true]
  ac_rfl

theorem isWorkflowStep_eq (value : Tree) :
    isWorkflowStep value = (workflowStepSchema.opened.validates value &&
      ContractType.workflowStep.looseMembersTyped value) := by
  rw [isWorkflowStep, hasOptional_loose isWorkerBudget_record]
  simp only [workflowStepSchema, opened, openedMembers, object_validates,
    all_cons, all_nil, string_validates, number_validates, array_validates,
    stringArray_validates, jsonObject_validates, ← isArtifactRef_eq, isArtifactRefArray,
    ContractType.looseMembersTyped, has_eq, Bool.and_true]
  ac_rfl

theorem isWorkflowPlanMode_eq : isWorkflowPlanMode = isOneOf ["direct", "workflow"] := by
  funext value
  rw [isWorkflowPlanMode, isOneOf, any_cons, any_cons, any_nil, Bool.or_false]

theorem isArrayOf_and (first second : Tree → Bool) : isArrayOf (fun v => first v && second v) =
      fun v => isArrayOf first v && isArrayOf second v := by
  funext value
  cases value with
  | arr xs =>
    simp only [isArrayOf]
    induction xs with
    | nil => rfl
    | cons x xs ih =>
      simp only [all_cons, ih]
      ac_rfl
  | _ => rfl

theorem hasOptional_and (first second : Tree → Bool) (key : String) (value : Tree) :
    hasOptional (fun v => first v && second v) key value =
      (hasOptional first key value && hasOptional second key value) := by
  rw [hasOptional, hasOptional, hasOptional]
  cases field key value <;> rfl

theorem isWorkflowPlan_eq (value : Tree) :
    isWorkflowPlan value = (workflowPlanSchema.opened.validates value &&
      ContractType.workflowPlan.looseMembersTyped value) := by
  have hstep : isWorkflowStep = fun v => workflowStepSchema.opened.validates v &&
      hasOptional isWorkerBudget "budget" v := funext isWorkflowStep_eq
  rw [isWorkflowPlan, hasOptional_loose isWorkflowClarification_record]
  simp only [workflowPlanSchema, opened, openedMembers, object_validates,
    all_cons, all_nil, string_validates, enum_validates, array_validates,
    stringArray_validates, jsonObject_validates, ContractType.looseMembersTyped, hstep,
    isArrayOf_and, hasOptional_and, isWorkflowPlanMode_eq, has_eq, Bool.and_true]
  ac_rfl

namespace ContractType

theorem guard_eq (type : ContractType) (value : Tree) : type.guard value =
      (type.schema.opened.validates value && type.looseMembersTyped value) := by
  cases type with
  | artifactRef => simp only [guard, schema, looseMembersTyped, isArtifactRef_eq, Bool.and_true]
  | artifactBrief =>
    simp only [guard, schema, looseMembersTyped, isArtifactBrief_eq, Bool.and_true]
  | artifactManifest =>
    simp only [guard, schema, looseMembersTyped, isArtifactManifest_eq, Bool.and_true]
  | executionTraceEvent =>
    simp only [guard, schema, looseMembersTyped, isExecutionTraceEvent_eq, Bool.and_true]
  | executionTrace =>
    simp only [guard, schema, looseMembersTyped, isExecutionTrace_eq, Bool.and_true]
  | workerProfile =>
    simp only [guard, schema, looseMembersTyped, isWorkerProfile_eq, Bool.and_true]
  | workerRequest => exact isWorkerRequest_eq value
  | workerResult =>
    simp only [guard, schema, looseMembersTyped, isWorkerResult_eq, Bool.and_true]
  | acceptanceReport =>
    simp only [guard, schema, looseMembersTyped, isAcceptanceReport_eq, Bool.and_true]
  | workflowStep => exact isWorkflowStep_eq value
  | workflowPlan => exact isWorkflowPlan_eq value

end ContractType

/-- A value that validates against the schema of a contract is accepted by its
guard exactly when its loosely described members have the types the guard asks
for, and an accepted value validates exactly when it has no undeclared member.
So the two agree on a value exactly when it is neither accepted with an
undeclared member nor valid with a loosely described member of another type. -/
theorem contract_schema_guard (type : ContractType) (value : Tree) :
    (type.schema.validates value = true →
      (type.guard value = true ↔ type.looseMembersTyped value = true)) ∧ (type.guard value = true →
      (type.schema.validates value = true ↔ type.noUndeclaredMember value = true)) := by
  have hschema := Schema.validates_iff type.schema value
  have hguard := type.guard_eq value
  rw [Bool.eq_iff_iff, Bool.and_eq_true] at hguard
  rw [ContractType.noUndeclaredMember]
  tauto

/-- A reference without further members validates and is accepted. -/
theorem contract_schema_guard_reference : ContractType.artifactRef.guard
        (record [("id", some (.str (js "a"))), ("kind", some (.str (js "note"))),
          ("uri", some (.str (js "file:a")))]) = true ∧
      ContractType.artifactRef.schema.validates
        (record [("id", some (.str (js "a"))), ("kind", some (.str (js "note"))),
          ("uri", some (.str (js "file:a")))]) = true :=
  have h := contract_schema_guard .artifactRef
    (record [("id", some (.str (js "a"))), ("kind", some (.str (js "note"))),
      ("uri", some (.str (js "file:a")))])
  ⟨(h.1 (by decide)).mpr (by decide), (h.2 (by decide)).mpr (by decide)⟩

/-- A reference with a member of its own is accepted, and does not validate. -/
theorem contract_schema_guard_differ : ¬ ∀ (type : ContractType) (value : Tree),
      type.schema.validates value = true ↔ type.guard value = true := by
  intro hsame
  have href := hsame .artifactRef
    (record [("id", some (.str (js "a"))), ("kind", some (.str (js "note"))),
      ("uri", some (.str (js "file:a"))), ("size", some (.bool true))])
  revert href
  decide

end AcademicAgent.LeadAgent
