import AcademicAgent.Core.Json.Text
import AcademicAgent.LeadAgent.Executor

/-!
# The conversation context of a lead session

What a run learns from the session so far is read off the branch: the messages that the session
still shows, and the decisions, results and artifacts in the data that runs recorded.
-/

namespace AcademicAgent.LeadAgent

open Json

/-- The roles of messages that a lead session reads, and the others. -/
inductive MessageRole where
  | user
  | assistant
  | other
  deriving DecidableEq

/-- An entry on the branch of a session; those of other types are left out. -/
inductive LeadEntry where
  | message (role : MessageRole) (content : Tree)
  | custom (customType : JsString) (data : Tree)
  | compaction (summary : JsString) (firstKeptEntry : Nat) (details : Tree)
  deriving DecidableEq

abbrev Branch := List LeadEntry

def stringMember (key : String) (value : Tree) : Option JsString :=
  match field key value with
  | some (.str s) => some s
  | _ => none

def booleanMember (key : String) (value : Tree) : Option Bool :=
  match field key value with
  | some (.bool b) => some b
  | _ => none

def jsonObjectFrom : Option Tree → Option JsonObject
  | some (.obj ms) => some ms
  | _ => none

def stringArrayFrom : Option Tree → List JsString
  | some (.arr xs) => xs.filterMap fun
    | .str s => some s
    | _ => none
  | _ => []

def partText (part : Tree) : Option JsString := stringMember "text" part

def textFromContent : Tree → Option JsString
  | .str s => some s
  | .arr parts =>
    let text := (parts.filterMap partText).flatten
    if trim text = [] then none else some text
  | _ => none

def trimText (text : JsString) (maxChars : Nat) : JsString :=
  if text.length ≤ maxChars then text else text.take (maxChars - 3) ++ js "..."

def artifactRefFrom (value : Tree) : Option ArtifactRef := do
  let id ← stringMember "id" value
  let kind ← stringMember "kind" value
  let uri ← stringMember "uri" value
  return {
    id, kind, uri
    title := stringMember "title" value
    mediaType := stringMember "mediaType" value
    version := stringMember "version" value
    metadata := jsonObjectFrom (field "metadata" value) }

def nonEmptyList {α : Type} (xs : List α) : Option (List α) := if xs.isEmpty then none else some xs

def artifactBriefFrom (value : Tree) : Option ArtifactBrief := do
  let artifactId ← stringMember "artifactId" value
  let kind ← stringMember "kind" value
  let brief ← stringMember "brief" value
  return {
    artifactId, kind
    title := stringMember "title" value
    brief
    keyFindings := nonEmptyList (stringArrayFrom (field "keyFindings" value))
    limitations := nonEmptyList (stringArrayFrom (field "limitations" value)) }

def customData (entry : LeadEntry) (customType : JsString) : Option Tree :=
  match entry with
  | .custom type data => if type = customType ∧ isRecord data then some data else none
  | _ => none

/-- The last compaction of a branch and its place. -/
def latestCompaction (branch : Branch) : Option (Nat × JsString × Nat × Tree) :=
  branch.zipIdx.reverse.findSome? fun entry =>
    match entry.1 with
    | .compaction summary firstKeptEntry details => some (entry.2, summary, firstKeptEntry, details)
    | _ => none

def messageOf : LeadEntry → Option (MessageRole × Tree)
  | .message role content => some (role, content)
  | _ => none

/-- The messages of `buildSessionContext`: after a compaction its summary, which has a role
of its own, the messages from the first entry it keeps and those after it. -/
def contextMessages (branch : Branch) : List (MessageRole × Tree) :=
  match latestCompaction branch with
  | none => branch.filterMap messageOf
  | some (place, summary, firstKeptEntry, _) =>
    (.other, .str summary) :: (((branch.take place).drop firstKeptEntry).filterMap messageOf ++
      (branch.drop (place + 1)).filterMap messageOf)

def messageTexts (role : MessageRole) (branch : Branch) : List JsString :=
  (contextMessages branch).filterMap fun message =>
    if message.1 = role then nonEmpty (textFromContent message.2) else none

/-- `xs.slice(-n)`. -/
def lastOf {α : Type} (n : Nat) (xs : List α) : List α := xs.drop (xs.length - n)

/-- `MAX_RECENT_MESSAGES`. -/
def maxRecentMessages : Nat := 8

/-- `MAX_RECENT_DECISIONS`. -/
def maxRecentDecisions : Nat := 6

/-- `MAX_RECENT_WORKFLOW_RESULTS`. -/
def maxRecentWorkflowResults : Nat := 8

structure LeadDecisionSummary where
  taskId : Option JsString
  mode : JsString
  profileId : Option JsString
  reason : Option JsString

def decisionFrom (entry : LeadEntry) : Option LeadDecisionSummary := do
  let data ← customData entry (js "lead-agent.decision")
  let mode ← stringMember "mode" data
  if mode = js "direct" ∨ mode = js "worker" then
    some {
      taskId := stringMember "taskId" data
      mode
      profileId := stringMember "profileId" data
      reason := stringMember "reason" data }
  else none

section

variable (branch : Branch)

def extractDecisions : List LeadDecisionSummary :=
  lastOf maxRecentDecisions (branch.filterMap decisionFrom)

def extractArtifactsFromValue : Option Tree → List ArtifactRef
  | some (.arr xs) => xs.filterMap artifactRefFrom
  | _ => []

def extractArtifactBriefsFromValue : Option Tree → List ArtifactBrief
  | some (.arr xs) => xs.filterMap artifactBriefFrom
  | _ => []

/-- The message of an issue, which may be written as a text. -/
def issueMessageFrom : Tree → Option JsString
  | .str s => some s
  | issue => stringMember "message" issue

def issueMessagesFrom : Option Tree → List JsString
  | some (.arr xs) => xs.filterMap issueMessageFrom
  | _ => []

structure LeadWorkflowResultSummary where
  taskId : JsString
  accepted : Bool
  producedArtifactKinds : List JsString
  issues : List JsString
  deriving DecidableEq

def workflowResultFrom (entry : LeadEntry) : Option LeadWorkflowResultSummary := do
  let data ← (customData entry (js "lead-agent.result")).or
    (customData entry (js "workflow_step_result"))
  let taskId ← stringMember "taskId" data
  let accepted ← booleanMember "accepted" data
  return {
    taskId, accepted
    producedArtifactKinds := (extractArtifactsFromValue (field "producedArtifacts" data)).map (·.kind)
    issues := issueMessagesFrom (field "issues" data) }

def extractWorkflowResults : List LeadWorkflowResultSummary :=
  lastOf maxRecentWorkflowResults (branch.filterMap workflowResultFrom)

/-- The artifacts that an entry records as produced and then those given as input. -/
def recordedArtifacts : LeadEntry → List ArtifactRef
  | .custom _ data => extractArtifactsFromValue (field "producedArtifacts" data) ++
      extractArtifactsFromValue (field "inputArtifacts" data)
  | _ => []

def extractArtifacts : List ArtifactRef :=
  ((branch.flatMap recordedArtifacts).foldl
    (fun artifacts artifact => assocSet artifact.id artifact artifacts) []).map Prod.snd

def recordedBriefs : LeadEntry → List ArtifactBrief
  | .custom _ data => extractArtifactBriefsFromValue (field "artifactBriefs" data)
  | _ => []

def extractArtifactBriefs : List ArtifactBrief :=
  ((branch.flatMap recordedBriefs).foldl (fun briefs brief =>
    assocSet (brief.artifactId ++ js ":" ++ brief.kind) brief briefs) []).map Prod.snd

end

structure LeadConversationContext where
  sessionId : JsString
  currentObjective : JsString
  recentUserObjectives : List JsString
  recentLeadOutputs : List JsString
  recentDecisions : List LeadDecisionSummary
  recentWorkflowResults : List LeadWorkflowResultSummary
  priorArtifacts : List ArtifactRef
  artifactBriefs : List ArtifactBrief
  compactionSummary : Option JsString
  compactionDetails : Option JsonObject
  /-- The sections that were cut to the budget. -/
  truncatedSections : List JsString := []

def stringsTree (xs : List JsString) : Tree := .arr (xs.map .str)

def LeadDecisionSummary.toTree (decision : LeadDecisionSummary) : Tree :=
  record [("taskId", decision.taskId.map .str), ("mode", some (.str decision.mode)),
    ("profileId", decision.profileId.map .str), ("reason", decision.reason.map .str)]

def LeadWorkflowResultSummary.toTree (result : LeadWorkflowResultSummary) : Tree :=
  record [("taskId", some (.str result.taskId)), ("accepted", some (.bool result.accepted)),
    ("producedArtifactKinds", some (stringsTree result.producedArtifactKinds)),
    ("issues", some (stringsTree result.issues))]

def ArtifactBrief.toTree (brief : ArtifactBrief) : Tree :=
  record [("artifactId", some (.str brief.artifactId)), ("kind", some (.str brief.kind)),
    ("title", brief.title.map .str), ("brief", some (.str brief.brief)),
    ("keyFindings", brief.keyFindings.map stringsTree),
    ("limitations", brief.limitations.map stringsTree)]

def LeadConversationContext.toTree (context : LeadConversationContext) : Tree :=
  record [("sessionId", some (.str context.sessionId)),
    ("currentObjective", some (.str context.currentObjective)),
    ("recentUserObjectives", some (stringsTree context.recentUserObjectives)),
    ("recentLeadOutputs", some (stringsTree context.recentLeadOutputs)),
    ("recentDecisions", some (.arr (context.recentDecisions.map LeadDecisionSummary.toTree))),
    ("recentWorkflowResults",
      some (.arr (context.recentWorkflowResults.map LeadWorkflowResultSummary.toTree))),
    ("priorArtifacts", some (.arr (context.priorArtifacts.map ArtifactRef.toTree))),
    ("artifactBriefs", some (.arr (context.artifactBriefs.map ArtifactBrief.toTree))),
    ("compactionSummary", context.compactionSummary.map .str),
    ("compactionDetails", context.compactionDetails.map .obj)]

/-- The length of `JSON.stringify(context)`. -/
def contextChars (context : LeadConversationContext) : Nat := context.toTree.print.length

/-- `DEFAULT_MAX_CHARS`. -/
def defaultMaxChars : Nat := 12000

/-- `TRIMMED_LEAD_OUTPUT_CHARS`. -/
def trimmedLeadOutputChars : Nat := 120

/-- `TRIMMED_ARTIFACT_BRIEF_CHARS`. -/
def trimmedArtifactBriefChars : Nat := 80

/-- `TRIMMED_USER_OBJECTIVE_CHARS`. -/
def trimmedUserObjectiveChars : Nat := 120

def trimBrief (brief : ArtifactBrief) : ArtifactBrief :=
  { brief with
    brief := trimText brief.brief trimmedArtifactBriefChars
    keyFindings := brief.keyFindings.map (·.map (trimText · trimmedArtifactBriefChars))
    limitations := brief.limitations.map (·.map (trimText · trimmedArtifactBriefChars)) }

section

variable (maxChars : Nat) (context : LeadConversationContext)

/-- Cut the lead outputs when the context is over its budget. -/
def trimLeadOutputs : LeadConversationContext :=
  if maxChars < contextChars context ∧ context.recentLeadOutputs ≠ [] then
    { context with
      recentLeadOutputs := context.recentLeadOutputs.map (trimText · trimmedLeadOutputChars)
      truncatedSections := context.truncatedSections ++ [js "recentLeadOutputs"] }
  else context

/-- Cut the briefs when the context is over its budget. -/
def trimArtifactBriefs : LeadConversationContext :=
  if maxChars < contextChars context ∧ context.artifactBriefs ≠ [] then
    { context with
      artifactBriefs := context.artifactBriefs.map trimBrief
      truncatedSections := context.truncatedSections ++ [js "artifactBriefs"] }
  else context

/-- Cut the objectives of the user when the context is over its budget. -/
def trimUserObjectives : LeadConversationContext :=
  if maxChars < contextChars context ∧ context.recentUserObjectives ≠ [] then
    { context with
      recentUserObjectives :=
        context.recentUserObjectives.map (trimText · trimmedUserObjectiveChars)
      truncatedSections := context.truncatedSections ++ [js "recentUserObjectives"] }
  else context

end

def trimForBudget (context : LeadConversationContext) (maxChars : Nat) : LeadConversationContext :=
  trimUserObjectives maxChars (trimArtifactBriefs maxChars (trimLeadOutputs maxChars context))

section

variable (sessionId : JsString) (branch : Branch) (currentObjective : JsString)

def untrimmedContext : LeadConversationContext where
  sessionId := sessionId
  currentObjective := currentObjective
  recentUserObjectives := lastOf maxRecentMessages (messageTexts .user branch)
  recentLeadOutputs := lastOf maxRecentMessages (messageTexts .assistant branch)
  recentDecisions := extractDecisions branch
  recentWorkflowResults := extractWorkflowResults branch
  priorArtifacts := extractArtifacts branch
  artifactBriefs := extractArtifactBriefs branch
  compactionSummary := (latestCompaction branch).map (·.2.1)
  compactionDetails := (latestCompaction branch).bind fun compaction =>
    jsonObjectFrom (some compaction.2.2.2)

def buildLeadConversationContext (maxChars : Nat := defaultMaxChars) : LeadConversationContext :=
  trimForBudget (untrimmedContext sessionId branch currentObjective) maxChars

end

end AcademicAgent.LeadAgent
