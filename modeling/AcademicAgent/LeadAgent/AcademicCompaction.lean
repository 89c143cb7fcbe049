import AcademicAgent.Core.Run
import AcademicAgent.LeadAgent.LeadContext

/-!
# Academic compaction

A compaction of a lead session replaces the messages so far by a summary and details, which are
made from the conversation context at that time.
-/

namespace AcademicAgent.LeadAgent

open Json List

/-- `ACADEMIC_COMPACTION_KIND`. -/
def academicCompactionKind : JsString := js "lead-agent.academic-compaction"

/-- `ACADEMIC_COMPACTION_VERSION`. -/
def academicCompactionVersion : JsString := js "v1"

structure ArtifactLineage where
  artifactId : JsString
  kind : JsString
  uri : JsString
  title : Option JsString

/-- The details of a compaction; the lists that are always empty have no field here. -/
structure AcademicCompactionDetails where
  researchObjective : JsString
  lastAcceptedFinalOutput : Option JsString
  artifactLineage : List ArtifactLineage
  acceptedWorkflowResults : List LeadWorkflowResultSummary
  unresolvedIssues : List JsString

def artifactLineageFor (artifacts : List ArtifactRef) : List ArtifactLineage :=
  artifacts.map fun artifact =>
    { artifactId := artifact.id
      kind := artifact.kind
      uri := artifact.uri
      title := nonEmpty artifact.title }

def createAcademicCompactionDetails (sessionId : JsString) (branch : Branch)
    (currentObjective : JsString) : AcademicCompactionDetails :=
  let context := buildLeadConversationContext sessionId branch currentObjective
  { researchObjective := currentObjective
    lastAcceptedFinalOutput := nonEmpty context.recentLeadOutputs.getLast?
    artifactLineage := artifactLineageFor context.priorArtifacts
    acceptedWorkflowResults := context.recentWorkflowResults.filter (·.accepted)
    unresolvedIssues := (context.recentWorkflowResults.filter (!·.accepted)).flatMap (·.issues) }

def ArtifactLineage.toTree (lineage : ArtifactLineage) : Tree :=
  record [("artifactId", some (.str lineage.artifactId)), ("kind", some (.str lineage.kind)),
    ("uri", some (.str lineage.uri)), ("title", lineage.title.map .str),
    ("sourceArtifactIds", some (.arr []))]

def AcademicCompactionDetails.toTree (details : AcademicCompactionDetails) : Tree :=
  record [("kind", some (.str academicCompactionKind)),
    ("version", some (.str academicCompactionVersion)),
    ("researchObjective", some (.str details.researchObjective)),
    ("lastAcceptedFinalOutput", details.lastAcceptedFinalOutput.map .str),
    ("artifactLineage", some (.arr (details.artifactLineage.map ArtifactLineage.toTree))),
    ("acceptedWorkflowResults",
      some (.arr (details.acceptedWorkflowResults.map LeadWorkflowResultSummary.toTree))),
    ("claimEvidenceMap", some (.arr [])),
    ("unresolvedIssues", some (stringsTree details.unresolvedIssues)),
    ("openQuestions", some (.arr [])), ("retrievalGaps", some (.arr [])),
    ("pendingOutputContracts", some (.arr []))]

def createAcademicCompactionSummary (details : AcademicCompactionDetails) : JsString :=
  (js "\n").intercalate [js "Academic working memory compacted.",
    js "Research objective: " ++ details.researchObjective,
    js "Retained artifacts: " ++ decimalText details.artifactLineage.length,
    js "Accepted workflow results: " ++ decimalText details.acceptedWorkflowResults.length,
    js "Unresolved issues: " ++ decimalText details.unresolvedIssues.length]

/-- The branch with a compaction that keeps its last entry; an empty one is refused. -/
def compactLeadAcademicSession (sessionId : JsString) (branch : Branch)
    (currentObjective : Option JsString) : Except JsString (Branch × AcademicCompactionDetails) :=
  if branch = [] then .error (js "Cannot compact an empty lead-agent session.")
  else
    let details := createAcademicCompactionDetails sessionId branch
      (currentObjective.getD (js "Continue academic workflow."))
    .ok (branch ++ [.compaction (createAcademicCompactionSummary details) (branch.length - 1)
      details.toTree], details)

/-- The final output of a run that was recorded as accepted. -/
def acceptedOutput (entry : LeadEntry) : Option JsString := do
  let data ← customData entry (js "lead-agent.result")
  let accepted ← booleanMember "accepted" data
  if accepted then stringMember "finalOutput" data else none

/-- The final output of the most recent accepted run. -/
def lastAcceptedOutput (branch : Branch) : Option JsString :=
  (branch.filterMap acceptedOutput).getLast?

/-- The issues of the results that were recorded as rejected. -/
def rejectedIssues (results : List LeadWorkflowResultSummary) : List JsString :=
  (results.filter (!·.accepted)).flatMap (·.issues)

/-- The issues that were unresolved in the previous compaction or recorded since. -/
def pendingIssues (branch : Branch) : List JsString :=
  match latestCompaction branch with
  | none => rejectedIssues (branch.filterMap workflowResultFrom)
  | some (place, _, _, details) =>
    stringArrayFrom (field "unresolvedIssues" details) ++
      rejectedIssues ((branch.drop (place + 1)).filterMap workflowResultFrom)

/-- The details of a compaction keep the working memory of the branch. -/
structure KeepsMemory (branch : Branch) (details : AcademicCompactionDetails) : Prop where
  artifacts : ∀ artifact ∈ branch.flatMap recordedArtifacts,
    ∃ lineage ∈ details.artifactLineage, lineage.artifactId = artifact.id
  output : ∀ output, lastAcceptedOutput branch = some output →
    details.lastAcceptedFinalOutput = some output
  issues : ∀ issue ∈ pendingIssues branch, issue ∈ details.unresolvedIssues

/-- The last text of the lead that the session still shows, cut when the context is over
its budget. -/
def shownOutput (sessionId : JsString) (branch : Branch) (currentObjective : JsString) :
    Option JsString :=
  (messageTexts .assistant branch).getLast?.map fun text =>
    if defaultMaxChars < contextChars (untrimmedContext sessionId branch currentObjective) then
      trimText text trimmedLeadOutputChars
    else text

/-- The last text that is still shown is the output of the most recent accepted run, and
the last eight results report every pending issue. -/
structure ShowsMemory (sessionId : JsString) (branch : Branch) (currentObjective : JsString) :
    Prop where
  output : ∀ output, lastAcceptedOutput branch = some output →
    shownOutput sessionId branch currentObjective = some output
  issues : ∀ issue ∈ pendingIssues branch,
    ∃ result ∈ extractWorkflowResults branch, result.accepted = false ∧ issue ∈ result.issues

theorem extractArtifacts_eq (branch : Branch) :
    extractArtifacts branch = mergeByKey (·.id) (branch.flatMap recordedArtifacts) := by
  have hfold (as m : List ArtifactRef) :
      as.foldl (fun artifacts artifact => assocSet artifact.id artifact artifacts)
          (m.map fun a => (a.id, a)) =
        (placeAll (·.id) m as).map fun a => (a.id, a) := by
    induction as generalizing m with
    | nil => rfl
    | cons a as ih =>
      rw [foldl_cons, placeAll_cons, ← ih]
      exact congrArg (as.foldl _) (assocSet_keyed a m)
  rw [extractArtifacts, mergeByKey]
  have hmap := hfold (branch.flatMap recordedArtifacts) []
  rw [map_nil] at hmap
  rw [hmap, map_map]
  exact map_id' _

theorem exists_mem_extractArtifacts {branch : Branch} {artifact : ArtifactRef}
    (h : artifact ∈ branch.flatMap recordedArtifacts) :
    ∃ kept ∈ extractArtifacts branch, kept.id = artifact.id := by
  rw [extractArtifacts_eq]
  have hfind : (mergeByKey ArtifactRef.id (branch.flatMap recordedArtifacts)).find?
      (fun a => decide (a.id = artifact.id)) =
        (branch.flatMap recordedArtifacts).reverse.find? fun a => decide (a.id = artifact.id) :=
    find?_mergeByKey _ _
  cases hlast : (mergeByKey ArtifactRef.id (branch.flatMap recordedArtifacts)).find?
      (·.id = artifact.id) with
  | some kept =>
    exact ⟨kept, mem_of_find?_eq_some hlast, by simpa using find?_some hlast⟩
  | none =>
    rw [hlast, eq_comm, find?_eq_none] at hfind
    exact absurd (decide_eq_true rfl) (hfind artifact (mem_reverse.mpr h))

theorem getLast?_lastOf {α : Type} {n : Nat} (hn : 0 < n) (xs : List α) :
    (lastOf n xs).getLast? = xs.getLast? := by
  cases xs with
  | nil => simp [lastOf]
  | cons x xs =>
    rw [lastOf, getLast?_drop, if_neg]
    simp only [length_cons]
    omega

section

variable (context : LeadConversationContext) (maxChars : Nat)

theorem recentLeadOutputs_trimForBudget : (trimForBudget context maxChars).recentLeadOutputs =
      (trimLeadOutputs maxChars context).recentLeadOutputs := by
  unfold trimForBudget trimUserObjectives trimArtifactBriefs
  split
  all_goals
    split
    · rfl
    · rfl

theorem recentWorkflowResults_trimForBudget :
    (trimForBudget context maxChars).recentWorkflowResults = context.recentWorkflowResults ∧
      (trimForBudget context maxChars).priorArtifacts = context.priorArtifacts := by
  unfold trimForBudget trimUserObjectives trimArtifactBriefs trimLeadOutputs
  split
  all_goals
    split
    · split <;> exact ⟨rfl, rfl⟩
    · split <;> exact ⟨rfl, rfl⟩

end

theorem nonEmpty_some {s : JsString} (h : s ≠ []) : nonEmpty (some s) = some s := by
  cases s with
  | nil => exact absurd rfl h
  | cons c s => rfl

theorem trimText_ne_nil {text : JsString} (h : text ≠ []) :
    trimText text trimmedLeadOutputChars ≠ [] := by
  unfold trimText
  split
  · exact h
  · exact append_ne_nil_of_right_ne_nil _ (by decide)

theorem ne_nil_of_mem_messageTexts {role : MessageRole} {branch : Branch} {text : JsString}
    (h : text ∈ messageTexts role branch) : text ≠ [] := by
  obtain ⟨message, -, hmessage⟩ := mem_filterMap.mp h
  split at hmessage
  · rintro rfl
    cases hcontent : textFromContent message.2 with
    | none =>
      rw [hcontent] at hmessage
      cases hmessage
    | some t =>
      cases t with
      | nil | cons c t =>
        rw [hcontent] at hmessage
        cases hmessage
  · cases hmessage

section

variable (sessionId : JsString) (branch : Branch) (currentObjective : JsString)

theorem lastAcceptedFinalOutput_eq :
    (createAcademicCompactionDetails sessionId branch currentObjective).lastAcceptedFinalOutput =
      shownOutput sessionId branch currentObjective := by
  have hlast : (createAcademicCompactionDetails sessionId branch
      currentObjective).lastAcceptedFinalOutput = nonEmpty (trimLeadOutputs defaultMaxChars
          (untrimmedContext sessionId branch currentObjective)).recentLeadOutputs.getLast? := by
    rw [createAcademicCompactionDetails, buildLeadConversationContext,
      recentLeadOutputs_trimForBudget]
  have houtputs : (untrimmedContext sessionId branch currentObjective).recentLeadOutputs.getLast? =
      (messageTexts .assistant branch).getLast? :=
    getLast?_lastOf (by decide) _
  rw [hlast, shownOutput, ← houtputs]
  have htexts : ∀ text ∈ (untrimmedContext sessionId branch currentObjective).recentLeadOutputs,
      text ≠ [] := fun text htext => ne_nil_of_mem_messageTexts (mem_of_mem_drop htext)
  unfold trimLeadOutputs
  split
  · rename_i hover
    rw [getLast?_map]
    cases hshown : (untrimmedContext sessionId branch
        currentObjective).recentLeadOutputs.getLast? with
    | none => rfl
    | some text =>
      have hne := trimText_ne_nil (htexts text (mem_of_getLast? hshown))
      simp only [Option.map_some, if_pos hover.1]
      exact nonEmpty_some hne
  · rename_i hfits
    cases hshown : (untrimmedContext sessionId branch
        currentObjective).recentLeadOutputs.getLast? with
    | none => rfl
    | some text =>
      have hne := htexts text (mem_of_getLast? hshown)
      have hnonempty : (untrimmedContext sessionId branch
          currentObjective).recentLeadOutputs ≠ [] := fun hnil => by
        rw [hnil] at hshown
        cases hshown
      rw [Option.map_some, if_neg fun hover => hfits ⟨hover, hnonempty⟩]
      exact nonEmpty_some hne

theorem keepsMemory_iff :
    KeepsMemory branch (createAcademicCompactionDetails sessionId branch currentObjective) ↔
      ShowsMemory sessionId branch currentObjective := by
  have hcontext := recentWorkflowResults_trimForBudget
    (untrimmedContext sessionId branch currentObjective) defaultMaxChars
  have hissues (issue : JsString) : issue ∈ (createAcademicCompactionDetails sessionId branch
        currentObjective).unresolvedIssues ↔
        ∃ result ∈ extractWorkflowResults branch,
          result.accepted = false ∧ issue ∈ result.issues := by
    rw [createAcademicCompactionDetails, buildLeadConversationContext, hcontext.1]
    simp only [mem_flatMap, mem_filter, Bool.not_eq_true', and_assoc]
    exact Iff.rfl
  constructor
  · intro h
    refine ⟨fun output houtput => ?_, fun issue hissue => ?_⟩
    · rw [← lastAcceptedFinalOutput_eq]
      exact h.output output houtput
    · exact (hissues issue).mp (h.issues issue hissue)
  · intro h
    refine ⟨fun artifact hartifact => ?_, fun output houtput => ?_, fun issue hissue => ?_⟩
    · obtain ⟨kept, hkept, hid⟩ := exists_mem_extractArtifacts hartifact
      refine ⟨_, mem_map.mpr ⟨kept, ?_, rfl⟩, hid⟩
      rw [buildLeadConversationContext, hcontext.2]
      exact hkept
    · rw [lastAcceptedFinalOutput_eq]
      exact h.output output houtput
    · exact (hissues issue).mpr (h.issues issue hissue)

end

inductive RunEntry where
  | message (role : MessageRole) (content : Tree)
  | custom (customType : JsString) (data : Tree)

def RunEntry.toEntry : RunEntry → LeadEntry
  | .message role content => .message role content
  | .custom customType data => .custom customType data

inductive LeadAction where
  | run (entries : List RunEntry)
  | compact (currentObjective : Option JsString)

section

variable (sessionId : JsString) (branch : Branch)

/-- The branch after an action; a refused compaction changes nothing. -/
def leadStep : LeadAction → Option Branch
  | .run entries => some (branch ++ entries.map RunEntry.toEntry)
  | .compact currentObjective =>
    match compactLeadAcademicSession sessionId branch currentObjective with
    | .ok compacted => some compacted.1
    | .error _ => some branch

def CompactsKeeping : LeadAction → Prop
  | .run _ => True
  | .compact currentObjective => ∀ compacted,
    compactLeadAcademicSession sessionId branch currentObjective = .ok compacted →
      KeepsMemory branch compacted.2

/-- A compaction is made while the context shows the working memory. -/
def CompactsShown : LeadAction → Prop
  | .run _ => True
  | .compact currentObjective => branch ≠ [] →
    ShowsMemory sessionId branch (currentObjective.getD (js "Continue academic workflow."))

end

def textContent (text : JsString) : Tree :=
  .arr [record [("type", some (.str (js "text"))), ("text", some (.str text))]]

def directRun (objective finalOutput : JsString) : List RunEntry :=
  [.message .user (textContent objective),
    .custom (js "lead-agent.decision") (record [("taskId", some (.str (js "t"))),
      ("mode", some (.str (js "direct"))), ("workerType", some .null), ("profileId", some .null),
      ("reason", some (.str
        (js "Task was forced into direct lead-author mode by dispatchMode.")))]),
    .message .assistant (textContent finalOutput),
    .custom (js "lead-agent.result") (record [("taskId", some (.str (js "t"))),
      ("finalOutput", some (.str finalOutput)), ("accepted", some (.bool true))])]

end AcademicAgent.LeadAgent
