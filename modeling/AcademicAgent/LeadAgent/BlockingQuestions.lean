import AcademicAgent.LeadAgent.Synthesis

/-!
# Blocking questions in the final output

A question that blocks a workflow is an issue of its step and part of its decision.
-/

namespace AcademicAgent.LeadAgent

open Json List WorkflowStepResult

theorem infix_intercalate {α : Type} (sep : List α) {xs : List (List α)} {x : List α}
    (h : x ∈ xs) : x <:+: sep.intercalate xs := by
  induction xs with
  | nil => cases h
  | cons y ys ih =>
    cases ys with
    | nil =>
      rw [mem_singleton] at h
      subst h
      simp
    | cons z zs =>
      rw [intercalate_cons_cons]
      rcases mem_cons.mp h with rfl | h
      · exact ⟨[], sep ++ sep.intercalate (z :: zs), by simp⟩
      · exact (ih h).trans ⟨y ++ sep, [], by simp⟩

theorem infix_renderBulletSection (title : JsString) {values : List JsString} {value : JsString}
    (h : value ∈ values) (fallback : Option JsString) :
    value <:+: renderBulletSection title values fallback := by
  have hbullet : value <:+: (js "\n").intercalate (values.map (js "- " ++ ·)) :=
    List.IsInfix.trans ⟨js "- ", [], by simp⟩ (infix_intercalate (js "\n") (mem_map_of_mem h))
  cases values with
  | nil => cases h
  | cons v vs =>
    have hsection : renderBulletSection title (v :: vs) fallback =
        js "\n\n" ++ title ++ js "\n" ++ (js "\n").intercalate ((v :: vs).map (js "- " ++ ·)) := by
      cases fallback <;> rfl
    rw [hsection]
    exact hbullet.trans ⟨js "\n\n" ++ title ++ js "\n", [], by simp⟩

theorem mem_distinctMessages {messages : List JsString} {message : JsString} :
    message ∈ distinctMessages messages ↔ message ∈ messages ∧ trim message ≠ [] := by
  induction messages with
  | nil => simp [distinctMessages]
  | cons m ms ih =>
    rw [distinctMessages, mem_append, mem_filter, ih, mem_cons]
    by_cases heq : message = m
    · subst heq
      by_cases hblank : trim message = []
      · simp [hblank]
      · simp [hblank]
    · have hhead : message ∉ (if trim m = [] then [] else [m]) := by
        split
        · exact not_mem_nil
        · simpa using heq
      simp [heq, hhead]

theorem distinctMessages_blank {issues : List AcceptanceIssue} {p : AcceptanceIssue → Bool}
    (h : ∀ issue ∈ issues, p issue = false → trim issue.message = []) (rest : List JsString) :
    distinctMessages ((issues.filter p).map (·.message) ++ rest) =
      distinctMessages (issues.map (·.message) ++ rest) := by
  induction issues with
  | nil => rfl
  | cons issue issues ih =>
    have hrest := ih fun i hi => h i (mem_cons_of_mem _ hi)
    cases hp : p issue with
    | true =>
      rw [filter_cons_of_pos hp, map_cons, map_cons, cons_append,
        cons_append, distinctMessages, distinctMessages, hrest]
    | false =>
      have hblank := h issue mem_cons_self hp
      rw [filter_cons_of_neg (by simp [hp]), hrest, map_cons, cons_append,
        distinctMessages, if_pos hblank, nil_append]
      refine (filter_eq_self.mpr fun message hmessage => ?_).symm
      have hne := (mem_distinctMessages.mp hmessage).2
      exact decide_eq_true fun heq => hne (heq ▸ hblank)

def listsQuestion (question : JsString) (issue : AcceptanceIssue) : Bool :=
  issue.severity = .info && issue.message = question

/-- A step as if its worker had not asked a question. -/
def WorkflowStepResult.withoutQuestion (question : JsString)
    (stepResult : WorkflowStepResult ArtifactRef) : WorkflowStepResult ArtifactRef :=
  { stepResult with
    workerResult := { stepResult.workerResult with
      openQuestions := stepResult.workerResult.openQuestions.filter (·.question ≠ question) }
    acceptanceReport := { stepResult.acceptanceReport with
      issues := stepResult.acceptanceReport.issues.filter (!listsQuestion question ·) }
    decision := { stepResult.decision with question := none } }

/-- An execution as if its workers had not asked a question. -/
def WorkflowExecutionResult.withoutQuestion (question : JsString)
    (execution : WorkflowExecutionResult ArtifactRef) : WorkflowExecutionResult ArtifactRef :=
  { execution with
    stepResults := execution.stepResults.map (WorkflowStepResult.withoutQuestion question) }

section

variable (question : JsString) (stepResults : StepResults)

theorem acceptedIssues_withoutQuestion :
    acceptedIssues (stepResults.map (withoutQuestion question)) =
      acceptedIssues stepResults := by
  rw [acceptedIssues, acceptedIssues, flatMap_map, filter_flatMap, filter_flatMap]
  congr 2
  funext stepResult
  simp only [withoutQuestion, filter_filter]
  refine filter_congr fun issue _ => ?_
  by_cases hinfo : issue.severity = .info
  · simp [hinfo]
  · simp [hinfo, listsQuestion]

theorem acceptedArtifacts_withoutQuestion :
    acceptedArtifacts (stepResults.map (withoutQuestion question)) =
      acceptedArtifacts stepResults :=
  flatMap_map _ _ _

theorem acceptedBriefs_withoutQuestion :
    acceptedBriefs (stepResults.map (withoutQuestion question)) =
      acceptedBriefs stepResults :=
  flatMap_map _ _ _

theorem acceptedWarnings_withoutQuestion :
    acceptedWarnings (stepResults.map (withoutQuestion question)) =
      acceptedWarnings stepResults :=
  flatMap_map _ _ _

theorem renderAcceptedOutputBullets_withoutQuestion :
    renderAcceptedOutputBullets (stepResults.map (withoutQuestion question)) =
      renderAcceptedOutputBullets stepResults :=
  flatMap_map _ _ _

theorem placeholderLimitation_withoutQuestion :
    placeholderLimitation (stepResults.map (withoutQuestion question)) =
      placeholderLimitation stepResults := by
  rw [placeholderLimitation, placeholderLimitation, any_map]
  rfl

theorem rejectedLimitations_withoutQuestion (h : trim question = [] ∨ stepResults = []) :
    rejectedLimitations (stepResults.map (withoutQuestion question)) =
      rejectedLimitations stepResults := by
  rcases h with hblank | rfl
  · rw [rejectedLimitations, flatMap_map, rejectedLimitations]
    congr 1
    funext stepResult
    rw [rejectedMessages, rejectedMessages, append_assoc, append_assoc]
    refine distinctMessages_blank (fun issue _ hlists => ?_) _
    rw [Bool.not_eq_false', listsQuestion, Bool.and_eq_true, decide_eq_true_eq,
      decide_eq_true_eq] at hlists
    rw [hlists.2]
    exact hblank
  · rfl

end

theorem acceptedStepResults_withoutQuestion (question : JsString)
    (execution : WorkflowExecutionResult ArtifactRef) :
    acceptedStepResults (execution.withoutQuestion question) =
        (acceptedStepResults execution).map (withoutQuestion question) ∧
      rejectedStepResults (execution.withoutQuestion question) =
        (rejectedStepResults execution).map (withoutQuestion question) :=
  ⟨filter_map, filter_map⟩

section

variable (objective : JsString) {execution : WorkflowExecutionResult ArtifactRef}

theorem synthesize_withoutQuestion {question : JsString}
    (h : trim question = [] ∨ rejectedStepResults execution = []) :
    synthesizeWorkflowFinalOutput objective execution =
      synthesizeWorkflowFinalOutput objective (execution.withoutQuestion question) := by
  obtain ⟨haccepted, hrejected⟩ := acceptedStepResults_withoutQuestion question execution
  simp only [synthesizeWorkflowFinalOutput, haccepted, hrejected, renderLiteratureSynthesis,
    renderGeneralSynthesis, literatureLimitations, generalLimitations,
    acceptedArtifacts_withoutQuestion, acceptedBriefs_withoutQuestion,
    acceptedWarnings_withoutQuestion, acceptedIssues_withoutQuestion,
    renderAcceptedOutputBullets_withoutQuestion, placeholderLimitation_withoutQuestion,
    rejectedLimitations_withoutQuestion question (rejectedStepResults execution) h]

theorem infix_synthesize
    {message : JsString} (h : message ∈ rejectedLimitations (rejectedStepResults execution)) :
    message <:+: synthesizeWorkflowFinalOutput objective execution := by
  have hne : message ≠ [] := by
    obtain ⟨stepResult, -, hmessage⟩ := mem_flatMap.mp h
    rintro rfl
    exact (mem_distinctMessages.mp hmessage).2 rfl
  rw [synthesizeWorkflowFinalOutput]
  split
  · have hlimitation : message ∈ literatureLimitations (acceptedStepResults execution)
        (rejectedStepResults execution) := by
      refine mem_filter.mpr ⟨?_, decide_eq_true hne⟩
      simp only [mem_append, h, or_true, true_or]
    exact (infix_renderBulletSection (js "检索缺口 / provider warnings") hlimitation none).trans
      (infix_intercalate (js "\n") (by simp))
  · have hlimitation : message ∈ generalLimitations (acceptedStepResults execution)
        (rejectedStepResults execution) := by
      refine mem_filter.mpr ⟨?_, decide_eq_true hne⟩
      simp only [mem_append, h, or_true, true_or]
    exact (infix_renderBulletSection (js "Limitations") hlimitation none).trans
      (infix_intercalate (js "\n") (by simp))

end

/-- An environment that judges results by the contracts of their requests. -/
def WorkflowEnv.judgedByContract (env : WorkflowEnv ArtifactRef)
    (toLowerCase : JsString → JsString) (checkedAt : Nat → JsString) : WorkflowEnv ArtifactRef :=
  { env with createLeadAcceptanceReport := fun call request result =>
      createLeadContractAcceptanceReport toLowerCase (checkedAt call) request result }

/-- A result of a step with the decision and the report that its worker's result leads to. -/
structure StepJudged (env : WorkflowEnv ArtifactRef) (r : WorkflowStepResult ArtifactRef) :
    Prop where
  decision_eq : ∃ isLastStep, r.decision = decisionFor isLastStep r.workerResult r.acceptanceReport
  report_eq : ∃ call request,
    r.acceptanceReport = env.createLeadAcceptanceReport call request r.workerResult

section

variable (env : WorkflowEnv ArtifactRef) (plan : WorkflowPlan ArtifactRef)
  {execution : WorkflowExecutionResult ArtifactRef}

theorem executeWorkflowPlan_recorded
    (h : (executeWorkflowPlan (fun ref => some ref.id) env plan).2 = some execution) :
    StepsRecorded ArtifactRef.id [] (orderedSteps plan) execution.stepResults
      execution.accepted := by
  obtain ⟨final, more, hrun, hmore, hsteps, -⟩ := executeSteps_recorded plan (orderedSteps plan)
    (LoopAfter.start ArtifactRef.id env (show ((({} : Execution ArtifactRef).write
      (taskJsonPath env.rootDir plan.taskId (js "workflow-plan.json"))).write
        (workflowLogPath env.rootDir)).calls = [] from rfl)) rfl
  rw [executeWorkflowPlan, hrun] at h
  cases h
  rw [nil_append] at hmore
  subst hmore
  exact hsteps

theorem executeWorkflowPlan_judged
    (h : (executeWorkflowPlan (fun ref => some ref.id) env plan).2 = some execution) :
    (∀ r ∈ execution.stepResults, StepJudged env r) ∧
      ∀ r ∈ execution.stepResults.dropLast, r.acceptanceReport.accepted = true := by
  obtain ⟨done, result, hrun, hdisciplined⟩ := executeWorkflowPlan_disciplined env plan
  have hsteps := executeWorkflowPlan_recorded env plan h
  rw [hrun] at h
  cases h
  have hjudged : ∀ r ∈ execution.stepResults, StepJudged env r := by
    intro r hr
    refine ⟨?_, ?_⟩
    · obtain ⟨i, hi⟩ := mem_iff_getElem?.mp hr
      obtain ⟨isLastStep, hrecorded⟩ := hsteps.recorded_at hi
      exact ⟨isLastStep, hrecorded.decision_eq⟩
    · obtain ⟨-, -, -, last, hlast, hresult, hreport⟩ := hdisciplined.attempts r hr
      have hcall : last ∈ done.calls := by
        rw [hdisciplined.calls_eq]
        exact mem_flatMap.mpr ⟨r, hr, mem_of_getLast? hlast⟩
      obtain ⟨call, hcall⟩ := mem_iff_getElem?.mp hcall
      refine ⟨call, last.request, ?_⟩
      rw [← hreport, ← hresult]
      exact (hdisciplined.answered call last hcall).report_eq
  refine ⟨hjudged, fun r hr => ?_⟩
  obtain ⟨isLastStep, hdecision⟩ := (hjudged r (dropLast_subset _ hr)).decision_eq
  have hkind := hdisciplined.continues r hr
  rw [hdecision, decisionFor] at hkind
  split at hkind
  · cases hkind
  · split at hkind
    · assumption
    · cases hkind

end

theorem decisionFor_question {isLastStep : Bool} {result : WorkerResult ArtifactRef}
    {report : AcceptanceReport} {question : JsString}
    (h : (decisionFor isLastStep result report).question = some question) :
    ∃ q ∈ result.openQuestions, q.question = question := by
  unfold decisionFor at h
  split at h
  · obtain ⟨q, hfind, hq⟩ := Option.map_eq_some_iff.mp h
    exact ⟨q, mem_of_find?_eq_some hfind, hq⟩
  · split at h
    · cases h
    · cases h

/-- The step of a question was rejected, and the question is not blank. -/
def ReportsQuestion (last : WorkflowStepResult ArtifactRef) (question : JsString) : Prop :=
  last.acceptanceReport.accepted = false ∧ trim question ≠ []

/-- The output of a workflow that ends with a question has the question when its step was
rejected and the question is not blank, and is otherwise what it is without the question. -/
theorem blocking_question_reported (toLowerCase : JsString → JsString)
    (checkedAt : Nat → JsString) (env : WorkflowEnv ArtifactRef)
    (plan : WorkflowPlan ArtifactRef) (objective : JsString)
    {execution : WorkflowExecutionResult ArtifactRef} {last : WorkflowStepResult ArtifactRef}
    {question : JsString} (hrun : (executeWorkflowPlan (fun ref => some ref.id)
      (env.judgedByContract toLowerCase checkedAt) plan).2 = some execution)
    (hlast : execution.stepResults.getLast? = some last)
    (hquestion : last.decision.question = some question) :
    (question <:+: synthesizeWorkflowFinalOutput objective execution ↔
      ReportsQuestion last question ∨ question <:+:
        synthesizeWorkflowFinalOutput objective (execution.withoutQuestion question)) ∧
    (¬ ReportsQuestion last question → synthesizeWorkflowFinalOutput objective execution =
      synthesizeWorkflowFinalOutput objective (execution.withoutQuestion question)) := by
  obtain ⟨hjudged, hearlier⟩ := executeWorkflowPlan_judged _ plan hrun
  have hmem : last ∈ execution.stepResults := mem_of_getLast? hlast
  obtain ⟨⟨isLastStep, hdecision⟩, ⟨call, request, hreport⟩⟩ := hjudged last hmem
  have hreported : ReportsQuestion last question →
      question <:+: synthesizeWorkflowFinalOutput objective execution := by
    intro hreports
    refine infix_synthesize objective (mem_flatMap.mpr ⟨last, ?_, ?_⟩)
    · refine mem_filter.mpr ⟨hmem, ?_⟩
      rw [isAcceptedStep, hreports.1]
      rfl
    · refine mem_distinctMessages.mpr ⟨?_, hreports.2⟩
      rw [hdecision] at hquestion
      obtain ⟨q, hq, hqtext⟩ := decisionFor_question hquestion
      have hissue : questionIssue q ∈ last.acceptanceReport.issues := by
        rw [hreport]
        exact mem_append_right _ (mem_map_of_mem hq)
      refine mem_append_left _ (mem_append_left _ ?_)
      exact mem_map.mpr ⟨questionIssue q, hissue, hqtext⟩
  have hunreported : ¬ ReportsQuestion last question →
      synthesizeWorkflowFinalOutput objective execution =
        synthesizeWorkflowFinalOutput objective (execution.withoutQuestion question) := by
    intro hnot
    refine synthesize_withoutQuestion objective ?_
    by_cases hblank : trim question = []
    · exact .inl hblank
    · have haccepted : last.acceptanceReport.accepted = true :=
        Bool.not_eq_false _ ▸ fun hrejected => hnot ⟨hrejected, hblank⟩
      refine .inr (filter_eq_nil_iff.mpr fun r hr => ?_)
      have hstep : r.acceptanceReport.accepted = true := by
        have hsplit := dropLast_append_getLast? last hlast
        rw [← hsplit] at hr
        rcases mem_append.mp hr with hr | hr
        · exact hearlier r hr
        · rw [mem_singleton.mp hr]
          exact haccepted
      obtain ⟨call, request, hreport⟩ := (hjudged r hr).report_eq
      have hsuccess := hstep
      rw [hreport] at hsuccess
      have hstatus : r.workerResult.status = .success := by
        have := (Bool.and_eq_true _ _).mp hsuccess
        exact of_decide_eq_true this.1
      rw [isAcceptedStep, hstep, hstatus]
      simp
  refine ⟨⟨fun hinfix => ?_, fun h => ?_⟩, hunreported⟩
  · by_cases hreports : ReportsQuestion last question
    · exact .inl hreports
    · exact .inr (hunreported hreports ▸ hinfix)
  · by_cases hreports : ReportsQuestion last question
    · exact hreported hreports
    · rw [hunreported hreports]
      exact h.resolve_left hreports

def plainStep : WorkflowStep ArtifactRef where
  id := js "review"
  order := .ofInt 1
  profileId := js "reviewer"
  objective := js "o"
  inputArtifactRefs := []
  expectedArtifactKinds := []
  expectedOutputs := []
  acceptanceCriteria := []

def plainPlan : WorkflowPlan ArtifactRef := { taskId := js "t", sessionId := none, steps := [plainStep] }

section

variable (status : WorkerResultStatus)

/-- A worker that asks a blocking question with a status. -/
def askingEnv : WorkflowEnv ArtifactRef where
  rootDir := js "/w"
  profiles := []
  constraints := []
  contextMetadata _ _ _ _ := []
  workerRunner _ request := .ok {
    taskId := request.taskId
    status := status
    summary := js "done"
    producedArtifacts := []
    warnings := []
    openQuestions := [{ question := js "which journal?", blocksExecution := some true }] }
  createLeadAcceptanceReport _ request result := createLeadContractAcceptanceReport id [] request result

def plainResult : WorkflowStepResult ArtifactRef :=
  let env := askingEnv status
  let request := workerRequestForStep env plainPlan plainStep [] []
  let attempt := callWorker env request 1 2 none {}
  { step := plainStep
    workerRequest := request
    workerResult := attempt.result
    artifactBriefs := []
    acceptanceReport := attempt.report
    decision := decisionFor true attempt.result attempt.report
    attempts := [attempt] }

def plainExecution : WorkflowExecutionResult ArtifactRef where
  taskId := js "t"
  sessionId := none
  accepted := false
  stepResults := [plainResult status]
  artifactBriefs := []
  producedArtifacts := []
  acceptanceReports := [(plainResult status).acceptanceReport]

theorem executeWorkflowPlan_plain : (executeWorkflowPlan (fun ref => some ref.id)
      ((askingEnv status).judgedByContract id fun _ => []) plainPlan).2 =
        some (plainExecution status) := by
  have hordered : orderedSteps plainPlan = [plainStep] := mergeSort_singleton _
  rw [executeWorkflowPlan, hordered]
  cases status <;> rfl

end

/-- The question of a failed worker is in the output. -/
theorem blocking_question_reported_failed :
    (js "which journal?" <:+: synthesizeWorkflowFinalOutput [] (plainExecution .failed) ↔
      ReportsQuestion (plainResult .failed) (js "which journal?") ∨ js "which journal?" <:+:
        synthesizeWorkflowFinalOutput []
          ((plainExecution .failed).withoutQuestion (js "which journal?"))) ∧
    (¬ ReportsQuestion (plainResult .failed) (js "which journal?") →
      synthesizeWorkflowFinalOutput [] (plainExecution .failed) = synthesizeWorkflowFinalOutput []
          ((plainExecution .failed).withoutQuestion (js "which journal?"))) :=
  blocking_question_reported id (fun _ => []) (askingEnv .failed) plainPlan []
    (executeWorkflowPlan_plain .failed) rfl rfl

/-- The question of a worker that succeeds is not. -/
theorem blocking_question_dropped :
    ¬ ∀ (toLowerCase : JsString → JsString) (checkedAt : Nat → JsString)
      (env : WorkflowEnv ArtifactRef) (plan : WorkflowPlan ArtifactRef) (objective : JsString)
      (execution : WorkflowExecutionResult ArtifactRef) (last : WorkflowStepResult ArtifactRef)
      (question : JsString),
      (executeWorkflowPlan (fun ref => some ref.id)
        (env.judgedByContract toLowerCase checkedAt) plan).2 = some execution →
      execution.stepResults.getLast? = some last → last.decision.question = some question →
        question <:+: synthesizeWorkflowFinalOutput objective execution := by
  intro h
  have hinfix := h id (fun _ => []) (askingEnv .success) plainPlan [] (plainExecution .success)
    (plainResult .success) (js "which journal?") (executeWorkflowPlan_plain .success) rfl rfl
  have hmark : (0x3F : CodeUnit) ∈ synthesizeWorkflowFinalOutput [] (plainExecution .success) :=
    hinfix.subset (by decide)
  exact absurd hmark (by decide)

end AcademicAgent.LeadAgent
