import AcademicAgent.LeadAgent.BlockingQuestions

/-!
# Accepted workflows

An accepted workflow has what each of its steps expects.
-/

namespace AcademicAgent.LeadAgent

open Json List

section

variable (toLowerCase : JsString → JsString) (result : WorkerResult ArtifactRef)

/-- A successful result with the artifacts that a step expects, whose summary mentions the other
outputs. -/
def AsExpected (step : WorkflowStep ArtifactRef) : Prop :=
  result.status = .success ∧ (∀ kind ∈ step.expectedArtifactKinds,
    ∃ artifact ∈ result.producedArtifacts, artifact.kind = kind) ∧
  ∀ label ∈ step.expectedOutputs, label ∉ step.expectedArtifactKinds →
    trim result.summary ≠ [] ∧ toLowerCase label <:+: toLowerCase (trim result.summary)

theorem artifact_issues (kind : JsString) :
    (issuesForRequirement toLowerCase (.artifact kind kind true kind 1) result).any
      (·.severity = .error) = false ↔ ∃ artifact ∈ result.producedArtifacts, artifact.kind = kind := by
  rw [issuesForRequirement]
  by_cases h : ∃ artifact ∈ result.producedArtifacts, artifact.kind = kind <;> simp [h]

theorem narrative_issues (label : JsString) :
    (issuesForRequirement toLowerCase (.narrative label label true label [label]) result).any
      (·.severity = .error) = false ↔
        trim result.summary ≠ [] ∧ toLowerCase label <:+: toLowerCase (trim result.summary) := by
  rw [issuesForRequirement, missingToken]
  by_cases hempty : trim result.summary = []
  · simp [hempty]
  · by_cases hinfix : toLowerCase label <:+: toLowerCase (trim result.summary) <;>
      simp [hempty, hinfix]

theorem contractReport_accepted {request : WorkerRequest ArtifactRef}
    {step : WorkflowStep ArtifactRef} {profile : Option WorkerProfile}
    (hcontract : request.outputContract = outputContractForStep step profile)
    {checkedAt : JsString} :
    (createLeadContractAcceptanceReport toLowerCase checkedAt request result).accepted = true ↔
      AsExpected toLowerCase result step := by
  rw [createLeadContractAcceptanceReport, createAcceptanceReport, AsExpected]
  simp only [Bool.and_eq_true, decide_eq_true_eq, Bool.not_eq_true']
  refine and_congr_right fun hstatus => ?_
  -- Warnings and questions are no errors.
  have hany : (contractIssues toLowerCase request result ++
      result.openQuestions.map questionIssue).any (·.severity = .error) =
        request.outputContract.requirements.any fun requirement =>
          (issuesForRequirement toLowerCase requirement result).any (·.severity = .error) := by
    rw [contractIssues, statusIssues, if_pos hstatus]
    simp [any_flatMap, questionIssue, warningIssue, Function.comp_def]
  rw [hany, hcontract, outputContractForStep, any_append, any_map, any_map, Bool.or_eq_false_iff,
    any_eq_false, any_eq_false]
  simp only [Function.comp_apply, Bool.not_eq_true, artifact_issues, narrative_issues, mem_filter,
    decide_eq_true_eq, and_imp]

end

variable {env : WorkflowEnv ArtifactRef} {plan : WorkflowPlan ArtifactRef}

/-- A step whose worker was given the contract of the step. -/
def Contracted (r : WorkflowStepResult ArtifactRef) : Prop :=
  r.workerRequest.outputContract = outputContractForStep r.step r.workerRequest.profile

theorem executeSteps_contracted {refId : ArtifactRef → Option JsString}
    (steps : List (WorkflowStep ArtifactRef)) {loop final : WorkflowLoop ArtifactRef}
    (h : ∀ r ∈ loop.stepResults, Contracted r)
    (hrun : executeSteps refId env plan steps loop = .ok final) :
    ∀ r ∈ final.stepResults, Contracted r := by
  induction steps generalizing loop with
  | nil =>
    cases hrun
    exact h
  | cons step rest ih =>
    rw [executeSteps] at hrun
    split at hrun
    · cases hrun
    · next next hstep =>
      have hnext : ∀ r ∈ next.stepResults, Contracted r := by
        unfold executeStep at hstep
        split at hstep
        · cases hstep
        · dsimp only at hstep
          split at hstep
          · cases hstep
          · cases hstep
            intro r hr
            rcases mem_append.mp hr with hr | hr
            · exact h r hr
            · cases mem_singleton.mp hr
              rfl
      split at hrun
      · exact ih hnext hrun
      · cases hrun
        exact hnext

/-- Whatever the workers return, a workflow is accepted exactly when each of its steps was carried
out as expected and left no blocking question. -/
theorem workflow_accepted_iff (toLowerCase : JsString → JsString) (checkedAt : Nat → JsString)
    (env : WorkflowEnv ArtifactRef) (plan : WorkflowPlan ArtifactRef)
    {execution : WorkflowExecutionResult ArtifactRef}
    (hrun : (executeWorkflowPlan (fun ref => some ref.id)
      (env.judgedByContract toLowerCase checkedAt) plan).2 = some execution) :
    execution.accepted = true ↔ execution.stepResults.length = plan.steps.length ∧
      ∀ r ∈ execution.stepResults, AsExpected toLowerCase r.workerResult r.step ∧
        hasBlockingOpenQuestion r.workerResult = false := by
  have hcontracted : ∀ r ∈ execution.stepResults, Contracted r := by
    rw [executeWorkflowPlan] at hrun
    split at hrun
    · cases hrun
    · next loop hloop =>
      cases hrun
      exact executeSteps_contracted _ (fun _ hr => by cases hr) hloop
  have hsteps := executeWorkflowPlan_recorded _ plan hrun
  obtain ⟨done, result, hexecuted, hdisciplined⟩ :=
    executeWorkflowPlan_disciplined (env.judgedByContract toLowerCase checkedAt) plan
  rw [hexecuted] at hrun
  cases hrun
  rw [hdisciplined.accepted_iff]
  refine and_congr_right fun _ => forall₂_congr fun r hr => and_congr_left' ?_
  -- The last attempt was asked for the contract of the step and gave its result.
  obtain ⟨-, -, -, last, hlast, hresult, hreport⟩ := hdisciplined.attempts r hr
  have hmem := mem_of_getLast? hlast
  obtain ⟨i, hi⟩ := mem_iff_getElem?.mp hr
  obtain ⟨isLastStep, hrecorded⟩ := hsteps.recorded_at hi
  obtain ⟨context, hasked⟩ := hrecorded.asked last hmem
  obtain ⟨call, hcall⟩ := mem_iff_getElem?.mp (hdisciplined.calls_eq ▸
    mem_flatMap.mpr ⟨r, hr, hmem⟩ : last ∈ done.calls)
  have hcontract : last.request.outputContract =
      outputContractForStep r.step r.workerRequest.profile := by
    rw [hasked]
    exact hcontracted r hr
  rw [← hreport, (hdisciplined.answered call last hcall).report_eq, ← hresult]
  exact contractReport_accepted toLowerCase last.result hcontract

theorem workflow_accepted_iff_asking : ¬ ∀ r ∈ (plainExecution .success).stepResults,
    AsExpected id r.workerResult r.step ∧ hasBlockingOpenQuestion r.workerResult = false := fun h =>
  absurd ((workflow_accepted_iff id (fun _ => []) (askingEnv .success) plainPlan
    (executeWorkflowPlan_plain .success)).mpr ⟨rfl, h⟩) (by decide)

end AcademicAgent.LeadAgent
