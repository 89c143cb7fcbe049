import AcademicAgent.LeadAgent.ExecutorDiscipline
import AcademicAgent.LeadAgent.Planner

/-!
# Validation and the contract of plans

The validator checks the mode, the stop conditions and most fields of the steps.
-/

namespace AcademicAgent.LeadAgent

open Json List
open Option (bind_eq_bind bind_eq_some_iff isSome_iff_exists isSome_map)

variable {plan : Tree}

section

variable {α κ : Type} [DecidableEq κ] (refId : α → Option κ) (env : WorkflowEnv α)
  (plan : WorkflowPlan α)

/-- What has been done when a part of an execution ends or throws. -/
def doneBy : Except (Execution α) (WorkflowLoop α) → Execution α
  | .error execution => execution
  | .ok loop => loop.execution

theorem executeStep_calls (isLastStep : Bool) (step : WorkflowStep α) (loop : WorkflowLoop α) :
    ∃ more, (doneBy (executeStep refId env plan isLastStep step loop)).calls =
      loop.execution.calls ++ more ∧
      ((mergeArtifactRefs refId step.inputArtifactRefs loop.carriedArtifacts).isSome →
        more ≠ []) := by
  unfold executeStep
  cases hinputs : mergeArtifactRefs refId step.inputArtifactRefs loop.carriedArtifacts with
  | none => exact ⟨[], (append_nil _).symm, fun h => by cases h⟩
  | some inputArtifacts =>
    dsimp only
    generalize workerRequestForStep env plan step inputArtifacts _ = request
    generalize hstart : loop.execution.write _ = start
    have hran := runAttempts_attemptsOf env request (maxAttemptsForRequest request)
      (maxAttemptsForRequest request - 1) none start
    generalize runAttempts env request _ _ none start = ran at hran ⊢
    have hcalls : start.calls = loop.execution.calls := by
      rw [← hstart]
      rfl
    have hmore : ran.2.2.calls = loop.execution.calls ++ (ran.1 ++ [ran.2.1]) := by
      rw [hran.calls_eq, hcalls]
    cases mergeArtifactRefs refId loop.carriedArtifacts ran.2.1.result.producedArtifacts with
    | none | some carriedArtifacts => exact ⟨ran.1 ++ [ran.2.1], hmore, fun _ => by simp⟩

theorem executeSteps_calls (steps : List (WorkflowStep α)) (loop : WorkflowLoop α) :
    loop.execution.calls <+: (doneBy (executeSteps refId env plan steps loop)).calls := by
  induction steps generalizing loop with
  | nil => exact prefix_rfl
  | cons step rest ih =>
    obtain ⟨more, hmore, -⟩ :=
      executeStep_calls refId env plan rest.isEmpty step loop
    rw [executeSteps]
    cases hstep : executeStep refId env plan rest.isEmpty step loop with
    | error execution =>
      rw [hstep] at hmore
      exact ⟨more, hmore.symm⟩
    | ok next =>
      rw [hstep] at hmore
      have hnext : loop.execution.calls <+: next.execution.calls := ⟨more, hmore.symm⟩
      dsimp only
      split
      · exact hnext.trans (ih next)
      · exact hnext

theorem executeWorkflowPlan_calls
    (h : ∀ step ∈ plan.steps, (mergeArtifactRefs refId step.inputArtifactRefs []).isSome) :
    (executeWorkflowPlan refId env plan).1.calls ≠ [] ∨
      (executeWorkflowPlan refId env plan).2.isSome := by
  unfold executeWorkflowPlan
  generalize ((({} : Execution α).write _).write _) = started
  dsimp only
  cases hordered : orderedSteps plan with
  | nil => exact .inr rfl
  | cons step rest =>
    have hstep : step ∈ plan.steps := by
      rw [← (orderedSteps_perm plan).mem_iff, hordered]
      exact mem_cons_self ..
    obtain ⟨more, hmore, hne⟩ := executeStep_calls refId env plan
      rest.isEmpty step { execution := started }
    have hcalled : (doneBy (executeStep refId env plan rest.isEmpty step
        { execution := started })).calls ≠ [] := by
      rw [hmore]
      exact append_ne_nil_of_right_ne_nil _ (hne (h step hstep))
    have hall : (doneBy (executeSteps refId env plan (step :: rest)
        { execution := started })).calls ≠ [] := by
      rw [executeSteps]
      cases hresult : executeStep refId env plan rest.isEmpty step { execution := started } with
      | error execution =>
        rw [hresult] at hcalled
        exact hcalled
      | ok next =>
        rw [hresult] at hcalled
        dsimp only
        split
        · intro hnil
          have hsub := executeSteps_calls refId env plan rest next
          rw [hnil] at hsub
          exact hcalled (prefix_nil.mp hsub)
        · exact hcalled
    left
    cases hresult : executeSteps refId env plan (step :: rest) { execution := started } with
    | error execution | ok loop =>
      rw [hresult] at hall
      exact hall

end

/-- The fields of a step that the contract types and the validator does not. -/
def StepFieldsTyped (step : Tree) : Prop :=
  has isArtifactRefArray "inputArtifactRefs" step = true ∧
    hasOptional isWorkerBudget "budget" step = true

/-- The fields of a plan that the contract types and the validator does not. -/
structure PlanFieldsTyped (plan : Tree) : Prop where
  taskId : has isString "taskId" plan = true
  sessionId : has isString "sessionId" plan = true
  objective : has isString "objective" plan = true
  rationale : has isString "rationale" plan = true
  userVisibleSummary : has isString "userVisibleSummary" plan = true
  requiresClarification :
    hasOptional isWorkflowClarification "requiresClarification" plan = true
  steps : ∀ steps, arrayField "steps" plan = some steps → ∀ step ∈ steps, StepFieldsTyped step

/-- An execution that throws before it has called a worker. -/
def ThrowsBeforeWorker {α : Type} (outcome : Execution α × Option (WorkflowExecutionResult α)) :
    Prop := outcome.2 = none ∧ outcome.1.calls = []

theorem has_stringField {key : String} {value : Tree} {s : JsString}
    (h : stringField key value = some s) : has isString key value = true := by
  rw [← isSome_stringField, h]
  rfl

section

variable {context : PlannerValidationContext}

theorem ValidStep.isWorkflowStep_iff {step : Tree}
    (h : ValidStep context step) : isWorkflowStep step = true ↔ StepFieldsTyped step := by
  obtain ⟨profileId, hprofileId, -⟩ := h.profileId
  simp only [isWorkflowStep, h.record, h.id, h.order, has_stringField hprofileId, h.objective,
    h.expectedArtifactKinds, h.expectedOutputs, h.acceptanceCriteria, Bool.true_and,
    Bool.and_true, Bool.and_eq_true, StepFieldsTyped]

theorem ValidPlan.isWorkflowPlan_iff {steps : List Tree} (h : ValidPlan context plan steps) :
    isWorkflowPlan plan = true ↔ PlanFieldsTyped plan := by
  have hsteps : has (isArrayOf isWorkflowStep) "steps" plan = true ↔
      ∀ step ∈ steps, StepFieldsTyped step := by
    rw [has, h.steps_eq]
    show steps.all isWorkflowStep = true ↔ _
    rw [all_eq_true]
    exact forall₂_congr fun step hstep => (h.steps step hstep).isWorkflowStep_iff
  have harray : arrayField "steps" plan = some steps := by
    rw [arrayField, h.steps_eq]
  simp only [isWorkflowPlan, h.record, h.mode, h.stopConditions, Bool.true_and, Bool.and_true,
    Bool.and_eq_true, hsteps]
  constructor
  · rintro ⟨⟨⟨⟨⟨⟨htaskId, hsessionId⟩, hobjective⟩, hrationale⟩, hsummary⟩, hall⟩, hclarify⟩
    refine ⟨htaskId, hsessionId, hobjective, hrationale, hsummary, hclarify, ?_⟩
    intro steps' hsteps'
    rw [harray] at hsteps'
    cases hsteps'
    exact hall
  · intro htyped
    exact ⟨⟨⟨⟨⟨⟨htyped.taskId, htyped.sessionId⟩, htyped.objective⟩, htyped.rationale⟩,
      htyped.userVisibleSummary⟩, htyped.steps steps harray⟩, htyped.requiresClarification⟩

theorem readStep_refs {step : Tree} {read : WorkflowStep Tree} (h : readStep step = some read) :
    arrayField "inputArtifactRefs" step = some read.inputArtifactRefs := by
  simp only [readStep, bind_eq_bind, bind_eq_some_iff] at h
  obtain ⟨_, -, _, -, _, -, _, -, refs, hrefs, _, -, _, -, _, -, hread⟩ := h
  cases hread
  exact hrefs

theorem readPlan_eq_some {read : WorkflowPlan Tree} (h : readPlan plan = some read) :
    stringField "taskId" plan = some read.taskId ∧
      ∃ steps, arrayField "steps" plan = some steps ∧ steps.mapM readStep = some read.steps := by
  simp only [readPlan, bind_eq_bind, bind_eq_some_iff] at h
  obtain ⟨taskId, htaskId, steps, hsteps, readSteps, hreads, hread⟩ := h
  cases hread
  exact ⟨htaskId, steps, hsteps, hreads⟩

section

variable {α β : Type} {f : α → Option β} {xs : List α}

theorem mem_of_mapM {ys : List β} (h : xs.mapM f = some ys) : ∀ y ∈ ys, ∃ x ∈ xs, f x = some y := by
  induction xs generalizing ys with
  | nil =>
    cases h
    intro y hy
    cases hy
  | cons x xs ih =>
    simp only [mapM_cons, bind_eq_bind, bind_eq_some_iff] at h
    obtain ⟨y, hy, ys', hys', hcons⟩ := h
    cases hcons
    intro z hz
    rcases mem_cons.mp hz with rfl | hz
    · exact ⟨x, mem_cons_self .., hy⟩
    · obtain ⟨x', hx', hfx'⟩ := ih hys' z hz
      exact ⟨x', mem_cons_of_mem _ hx', hfx'⟩

theorem mapM_isSome (h : ∀ x ∈ xs, (f x).isSome) : (xs.mapM f).isSome := by
  induction xs with
  | nil => rfl
  | cons x xs ih =>
    obtain ⟨y, hy⟩ := isSome_iff_exists.mp (h x (mem_cons_self ..))
    obtain ⟨ys, hys⟩ :=
      isSome_iff_exists.mp (ih fun z hz => h z (mem_cons_of_mem _ hz))
    rw [mapM_cons, hy, hys]
    rfl

end

theorem mergeArtifactRefs_typed {refs : List Tree} (h : ∀ ref ∈ refs, isArtifactRef ref = true) :
    (mergeArtifactRefs refIdOf refs []).isSome := by
  rw [mergeArtifactRefs, append_nil, isSome_map]
  refine mapM_isSome fun ref href => ?_
  rw [isSome_map]
  cases ref with
  | null => exact absurd (h _ href) (by decide)
  | _ => rfl

theorem ValidPlan.not_throwsBeforeWorker {steps : List Tree} (h : ValidPlan context plan steps)
    (htyped : PlanFieldsTyped plan) (env : WorkflowEnv Tree) :
    ¬ ThrowsBeforeWorker (executePlanValue env plan) := by
  have harray : arrayField "steps" plan = some steps := by
    rw [arrayField, h.steps_eq]
  have hread : (readPlan plan).isSome := by
    obtain ⟨taskId, htaskId⟩ :=
      isSome_iff_exists.mp ((isSome_stringField ..).trans htyped.taskId)
    obtain ⟨reads, hreads⟩ := isSome_iff_exists.mp (mapM_isSome (f := readStep)
      fun step hstep => isSome_iff_exists.mpr (h.steps step hstep).readStep_isSome)
    simp only [readPlan, htaskId, harray, hreads, bind_eq_bind, Option.bind_some,
      Option.isSome_some]
  obtain ⟨read, hread⟩ := isSome_iff_exists.mp hread
  obtain ⟨-, steps', hsteps', hreads⟩ := readPlan_eq_some hread
  have hrefs : ∀ step ∈ read.steps,
      (mergeArtifactRefs refIdOf step.inputArtifactRefs []).isSome := by
    intro step hstep
    obtain ⟨value, hvalue, hstepRead⟩ := mem_of_mapM hreads step hstep
    have hguard := (htyped.steps steps' hsteps' value hvalue).1
    rw [has, arrayField_eq_some (readStep_refs hstepRead)] at hguard
    exact mergeArtifactRefs_typed (all_eq_true.mp hguard)
  rintro ⟨hnone, hcalls⟩
  rw [executePlanValue, hread] at hnone hcalls
  rcases executeWorkflowPlan_calls refIdOf env read hrefs with hcalled | hsome
  · exact hcalled hcalls
  · rw [hnone] at hsome
    cases hsome

end

/-- A plan that the validator accepts meets its contract and is executed at least up to a
worker exactly when the fields that the validator leaves open are typed. -/
theorem valid_plan_executable_iff {plan : Tree} {context : PlannerValidationContext}
    (hvalid : validateWorkflowPlan plan context = []) : (isWorkflowPlan plan = true ∧
      ∀ env : WorkflowEnv Tree, ¬ ThrowsBeforeWorker (executePlanValue env plan)) ↔
        PlanFieldsTyped plan := by
  obtain ⟨steps, hplan⟩ := validPlan_of_validate hvalid
  constructor
  · exact fun h => hplan.isWorkflowPlan_iff.mp h.1
  · exact fun htyped => ⟨hplan.isWorkflowPlan_iff.mpr htyped, hplan.not_throwsBeforeWorker htyped⟩

def literaturePlan : Tree :=
  record [("taskId", some (.str (js "task-1"))), ("sessionId", some (.str (js "s"))),
    ("objective", some (.str (js "Review"))), ("rationale", some (.str (js "r"))),
    ("userVisibleSummary", some (.str (js "u"))), ("mode", some (.str (js "workflow"))),
    ("steps", some (.arr [record [("id", some (.str (js "step-1"))),
      ("order", some (.num (Decimal.ofInt 1))), ("profileId", some (.str (js "literature"))),
      ("objective", some (.str (js "User objective: Review. Step objective: Search."))),
      ("inputArtifactRefs", some (.arr [])), ("expectedArtifactKinds", some (.arr [])),
      ("expectedOutputs", some (.arr [.str (js "gaps")])),
      ("acceptanceCriteria", some (.arr []))]])),
    ("stopConditions", some (.arr []))]

theorem valid_plan_executable_iff_literature :
    validateWorkflowPlan literaturePlan { profiles := [{ id := js "literature" }] } = [] ∧
      ((isWorkflowPlan literaturePlan = true ∧
        ∀ env : WorkflowEnv Tree, ¬ ThrowsBeforeWorker (executePlanValue env literaturePlan)) ↔
          PlanFieldsTyped literaturePlan) := by
  have hvalid : validateWorkflowPlan literaturePlan
      { profiles := [{ id := js "literature" }] } = [] := by decide
  exact ⟨hvalid, valid_plan_executable_iff hvalid⟩

/-- A direct plan without texts is accepted by the validator and not by its contract. -/
theorem valid_plan_not_executable : ¬ ∀ plan context, validateWorkflowPlan plan context = [] →
      isWorkflowPlan plan = true ∧
        ∀ env : WorkflowEnv Tree, ¬ ThrowsBeforeWorker (executePlanValue env plan) := by
  intro h
  have hvalid : validateWorkflowPlan (record [("mode", some (.str (js "direct"))),
      ("steps", some (.arr [])), ("stopConditions", some (.arr []))]) { profiles := [] } = [] := by
    decide
  have hcontract := (h _ _ hvalid).1
  have hrejected : isWorkflowPlan (record [("mode", some (.str (js "direct"))),
      ("steps", some (.arr [])), ("stopConditions", some (.arr []))]) = false := by
    decide
  rw [hrejected] at hcontract
  cases hcontract

end AcademicAgent.LeadAgent
