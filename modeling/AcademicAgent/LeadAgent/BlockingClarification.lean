import AcademicAgent.LeadAgent.RuntimeRuns

/-!
# Blocking clarifications

A plan that asks the user first stops a run before any work, unless the runtime puts
a plan of one step in its place, which asks nothing.
-/

namespace AcademicAgent.LeadAgent

open Json Resumable

/-- A run that ends with a clarification, without a call of a worker or of the direct runner. -/
structure StopsToAsk (clarification : WorkflowClarification)
    (finished : Finished Branch LeadEffect LeadCall (Except JsString LeadAgentResult)) :
    Prop where
  silent : Silent finished.log
  asks : ∃ result, finished.result = .ok result ∧ result.clarification = some clarification

section

variable {options : LeadAgentRuntimeOptions} {request : LeadAgentTaskRequest} {world : LeadWorld}
  {branch : Branch} {conversationContext : LeadConversationContext}
  {decision : LeadAgentDecision} {calls : List LeadCall}

variable (options request world branch decision calls) in
theorem runClarification_stops (plan : LeadWorkflowPlan) (clarification : WorkflowClarification) :
    StopsToAsk clarification
      ((runClarification options request decision plan clarification).alone world calls
        branch) := by
  simp only [runClarification, alone_bind, alone_emit, alone_recordLeadAssistantMessage,
    alone_recordLeadEvent, alone_pure, Finished.mk_after]
  exact ⟨fun call hcall => by simp at hcall, _, rfl, rfl⟩

theorem runWorkflow_result (plan : LeadWorkflowPlan) :
    ∃ result, ((runWorkflow options request conversationContext decision plan).alone world calls
      branch).result = .ok result ∧ result.clarification = none := by
  simp only [runWorkflow, alone_bind, alone_pure, Finished.result_after]
  exact ⟨_, rfl, rfl⟩

theorem runImpl_overridden (hmode : request.dispatchMode ≠ some .direct) {plan : LeadWorkflowPlan}
    (hplan : obtainedPlan options request world branch = some plan)
    (hoverrides : overridesPlan request (runDecision options request) plan = true) :
    ∃ result, ((runImpl options request).alone world [] branch).result = .ok result ∧
      result.clarification = none := by
  obtain ⟨noted, calls, log, -, -, hrun⟩ := runImpl_alone hmode hplan
  have hreplaced : planInPlaceOf options request plan = createSingleStepWorkflowPlan
      (runTaskId options request) options.sessionId request (runDecision options request)
      options.profiles := by
    rw [planInPlaceOf, if_pos hoverrides]
  rw [hrun, hreplaced]
  exact runWorkflow_result _

theorem StopsToAsk.not_of_result {clarification : WorkflowClarification}
    {finished : Finished Branch LeadEffect LeadCall (Except JsString LeadAgentResult)}
    (h : ∃ result, finished.result = .ok result ∧ result.clarification = none) :
    ¬ StopsToAsk clarification finished := by
  rintro ⟨-, result, hresult, hclarification⟩
  obtain ⟨other, hother, hnone⟩ := h
  cases hresult.symm.trans hother
  rw [hnone] at hclarification
  cases hclarification

end

/-- A plan with a blocking clarification stops a run that is not direct when the runtime does
not put a plan of one step in its place, and otherwise does not. -/
theorem blocking_clarification_stops_iff (options : LeadAgentRuntimeOptions)
    (request : LeadAgentTaskRequest) (world : LeadWorld) (branch : Branch)
    {plan : LeadWorkflowPlan} {clarification : WorkflowClarification}
    (hmode : request.dispatchMode ≠ some .direct)
    (hplan : world.planner (runPlanningInput options request branch) = .ok plan)
    (hasks : plan.requiresClarification = some clarification)
    (hblocks : clarification.blocksExecution = true) :
    StopsToAsk clarification ((runImpl options request).alone world [] branch) ↔
      overridesPlan request (runDecision options request) plan = false := by
  have hobtained : obtainedPlan options request world branch = some plan := by
    rw [obtainedPlan, hplan]
  cases hoverrides : overridesPlan request (runDecision options request) plan with
  | false =>
    have hsame : planInPlaceOf options request plan = plan := by
      rw [planInPlaceOf, if_neg (by simp [hoverrides])]
    obtain ⟨noted, calls, log, -, hsilent, hrun⟩ := runImpl_alone hmode hobtained
    refine iff_of_true ?_ rfl
    rw [hrun, hsame]
    dsimp only
    rw [carryOutPlan, hasks, Option.filter_some_pos hblocks]
    obtain ⟨hquiet, hresult⟩ := runClarification_stops options request world noted
      (decisionForWorkflowPlan plan (runDecision options request)) calls plan clarification
    refine ⟨fun call hcall => ?_, hresult⟩
    rw [Finished.log_after, callsOf_append, List.mem_append] at hcall
    exact hcall.elim (hsilent call) (hquiet call)
  | true =>
    exact iff_of_false (StopsToAsk.not_of_result (runImpl_overridden hmode hobtained hoverrides))
      (by simp)

def reviewerOptions : LeadAgentRuntimeOptions where
  toLowerCase := id
  profiles := [{ id := js "reviewer" }]
  sessionId := js "s"
  rootDir := js "/w"
  defaultTaskId := js "t"
  plannerSource := .llm
  contextMetadata _ _ _ _ _ _ := []
  createLeadAcceptanceReport _ request result := createLeadContractAcceptanceReport id [] request result

def journalQuestion : WorkflowClarification where
  question := js "which journal?"
  reason := js "the venue decides the format"
  blocksExecution := true

def questionPlan : LeadWorkflowPlan where
  taskId := js "t"
  sessionId := none
  steps := []
  objective := js "o"
  rationale := []
  userVisibleSummary := []
  mode := .direct
  stopConditions := []
  requiresClarification := some journalQuestion

/-- A planner that asks the user, whatever it is given. -/
def questionWorld : LeadWorld where
  planner _ := .ok questionPlan
  directRunner _ _ := .ok (js "done")
  workerRunner _ _ := .error (js "busy")

/-- A request that is left to the planner is stopped by the question. -/
theorem blocking_clarification_stops_auto : StopsToAsk journalQuestion
      ((runImpl reviewerOptions { objective := js "o" }).alone questionWorld [] []) ↔
      overridesPlan { objective := js "o" } (runDecision reviewerOptions { objective := js "o" })
        questionPlan = false :=
  blocking_clarification_stops_iff reviewerOptions { objective := js "o" } questionWorld []
    (by decide) rfl rfl rfl

/-- A request for a profile is carried out without the question. -/
theorem blocking_clarification_overridden :
    ¬ ∀ (options : LeadAgentRuntimeOptions) (request : LeadAgentTaskRequest)
      (world : LeadWorld) (branch : Branch) (plan : LeadWorkflowPlan)
      (clarification : WorkflowClarification),
      request.dispatchMode ≠ some .direct →
      world.planner (runPlanningInput options request branch) = .ok plan →
      plan.requiresClarification = some clarification → clarification.blocksExecution = true →
        StopsToAsk clarification ((runImpl options request).alone world [] branch) := by
  intro h
  let request : LeadAgentTaskRequest :=
    { objective := js "o", profileId := some (js "reviewer") }
  have hdirect : request.dispatchMode ≠ some .direct := by decide
  exact StopsToAsk.not_of_result (runImpl_overridden hdirect rfl (by decide))
    (h reviewerOptions request questionWorld [] questionPlan journalQuestion hdirect rfl rfl rfl)

end AcademicAgent.LeadAgent
