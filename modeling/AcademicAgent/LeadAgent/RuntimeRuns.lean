import AcademicAgent.LeadAgent.BlockingQuestions
import AcademicAgent.LeadAgent.Runtime

/-!
# Runs of the lead-agent runtime

The workflow of a run executes as the executor does with the same workers.
-/

namespace AcademicAgent.LeadAgent

open Json Resumable List

open Finished (after_after log_after mk_after)

variable {calls : List LeadCall}

/-- What the planner, the direct runner and the workers answer, workers by the number of
the call. -/
structure LeadWorld where
  planner : LeadTaskPlanningInput → Except PlannerFailure LeadWorkflowPlan
  directRunner : LeadAgentTaskRequest → LeadConversationContext → Except JsString JsString
  workerRunner : Nat → WorkerRequest ArtifactRef → Except JsString (WorkerResult ArtifactRef)

def LeadCall.isWorker : LeadCall → Bool
  | .worker _ => true
  | _ => false

def LeadCall.isDirect : LeadCall → Bool
  | .direct _ _ => true
  | _ => false

def workerCount (calls : List LeadCall) : Nat := calls.countP (·.isWorker)

def LeadWorld.reply (world : LeadWorld) (calls : List LeadCall) : (call : LeadCall) → LeadAnswer call
  | .plan input => world.planner input
  | .direct request context => world.directRunner request context
  | .worker request => world.workerRunner (workerCount calls) request
  | .heuristicPlan => ()
  | .settled => ()

def LeadProgram.alone {α : Type} (program : LeadProgram α) (world : LeadWorld)
    (calls : List LeadCall) (branch : Branch) : Finished Branch LeadEffect LeadCall α :=
  program.runWith applyLeadEffect world.reply calls branch

section

variable {α β : Type} {world : LeadWorld} {calls : List LeadCall} {branch : Branch}

theorem alone_bind (p : LeadProgram α) (f : α → LeadProgram β) :
    LeadProgram.alone (p >>= f) world calls branch = let first := p.alone world calls branch
      ((f first.result).alone world (calls ++ callsOf first.log) first.state).after first.log :=
  runWith_bind p f calls branch

@[simp] theorem alone_pure (a : α) :
    LeadProgram.alone (pure a) world calls branch = ⟨a, branch, []⟩ := rfl

@[simp] theorem alone_done (a : α) :
    LeadProgram.alone (.done a) world calls branch = ⟨a, branch, []⟩ := rfl

@[simp] theorem alone_emit (event : LeadAgentRunEvent) :
    LeadProgram.alone (emit event) world calls branch = ⟨(), branch, [.inl (.emit event)]⟩ := rfl

@[simp] theorem alone_append (entry : LeadEntry) :
    LeadProgram.alone (append entry) world calls branch =
      ⟨(), branch ++ [entry], [.inl (.append entry)]⟩ := rfl

@[simp] theorem alone_askWorker (request : WorkerRequest ArtifactRef) :
    LeadProgram.alone (askWorker request) world calls branch =
      ⟨world.workerRunner (workerCount calls) request, branch, [.inr (.worker request)]⟩ := rfl

@[simp] theorem alone_askPlanner (input : LeadTaskPlanningInput) :
    LeadProgram.alone (askPlanner input) world calls branch =
      ⟨world.planner input, branch, [.inr (.plan input)]⟩ := rfl

@[simp] theorem alone_awaitSettled :
    LeadProgram.alone awaitSettled world calls branch = ⟨(), branch, [.inr .settled]⟩ := rfl

@[simp] theorem alone_awaitHeuristicPlan : LeadProgram.alone awaitHeuristicPlan world calls branch =
      ⟨(), branch, [.inr .heuristicPlan]⟩ := rfl

@[simp] theorem alone_state :
    LeadProgram.alone (state : LeadProgram Branch) world calls branch = ⟨branch, branch, []⟩ := rfl

@[simp] theorem alone_effects_emit (events : List LeadAgentRunEvent) :
    LeadProgram.alone (effects (events.map LeadEffect.emit)) world calls branch =
      ⟨(), branch, events.map fun event => .inl (.emit event)⟩ := by
  induction events with
  | nil => rfl
  | cons event events ih =>
    rw [LeadProgram.alone] at ih ⊢
    rw [map_cons, effects, runWith]
    simp only [applyLeadEffect, ih, map_cons]

@[simp] theorem callsOf_events (events : List LeadAgentRunEvent) :
    callsOf (events.map fun event => (.inl (.emit event) : LeadEffect ⊕ LeadCall)) = [] := by
  induction events with
  | nil => rfl
  | cons event events ih => exact ih

end

/-- The environment of an execution with the workers that come after the calls so far. -/
def WorkflowEnv.after (env : WorkflowEnv ArtifactRef) (world : LeadWorld)
    (calls : List LeadCall) : WorkflowEnv ArtifactRef :=
  { env with workerRunner := fun call => world.workerRunner (workerCount calls + call) }

section

variable (env : WorkflowEnv ArtifactRef) (plan : WorkflowPlan ArtifactRef) (world : LeadWorld)
  (start : List LeadCall)

/-- The calls after a start are those of an execution, and the branch is as before. -/
structure Performed {α : Type} (calls : List LeadCall) (branch : Branch)
    (done : Finished Branch LeadEffect LeadCall α) (result : α)
    (execution : Execution ArtifactRef) : Prop where
  result_eq : done.result = result
  state_eq : done.state = branch
  count_eq : workerCount (calls ++ callsOf done.log) = workerCount start + execution.calls.length

theorem callWorker_eq (request : WorkerRequest ArtifactRef) (attempt maxAttempts : Nat)
    (previous : Option AcceptanceReport) (execution : Execution ArtifactRef) :
    callWorker env request attempt maxAttempts previous execution =
      { request := attemptRequest request attempt maxAttempts previous
        result := workerResultOf (attemptRequest request attempt maxAttempts previous)
          (env.workerRunner execution.calls.length
            (attemptRequest request attempt maxAttempts previous))
        report := env.createLeadAcceptanceReport execution.calls.length
          (attemptRequest request attempt maxAttempts previous)
          (workerResultOf (attemptRequest request attempt maxAttempts previous)
            (env.workerRunner execution.calls.length
              (attemptRequest request attempt maxAttempts previous))) } := by
  unfold callWorker attemptRequest
  dsimp only
  generalize env.workerRunner _ _ = answer
  cases answer with
  | ok result => rfl
  | error message => rfl

section

variable (step : WorkflowStep ArtifactRef)

theorem attemptStep_alone (request : WorkerRequest ArtifactRef) (attempt maxAttempts : Nat)
    (previous : Option AcceptanceReport) (execution : Execution ArtifactRef) (branch : Branch)
    (hcount : workerCount calls = workerCount start + execution.calls.length) :
    Performed start calls branch ((attemptStep env step request attempt maxAttempts previous
      execution.calls.length).alone world calls branch)
      (callWorker (env.after world start) request attempt maxAttempts previous execution)
      (execution.call
        (callWorker (env.after world start) request attempt maxAttempts previous execution)) := by
  have hmap (result : WorkerResult ArtifactRef) : (result.producedArtifacts.map fun artifact =>
        LeadEffect.emit (.artifactCreated step.id artifact.id artifact.kind)) =
      (result.producedArtifacts.map fun artifact =>
        LeadAgentRunEvent.artifactCreated step.id artifact.id artifact.kind).map
          LeadEffect.emit := by
    rw [map_map]
    rfl
  simp only [attemptStep, hmap, alone_bind, alone_emit, alone_askWorker, alone_effects_emit,
    alone_pure, callsOf_effect, callsOf_nil, append_nil, hcount]
  refine ⟨?_, rfl, ?_⟩
  · rw [callWorker_eq]
    rfl
  simp only [log_after, callsOf_append, callsOf_effect, callsOf_call, callsOf_nil,
    callsOf_events, nil_append, append_nil, workerCount, countP_append,
    Execution.call, length_append, length_singleton]
  rw [workerCount] at hcount
  rw [hcount]
  rfl

theorem attemptStepUntilSettled_alone (request : WorkerRequest ArtifactRef) (maxAttempts left : Nat)
    (previous : Option AcceptanceReport) (execution : Execution ArtifactRef) (branch : Branch)
    (hcount : workerCount calls = workerCount start + execution.calls.length) :
    Performed start calls branch ((attemptStepUntilSettled env step request maxAttempts left
      previous execution).alone world calls branch)
      (runAttempts (env.after world start) request maxAttempts left previous execution)
      (runAttempts (env.after world start) request maxAttempts left previous execution).2.2 := by
  induction left generalizing previous execution calls with
  | zero =>
    obtain ⟨hresult, hstate, hcalls⟩ := attemptStep_alone env world start step request maxAttempts
      maxAttempts previous execution branch hcount
    rw [attemptStepUntilSettled, alone_bind]
    dsimp only
    rw [hresult, hstate, alone_pure, mk_after, append_nil]
    exact ⟨rfl, rfl, hcalls⟩
  | succ left ih =>
    obtain ⟨hresult, hstate, hcalls⟩ := attemptStep_alone env world start step request
      (maxAttempts - (left + 1)) maxAttempts previous execution branch hcount
    rw [attemptStepUntilSettled, alone_bind]
    dsimp only
    rw [hresult, hstate, runAttempts]
    generalize callWorker (env.after world start) request (maxAttempts - (left + 1)) maxAttempts
      previous execution = attempt at hcalls ⊢
    by_cases hsettled : (attempt.report.accepted || hasBlockingOpenQuestion attempt.result) = true
    · rw [if_pos hsettled, if_pos hsettled, alone_pure, mk_after, append_nil]
      exact ⟨rfl, rfl, hcalls⟩
    · rw [if_neg hsettled, if_neg hsettled, alone_bind, alone_emit]
      dsimp only
      rw [callsOf_effect, callsOf_nil, append_nil, alone_bind]
      dsimp only
      have hnext := ih (some attempt.report)
        ((execution.call attempt).write (workflowLogPath env.rootDir)) hcalls
      obtain ⟨hrest, hbranch, hmore⟩ := hnext
      rw [hrest, hbranch, alone_pure]
      refine ⟨rfl, rfl, ?_⟩
      rw [log_after, log_after, log_after, append_nil,
        callsOf_append, singleton_append, callsOf_effect, ← append_assoc]
      exact hmore

theorem workerRequestForStep_after (inputArtifacts : List ArtifactRef) (metadata : JsonObject) :
    workerRequestForStep (env.after world start) plan step inputArtifacts metadata =
      workerRequestForStep env plan step inputArtifacts metadata := rfl

end

theorem performStep_alone (isLastStep : Bool) (step : WorkflowStep ArtifactRef)
    (loop : WorkflowLoop ArtifactRef) (branch : Branch)
    (hcount : workerCount calls = workerCount start + loop.execution.calls.length) :
    ∃ next, executeStep (fun ref => some ref.id) (env.after world start) plan isLastStep step
        loop = .ok next ∧
      Performed start calls branch ((performStep env plan isLastStep step loop).alone world calls
        branch) next next.execution := by
  rw [executeStep]
  simp only [mergeArtifactRefs_some, workerRequestForStep_after]
  refine ⟨_, rfl, ?_⟩
  rw [performStep]
  generalize hrequest : workerRequestForStep env plan step
    (mergeByKey (·.id) (step.inputArtifactRefs ++ loop.carriedArtifacts)) _ = request
  have hsame : workerRequestForStep env plan step
    (mergeByKey (·.id) (step.inputArtifactRefs ++ loop.carriedArtifacts))
      ((env.after world start).contextMetadata step
        (mergeByKey (·.id) (step.inputArtifactRefs ++ loop.carriedArtifacts)) loop.stepResults
        loop.artifactBriefs) = request := hrequest
  obtain ⟨hresult, hstate, hcalls⟩ := attemptStepUntilSettled_alone env world start step request
    (maxAttemptsForRequest request) (maxAttemptsForRequest request - 1) none
    (loop.execution.write (stepFile env plan step "worker-request.json")) branch hcount
  rw [alone_bind]
  dsimp only
  rw [hresult, hstate, alone_bind, alone_emit]
  dsimp only
  rw [alone_pure]
  refine ⟨?_, rfl, ?_⟩
  · dsimp only [recordStep]
    rw [hsame]
    rfl
  · rw [log_after, mk_after, append_nil, callsOf_append, callsOf_effect,
      callsOf_nil, append_nil, hsame]
    exact hcalls

theorem performSteps_alone (steps : List (WorkflowStep ArtifactRef))
    (loop : WorkflowLoop ArtifactRef) (branch : Branch)
    (hcount : workerCount calls = workerCount start + loop.execution.calls.length) :
    ∃ final, executeSteps (fun ref => some ref.id) (env.after world start) plan steps loop =
        .ok final ∧
      Performed start calls branch ((performSteps env plan steps loop).alone world calls branch)
        final final.execution := by
  induction steps generalizing loop calls with
  | nil =>
    refine ⟨loop, rfl, rfl, rfl, ?_⟩
    rw [performSteps, alone_done, callsOf_nil, append_nil]
    exact hcount
  | cons step rest ih =>
    obtain ⟨next, hstep, hresult, hstate, hcalls⟩ := performStep_alone env plan world start
      rest.isEmpty step loop branch hcount
    rw [executeSteps, hstep, performSteps, alone_bind]
    dsimp only
    rw [hresult, hstate]
    by_cases hgo : next.accepted = true
    · rw [if_pos hgo, if_pos hgo]
      obtain ⟨final, hsteps, hfinal, hbranch, hmore⟩ := ih next hcalls
      refine ⟨final, hsteps, hfinal, hbranch, ?_⟩
      rw [log_after, callsOf_append, ← append_assoc]
      exact hmore
    · rw [if_neg hgo, if_neg hgo, alone_done]
      refine ⟨next, rfl, rfl, rfl, ?_⟩
      rw [mk_after, append_nil]
      exact hcalls

theorem performWorkflowPlan_alone (branch : Branch) :
    (executeWorkflowPlan (fun ref => some ref.id) (env.after world start) plan).2 =
        some ((performWorkflowPlan env plan).alone world start branch).result ∧
      ((performWorkflowPlan env plan).alone world start branch).state = branch := by
  have hcount : workerCount start = workerCount start +
      ({ execution := startedExecution env plan } : WorkflowLoop ArtifactRef).execution.calls.length :=
    rfl
  obtain ⟨final, hsteps, hresult, hstate, -⟩ := performSteps_alone env plan world start
    (orderedSteps plan) _ branch hcount
  have hrun : executeSteps (fun ref => some ref.id) (env.after world start) plan
      (orderedSteps plan) { execution := startedExecution (env.after world start) plan } =
        .ok final := hsteps
  rw [performWorkflowPlan, alone_bind, alone_emit]
  dsimp only
  rw [callsOf_effect, callsOf_nil, append_nil, alone_bind]
  dsimp only
  rw [hresult, hstate, alone_bind, alone_emit]
  refine ⟨?_, rfl⟩
  rw [startedExecution] at hrun
  rw [executeWorkflowPlan, hrun]
  rfl

end

section

variable (options : LeadAgentRuntimeOptions) (request : LeadAgentTaskRequest) (world : LeadWorld)
  (branch : Branch)

def runContext : LeadConversationContext :=
  buildLeadConversationContext options.sessionId
    (branch ++ [.message .user (textMessage request.objective)]) request.objective

def runPlanningInput : LeadTaskPlanningInput :=
  createLeadTaskPlanningInput request (runTaskId options request) options.sessionId
    (runContext options request branch)

def runDecision : LeadAgentDecision :=
  planLeadAgentTask options.toLowerCase request options.profiles

/-- The plan of a run before it may be overridden, when there is one. -/
def obtainedPlan : Option LeadWorkflowPlan :=
  match world.planner (runPlanningInput options request branch) with
  | .ok plan => some plan
  | .error (.validation _) => some (createHeuristicWorkflowPlan options.toLowerCase
      (runPlanningInput options request branch) options.profiles)
  | .error (.other _) => none

def planInPlaceOf (plan : LeadWorkflowPlan) : LeadWorkflowPlan :=
  if overridesPlan request (runDecision options request) plan then
    createSingleStepWorkflowPlan (runTaskId options request) options.sessionId request
      (runDecision options request) options.profiles
  else plan

end

section

variable {options : LeadAgentRuntimeOptions} {request : LeadAgentTaskRequest} {world : LeadWorld}
  {branch : Branch} {conversationContext : LeadConversationContext}
  {decision : LeadAgentDecision} {calls : List LeadCall}

@[simp] theorem alone_recordLeadEvent (customType : String) (data : List (String × Option Tree)) :
    LeadProgram.alone (recordLeadEvent customType data) world calls branch =
      ⟨(), branch ++ [.custom (js customType) (record data)],
        [.inl (.append (.custom (js customType) (record data)))]⟩ := rfl

@[simp] theorem alone_recordLeadAssistantMessage (finalOutput : JsString) :
    LeadProgram.alone (recordLeadAssistantMessage finalOutput) world calls branch =
      ⟨(), branch ++ [.message .assistant (textMessage finalOutput)],
        [.inl (.append (.message .assistant (textMessage finalOutput)))]⟩ := rfl

def Silent (log : List (LeadEffect ⊕ LeadCall)) : Prop :=
  ∀ call ∈ callsOf log, call.isWorker = false ∧ call.isDirect = false

variable (options request world branch calls) in
theorem followedPlan_alone (plan : LeadWorkflowPlan) :
    ∃ (noted : Branch) (log : List (LeadEffect ⊕ LeadCall)), callsOf log = [] ∧
      (followedPlan options request (runDecision options request) plan).alone world calls branch =
        ⟨planInPlaceOf options request plan, noted, log⟩ := by
  unfold followedPlan planInPlaceOf
  by_cases hoverrides : overridesPlan request (runDecision options request) plan = true
  · simp only [if_pos hoverrides, alone_bind, alone_recordLeadEvent, alone_pure]
    exact ⟨_, _, rfl, rfl⟩
  · simp only [if_neg hoverrides, alone_pure]
    exact ⟨_, _, rfl, rfl⟩

variable (options request world branch calls conversationContext) in
theorem runPlan_alone (planned : LeadWorkflowPlan × LeadAgentPlannerSource × Option JsString) :
    ∃ (noted : Branch) (log : List (LeadEffect ⊕ LeadCall)), callsOf log = [] ∧
      (runPlan options request conversationContext (runDecision options request) planned).alone
          world calls branch =
        let plan := planInPlaceOf options request planned.1
        ((carryOutPlan options request conversationContext
          (decisionForWorkflowPlan plan (runDecision options request)) plan).alone
            world calls noted).after log := by
  obtain ⟨noted, log, hcalls, hfollowed⟩ := followedPlan_alone options request
    world branch calls planned.1
  rw [runPlan, alone_bind, hfollowed]
  simp only [alone_bind, alone_emit, emitPlanSummary, hcalls, callsOf_effect, callsOf_nil,
    append_nil, after_after]
  refine ⟨noted, _, ?_, rfl⟩
  simp only [callsOf_append, hcalls, callsOf_effect, callsOf_nil, append_nil]

theorem obtainPlan_alone {plan : LeadWorkflowPlan}
    (hplan : obtainedPlan options request world branch = some plan) (earlier : Branch) :
    ∃ (source : LeadAgentPlannerSource × Option JsString) (log : List (LeadEffect ⊕ LeadCall)),
      Silent log ∧ (obtainPlan options request (runContext options request branch)).alone world []
          earlier = ⟨.ok (plan, source), earlier, log⟩ := by
  have hinput : createLeadTaskPlanningInput request (runTaskId options request) options.sessionId
      (runContext options request branch) = runPlanningInput options request branch := rfl
  unfold obtainedPlan at hplan
  simp only [obtainPlan, alone_bind, alone_emit, alone_askPlanner, hinput]
  cases hanswer : world.planner (runPlanningInput options request branch) with
  | ok planned =>
    rw [hanswer] at hplan
    cases hplan
    exact ⟨_, _, by simp [Silent, LeadCall.isWorker, LeadCall.isDirect], rfl⟩
  | error failure =>
    rw [hanswer] at hplan
    cases failure with
    | other message => cases hplan
    | validation error =>
      cases hplan
      simp only [alone_bind, alone_emit, alone_awaitHeuristicPlan, alone_pure, after_after]
      refine ⟨_, _, ?_, rfl⟩
      simp [Silent, LeadCall.isWorker, LeadCall.isDirect]

theorem runImpl_alone (hmode : request.dispatchMode ≠ some .direct) {plan : LeadWorkflowPlan}
    (hplan : obtainedPlan options request world branch = some plan) :
    ∃ (noted : Branch) (calls : List LeadCall) (log : List (LeadEffect ⊕ LeadCall)),
      workerCount calls = 0 ∧ Silent log ∧ (runImpl options request).alone world [] branch =
          let followed := planInPlaceOf options request plan
          ((carryOutPlan options request (runContext options request branch)
            (decisionForWorkflowPlan followed (runDecision options request)) followed).alone
              world calls noted).after log := by
  have hcontext : buildLeadConversationContext options.sessionId
      (branch ++ [.message .user (textMessage request.objective)]) request.objective =
        runContext options request branch := rfl
  have hdecision : planLeadAgentTask options.toLowerCase request options.profiles =
      runDecision options request := rfl
  simp only [runImpl, alone_bind, alone_append, alone_state, recordDecision,
    alone_recordLeadEvent, hcontext, hdecision, if_neg hmode, callsOf_effect, callsOf_nil,
    append_nil, after_after]
  obtain ⟨source, log, hsilent, hobtained⟩ := obtainPlan_alone hplan
    (branch ++ [.message .user (textMessage request.objective)] ++ [_])
  rw [hobtained]
  obtain ⟨noted, more, hcalls, hrun⟩ := runPlan_alone options request world _
    (runContext options request branch) (callsOf log) (plan, source)
  rw [nil_append, hrun, after_after]
  refine ⟨noted, callsOf log, _, ?_, ?_, rfl⟩
  · exact countP_eq_zero.mpr fun call hcall => by simp [(hsilent call hcall).1]
  · intro call hcall
    simp only [callsOf_append, callsOf_effect, callsOf_nil, nil_append, hcalls, append_nil] at hcall
    exact hsilent call hcall

end

end AcademicAgent.LeadAgent
