import AcademicAgent.LeadAgent.Executor

/-!
# Discipline of workflow executions

Whatever the workers answer, an execution records results for the first steps of
the sorted plan, stops at the first step that is rejected or blocked, retries only
rejected answers within the attempts of a request, and gives every step its own
references merged with what the steps before it finally produced.
-/

namespace AcademicAgent.LeadAgent

open Json List

section Sorting

variable {α : Type} (plan : WorkflowPlan α)

theorem order_trans (a b c : WorkflowStep α) (hab : a.order.le b.order = true)
    (hbc : b.order.le c.order = true) : a.order.le c.order = true :=
  Decimal.le_trans hab hbc

theorem order_total (a b : WorkflowStep α) : (a.order.le b.order || b.order.le a.order) = true :=
  Decimal.le_total a.order b.order

theorem orderedSteps_perm : (orderedSteps plan).Perm plan.steps := mergeSort_perm _ _

theorem orderedSteps_pairwise : (orderedSteps plan).Pairwise fun a b => a.order.le b.order = true :=
  pairwise_mergeSort order_trans order_total plan.steps

theorem orderedSteps_stable {steps : List (WorkflowStep α)}
    (hordered : steps.Pairwise fun a b => a.order.le b.order = true)
    (hsub : steps.Sublist plan.steps) : steps.Sublist (orderedSteps plan) :=
  sublist_mergeSort order_trans order_total hordered hsub

end Sorting

section

variable {α κ : Type} [DecidableEq κ] {key : α → κ}

theorem mergeArtifactRefs_some (left right : List α) :
    mergeArtifactRefs (fun a => some (key a)) left right =
      some (mergeByKey key (left ++ right)) := by
  have hkeyed : ∀ xs m : List α,
      (xs.map fun a => (key a, a)).foldl (fun refs p => assocSet p.1 p.2 refs)
        (m.map fun b => (key b, b)) = (placeAll key m xs).map fun b => (key b, b) := by
    intro xs
    induction xs with
    | nil => intro m; rfl
    | cons a xs ih =>
      intro m
      rw [map_cons, foldl_cons, assocSet_keyed, ih, placeAll_cons]
  have hmap : ∀ xs : List α, xs.mapM (fun artifact =>
      (some (key artifact)).map fun id => (id, artifact)) = some (xs.map fun a => (key a, a)) := by
    intro xs
    induction xs with
    | nil => rfl
    | cons a xs ih =>
      rw [mapM_cons, ih]
      rfl
  have hall := hkeyed (left ++ right) []
  rw [map_nil] at hall
  rw [mergeArtifactRefs, hmap, Option.map_some, hall, map_map, mergeByKey]
  congr 1
  exact map_id _

end

section

variable {α : Type} {env : WorkflowEnv α}

/-- What a call was answered and how the answer was judged are up to the environment. -/
structure Answered (env : WorkflowEnv α) (call : Nat) (attempt : Attempt α) : Prop where
  result_eq : attempt.result = match env.workerRunner call attempt.request with
    | .ok result => result
    | .error message => createFailedWorkerResult attempt.request.taskId message
  report_eq : attempt.report =
    env.createLeadAcceptanceReport call attempt.request attempt.result

def Attempt.settles (attempt : Attempt α) : Bool :=
  attempt.report.accepted || hasBlockingOpenQuestion attempt.result

structure AttemptsOf (env : WorkflowEnv α) (request : WorkerRequest α) (left : Nat)
    (start : Execution α) (ran : List (Attempt α) × Attempt α × Execution α) : Prop where
  calls_eq : ran.2.2.calls = start.calls ++ (ran.1 ++ [ran.2.1])
  length_le : ran.1.length ≤ left
  retried : ∀ attempt ∈ ran.1, attempt.settles = false
  settled : ran.2.1.settles = true ∨ ran.1.length = left
  asked : ∀ attempt ∈ ran.1 ++ [ran.2.1],
    ∃ context, attempt.request = { request with attemptContext := some context }
  answered : ∀ i attempt, (ran.1 ++ [ran.2.1])[i]? = some attempt →
    Answered env (start.calls.length + i) attempt

theorem callWorker_answered (request : WorkerRequest α) (attempt maxAttempts : Nat)
    (previous : Option AcceptanceReport) (execution : Execution α) :
    Answered env execution.calls.length
      (callWorker env request attempt maxAttempts previous execution) :=
  ⟨rfl, rfl⟩

theorem runAttempts_attemptsOf (env : WorkflowEnv α) (request : WorkerRequest α) (maxAttempts left : Nat)
    (previous : Option AcceptanceReport) (start : Execution α) : AttemptsOf env request left start
      (runAttempts env request maxAttempts left previous start) := by
  have hsingle : ∀ (left number : Nat) (previous : Option AcceptanceReport) (start : Execution α),
      let attempt := callWorker env request number maxAttempts previous start
      attempt.settles = true ∨ left = 0 →
        AttemptsOf env request left start ([], attempt, start.call attempt) := by
    intro left number previous start attempt hsettled
    refine ⟨rfl, Nat.zero_le _, fun _ h => (by cases h), ?_, ?_, ?_⟩
    · rcases hsettled with hsettled | hleft
      · exact .inl hsettled
      · exact .inr hleft.symm
    · intro a ha
      rw [nil_append, mem_singleton] at ha
      exact ⟨_, congrArg Attempt.request ha⟩
    · intro i a ha
      cases i with
      | zero =>
        cases ha
        exact callWorker_answered request number maxAttempts previous start
      | succ i => cases ha
  induction left generalizing previous start with
  | zero => exact hsingle 0 maxAttempts previous start (.inr rfl)
  | succ left ih =>
    rw [runAttempts]
    split
    · rename_i hsettles
      exact hsingle (left + 1) _ previous start (.inl hsettles)
    · rename_i hretry
      generalize hattempt : callWorker env request (maxAttempts - (left + 1)) maxAttempts previous
        start = attempt at hretry ⊢
      have hanswered : Answered env start.calls.length attempt := hattempt ▸
        callWorker_answered request _ maxAttempts previous start
      have hrest := ih (some attempt.report)
        ((start.call attempt).write (workflowLogPath env.rootDir))
      refine ⟨?_, ?_, ?_, ?_, ?_, ?_⟩
      · rw [hrest.calls_eq]
        simp [Execution.call, Execution.write]
      · exact Nat.succ_le_succ hrest.length_le
      · intro a ha
        rcases mem_cons.mp ha with rfl | ha
        · exact Bool.eq_false_iff.mpr hretry
        · exact hrest.retried a ha
      · rcases hrest.settled with hsettled | hlength
        · exact .inl hsettled
        · exact .inr (congrArg Nat.succ hlength)
      · intro a ha
        rcases mem_cons.mp ha with rfl | ha
        · exact ⟨_, (congrArg Attempt.request hattempt).symm⟩
        · exact hrest.asked a ha
      · intro i a ha
        cases i with
        | zero =>
          cases ha
          exact hanswered
        | succ i =>
          have hcall := hrest.answered i a ha
          have hlength : ((start.call attempt).write (workflowLogPath env.rootDir)).calls.length +
              i = start.calls.length + (i + 1) := by
            simp only [Execution.call, Execution.write, length_append, length_singleton]
            omega
          exact hlength ▸ hcall

end

section

variable {α κ : Type} [DecidableEq κ] {key : α → κ} {env : WorkflowEnv α}
  {plan : WorkflowPlan α}

/-- A step whose result was accepted and raised no blocking question. -/
def WorkflowStepResult.passed (r : WorkflowStepResult α) : Bool :=
  r.acceptanceReport.accepted && !hasBlockingOpenQuestion r.workerResult

def finalArtifacts (earlier : List (WorkflowStepResult α)) : List α :=
  earlier.flatMap (·.workerResult.producedArtifacts)

structure StepRecorded (key : α → κ) (isLastStep : Bool) (earlier : List (WorkflowStepResult α))
    (step : WorkflowStep α) (r : WorkflowStepResult α) : Prop where
  step_eq : r.step = step
  inputs_eq : r.workerRequest.inputArtifacts =
    mergeByKey key (step.inputArtifactRefs ++ finalArtifacts earlier)
  decision_eq : r.decision = decisionFor isLastStep r.workerResult r.acceptanceReport
  attempts_eq : ∃ retried last, r.attempts = retried ++ [last] ∧
    last.result = r.workerResult ∧ last.report = r.acceptanceReport ∧
    retried.length < maxAttemptsForRequest r.workerRequest ∧
    ∀ attempt ∈ retried, attempt.settles = false
  asked : ∀ attempt ∈ r.attempts,
    ∃ context, attempt.request = { r.workerRequest with attemptContext := some context }

/-- The variables of the loop after some steps that all passed. -/
structure LoopAfter (key : α → κ) (env : WorkflowEnv α) (loop : WorkflowLoop α) : Prop where
  carried_eq : loop.carriedArtifacts = mergeByKey key (finalArtifacts loop.stepResults)
  calls_eq : loop.execution.calls = loop.stepResults.flatMap (·.attempts)
  answered : ∀ i attempt, loop.execution.calls[i]? = some attempt → Answered env i attempt

theorem LoopAfter.start (key : α → κ) (env : WorkflowEnv α) {started : Execution α}
    (hcalls : started.calls = []) : LoopAfter key env { execution := started } := by
  refine ⟨rfl, hcalls, fun i attempt h => ?_⟩
  rw [hcalls] at h
  cases h

theorem maxAttemptsForRequest_pos (request : WorkerRequest α) :
    0 < maxAttemptsForRequest request := by
  unfold maxAttemptsForRequest
  omega

theorem decisionFor_askUser (isLastStep : Bool) (result : WorkerResult α)
    (report : AcceptanceReport) :
    (report.accepted && (decisionFor isLastStep result report).kind != .askUser) =
      (report.accepted && !hasBlockingOpenQuestion result) := by
  unfold decisionFor
  cases hasBlockingOpenQuestion result <;> cases report.accepted <;> cases isLastStep <;> rfl

theorem executeStep_recorded (plan : WorkflowPlan α) (isLastStep : Bool)
    (step : WorkflowStep α) {loop : WorkflowLoop α} (h : LoopAfter key env loop) :
    ∃ next r, executeStep (fun a => some (key a)) env plan isLastStep step loop = .ok next ∧
      next.stepResults = loop.stepResults ++ [r] ∧ next.accepted = r.passed ∧
      StepRecorded key isLastStep loop.stepResults step r ∧ LoopAfter key env next := by
  have hinputs : mergeByKey key (step.inputArtifactRefs ++ loop.carriedArtifacts) =
      mergeByKey key (step.inputArtifactRefs ++ finalArtifacts loop.stepResults) := by
    rw [h.carried_eq, mergeByKey_append_merged]
  unfold executeStep
  simp only [mergeArtifactRefs_some]
  generalize hrequest : workerRequestForStep env plan step
    (mergeByKey key (step.inputArtifactRefs ++ loop.carriedArtifacts)) _ = request
  generalize hstart : loop.execution.write _ = start
  have hran := runAttempts_attemptsOf env request (maxAttemptsForRequest request)
    (maxAttemptsForRequest request - 1) none start
  generalize runAttempts env request _ _ none start = ran at hran ⊢
  have hcalls : start.calls = loop.execution.calls := by
    rw [← hstart]
    rfl
  have hpos := maxAttemptsForRequest_pos request
  refine ⟨_, _, rfl, rfl, decisionFor_askUser .., ⟨rfl, ?_, rfl, ?_, hran.asked⟩, ⟨?_, ?_, ?_⟩⟩
  · show request.inputArtifacts = _
    rw [← hrequest, ← hinputs]
    rfl
  · have hlength := hran.length_le
    exact ⟨ran.1, ran.2.1, rfl, rfl, rfl, by show _ < maxAttemptsForRequest request; omega,
      hran.retried⟩
  · show mergeByKey key (loop.carriedArtifacts ++ ran.2.1.result.producedArtifacts) = _
    rw [h.carried_eq, mergeByKey_merged_append]
    simp [finalArtifacts]
  · show ran.2.2.calls = _
    rw [hran.calls_eq, hcalls, h.calls_eq]
    simp
  · intro i attempt hi
    have hi' : (loop.execution.calls ++ (ran.1 ++ [ran.2.1]))[i]? = some attempt := by
      rw [← hcalls, ← hran.calls_eq]
      exact hi
    by_cases hlt : i < loop.execution.calls.length
    · rw [getElem?_append_left hlt] at hi'
      exact h.answered i attempt hi'
    · rw [getElem?_append_right (by omega)] at hi'
      have hanswered := hran.answered _ attempt hi'
      rw [hcalls] at hanswered
      have hindex : loop.execution.calls.length + (i - loop.execution.calls.length) = i := by omega
      exact hindex ▸ hanswered

/-- The results of some steps after earlier ones, and whether all of them passed. -/
inductive StepsRecorded (key : α → κ) :
    List (WorkflowStepResult α) → List (WorkflowStep α) → List (WorkflowStepResult α) → Bool → Prop
  | done (earlier) : StepsRecorded key earlier [] [] true
  | stop {earlier step rest r} (recorded : StepRecorded key rest.isEmpty earlier step r)
      (failed : r.passed = false) : StepsRecorded key earlier (step :: rest) [r] false
  | next {earlier step rest r more accepted}
      (recorded : StepRecorded key rest.isEmpty earlier step r) (passed : r.passed = true)
      (later : StepsRecorded key (earlier ++ [r]) rest more accepted) :
      StepsRecorded key earlier (step :: rest) (r :: more) accepted

theorem executeSteps_recorded (plan : WorkflowPlan α) (steps : List (WorkflowStep α)) {loop : WorkflowLoop α}
    (h : LoopAfter key env loop) (haccepted : loop.accepted = true) :
    ∃ final more, executeSteps (fun a => some (key a)) env plan steps loop = .ok final ∧
      final.stepResults = loop.stepResults ++ more ∧
      StepsRecorded key loop.stepResults steps more final.accepted ∧ LoopAfter key env final := by
  induction steps generalizing loop with
  | nil =>
    refine ⟨loop, [], rfl, (append_nil _).symm, ?_, h⟩
    rw [haccepted]
    exact .done _
  | cons step rest ih =>
    obtain ⟨next, r, hstep, hresults, hpassed, hrecorded, hnext⟩ :=
      executeStep_recorded plan rest.isEmpty step h
    rw [executeSteps, hstep]
    dsimp only
    by_cases hgo : next.accepted = true
    · rw [if_pos hgo]
      obtain ⟨final, more, hrun, hmore, hsteps, hfinal⟩ := ih hnext hgo
      refine ⟨final, r :: more, hrun, ?_, ?_, hfinal⟩
      · rw [hmore, hresults, append_assoc, singleton_append]
      · exact .next hrecorded (hpassed ▸ hgo) (hresults ▸ hsteps)
    · rw [if_neg hgo]
      have hfailed : next.accepted = false := Bool.eq_false_iff.mpr hgo
      refine ⟨next, [r], rfl, hresults, ?_, hnext⟩
      rw [hfailed]
      exact .stop hrecorded (hpassed ▸ hfailed)

section

variable {isLastStep : Bool} {earlier : List (WorkflowStepResult α)} {step : WorkflowStep α}
  {r : WorkflowStepResult α}

theorem StepRecorded.kind_of_passed
    (h : StepRecorded key isLastStep earlier step r) (hpassed : r.passed = true) :
    r.decision.kind = if isLastStep then .synthesize else .continue := by
  rw [WorkflowStepResult.passed, Bool.and_eq_true, Bool.not_eq_true'] at hpassed
  rw [h.decision_eq, decisionFor, hpassed.1, hpassed.2]
  rfl

theorem StepRecorded.kind_of_failed
    (h : StepRecorded key isLastStep earlier step r) (hfailed : r.passed = false) :
    r.decision.kind ≠ .synthesize := by
  rw [WorkflowStepResult.passed] at hfailed
  rw [h.decision_eq, decisionFor]
  split
  · exact nofun
  · rename_i hblocking
    rw [Bool.eq_false_iff.mpr hblocking, Bool.not_false, Bool.and_true] at hfailed
    rw [hfailed]
    exact nofun

end

namespace StepsRecorded

variable {earlier more : List (WorkflowStepResult α)} {steps : List (WorkflowStep α)}
  {accepted : Bool}

section

variable (h : StepsRecorded key earlier steps more accepted)
include h

theorem steps_prefix : more.map (·.step) <+: steps := by
  induction h with
  | done => exact prefix_rfl
  | stop recorded => exact ⟨_, congrArg (· :: _) recorded.step_eq⟩
  | next recorded _ _ ih =>
    rw [map_cons, recorded.step_eq]
    exact (prefix_cons_inj _).mpr ih

theorem eq_nil (hmore : more = []) : steps = [] ∧ accepted = true := by
  cases h with
  | done => exact ⟨rfl, rfl⟩
  | stop | next => cases hmore

theorem continues : ∀ r ∈ more.dropLast, r.decision.kind = .continue := by
  induction h with
  | done | stop =>
    intro r hr
    cases hr
  | @next earlier step rest r more accepted recorded passed later ih =>
    intro r' hr'
    cases more with
    | nil => cases hr'
    | cons r'' more =>
      rw [dropLast_cons_cons, mem_cons] at hr'
      rcases hr' with rfl | hr'
      · have hrest : rest.isEmpty = false := by
          cases later <;> rfl
        rw [recorded.kind_of_passed passed, hrest]
        rfl
      · exact ih r' hr'

theorem synthesizes {last : WorkflowStepResult α} (hlast : more.getLast? = some last) :
    last.decision.kind = .synthesize ↔ accepted = true := by
  induction h with
  | done => cases hlast
  | stop recorded failed =>
    cases hlast
    exact iff_of_false (recorded.kind_of_failed failed) Bool.false_ne_true
  | @next earlier step rest r more accepted recorded passed later ih =>
    cases more with
    | nil =>
      cases hlast
      obtain ⟨rfl, rfl⟩ := later.eq_nil rfl
      exact iff_of_true (recorded.kind_of_passed passed) rfl
    | cons r' more =>
      rw [getLast?_cons_cons] at hlast
      exact ih hlast

theorem accepted_iff :
    accepted = true ↔ more.length = steps.length ∧ ∀ r ∈ more, r.passed = true := by
  induction h with
  | done => exact iff_of_true rfl ⟨rfl, fun _ hr => by cases hr⟩
  | stop recorded failed =>
    refine iff_of_false Bool.false_ne_true fun hall => ?_
    have hpassed := hall.2 _ (mem_singleton_self _)
    rw [failed] at hpassed
    cases hpassed
  | next recorded passed later ih =>
    rw [ih, length_cons, length_cons, Nat.add_right_cancel_iff, forall_mem_cons]
    exact ⟨fun ⟨hlength, hall⟩ => ⟨hlength, passed, hall⟩,
      fun ⟨hlength, _, hall⟩ => ⟨hlength, hall⟩⟩

theorem recorded_at {i : Nat} {r : WorkflowStepResult α} (hr : more[i]? = some r) :
    ∃ isLastStep, StepRecorded key isLastStep (earlier ++ more.take i) r.step r := by
  induction h generalizing i with
  | done => cases hr
  | stop recorded =>
    cases i with
    | zero =>
      cases hr
      rw [take_zero, append_nil]
      exact ⟨_, recorded.step_eq ▸ recorded⟩
    | succ i => cases hr
  | next recorded passed later ih =>
    cases i with
    | zero =>
      cases hr
      rw [take_zero, append_nil]
      exact ⟨_, recorded.step_eq ▸ recorded⟩
    | succ i =>
      obtain ⟨isLastStep, hrecorded⟩ := ih hr
      rw [append_assoc, singleton_append] at hrecorded
      exact ⟨isLastStep, hrecorded⟩

end

end StepsRecorded

end

/-- The discipline of an execution with its result. -/
structure Disciplined (env : WorkflowEnv ArtifactRef) (plan : WorkflowPlan ArtifactRef)
    (execution : Execution ArtifactRef) (result : WorkflowExecutionResult ArtifactRef) :
    Prop where
  /-- The results are for the first steps of the sorted plan. -/
  steps_prefix : result.stepResults.map (·.step) <+: orderedSteps plan
  /-- The plan is sorted by order, and the sort is stable. -/
  sorted : (orderedSteps plan).Perm plan.steps ∧
    ((orderedSteps plan).Pairwise fun a b => a.order.le b.order = true) ∧
    ∀ steps : List (WorkflowStep ArtifactRef),
      (steps.Pairwise fun a b => a.order.le b.order = true) → steps.Sublist plan.steps →
        steps.Sublist (orderedSteps plan)
  continues : ∀ r ∈ result.stepResults.dropLast, r.decision.kind = .continue
  synthesizes : ∀ last, result.stepResults.getLast? = some last →
    (last.decision.kind = .synthesize ↔ result.accepted = true)
  accepted_iff : result.accepted = true ↔
    result.stepResults.length = plan.steps.length ∧ ∀ r ∈ result.stepResults,
      r.acceptanceReport.accepted = true ∧ hasBlockingOpenQuestion r.workerResult = false
  /-- The workers are called for the recorded steps only, one step after another. -/
  calls_eq : execution.calls = result.stepResults.flatMap (·.attempts)
  answered : ∀ i attempt, execution.calls[i]? = some attempt → Answered env i attempt
  /-- All calls of a step but the last were rejected without a blocking question, and the
  last gave the recorded result. -/
  attempts : ∀ r ∈ result.stepResults,
    1 ≤ r.attempts.length ∧ r.attempts.length ≤ maxAttemptsForRequest r.workerRequest ∧
    (∀ attempt ∈ r.attempts.dropLast, attempt.report.accepted = false ∧
      hasBlockingOpenQuestion attempt.result = false) ∧
    ∃ last, r.attempts.getLast? = some last ∧ last.result = r.workerResult ∧
      last.report = r.acceptanceReport
  /-- Every call of a step asks with the inputs of the step. -/
  asked : ∀ r ∈ result.stepResults, ∀ attempt ∈ r.attempts,
    attempt.request.inputArtifacts = r.workerRequest.inputArtifacts
  /-- A step gets its own references merged with what earlier steps finally produced. -/
  inputs : ∀ i r, result.stepResults[i]? = some r →
    r.workerRequest.inputArtifacts = mergeByKey ArtifactRef.id
      (r.step.inputArtifactRefs ++ finalArtifacts (result.stepResults.take i))
  /-- Merged references have distinct ids, each with its last reference. -/
  inputs_unique : ∀ i r, result.stepResults[i]? = some r →
    (r.workerRequest.inputArtifacts.map ArtifactRef.id).Nodup ∧
    ∀ id, (r.workerRequest.inputArtifacts.find? fun a => decide (a.id = id)) =
      (r.step.inputArtifactRefs ++ finalArtifacts (result.stepResults.take i)).reverse.find?
        fun a => decide (a.id = id)

/-- Every execution of a plan returns, and keeps to the discipline. -/
theorem executeWorkflowPlan_disciplined (env : WorkflowEnv ArtifactRef)
    (plan : WorkflowPlan ArtifactRef) : ∃ execution result,
      executeWorkflowPlan (fun ref => some ref.id) env plan = (execution, some result) ∧
        Disciplined env plan execution result := by
  obtain ⟨final, more, hrun, hmore, hsteps, hfinal⟩ := executeSteps_recorded plan
    (orderedSteps plan) (LoopAfter.start ArtifactRef.id env
      (show ((({} : Execution ArtifactRef).write
        (taskJsonPath env.rootDir plan.taskId (js "workflow-plan.json"))).write
          (workflowLogPath env.rootDir)).calls = [] from rfl)) rfl
  rw [nil_append] at hmore
  subst hmore
  have hrecord : ∀ r ∈ final.stepResults, ∃ isLastStep earlier,
      StepRecorded ArtifactRef.id isLastStep earlier r.step r := by
    intro r hr
    obtain ⟨i, hi⟩ := mem_iff_getElem?.mp hr
    obtain ⟨isLastStep, hrecorded⟩ := hsteps.recorded_at hi
    exact ⟨isLastStep, _, hrecorded⟩
  refine ⟨_, _, by rw [executeWorkflowPlan, hrun], ?_⟩
  refine
    { steps_prefix := hsteps.steps_prefix
      sorted := ⟨orderedSteps_perm plan, orderedSteps_pairwise plan,
        fun steps hordered hsub => orderedSteps_stable plan hordered hsub⟩
      continues := hsteps.continues
      synthesizes := fun last hlast => hsteps.synthesizes hlast
      accepted_iff := ?_
      calls_eq := hfinal.calls_eq
      answered := hfinal.answered
      attempts := ?_
      asked := ?_
      inputs := ?_
      inputs_unique := ?_ }
  · rw [hsteps.accepted_iff, (orderedSteps_perm plan).length_eq]
    simp only [WorkflowStepResult.passed, Bool.and_eq_true, Bool.not_eq_true']
  · intro r hr
    obtain ⟨isLastStep, earlier, hrecorded⟩ := hrecord r hr
    obtain ⟨retried, last, hattempts, hresult, hreport, hlength, hretried⟩ := hrecorded.attempts_eq
    rw [hattempts, length_append, length_singleton, dropLast_concat, getLast?_concat]
    refine ⟨by omega, by omega, ?_, last, rfl, hresult, hreport⟩
    intro attempt hattempt
    have hsettles := hretried attempt hattempt
    rwa [Attempt.settles, Bool.or_eq_false_iff] at hsettles
  · intro r hr attempt hattempt
    obtain ⟨isLastStep, earlier, hrecorded⟩ := hrecord r hr
    obtain ⟨context, hrequest⟩ := hrecorded.asked attempt hattempt
    rw [hrequest]
  · intro i r hr
    obtain ⟨isLastStep, hrecorded⟩ := hsteps.recorded_at hr
    exact hrecorded.inputs_eq
  · intro i r hr
    obtain ⟨isLastStep, hrecorded⟩ := hsteps.recorded_at hr
    rw [hrecorded.inputs_eq]
    exact ⟨nodup_keys_mergeByKey _, find?_mergeByKey _⟩

end AcademicAgent.LeadAgent
