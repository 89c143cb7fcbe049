import AcademicAgent.Core.Run
import AcademicAgent.LeadAgent.BlockingClarification

/-!
# Aborting runs

Runs of one runtime share its session and are suspended at their calls.
-/

namespace AcademicAgent.LeadAgent

open Json Resumable List

abbrev LeadSuspended :=
  Suspended Branch LeadEffect LeadCall LeadAnswer (Except JsString LeadAgentResult)

/-- A run of the runtime; the caller of an aborted one has been given the `AbortError`. -/
structure LeadTask where
  suspended : LeadSuspended
  aborted : Bool := false

inductive LeadHappening where
  | did (task : Nat) (effect : LeadEffect)
  | called (task : Nat) (call : LeadCall)
  /-- A call reports an event, to the listener of a run. -/
  | reported (task listener : Nat) (event : Tree)
  | aborted (task : Nat)

/-- The session of a runtime, its runs and what happened. -/
structure LeadRuntime where
  session : Branch
  tasks : List LeadTask := []
  history : List LeadHappening := []

inductive LeadRuntimeAction where
  | run (request : LeadAgentTaskRequest)
  | abort
  /-- The call that a run awaits settles. -/
  | answer (task : Nat) (reply : (call : LeadCall) → LeadAnswer call)
  /-- The call that a run awaits reports an event. -/
  | report (task : Nat) (event : Tree)

def LeadCall.reports : LeadCall → Bool
  | .plan _ | .direct _ _ | .worker _ => true
  | .heuristicPlan | .settled => false

/-- The listener of the events of a call: the planner reports to the latest run. -/
def LeadCall.listener (tasks : List LeadTask) (task : Nat) : LeadCall → Nat
  | .plan _ => tasks.length - 1
  | _ => task

def callHappening (task : Nat) : LeadSuspended → List LeadHappening
  | .ended _ => []
  | .awaiting call _ => [.called task call]

namespace LeadRuntime

def proceed (runtime : LeadRuntime) (task : Nat)
    (program : LeadProgram (Except JsString LeadAgentResult)) :
    LeadSuspended × Branch × List LeadHappening :=
  let advanced := program.advance applyLeadEffect runtime.session
  (advanced.1, advanced.2.1, advanced.2.2.map (.did task) ++ callHappening task advanced.1)

def abort (runtime : LeadRuntime) : LeadRuntime :=
  match runtime.tasks.getLast? with
  | some { suspended := .awaiting call next, aborted := false } =>
    { runtime with
      tasks := runtime.tasks.set (runtime.tasks.length - 1)
        { suspended := .awaiting call next, aborted := true }
      history := runtime.history ++ [.aborted (runtime.tasks.length - 1)] }
  | _ => runtime

/-- One step; only a run that awaits a call is answered or reported to. -/
def step (options : LeadAgentRuntimeOptions) (runtime : LeadRuntime) :
    LeadRuntimeAction → Option LeadRuntime
  | .run request =>
    let (suspended, session, happened) :=
      runtime.proceed runtime.tasks.length (runImpl options request)
    some {
      session
      tasks := runtime.tasks ++ [{ suspended }]
      history := runtime.history ++ happened }
  | .abort => some runtime.abort
  | .answer task reply =>
    match runtime.tasks[task]? with
    | some { suspended := .awaiting call next, aborted } =>
      let (suspended, session, happened) := runtime.proceed task (next (reply call))
      some {
        session
        tasks := runtime.tasks.set task { suspended, aborted }
        history := runtime.history ++ happened }
    | _ => none
  | .report task event =>
    match runtime.tasks[task]? with
    | some { suspended := .awaiting call _, .. } =>
      if call.reports then
        some { runtime with
          history := runtime.history ++ [.reported task (call.listener runtime.tasks task) event] }
      else none
    | _ => none

end LeadRuntime

def LeadHappening.task : LeadHappening → Nat
  | .did task _ | .called task _ | .reported task _ _ | .aborted task => task

/-- An effect, an event, or a call of a worker or of the direct runner. -/
def LeadHappening.acts : LeadHappening → Bool
  | .did _ _ | .reported _ _ _ => true
  | .called _ call => call.isWorker || call.isDirect
  | .aborted _ => false

/-- The entry that a happening appends to the session. -/
def LeadHappening.entry : LeadHappening → Option LeadEntry
  | .did _ (.append entry) => some entry
  | _ => none

def LeadHappening.isAbort : LeadHappening → Bool
  | .aborted _ => true
  | _ => false

def entriesOf (history : List LeadHappening) : Branch := history.filterMap (·.entry)

/-- After an abort the run does not act, and the session has what it had and then the
entries of the other runs. -/
def AbortEffective (start : Branch) (runtime : LeadRuntime) : Prop :=
  ∀ task before after, runtime.history = before ++ .aborted task :: after →
    (∀ happening ∈ after, happening.task = task → happening.acts = false) ∧
    runtime.session = start ++ entriesOf before ++ entriesOf (after.filter (·.task ≠ task))

/-- The answers that reject a run: an error of the planner other than of its validation, and
an error of the direct runner. -/
def LeadCall.Rejects : (call : LeadCall) → LeadAnswer call → Prop
  | .plan _, .error (.other _) => True
  | .direct _ _, .error _ => True
  | _, _ => False

/-- The call of an aborted run settles by rejecting it only, and reports no event. -/
def SettlesRejecting (runtime : LeadRuntime) : LeadRuntimeAction → Prop
  | .answer task reply => ∀ call next,
    runtime.tasks[task]? = some { suspended := .awaiting call next, aborted := true } →
      call.Rejects (reply call)
  | .report task _ => ∀ t, runtime.tasks[task]? = some t → t.aborted = false
  | .run _ | .abort => True

section

variable {α : Type} {ends : α → Prop}

theorem quits_emit (event : LeadAgentRunEvent) {ends : Unit → Prop} :
    Quits LeadCall.Rejects ends (emit event) := trivial

theorem quits_append (entry : LeadEntry) {ends : Unit → Prop} :
    Quits LeadCall.Rejects ends (append entry) := trivial

theorem quits_recordLeadEvent (customType : String) (data : List (String × Option Tree))
    {ends : Unit → Prop} : Quits LeadCall.Rejects ends (recordLeadEvent customType data) := trivial

theorem quits_recordLeadAssistantMessage (finalOutput : JsString) {ends : Unit → Prop} :
    Quits LeadCall.Rejects ends (recordLeadAssistantMessage finalOutput) := trivial

theorem quits_awaitSettled {ends : Unit → Prop} : Quits LeadCall.Rejects ends awaitSettled :=
  fun _ => ⟨fun h => h.elim, trivial⟩

theorem quits_awaitHeuristicPlan {ends : Unit → Prop} :
    Quits LeadCall.Rejects ends awaitHeuristicPlan :=
  fun _ => ⟨fun h => h.elim, trivial⟩

theorem quits_askWorker (request : WorkerRequest ArtifactRef)
    {ends : Except JsString (WorkerResult ArtifactRef) → Prop} :
    Quits LeadCall.Rejects ends (askWorker request) :=
  fun _ => ⟨fun h => h.elim, trivial⟩

section

variable (env : WorkflowEnv ArtifactRef)

section

variable (step : WorkflowStep ArtifactRef) (request : WorkerRequest ArtifactRef)

theorem quits_attemptStep (attempt maxAttempts : Nat)
    (previous : Option AcceptanceReport) (call : Nat) {ends : Attempt ArtifactRef → Prop} :
    Quits LeadCall.Rejects ends
      (attemptStep env step request attempt maxAttempts previous call) := by
  refine (quits_emit _).bind_never fun _ => (quits_emit _).bind_never fun _ => ?_
  refine (quits_askWorker _).bind_never fun answer => (quits_emit _).bind_never fun _ => ?_
  refine (quits_effects _).bind_never fun _ => (quits_emit _).bind_never fun _ => ?_
  exact (quits_emit _).bind_never fun _ => quits_pure _

theorem quits_attemptStepUntilSettled (maxAttempts : Nat)
    (left : Nat) (previous : Option AcceptanceReport) (execution : Execution ArtifactRef)
    {ends : List (Attempt ArtifactRef) × Attempt ArtifactRef × Execution ArtifactRef → Prop} :
    Quits LeadCall.Rejects ends
      (attemptStepUntilSettled env step request maxAttempts left previous execution) := by
  induction left generalizing previous execution ends with
  | zero => exact (quits_attemptStep env step request _ _ _ _).bind_never fun _ => quits_pure _
  | succ left ih =>
    refine (quits_attemptStep env step request _ _ _ _).bind_never fun attempt => ?_
    split
    · exact quits_pure _
    · exact (quits_emit _).bind_never fun _ => (ih _ _).bind_never fun _ => quits_pure _

end

theorem quits_performSteps (plan : WorkflowPlan ArtifactRef)
    (steps : List (WorkflowStep ArtifactRef)) (loop : WorkflowLoop ArtifactRef)
    {ends : WorkflowLoop ArtifactRef → Prop} :
    Quits LeadCall.Rejects ends (performSteps env plan steps loop) := by
  induction steps generalizing loop with
  | nil => trivial
  | cons step rest ih =>
    have hstep (ends : WorkflowLoop ArtifactRef → Prop) :
        Quits LeadCall.Rejects ends (performStep env plan rest.isEmpty step loop) :=
      (quits_attemptStepUntilSettled env step _ _ _ _ _).bind_never fun _ =>
        (quits_emit _).bind_never fun _ => quits_pure _
    refine (hstep _).bind_never fun next => ?_
    split
    · exact ih next
    · trivial

end

variable (options : LeadAgentRuntimeOptions) (request : LeadAgentTaskRequest)
  (conversationContext : LeadConversationContext) (decision : LeadAgentDecision)
  (plan : LeadWorkflowPlan)

theorem quits_runWorkflow {ends : Except JsString LeadAgentResult → Prop} :
    Quits LeadCall.Rejects ends
      (runWorkflow options request conversationContext decision plan) := by
  refine (quits_recordLeadEvent _ _).bind_never fun _ => ?_
  have hperform : Quits LeadCall.Rejects (fun _ => False)
      (performWorkflowPlan (workflowEnv options request conversationContext) plan.toWorkflowPlan) :=
    (quits_emit _).bind_never fun _ => (quits_performSteps _ _ _ _).bind_never fun _ =>
      (quits_emit _).bind_never fun _ => quits_pure _
  refine hperform.bind_never fun execution => quits_awaitSettled.bind_never fun _ => ?_
  refine (quits_emit _).bind_never fun _ => (quits_emit _).bind_never fun _ => ?_
  refine (quits_recordLeadAssistantMessage _).bind_never fun _ => ?_
  refine (quits_recordLeadEvent _ _).bind_never fun _ => ?_
  exact (quits_emit _).bind_never fun _ => quits_pure _

def isError {ε α : Type} : Except ε α → Prop
  | .error _ => True
  | .ok _ => False

theorem quits_runDirectly : Quits LeadCall.Rejects isError
      (runDirectly options request conversationContext decision plan) := by
  refine (quits_emit _).bind_never fun _ => ?_
  have hask : Quits LeadCall.Rejects isError (askDirectRunner request conversationContext) := by
    intro answer
    refine ⟨fun hrejects => ?_, trivial⟩
    cases answer with
    | ok finalOutput => exact hrejects.elim
    | error message => exact ⟨_, rfl, trivial⟩
  refine hask.bind (fun answer => ?_) fun answer hanswer => ?_
  · cases answer with
    | error message => exact quits_pure _
    | ok finalOutput =>
      refine quits_awaitSettled.bind_never fun _ => (quits_emit _).bind_never fun _ => ?_
      refine (quits_recordLeadAssistantMessage _).bind_never fun _ => ?_
      refine (quits_recordLeadEvent _ _).bind_never fun _ => ?_
      exact (quits_emit _).bind_never fun _ => quits_pure _
  · cases answer with
    | error message => exact ⟨_, rfl, trivial⟩
    | ok finalOutput => exact hanswer.elim

theorem quits_carryOutPlan : Quits LeadCall.Rejects isError
      (carryOutPlan options request conversationContext decision plan) := by
  unfold carryOutPlan
  split
  · refine (quits_emit _).bind_never fun _ => ?_
    refine (quits_recordLeadAssistantMessage _).bind_never fun _ => ?_
    exact (quits_recordLeadEvent _ _).bind_never fun _ => quits_pure _
  · split
    · exact quits_runDirectly _ _ _ _ _
    · exact quits_runWorkflow _ _ _ _ _

theorem quits_runPlan (planned : LeadWorkflowPlan × LeadAgentPlannerSource × Option JsString) :
    Quits LeadCall.Rejects isError
      (runPlan options request conversationContext decision planned) := by
  have hfollowed : Quits LeadCall.Rejects (fun _ => False)
      (followedPlan options request decision planned.1) := by
    unfold followedPlan
    split
    · exact (quits_recordLeadEvent _ _).bind_never fun _ => quits_pure _
    · exact quits_pure _
  refine hfollowed.bind_never fun plan => (quits_emit _).bind_never fun _ => ?_
  exact (quits_emit _).bind_never fun _ => quits_carryOutPlan _ _ _ _ _

theorem quits_obtainPlan :
    Quits LeadCall.Rejects isError (obtainPlan options request conversationContext) := by
  refine (quits_emit _).bind_never fun _ => ?_
  have hask (input : LeadTaskPlanningInput) : Quits LeadCall.Rejects
      (fun answer => ∃ message, answer = .error (.other message)) (askPlanner input) := by
    intro answer
    refine ⟨fun hrejects => ?_, trivial⟩
    match answer, hrejects with
    | .error (.other message), _ => exact ⟨_, rfl, message, rfl⟩
  refine (hask _).bind (fun answer => ?_) fun answer hanswer => ?_
  · match answer with
    | .ok plan => exact quits_pure _
    | .error (.other message) => exact quits_pure _
    | .error (.validation error) =>
      refine (quits_emit _).bind_never fun _ => (quits_emit _).bind_never fun _ => ?_
      exact quits_awaitHeuristicPlan.bind_never fun _ => quits_pure _
  · obtain ⟨message, rfl⟩ := hanswer
    exact ⟨_, rfl, trivial⟩

theorem quits_runImpl : Quits LeadCall.Rejects isError (runImpl options request) := by
  refine (quits_append _).bind_never fun _ => quits_state.bind_never fun branch => ?_
  refine (quits_recordLeadEvent _ _).bind_never fun _ => ?_
  split
  · exact (quits_emit _).bind_never fun _ => quits_runDirectly _ _ _ _ _
  · refine (quits_obtainPlan _ _ _).bind (fun planned => ?_) fun planned hplanned => ?_
    · cases planned with
      | error message => exact quits_pure _
      | ok planned => exact quits_runPlan _ _ _ _ _
    · cases planned with
      | error message => exact ⟨_, rfl, trivial⟩
      | ok planned => exact hplanned.elim

end

theorem append_eq_split {α : Type} {xs ys before after : List α} {a : α}
    (h : xs ++ ys = before ++ a :: after) : (∃ mid, xs = before ++ a :: mid ∧ after = mid ++ ys) ∨
      ∃ mid, before = xs ++ mid ∧ ys = mid ++ a :: after := by
  rcases append_eq_append_iff.mp h with ⟨mid, hbefore, hys⟩ | ⟨mid, hxs, hafter⟩
  · exact .inr ⟨mid, hbefore, hys⟩
  · cases mid with
    | nil => exact .inr ⟨[], by simpa using hxs.symm, by simpa using hafter.symm⟩
    | cons b mid =>
      rw [cons_append, List.cons.injEq] at hafter
      obtain ⟨rfl, rfl⟩ := hafter
      exact .inl ⟨mid, hxs, rfl⟩

theorem entriesOf_append (xs ys : List LeadHappening) :
    entriesOf (xs ++ ys) = entriesOf xs ++ entriesOf ys :=
  filterMap_append

theorem entriesOf_filter {history : List LeadHappening} {task : Nat}
    (h : ∀ happening ∈ history, happening.task = task → happening.acts = false) :
    entriesOf (history.filter (·.task ≠ task)) = entriesOf history := by
  induction history with
  | nil => rfl
  | cons happening history ih =>
    obtain ⟨hfirst, hrest⟩ := forall_mem_cons.mp h
    by_cases htask : happening.task = task
    · rw [filter_cons_of_neg (by simp [htask]), ih hrest]
      have hacts := hfirst htask
      cases happening with
      | did task effect | reported task listener event => cases hacts
      | called task call => rfl
      | aborted task => rfl
    · rw [filter_cons_of_pos (by simp [htask]), entriesOf, entriesOf, filterMap_cons,
        filterMap_cons]
      have hsame := ih hrest
      rw [entriesOf, entriesOf] at hsame
      rw [hsame]

section

variable (runtime : LeadRuntime) (task : Nat)
  (program : LeadProgram (Except JsString LeadAgentResult))

theorem entriesOf_proceed : (runtime.proceed task program).2.1 =
      runtime.session ++ entriesOf (runtime.proceed task program).2.2 := by
  have hcalls (suspended : LeadSuspended) : entriesOf (callHappening task suspended) = [] := by
    cases suspended with
    | ended result => rfl
    | awaiting call next => rfl
  have hfold (effects : List LeadEffect) (branch : Branch) : effects.foldl applyLeadEffect branch =
        branch ++ entriesOf (effects.map (LeadHappening.did task)) := by
    induction effects generalizing branch with
    | nil => exact (append_nil _).symm
    | cons effect effects ih =>
      rw [foldl_cons, ih, map_cons, entriesOf, entriesOf, filterMap_cons]
      cases effect with
      | append entry =>
        show branch ++ [entry] ++ _ = branch ++ (entry :: _)
        rw [append_assoc]
        rfl
      | emit event => rfl
  rw [LeadRuntime.proceed]
  rw [state_advance, hfold, entriesOf_append, hcalls, append_nil]

theorem proceed_happenings : ∀ happening ∈ (runtime.proceed task program).2.2,
      happening.task = task ∧ happening.isAbort = false := by
  intro happening hmem
  rw [LeadRuntime.proceed] at hmem
  rcases mem_append.mp hmem with hmem | hmem
  · obtain ⟨effect, -, rfl⟩ := mem_map.mp hmem
    exact ⟨rfl, rfl⟩
  · generalize (program.advance applyLeadEffect runtime.session).1 = suspended at hmem
    cases suspended with
    | ended result => cases hmem
    | awaiting call next =>
      rw [mem_singleton.mp hmem]
      exact ⟨rfl, rfl⟩

end

/-- After each abort of a history the run does not act. -/
def Quiet (history : List LeadHappening) : Prop :=
  ∀ task before after, history = before ++ .aborted task :: after →
    ∀ happening ∈ after, happening.task = task → happening.acts = false

theorem Quiet.append {history more : List LeadHappening} (h : Quiet history)
    (hmore : Quiet more) (hothers : ∀ happening ∈ more,
      LeadHappening.aborted happening.task ∈ history → happening.acts = false) :
    Quiet (history ++ more) := by
  intro task before after hsplit happening hmem htask
  rcases append_eq_split hsplit with ⟨mid, hhistory, rfl⟩ | ⟨mid, -, hafter⟩
  · rcases mem_append.mp hmem with hmem | hmem
    · exact h task before mid hhistory happening hmem htask
    · refine hothers happening hmem ?_
      rw [htask, hhistory]
      exact mem_append_right _ mem_cons_self
  · exact hmore task mid after hafter happening hmem htask

theorem quiet_of_no_abort {history : List LeadHappening}
    (h : ∀ happening ∈ history, happening.isAbort = false) : Quiet history := by
  intro task before after hsplit
  have habort := h (.aborted task) (by
    rw [hsplit]
    exact mem_append_right _ mem_cons_self)
  cases habort

/-- The runs of a runtime end at a rejection, the aborted ones are marked, and they have
been quiet since. -/
structure LeadRuntime.Sound (start : Branch) (runtime : LeadRuntime) : Prop where
  session_eq : runtime.session = start ++ entriesOf runtime.history
  quits : ∀ (task : Nat) call next aborted,
    runtime.tasks[task]? = some { suspended := .awaiting call next, aborted } →
      Quits LeadCall.Rejects isError (.await call next)
  marked : ∀ task, .aborted task ∈ runtime.history →
    ∃ t, runtime.tasks[task]? = some t ∧ t.aborted = true
  quiet : Quiet runtime.history

theorem LeadRuntime.Sound.abortEffective {start : Branch} {runtime : LeadRuntime}
    (h : runtime.Sound start) : AbortEffective start runtime := by
  intro task before after hsplit
  have hquiet := h.quiet task before after hsplit
  refine ⟨hquiet, ?_⟩
  have hmark : entriesOf (.aborted task :: after) = entriesOf after := rfl
  rw [h.session_eq, hsplit, entriesOf_append, hmark, entriesOf_filter hquiet, append_assoc]

namespace LeadRuntime.Sound

variable {start : Branch} {runtime : LeadRuntime}

theorem initial (branch : Branch) : LeadRuntime.Sound branch { session := branch } := by
  refine ⟨(append_nil _).symm, fun task call next aborted h => ?_, fun task h => ?_, ?_⟩
  · cases h
  · cases h
  · exact quiet_of_no_abort fun _ h => by cases h

theorem goOn (h : runtime.Sound start) {task : Nat}
    {program : LeadProgram (Except JsString LeadAgentResult)} {tasks : List LeadTask}
    (hprogram : Quits LeadCall.Rejects isError program)
    (htasks : ∀ (i : Nat) (t : LeadTask), tasks[i]? = some t →
      t.suspended = (runtime.proceed task program).1 ∨ runtime.tasks[i]? = some t)
    (hkept : ∀ (i : Nat) (t : LeadTask), runtime.tasks[i]? = some t →
      ∃ t', tasks[i]? = some t' ∧ t'.aborted = t.aborted)
    (hquiet : .aborted task ∈ runtime.history → (runtime.proceed task program).2.2 = []) :
    LeadRuntime.Sound start {
      session := (runtime.proceed task program).2.1
      tasks
      history := runtime.history ++ (runtime.proceed task program).2.2 } := by
  have hhappenings := proceed_happenings runtime task program
  refine ⟨?_, fun i call next aborted hi => ?_, fun i hi => ?_, ?_⟩
  · dsimp only
    rw [entriesOf_proceed, h.session_eq, entriesOf_append, append_assoc]
  · rcases htasks i _ hi with hsuspended | hold
    · exact hprogram.advance runtime.session hsuspended.symm
    · exact h.quits i call next aborted hold
  · have hold : .aborted i ∈ runtime.history := by
      rcases mem_append.mp hi with hi | hi
      · exact hi
      · cases (hhappenings _ hi).2
    obtain ⟨t, ht, habort⟩ := h.marked i hold
    obtain ⟨t', ht', hsame⟩ := hkept i t ht
    exact ⟨t', ht', hsame.trans habort⟩
  · refine h.quiet.append (quiet_of_no_abort fun happening hmem => (hhappenings _ hmem).2) ?_
    intro happening hmem haborted
    rw [(hhappenings happening hmem).1] at haborted
    rw [hquiet haborted] at hmem
    cases hmem

theorem abort (h : runtime.Sound start) : runtime.abort.Sound start := by
  unfold LeadRuntime.abort
  split
  · next call next hlast =>
    have hlength : runtime.tasks.length - 1 < runtime.tasks.length := by
      have hne : runtime.tasks ≠ [] := by
        rintro heq
        rw [heq] at hlast
        cases hlast
      have := length_pos_iff.mpr hne
      omega
    have hat : runtime.tasks[runtime.tasks.length - 1]? =
        some { suspended := .awaiting call next, aborted := false } := by
      rw [← getLast?_eq_getElem?]
      exact hlast
    refine ⟨?_, fun i call' next' aborted hi => ?_, fun i hi => ?_, ?_⟩
    · dsimp only
      rw [entriesOf_append, h.session_eq, ← append_assoc]
      exact (append_nil _).symm
    · dsimp only at hi
      rw [getElem?_set] at hi
      split at hi
      · cases hi
        exact h.quits _ _ _ _ hat
      · exact h.quits i _ _ _ hi
    · by_cases hi' : runtime.tasks.length - 1 = i
      · refine ⟨{ suspended := .awaiting call next, aborted := true }, ?_, rfl⟩
        rw [getElem?_set, if_pos hi', if_pos hlength]
      · rcases mem_append.mp hi with hi | hi
        · obtain ⟨t, ht, habort⟩ := h.marked i hi
          refine ⟨t, ?_, habort⟩
          rw [getElem?_set, if_neg hi']
          exact ht
        · rw [mem_singleton] at hi
          cases hi
          exact absurd rfl hi'
    · refine h.quiet.append ?_ fun happening hmem _ => ?_
      · intro task before after hsplit happening hmem
        obtain ⟨-, hafter⟩ : before = [] ∧ after = [] := by
          cases before with
          | nil => exact ⟨rfl, (List.cons.inj hsplit).2.symm⟩
          | cons b before => simp at hsplit
        rw [hafter] at hmem
        cases hmem
      · rw [mem_singleton.mp hmem]
        rfl
  · exact h

theorem step {options : LeadAgentRuntimeOptions} {action : LeadRuntimeAction}
    {next : LeadRuntime} (h : runtime.Sound start) (hsettles : SettlesRejecting runtime action)
    (hstep : runtime.step options action = some next) : next.Sound start := by
  cases action with
  | run request =>
    cases hstep
    refine h.goOn (quits_runImpl options request) (fun i t hi => ?_) (fun i t hi => ?_)
      fun haborted => ?_
    · rcases mem_append.mp (mem_of_getElem? hi) with hmem | hmem
      · by_cases hlt : i < runtime.tasks.length
        · rw [getElem?_append_left hlt] at hi
          exact .inr hi
        · rw [getElem?_append_right (by omega), getElem?_singleton] at hi
          split at hi
          · cases hi
            exact .inl rfl
          · cases hi
      · rw [mem_singleton.mp hmem]
        exact .inl rfl
    · have hlt := (List.getElem?_eq_some_iff.mp hi).1
      exact ⟨t, by rw [getElem?_append_left hlt]; exact hi, rfl⟩
    · obtain ⟨t, ht, -⟩ := h.marked _ haborted
      rw [getElem?_eq_none (Nat.le_refl _)] at ht
      cases ht
  | abort =>
    cases hstep
    exact h.abort
  | answer task reply =>
    rw [LeadRuntime.step] at hstep
    split at hstep
    · next call rest aborted htask =>
      cases hstep
      have hlt := (List.getElem?_eq_some_iff.mp htask).1
      obtain ⟨hrejects, hrest⟩ := h.quits task call rest aborted htask (reply call)
      refine h.goOn hrest (fun i t hi => ?_) (fun i t hi => ?_) fun haborted => ?_
      · rw [getElem?_set] at hi
        split at hi
        · cases hi
          exact .inl rfl
        · exact .inr hi
      · rw [getElem?_set]
        split
        · next heq =>
          subst heq
          rw [htask] at hi
          cases hi
          exact ⟨_, rfl, rfl⟩
        · exact ⟨t, hi, rfl⟩
      · obtain ⟨t, ht, habort⟩ := h.marked task haborted
        rw [htask] at ht
        cases ht
        cases habort
        obtain ⟨result, hdone, -⟩ := hrejects (hsettles call rest htask)
        rw [LeadRuntime.proceed, hdone]
        rfl
    · cases hstep
  | report task event =>
    rw [LeadRuntime.step] at hstep
    split at hstep
    · next call rest aborted htask =>
      split at hstep
      · cases hstep
        have hquiet : aborted = false := hsettles _ htask
        refine ⟨?_, h.quits, fun i hi => ?_, ?_⟩
        · dsimp only
          rw [entriesOf_append, h.session_eq, ← append_assoc]
          exact (append_nil _).symm
        · refine h.marked i ((mem_append.mp hi).resolve_right fun hmem => ?_)
          cases mem_singleton.mp hmem
        · refine h.quiet.append (quiet_of_no_abort fun happening hmem => ?_) ?_
          · rw [mem_singleton.mp hmem]
            rfl
          · intro happening hmem haborted
            rw [mem_singleton.mp hmem] at haborted
            obtain ⟨t, ht, habort⟩ := h.marked task haborted
            rw [htask] at ht
            cases ht
            rw [hquiet] at habort
            cases habort
      · cases hstep
    · cases hstep

end LeadRuntime.Sound

/-- Aborts are effective in every run of the runtime in which the calls of aborted runs
settle by rejecting only and report no event. -/
theorem abort_effective (options : LeadAgentRuntimeOptions) (start : Branch)
    (actions : List LeadRuntimeAction)
    (hsettles : Along (LeadRuntime.step options) SettlesRejecting { session := start } actions)
    {runtime : LeadRuntime}
    (hrun : run (LeadRuntime.step options) { session := start } actions = some runtime) :
    AbortEffective start runtime :=
  (run_invariant (fun _ _ _ h hsettles hstep => h.step hsettles hstep)
    (LeadRuntime.Sound.initial start) hsettles hrun).abortEffective

def directRequest : LeadAgentTaskRequest where
  objective := js "o"
  dispatchMode := some .direct

def refuse : (call : LeadCall) → LeadAnswer call
  | .plan _ => .error (.other (js "busy"))
  | .direct _ _ => .error (js "busy")
  | .worker _ => .error (js "busy")
  | .heuristicPlan | .settled => ()

def answerDirectly : (call : LeadCall) → LeadAnswer call
  | .plan _ => .error (.other (js "busy"))
  | .direct _ _ => .ok (js "done")
  | .worker _ => .error (js "busy")
  | .heuristicPlan | .settled => ()

/-- A direct run that is refused after its abort. -/
theorem abort_effective_refused : ∃ runtime,
    run (LeadRuntime.step reviewerOptions) { session := [] }
      [.run directRequest, .abort, .answer 0 refuse] = some runtime ∧
    AbortEffective [] runtime := by
  refine ⟨_, rfl, abort_effective reviewerOptions []
    [.run directRequest, .abort, .answer 0 refuse] ?_ rfl⟩
  refine ⟨trivial, fun first hfirst => ⟨trivial, fun second hsecond => ⟨?_, fun _ _ => trivial⟩⟩⟩
  cases hfirst
  cases hsecond
  intro call next htask
  cases htask
  trivial

/-- A direct run that is answered after its abort goes on. -/
theorem abort_not_effective :
    ¬ ∀ (options : LeadAgentRuntimeOptions) (start : Branch) (actions : List LeadRuntimeAction)
      (runtime : LeadRuntime),
      run (LeadRuntime.step options) { session := start } actions = some runtime →
        AbortEffective start runtime := by
  intro h
  let actions : List LeadRuntimeAction :=
    [.run directRequest, .abort, .answer 0 answerDirectly, .answer 0 answerDirectly]
  obtain ⟨runtime, hrun⟩ : ∃ runtime, run (LeadRuntime.step reviewerOptions) { session := [] }
      actions = some runtime := ⟨_, rfl⟩
  have hsplit : runtime.history =
      runtime.history.take 5 ++ .aborted 0 :: runtime.history.drop 6 := by
    cases hrun
    rfl
  have hacts : .did 0 (.emit (.synthesisComplete 4 0 0)) ∈ runtime.history.drop 6 := by
    cases hrun
    exact mem_cons_of_mem _ mem_cons_self
  cases (h reviewerOptions [] actions runtime hrun 0 _ _ hsplit).1 _ hacts rfl

end AcademicAgent.LeadAgent
