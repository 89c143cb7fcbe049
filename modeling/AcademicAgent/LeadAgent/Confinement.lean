import AcademicAgent.LeadAgent.PlanContracts

/-!
# Where an execution writes

The executor writes the plan and the files of the steps below the directory of the task, and
the log of the session directly into the root.
-/

namespace AcademicAgent.LeadAgent

open Json List Option

open Path (Plain Within slash within_join)

variable {profileId : JsString}

theorem isDigit_ne_slash {c : CodeUnit} (h : isDigit c = true) : c ≠ slash := by
  rintro rfl
  exact absurd h (by decide)

theorem slash_notMem_toString (x : Decimal) : slash ∉ x.toString := by
  intro h
  rcases Decimal.mem_toString h with hdigit | hsign
  · exact isDigit_ne_slash hdigit rfl
  · exact absurd hsign (by decide)

theorem stepDirName_plain (order : Decimal) (h : slash ∉ profileId) :
    Plain (stepDirName order profileId) := by
  have hdash : (0x2D : CodeUnit) ∈ stepDirName order profileId := by
    rw [stepDirName, mem_append, mem_append]
    exact .inl (.inr (by decide))
  refine ⟨ne_nil_of_mem hdash, ?_, ?_, ?_⟩
  · intro hdot
    rw [hdot] at hdash
    exact absurd hdash (by decide)
  · intro hdotdot
    rw [hdotdot] at hdash
    exact absurd hdash (by decide)
  · simp only [stepDirName, padStart2, mem_append, not_or]
    refine ⟨⟨⟨?_, slash_notMem_toString order⟩, by decide⟩, h⟩
    intro hzero
    exact absurd (eq_of_mem_replicate hzero) (by decide)

theorem within_ensureTaskDir (rootDir : JsString) {taskId : JsString} (h : Plain taskId) :
    Within rootDir (ensureTaskDir rootDir taskId) := by
  refine within_join rootDir (cons_ne_nil _ _) ?_
  simp only [forall_mem_cons, not_mem_nil, false_implies, implies_true, and_true]
  exact ⟨by decide, h⟩

theorem within_taskJsonPath (rootDir taskId : JsString) {filename : JsString} (h : Plain filename) :
    Within (ensureTaskDir rootDir taskId) (taskJsonPath rootDir taskId filename) := by
  refine within_join _ (cons_ne_nil _ _) ?_
  rw [forall_mem_singleton]
  exact h

theorem within_stepJsonPath (rootDir taskId : JsString) (order : Decimal) {filename : JsString}
    (hprofile : slash ∉ profileId) (h : Plain filename) : Within (ensureTaskDir rootDir taskId)
      (stepJsonPath rootDir taskId order profileId filename) := by
  have hstep : Within (ensureTaskDir rootDir taskId)
      (ensureStepDir rootDir taskId order profileId) := by
    refine within_join _ (cons_ne_nil _ _) ?_
    simp only [forall_mem_cons, not_mem_nil, false_implies, implies_true, and_true]
    exact ⟨by decide, stepDirName_plain order hprofile⟩
  refine hstep.trans (within_join _ (cons_ne_nil _ _) ?_)
  rw [forall_mem_singleton]
  exact h

theorem within_workflowLogPath (rootDir : JsString) : Within rootDir (workflowLogPath rootDir) := by
  refine within_join rootDir (cons_ne_nil _ _) ?_
  rw [forall_mem_singleton]
  decide

section

variable {α κ : Type} [DecidableEq κ] {refId : α → Option κ} {env : WorkflowEnv α}
  {plan : WorkflowPlan α}

theorem runAttempts_writes (request : WorkerRequest α) (maxAttempts left : Nat)
    (previous : Option AcceptanceReport) (start : Execution α) :
    ∀ path ∈ (runAttempts env request maxAttempts left previous start).2.2.writes,
      path ∈ start.writes ∨ path = workflowLogPath env.rootDir := by
  induction left generalizing previous start with
  | zero =>
    intro path hpath
    exact .inl hpath
  | succ left ih =>
    intro path hpath
    rw [runAttempts] at hpath
    split at hpath
    · exact .inl hpath
    · rcases ih _ _ path hpath with hpath | hpath
      · rcases mem_append.mp hpath with hpath | hpath
        · exact .inl hpath
        · exact .inr (mem_singleton.mp hpath)
      · exact .inr hpath

def stepFilenames : List String :=
  ["worker-request.json", "worker-result.json", "artifact-briefs.json", "acceptance-report.json"]

def PlanFile (env : WorkflowEnv α) (plan : WorkflowPlan α) (path : JsString) : Prop :=
  path = workflowLogPath env.rootDir ∨
    path = taskJsonPath env.rootDir plan.taskId (js "workflow-plan.json") ∨
    ∃ step ∈ plan.steps, ∃ filename ∈ stepFilenames, path = stepFile env plan step filename

section

variable (refId : α → Option κ)

theorem executeStep_writes (isLastStep : Bool) {step : WorkflowStep α} (hstep : step ∈ plan.steps)
    {loop : WorkflowLoop α} (h : ∀ path ∈ loop.execution.writes, PlanFile env plan path) :
    ∀ path ∈ (doneBy (executeStep refId env plan isLastStep step loop)).writes,
      PlanFile env plan path := by
  have hfile : ∀ filename ∈ stepFilenames, PlanFile env plan (stepFile env plan step filename) :=
    fun filename hfilename => .inr (.inr ⟨step, hstep, filename, hfilename, rfl⟩)
  have hwrite : ∀ {execution : Execution α} {file : JsString},
      (∀ path ∈ execution.writes, PlanFile env plan path) → PlanFile env plan file →
        ∀ path ∈ (execution.write file).writes, PlanFile env plan path := by
    intro execution file hall hone path hpath
    rcases mem_append.mp hpath with hpath | hpath
    · exact hall path hpath
    · exact mem_singleton.mp hpath ▸ hone
  unfold executeStep
  cases mergeArtifactRefs refId step.inputArtifactRefs loop.carriedArtifacts with
  | none => exact h
  | some inputArtifacts =>
    dsimp only
    generalize workerRequestForStep env plan step inputArtifacts _ = request
    have hran : ∀ path ∈ (runAttempts env request (maxAttemptsForRequest request)
        (maxAttemptsForRequest request - 1) none (loop.execution.write
          (stepFile env plan step "worker-request.json"))).2.2.writes,
        PlanFile env plan path := by
      intro path hpath
      rcases runAttempts_writes _ _ _ _ _ path hpath with hpath | hpath
      · exact hwrite h (hfile _ (by simp [stepFilenames])) path hpath
      · exact .inl hpath
    generalize runAttempts env request _ _ none _ = ran at hran ⊢
    have hall := hwrite (hwrite (hwrite (hwrite hran
      (hfile "worker-result.json" (by simp [stepFilenames])))
      (hfile "artifact-briefs.json" (by simp [stepFilenames])))
      (hfile "acceptance-report.json" (by simp [stepFilenames]))) (.inl rfl)
    cases mergeArtifactRefs refId loop.carriedArtifacts ran.2.1.result.producedArtifacts with
    | none => exact hall
    | some carriedArtifacts => exact hall

theorem executeSteps_writes {steps : List (WorkflowStep α)}
    (hsteps : ∀ step ∈ steps, step ∈ plan.steps) {loop : WorkflowLoop α}
    (h : ∀ path ∈ loop.execution.writes, PlanFile env plan path) :
    ∀ path ∈ (doneBy (executeSteps refId env plan steps loop)).writes, PlanFile env plan path := by
  induction steps generalizing loop with
  | nil => exact h
  | cons step rest ih =>
    have hstep := executeStep_writes refId rest.isEmpty (hsteps step (mem_cons_self ..)) h
    rw [executeSteps]
    cases hresult : executeStep refId env plan rest.isEmpty step loop with
    | error execution =>
      rw [hresult] at hstep
      exact hstep
    | ok next =>
      rw [hresult] at hstep
      dsimp only
      split
      · exact ih (fun s hs => hsteps s (mem_cons_of_mem _ hs)) hstep
      · exact hstep

theorem executeWorkflowPlan_writes (env : WorkflowEnv α) (plan : WorkflowPlan α) :
    ∀ path ∈ (executeWorkflowPlan refId env plan).1.writes, PlanFile env plan path := by
  have hstart : ∀ path ∈ ((({} : Execution α).write
      (taskJsonPath env.rootDir plan.taskId (js "workflow-plan.json"))).write
        (workflowLogPath env.rootDir)).writes, PlanFile env plan path := by
    intro path hpath
    rcases mem_cons.mp hpath with rfl | hpath
    · exact .inr (.inl rfl)
    · exact .inl (mem_singleton.mp hpath)
  have hsteps : ∀ step ∈ orderedSteps plan, step ∈ plan.steps := fun step hstep =>
    (orderedSteps_perm plan).mem_iff.mp hstep
  unfold executeWorkflowPlan
  generalize ((({} : Execution α).write _).write _) = started at hstart ⊢
  have hloop : ∀ path ∈ ({ execution := started } : WorkflowLoop α).execution.writes,
      PlanFile env plan path := hstart
  have hall := executeSteps_writes refId hsteps hloop
  dsimp only
  cases hresult : executeSteps refId env plan (orderedSteps plan) { execution := started } with
  | error execution =>
    rw [hresult] at hall
    exact hall
  | ok loop =>
    rw [hresult] at hall
    intro path hpath
    rcases mem_append.mp hpath with hpath | hpath
    · exact hall path hpath
    · exact .inl (mem_singleton.mp hpath)

end

end

theorem readStep_profileId {step : Tree} {read : WorkflowStep Tree}
    (h : readStep step = some read) : stringField "profileId" step = some read.profileId := by
  simp only [readStep, bind_eq_bind, bind_eq_some_iff] at h
  obtain ⟨_, -, _, -, profileId, hprofileId, _, -, _, -, _, -, _, -, _, -, hread⟩ := h
  cases hread
  exact hprofileId

/-- With a plain task id and profile ids without separators, the execution of a plan that the
validator accepts writes the log of the session and below the directory of its task. -/
theorem executePlanValue_confined {plan : Tree} {context : PlannerValidationContext}
    (hvalid : validateWorkflowPlan plan context = [])
    (htask : ∀ taskId, stringField "taskId" plan = some taskId → Plain taskId)
    (hprofiles : ∀ profile ∈ context.profiles, slash ∉ profile.id) (env : WorkflowEnv Tree) :
    ∀ path ∈ (executePlanValue env plan).1.writes, Within env.rootDir path ∧
        (path = workflowLogPath env.rootDir ∨ ∃ taskId, stringField "taskId" plan = some taskId ∧
            Within (ensureTaskDir env.rootDir taskId) path) := by
  intro path hpath
  obtain ⟨steps, hplan⟩ := validPlan_of_validate hvalid
  rw [executePlanValue] at hpath
  cases hread : readPlan plan with
  | none =>
    rw [hread] at hpath
    cases hpath
  | some read =>
    rw [hread] at hpath
    obtain ⟨htaskId, steps', hsteps', hreads⟩ := readPlan_eq_some hread
    have hroot := within_ensureTaskDir env.rootDir (htask _ htaskId)
    rcases executeWorkflowPlan_writes refIdOf env read path hpath with
      rfl | rfl | ⟨step, hstep, filename, hfilename, rfl⟩
    · exact ⟨within_workflowLogPath env.rootDir, .inl rfl⟩
    · have hwithin := within_taskJsonPath env.rootDir read.taskId
        (by decide : Plain (js "workflow-plan.json"))
      exact ⟨hroot.trans hwithin, .inr ⟨read.taskId, htaskId, hwithin⟩⟩
    · obtain ⟨value, hvalue, hstepRead⟩ := mem_of_mapM hreads step hstep
      have hmem : value ∈ steps := by
        rw [arrayField, hplan.steps_eq] at hsteps'
        cases hsteps'
        exact hvalue
      obtain ⟨profileId, hprofileId, hknown⟩ := (hplan.steps value hmem).profileId
      rw [readStep_profileId hstepRead] at hprofileId
      cases hprofileId
      obtain ⟨profile, hprofile, hid⟩ := mem_map.mp hknown
      have hslash : slash ∉ step.profileId := hid ▸ hprofiles profile hprofile
      have hplain : ∀ filename ∈ stepFilenames, Plain (js filename) := by decide
      have hwithin := within_stepJsonPath env.rootDir read.taskId step.order hslash
        (hplain filename hfilename)
      exact ⟨hroot.trans hwithin, .inr ⟨read.taskId, htaskId, hwithin⟩⟩

/-- A world in which every worker fails and nothing is accepted. -/
def failingEnv (rootDir : JsString) : WorkflowEnv Tree where
  rootDir := rootDir
  profiles := [{ id := js "literature" }]
  constraints := []
  contextMetadata := fun _ _ _ _ => []
  workerRunner := fun _ _ => .error (js "offline")
  createLeadAcceptanceReport := fun _ request _ =>
    { taskId := request.taskId, accepted := false, checkedAt := [], issues := [] }

theorem executePlanValue_confined_literature :
    validateWorkflowPlan literaturePlan { profiles := [{ id := js "literature" }] } = [] ∧
      ∀ path ∈ (executePlanValue (failingEnv (js "/w")) literaturePlan).1.writes,
        Within (js "/w") path ∧ (path = workflowLogPath (js "/w") ∨
            ∃ taskId, stringField "taskId" literaturePlan = some taskId ∧
              Within (ensureTaskDir (js "/w") taskId) path) := by
  have hvalid : validateWorkflowPlan literaturePlan
      { profiles := [{ id := js "literature" }] } = [] := by decide
  have htaskId : stringField "taskId" literaturePlan = some (js "task-1") := by decide
  have htask : ∀ taskId, stringField "taskId" literaturePlan = some taskId → Plain taskId := by
    intro taskId h
    rw [htaskId] at h
    cases h
    decide
  have hprofiles : ∀ profile ∈ [({ id := js "literature" } : WorkerProfile)],
      slash ∉ profile.id := by
    intro profile hprofile
    rw [mem_singleton.mp hprofile]
    decide
  exact ⟨hvalid, executePlanValue_confined hvalid htask hprofiles (failingEnv (js "/w"))⟩

def directPlan : Tree :=
  record [("taskId", some (.str (js "task-1"))), ("mode", some (.str (js "direct"))),
    ("steps", some (.arr [])), ("stopConditions", some (.arr []))]

/-- The log of the session is written outside the directory of the task. -/
theorem executePlanValue_not_confined :
    ¬ ∀ plan context, validateWorkflowPlan plan context = [] → ∀ env : WorkflowEnv Tree,
      ∀ path ∈ (executePlanValue env plan).1.writes, Within env.rootDir path ∧
        ∃ taskId, stringField "taskId" plan = some taskId ∧
          Within (ensureTaskDir env.rootDir taskId) path := by
  intro h
  have hvalid : validateWorkflowPlan directPlan { profiles := [] } = [] := by decide
  have htaskId : stringField "taskId" directPlan = some (js "task-1") := by decide
  have hwritten : workflowLogPath (js "/w") ∈
      (executePlanValue (failingEnv (js "/w")) directPlan).1.writes := by decide +kernel
  obtain ⟨-, taskId, hfield, hwithin⟩ := h _ _ hvalid (failingEnv (js "/w")) _ hwritten
  rw [htaskId] at hfield
  cases hfield
  exact absurd hwithin (by decide)

theorem endsNumeral_dash (s : JsString) : Numeral.EndsNumeral (js "-" ++ s) := by
  rintro c ⟨⟩
  decide

theorem parse_zero_digit {c : CodeUnit} (h : isDigit c = true) (s : JsString) :
    Decimal.parse (0x30 :: c :: s) = none := by
  have hint : Numeral.parseInt (0x30 :: c :: s) = none := by
    simp [Numeral.parseInt, h, show isDigit 0x30 = true by decide]
  rw [Decimal.parse, Numeral.parse, Numeral.parseUnsigned, hint]
  · rfl
  · intro _ hminus; cases hminus

theorem padStart2_ne {x y : Decimal} (hx : x.toString.length < 2) {s t : JsString} :
    0x30 :: (x.toString ++ (js "-" ++ s)) ≠ y.toString ++ (js "-" ++ t) := by
  intro heq
  obtain ⟨c, cs, hstring, hc⟩ := Json.toString_head x
  have hcs : cs = [] := by
    rw [hstring, length_cons] at hx
    exact length_eq_zero_iff.mp (by omega)
  rcases hc with rfl | hdigit
  · have hparse := x.parse_toString (endsNumeral_dash [])
    rw [hstring, hcs] at hparse
    cases hparse
  · have hparse := y.parse_toString (endsNumeral_dash t)
    rw [← heq, hstring, hcs, singleton_append, parse_zero_digit hdigit] at hparse
    cases hparse

theorem stepDirName_inj {order order' : Decimal} {profileId' : JsString} :
    stepDirName order profileId = stepDirName order' profileId' ↔
      order = order' ∧ profileId = profileId' := by
  refine ⟨fun h => ?_, fun ⟨horder, hprofile⟩ => by rw [horder, hprofile]⟩
  have hsame (h : order.toString ++ (js "-" ++ profileId) =
      order'.toString ++ (js "-" ++ profileId')) : order = order' ∧ profileId = profileId' := by
    have hparse := order.parse_toString (endsNumeral_dash profileId)
    rw [h, order'.parse_toString (endsNumeral_dash profileId')] at hparse
    obtain ⟨horder, hrest⟩ := Prod.mk.inj (some.inj hparse)
    exact ⟨horder.symm, (append_cancel_left hrest).symm⟩
  have hpadded (s : JsString) (hs : s ≠ []) :
      padStart2 s = if s.length < 2 then 0x30 :: s else s := by
    have hpos := length_pos_iff.mpr hs
    rw [padStart2]
    split
    · rw [show 2 - s.length = 1 by omega]
      rfl
    · rw [show 2 - s.length = 0 by omega]
      rfl
  have hne (x : Decimal) : x.toString ≠ [] := by
    obtain ⟨c, cs, hstring, -⟩ := Json.toString_head x
    exact hstring ▸ cons_ne_nil c cs
  rw [stepDirName, stepDirName, hpadded _ (hne order), hpadded _ (hne order'), append_assoc,
    append_assoc] at h
  split at h <;> split at h
  · exact hsame (cons.inj h).2
  · rename_i hshort _
    exact absurd h (padStart2_ne hshort)
  · rename_i hshort
    exact absurd h.symm (padStart2_ne hshort)
  · exact hsame h

/-- The steps of a plan as they are given, read as the executor does. -/
def readSteps (plan : Tree) : Option (List (WorkflowStep Tree)) :=
  (arrayField "steps" plan).bind fun steps => steps.mapM readStep

/-- Steps at different positions are written to different directories. -/
def SeparateDirs {α : Type} (rootDir taskId : JsString) (steps : List (WorkflowStep α)) : Prop :=
  steps.Pairwise fun a b =>
    ensureStepDir rootDir taskId a.order a.profileId ≠
      ensureStepDir rootDir taskId b.order b.profileId

/-- No two steps share both their order and their profile. -/
def DistinctTurns {α : Type} (steps : List (WorkflowStep α)) : Prop :=
  steps.Pairwise fun a b => ¬ (a.order = b.order ∧ a.profileId = b.profileId)

theorem ensureStepDir_inj {rootDir taskId : JsString} {order order' : Decimal}
    {profileId' : JsString} (h : slash ∉ profileId) (h' : slash ∉ profileId')
    (heq : ensureStepDir rootDir taskId order profileId = ensureStepDir rootDir taskId order' profileId')
    : order = order' ∧ profileId = profileId' := by
  have hnames {order : Decimal} {profileId : JsString} (h : slash ∉ profileId) :
      ∀ x ∈ [js "steps", stepDirName order profileId], Plain x := by
    simp only [forall_mem_cons, not_mem_nil, false_implies, implies_true, and_true]
    exact ⟨by decide, stepDirName_plain order h⟩
  have hsegments := congrArg Path.segments heq
  rw [ensureStepDir, ensureStepDir, (Path.segments_join _ (cons_ne_nil _ _) (hnames h)).2,
    (Path.segments_join _ (cons_ne_nil _ _) (hnames h')).2] at hsegments
  have hname := cons.inj (cons.inj (append_cancel_left hsegments)).2
  exact stepDirName_inj.mp hname.1

section

variable {plan : Tree} {context : PlannerValidationContext}

theorem exists_readSteps
    (h : validateWorkflowPlan plan context = []) : ∃ steps, readSteps plan = some steps := by
  obtain ⟨steps, hplan⟩ := validPlan_of_validate h
  rw [readSteps, arrayField, hplan.steps_eq, bind_some]
  exact isSome_iff_exists.mp (mapM_isSome fun step hstep =>
    isSome_iff_exists.mpr (hplan.steps step hstep).readStep_isSome)

/-- The steps of an accepted plan are kept apart exactly when none has the order and the
profile of another, unless a profile id has separators. -/
theorem stepDirs_separate (h : validateWorkflowPlan plan context = []) (rootDir taskId : JsString) :
    ∃ steps, readSteps plan = some steps ∧
      (SeparateDirs rootDir taskId steps → DistinctTurns steps) ∧
      ((∀ step ∈ steps, slash ∉ step.profileId) → DistinctTurns steps →
        SeparateDirs rootDir taskId steps) := by
  obtain ⟨steps, hsteps⟩ := exists_readSteps h
  refine ⟨steps, hsteps, fun hapart => ?_, fun hplain hturns => ?_⟩
  · exact hapart.imp fun hne ⟨horder, hprofile⟩ => hne (by rw [horder, hprofile])
  · exact hturns.imp_of_mem fun ha hb hne heq =>
      hne (ensureStepDir_inj (hplain _ ha) (hplain _ hb) heq)

end

def searchStep (id : String) : Tree :=
  record [("id", some (.str (js id))), ("order", some (.num (Decimal.ofInt 1))),
    ("profileId", some (.str (js "literature"))),
    ("objective", some (.str (js "User objective: Review. Step objective: Search."))),
    ("inputArtifactRefs", some (.arr [])), ("expectedArtifactKinds", some (.arr [])),
    ("expectedOutputs", some (.arr [])), ("acceptanceCriteria", some (.arr []))]

def searchPlan (ids : List String) : Tree :=
  record [("mode", some (.str (js "workflow"))), ("steps", some (.arr (ids.map searchStep))),
    ("stopConditions", some (.arr []))]

theorem stepDirs_separate_search : ∃ steps, readSteps (searchPlan ["a"]) = some steps ∧
      (SeparateDirs (js "/w") (js "t") steps → DistinctTurns steps) ∧
      ((∀ step ∈ steps, slash ∉ step.profileId) → DistinctTurns steps →
        SeparateDirs (js "/w") (js "t") steps) :=
  @stepDirs_separate _ { profiles := [{ id := js "literature" }] } (by decide) _ _

/-- Two searches of the same order have one directory. -/
theorem stepDirs_not_separate :
    ¬ ∀ plan context, validateWorkflowPlan plan context = [] → ∀ rootDir taskId steps,
      readSteps plan = some steps → SeparateDirs rootDir taskId steps := by
  intro h
  have hvalid : validateWorkflowPlan (searchPlan ["a", "b"])
      { profiles := [{ id := js "literature" }] } = [] := by decide
  have hturns : (readSteps (searchPlan ["a", "b"])).map
      (·.map fun step => (step.order, step.profileId)) =
        some [(Decimal.ofInt 1, js "literature"), (Decimal.ofInt 1, js "literature")] := by decide
  obtain ⟨steps, hsteps, hread⟩ := Option.map_eq_some_iff.mp hturns
  obtain ⟨a, rest, rfl, ha, hrest⟩ := map_eq_cons_iff.mp hread
  obtain ⟨b, rest, rfl, hb, -⟩ := map_eq_cons_iff.mp hrest
  have hapart := h _ _ hvalid [] [] _ hsteps
  obtain ⟨horder, hprofile⟩ := Prod.mk.inj (ha.trans hb.symm)
  refine (pairwise_cons.mp hapart).1 b mem_cons_self ?_
  rw [horder, hprofile]

end AcademicAgent.LeadAgent
