import AcademicAgent.Core.Json.Text
import AcademicAgent.Core.Occurrence
import AcademicAgent.LeadAgent.Executor

/-!
# Validation of workflow plans

A plan comes as any JSON value.
-/

namespace AcademicAgent.LeadAgent

open Json List Option

mutual

/-- A value inside a template literal, an element of an array that is null being empty. -/
def elementText : Tree → JsString
  | .null => []
  | .bool b => if b then js "true" else js "false"
  | .num n => n.toString
  | .str s => s
  | .arr [] => []
  | .arr (x :: xs) => elementText x ++ elementTexts xs
  | .obj _ => js "[object Object]"

def elementTexts : List Tree → JsString
  | [] => []
  | x :: xs => js "," ++ elementText x ++ elementTexts xs

end

def textOf : Tree → JsString
  | .null => js "null"
  | value => elementText value

/-- A value that may be undefined in a template literal. -/
def optionText (print : Tree → JsString) : Option Tree → JsString
  | none => js "undefined"
  | some value => print value

structure WorkflowTemplateStep where
  profileId : JsString
  expectedArtifactKinds : List JsString

structure WorkflowTemplate where
  steps : List WorkflowTemplateStep

structure PlannerValidationContext where
  profiles : List WorkerProfile
  templates : List WorkflowTemplate := []
  inputArtifacts : List ArtifactRef := []
  availableArtifactRefs : Option (List ArtifactRef) := none

/-- The kinds that templates name for a profile, unless they name none. -/
def templateArtifactKindsForProfile (context : PlannerValidationContext)
    (profileId : JsString) : Option (List JsString) :=
  let kinds := context.templates.flatMap fun template =>
    template.steps.flatMap fun step =>
      if step.profileId ≠ profileId then [] else step.expectedArtifactKinds
  if kinds = [] then none else some kinds

section

variable (key : String) (value : Tree)

def stringField : Option JsString :=
  match field key value with
  | some (.str s) => some s
  | _ => none

def numberField : Option Decimal :=
  match field key value with
  | some (.num n) => some n
  | _ => none

def arrayField : Option (List Tree) :=
  match field key value with
  | some (.arr xs) => some xs
  | _ => none

end

def stringOf : Tree → Option JsString
  | .str s => some s
  | _ => none

def stringsField (key : String) (value : Tree) : Option (List JsString) :=
  (arrayField key value).bind fun xs => xs.mapM stringOf

/-- `Step ${stepId}: ${message}`. -/
def stepMessage (stepId message : JsString) : JsString :=
  js "Step " ++ stepId ++ js ": " ++ message

def stepLabel (step : Tree) : JsString := (stringField "id" step).getD (js "<unknown>")

def idErrors (stepIds : List JsString) (step : Tree) : List JsString :=
  match stringField "id" step with
  | none => [js "Step missing string id"]
  | some id => if id ∈ stepIds then [js "Duplicate workflow step id: " ++ id] else []

section

variable (context : PlannerValidationContext)

section

variable (step : Tree)

def profileIdErrors : List JsString :=
  match stringField "profileId" step with
  | none => [stepMessage (stepLabel step) (js "missing string profileId")]
  | some profileId =>
    if profileId ∈ context.profiles.map (·.id) then []
    else [js "Unknown workflow step profileId: " ++ profileId]

def orderErrors : List JsString :=
  let error := js "Workflow step " ++ stepLabel step ++ js " has invalid order " ++
    optionText textOf (field "order" step)
  match numberField "order" step with
  | none => [error]
  | some order => if order.lt (Decimal.ofInt 1) then [error] else []

def sectionErrors (stepId objective : JsString) (heading : String) : List JsString :=
  if (indexOf? (js heading) objective).isSome then []
  else [stepMessage stepId (js "objective missing \"" ++ js heading ++ js "\" section")]

def objectiveErrors : List JsString :=
  let stepId := stepLabel step
  match stringField "objective" step with
  | none => [stepMessage stepId (js "objective must be a string")]
  | some objective =>
    sectionErrors stepId objective "User objective:" ++
      sectionErrors stepId objective "Step objective:" ++
      match indexOf? (js "Step objective:") objective with
      | none => []
      | some start =>
        if trim (objective.drop (start + (js "Step objective:").length)) = [] then
          [stepMessage stepId (js "\"Step objective:\" section is empty or truncated")]
        else []

def inputArtifactRefErrors : List JsString :=
  let availableArtifacts := context.availableArtifactRefs.getD context.inputArtifacts
  match arrayField "inputArtifactRefs" step with
  | none => [stepMessage (stepLabel step) (js "inputArtifactRefs must be an array")]
  | some refs => refs.flatMap fun ref =>
    match stringField "id" ref with
    | none => []
    | some id =>
      if id ∈ availableArtifacts.map (·.id) then []
      else [stepMessage (stepLabel step)
        (js "inputArtifactRefs references unknown artifact id: " ++ id)]

def artifactKindErrors : List JsString :=
  match stringsField "expectedArtifactKinds" step with
  | none => [stepMessage (stepLabel step) (js "expectedArtifactKinds must be an array of strings")]
  | some kinds =>
    match stringField "profileId" step with
    | none => []
    | some profileId =>
      match templateArtifactKindsForProfile context profileId with
      | none => []
      | some allowed => kinds.flatMap fun kind =>
        if kind ∈ allowed then []
        else [stepMessage (stepLabel step) (js "expectedArtifactKind " ++ kind ++
          js " is not compatible with profile " ++ profileId)]

end

def stringArrayErrors (key : String) (step : Tree) : List JsString :=
  match stringsField key step with
  | none => [stepMessage (stepLabel step) (js key ++ js " must be an array of strings")]
  | some _ => []

/-- What is wrong with a step after steps with the given ids. -/
def stepErrors (stepIds : List JsString) (step : Tree) : List JsString :=
  if isRecord step then
    idErrors stepIds step ++ profileIdErrors context step ++ orderErrors step ++
      objectiveErrors step ++ inputArtifactRefErrors context step ++
      artifactKindErrors context step ++ stringArrayErrors "expectedOutputs" step ++
      stringArrayErrors "acceptanceCriteria" step
  else [js "Each step must be a non-null object"]

end

def stepsErrors (context : PlannerValidationContext) : List JsString → List Tree → List JsString
  | _, [] => []
  | stepIds, step :: steps =>
    stepErrors context stepIds step ++
      stepsErrors context ((stringField "id" step).toList ++ stepIds) steps

def validateWorkflowPlan (plan : Tree) (context : PlannerValidationContext) : List JsString :=
  if !isRecord plan then [js "Plan must be a non-null object"]
  else if !has isWorkflowPlanMode "mode" plan then
    [js "Plan mode must be \"direct\" or \"workflow\", got " ++
      optionText Tree.print (field "mode" plan)]
  else
    match arrayField "steps" plan with
    | none => [js "Plan steps must be an array"]
    | some steps =>
      (if has isStringArray "stopConditions" plan then []
        else [js "Plan stopConditions must be an array of strings"]) ++
      (if field "mode" plan = some (.str (js "direct")) ∧ steps ≠ [] then
        [js "Direct workflow plans must not contain worker steps"] else []) ++
      (if field "mode" plan = some (.str (js "workflow")) ∧ steps = [] then
        [js "Workflow plans must contain at least one step"] else []) ++
      stepsErrors context [] steps

section

variable (key : String) (value : Tree)

theorem isSome_stringField : (stringField key value).isSome = has isString key value := by
  unfold stringField has
  cases field key value with
  | none => rfl
  | some t => cases t <;> rfl

theorem isSome_numberField : (numberField key value).isSome = has isNumber key value := by
  unfold numberField has
  cases field key value with
  | none => rfl
  | some t => cases t <;> rfl

theorem mapM_stringOf_isSome (xs : List Tree) : (xs.mapM stringOf).isSome = xs.all isString := by
  induction xs with
  | nil => rfl
  | cons x xs ih =>
    rw [mapM_cons, all_cons, ← ih]
    cases x with
    | str s =>
      cases hxs : xs.mapM stringOf with
      | none => rfl
      | some ys => rfl
    | _ => rfl

theorem isSome_stringsField : (stringsField key value).isSome = has isStringArray key value := by
  unfold stringsField arrayField has
  cases field key value with
  | none => rfl
  | some t =>
    cases t with
    | arr xs => exact mapM_stringOf_isSome xs
    | _ => rfl

end

structure ValidStep (context : PlannerValidationContext) (step : Tree) : Prop where
  record : isRecord step = true
  id : has isString "id" step = true
  profileId : ∃ profileId, stringField "profileId" step = some profileId ∧
    profileId ∈ context.profiles.map (·.id)
  order : has isNumber "order" step = true
  objective : has isString "objective" step = true
  inputArtifactRefs : ∃ refs, arrayField "inputArtifactRefs" step = some refs
  expectedArtifactKinds : has isStringArray "expectedArtifactKinds" step = true
  expectedOutputs : has isStringArray "expectedOutputs" step = true
  acceptanceCriteria : has isStringArray "acceptanceCriteria" step = true

theorem stringArrayErrors_eq_nil {key : String} {step : Tree}
    (h : stringArrayErrors key step = []) : has isStringArray key step = true := by
  rw [← isSome_stringsField]
  unfold stringArrayErrors at h
  split at h
  · cases h
  · rename_i hstrings
    rw [hstrings]
    rfl

section

variable {context : PlannerValidationContext} {stepIds : List JsString}

theorem validStep_of_stepErrors
    {step : Tree} (h : stepErrors context stepIds step = []) : ValidStep context step := by
  unfold stepErrors at h
  split at h
  · rename_i hrecord
    simp only [append_eq_nil_iff] at h
    obtain ⟨⟨⟨⟨⟨⟨⟨hid, hprofile⟩, horder⟩, hobjective⟩, hrefs⟩, hkinds⟩, houtputs⟩, hcriteria⟩ := h
    refine ⟨hrecord, ?_, ?_, ?_, ?_, ?_, ?_, stringArrayErrors_eq_nil houtputs,
      stringArrayErrors_eq_nil hcriteria⟩
    · rw [← isSome_stringField]
      unfold idErrors at hid
      split at hid
      · cases hid
      · rename_i id hsome
        rw [hsome]
        rfl
    · unfold profileIdErrors at hprofile
      split at hprofile
      · cases hprofile
      · rename_i profileId hsome
        split at hprofile
        · rename_i hmem
          exact ⟨profileId, hsome, hmem⟩
        · cases hprofile
    · rw [← isSome_numberField]
      unfold orderErrors at horder
      split at horder
      · cases horder
      · rename_i order hsome
        rw [hsome]
        rfl
    · rw [← isSome_stringField]
      unfold objectiveErrors at hobjective
      split at hobjective
      · cases hobjective
      · rename_i objective hsome
        rw [hsome]
        rfl
    · unfold inputArtifactRefErrors at hrefs
      split at hrefs
      · cases hrefs
      · rename_i refs hsome
        exact ⟨refs, hsome⟩
    · rw [← isSome_stringsField]
      unfold artifactKindErrors at hkinds
      split at hkinds
      · cases hkinds
      · rename_i kinds hsome
        rw [hsome]
        rfl
  · cases h

theorem validStep_of_stepsErrors {steps : List Tree} (h : stepsErrors context stepIds steps = []) :
    ∀ step ∈ steps, ValidStep context step := by
  induction steps generalizing stepIds with
  | nil =>
    intro step hstep
    cases hstep
  | cons first steps ih =>
    rw [stepsErrors, append_eq_nil_iff] at h
    intro step hstep
    rcases mem_cons.mp hstep with rfl | hstep
    · exact validStep_of_stepErrors h.1
    · exact ih h.2 step hstep

end

structure ValidPlan (context : PlannerValidationContext) (plan : Tree) (steps : List Tree) :
    Prop where
  record : isRecord plan = true
  mode : has isWorkflowPlanMode "mode" plan = true
  steps_eq : field "steps" plan = some (.arr steps)
  steps : ∀ step ∈ steps, ValidStep context step
  stopConditions : has isStringArray "stopConditions" plan = true

theorem arrayField_eq_some {key : String} {value : Tree} {xs : List Tree}
    (h : arrayField key value = some xs) : field key value = some (.arr xs) := by
  unfold arrayField at h
  split at h
  · rename_i hfield
    cases h
    exact hfield
  · cases h

theorem validPlan_of_validate {plan : Tree} {context : PlannerValidationContext}
    (h : validateWorkflowPlan plan context = []) : ∃ steps, ValidPlan context plan steps := by
  unfold validateWorkflowPlan at h
  split at h
  · cases h
  · rename_i hrecord
    split at h
    · cases h
    · rename_i hmode
      split at h
      · cases h
      · rename_i steps hsteps
        simp only [append_eq_nil_iff] at h
        refine ⟨steps, by simpa using hrecord, by simpa using hmode, arrayField_eq_some hsteps,
          validStep_of_stepsErrors h.2, ?_⟩
        by_contra hstop
        rw [if_neg hstop] at h
        cases h.1.1.1

def readStep (step : Tree) : Option (WorkflowStep Tree) := do
  let id ← stringField "id" step
  let order ← numberField "order" step
  let profileId ← stringField "profileId" step
  let objective ← stringField "objective" step
  let inputArtifactRefs ← arrayField "inputArtifactRefs" step
  let expectedArtifactKinds ← stringsField "expectedArtifactKinds" step
  let expectedOutputs ← stringsField "expectedOutputs" step
  let acceptanceCriteria ← stringsField "acceptanceCriteria" step
  some {
    id, order, profileId, objective, inputArtifactRefs, expectedArtifactKinds
    expectedOutputs, acceptanceCriteria
    budget := field "budget" step }

/-- A plan as the executor reads it; a task id that is no string is refused as a part of
a path before anything is written. -/
def readPlan (plan : Tree) : Option (WorkflowPlan Tree) := do
  let taskId ← stringField "taskId" plan
  let steps ← arrayField "steps" plan
  let steps ← steps.mapM readStep
  some { taskId, sessionId := field "sessionId" plan, steps }

/-- The id of a reference as it came, which may be undefined; reading one of null throws. -/
def refIdOf : Tree → Option (Option Tree)
  | .null => none
  | ref => some (field "id" ref)

/-- What the execution of a plan as it came has done, and its result unless it throws. -/
def executePlanValue (env : WorkflowEnv Tree) (plan : Tree) :
    Execution Tree × Option (WorkflowExecutionResult Tree) :=
  match readPlan plan with
  | none => ({}, none)
  | some plan => executeWorkflowPlan refIdOf env plan

theorem ValidStep.readStep_isSome {context : PlannerValidationContext} {step : Tree}
    (h : ValidStep context step) : ∃ read, readStep step = some read := by
  obtain ⟨id, hid⟩ := isSome_iff_exists.mp ((isSome_stringField ..).trans h.id)
  obtain ⟨order, horder⟩ := isSome_iff_exists.mp ((isSome_numberField ..).trans h.order)
  obtain ⟨profileId, hprofileId, -⟩ := h.profileId
  obtain ⟨objective, hobjective⟩ :=
    isSome_iff_exists.mp ((isSome_stringField ..).trans h.objective)
  obtain ⟨refs, hrefs⟩ := h.inputArtifactRefs
  obtain ⟨kinds, hkinds⟩ :=
    isSome_iff_exists.mp ((isSome_stringsField ..).trans h.expectedArtifactKinds)
  obtain ⟨outputs, houtputs⟩ :=
    isSome_iff_exists.mp ((isSome_stringsField ..).trans h.expectedOutputs)
  obtain ⟨criteria, hcriteria⟩ :=
    isSome_iff_exists.mp ((isSome_stringsField ..).trans h.acceptanceCriteria)
  rw [← isSome_iff_exists]
  simp only [readStep, hid, horder, hprofileId, hobjective, hrefs, hkinds, houtputs, hcriteria]
  rfl

end AcademicAgent.LeadAgent
