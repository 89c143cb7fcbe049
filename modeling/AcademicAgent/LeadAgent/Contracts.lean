import AcademicAgent.Core.Json.Value
import AcademicAgent.Core.JsMap

/-!
# Contracts of the agents

The values that lead agent and workers exchange, and the guards that accept an unknown value as
one of them.
-/

namespace AcademicAgent.LeadAgent

open Json List

open Json.Tree (arr obj str)

/-- `value[key]`. -/
def field (key : String) : Tree → Option Tree
  | .obj ms => assocGet (js key) ms
  | _ => none

/-- A record with those of the given members that are defined. -/
def record (members : List (String × Option Tree)) : Tree :=
  .obj (members.filterMap fun m => m.2.map fun value => (js m.1, value))

def isRecord : Tree → Bool
  | .obj _ => true
  | _ => false

/-- `typeof value === "string"`. -/
def isString : Tree → Bool
  | .str _ => true
  | _ => false

/-- `typeof value === "number"`. -/
def isNumber : Tree → Bool
  | .num _ => true
  | _ => false

/-- `typeof value === "boolean"`. -/
def isBoolean : Tree → Bool
  | .bool _ => true
  | _ => false

def isArrayOf (guard : Tree → Bool) : Tree → Bool
  | .arr xs => xs.all guard
  | _ => false

def isStringArray : Tree → Bool := isArrayOf isString

def isJsonObject : Tree → Bool := isRecord

section

variable (guard : Tree → Bool) (key : String) (value : Tree)

def has : Bool :=
  (field key value).any guard

def hasOptional : Bool :=
  (field key value).all guard

end

def hasOptionalString : String → Tree → Bool := hasOptional isString

def hasOptionalJsonObject : String → Tree → Bool := hasOptional isJsonObject

def isArtifactRef (value : Tree) : Bool :=
  isRecord value && has isString "id" value && has isString "kind" value &&
    has isString "uri" value && hasOptionalString "title" value &&
    hasOptionalString "mediaType" value && hasOptionalString "version" value &&
    hasOptionalJsonObject "metadata" value

def isArtifactRefArray : Tree → Bool := isArrayOf isArtifactRef

section

variable (value : Tree)

def isArtifactManifest : Bool :=
  isRecord value && has isString "id" value && has isArtifactRefArray "artifacts" value &&
    has isString "createdAt" value && hasOptionalString "updatedAt" value &&
    hasOptionalJsonObject "metadata" value

def isWorkerBudget : Bool :=
  isRecord value && hasOptional isNumber "maxTurns" value &&
    hasOptional isNumber "timeoutMs" value && hasOptional isNumber "maxToolCalls" value

def isWorkflowClarification : Bool :=
  isRecord value && has isString "question" value && has isString "reason" value &&
    has isBoolean "blocksExecution" value

def isWorkflowStep : Bool :=
  isRecord value && has isString "id" value && has isNumber "order" value &&
    has isString "profileId" value && has isString "objective" value &&
    has isArtifactRefArray "inputArtifactRefs" value &&
    has isStringArray "expectedArtifactKinds" value &&
    has isStringArray "expectedOutputs" value &&
    has isStringArray "acceptanceCriteria" value && hasOptional isWorkerBudget "budget" value

/-- `value === "direct" || value === "workflow"`. -/
def isWorkflowPlanMode : Bool :=
  value == .str (js "direct") || value == .str (js "workflow")

def isWorkflowPlan : Bool :=
  isRecord value && has isString "taskId" value && has isString "sessionId" value &&
    has isString "objective" value && has isString "rationale" value &&
    has isString "userVisibleSummary" value && has isWorkflowPlanMode "mode" value &&
    has (isArrayOf isWorkflowStep) "steps" value && has isStringArray "stopConditions" value &&
    hasOptional isWorkflowClarification "requiresClarification" value

end

abbrev JsonObject := List (JsString × Tree)

structure ArtifactRef where
  id : JsString
  kind : JsString
  uri : JsString
  title : Option JsString := none
  mediaType : Option JsString := none
  version : Option JsString := none
  metadata : Option JsonObject := none
  deriving DecidableEq

def ArtifactRef.members (ref : ArtifactRef) : List (String × Option Tree) :=
  [("id", some (.str ref.id)), ("kind", some (.str ref.kind)),
    ("uri", some (.str ref.uri)), ("title", ref.title.map .str),
    ("mediaType", ref.mediaType.map .str), ("version", ref.version.map .str),
    ("metadata", ref.metadata.map .obj)]

def ArtifactRef.toTree (ref : ArtifactRef) : Tree := record ref.members

/-- A manifest; its id is undefined when the store that made it has none. -/
structure ArtifactManifest where
  id : Option JsString
  artifacts : List ArtifactRef
  createdAt : JsString
  updatedAt : Option JsString := none
  deriving DecidableEq

def ArtifactManifest.members (manifest : ArtifactManifest) : List (String × Option Tree) :=
  [("id", manifest.id.map .str), ("createdAt", some (.str manifest.createdAt)),
    ("updatedAt", manifest.updatedAt.map .str),
    ("artifacts", some (.arr (manifest.artifacts.map ArtifactRef.toTree)))]

def ArtifactManifest.toTree (manifest : ArtifactManifest) : Tree := record manifest.members

theorem field_record_absent {members : List (String × Option Tree)} {key : String}
    (hkey : js key ∉ members.map fun m => js m.1) : field key (record members) = none := by
  induction members with
  | nil => rfl
  | cons m members ih =>
    obtain ⟨name, value⟩ := m
    rw [map_cons, mem_cons, not_or] at hkey
    have hrest := ih hkey.2
    simp only [field, record] at hrest ⊢
    cases value with
    | some value =>
      rw [filterMap_cons_some (by rfl), assocGet, if_neg fun h => hkey.1 h.symm]
      exact hrest
    | none =>
      rw [filterMap_cons_none (by rfl)]
      exact hrest

section

variable {members : List (String × Option Tree)} (hkeys : (members.map fun m => js m.1).Nodup)
  {key : String} {value : Option Tree} (hmem : (key, value) ∈ members)
include hkeys hmem

theorem field_record : field key (record members) = value := by
  induction members with
  | nil => cases hmem
  | cons m members ih =>
    rw [map_cons, nodup_cons] at hkeys
    rcases mem_cons.mp hmem with rfl | hmem
    · cases value with
      | some value =>
        simp only [field, record]
        rw [filterMap_cons_some (by rfl), assocGet, if_pos rfl]
      | none =>
        have habsent := field_record_absent hkeys.1
        simp only [field, record] at habsent ⊢
        rw [filterMap_cons_none (by rfl)]
        exact habsent
    · have hrest := ih hkeys.2 hmem
      have hne : js m.1 ≠ js key := by
        intro heq
        exact hkeys.1 (heq ▸ mem_map_of_mem hmem)
      obtain ⟨name, other⟩ := m
      simp only [field, record] at hrest ⊢
      cases other with
      | some other =>
        rw [filterMap_cons_some (by rfl), assocGet, if_neg hne]
        exact hrest
      | none =>
        rw [filterMap_cons_none (by rfl)]
        exact hrest

theorem has_record (guard : Tree → Bool) : has guard key (record members) = value.any guard := by
  rw [has, field_record hkeys hmem]

theorem hasOptional_record (guard : Tree → Bool) :
    hasOptional guard key (record members) = value.all guard := by
  rw [hasOptional, field_record hkeys hmem]

end

theorem all_map_str (s : Option JsString) : (s.map str).all isString = true := by
  cases s <;> rfl

theorem any_map_str (s : Option JsString) : (s.map str).any isString = s.isSome := by
  cases s <;> rfl

theorem all_map_obj (o : Option JsonObject) : (o.map obj).all isJsonObject = true := by
  cases o <;> rfl

theorem ArtifactRef.nodup_keys (ref : ArtifactRef) : (ref.members.map fun m => js m.1).Nodup := by
  have h : (["id", "kind", "uri", "title", "mediaType", "version", "metadata"].map js).Nodup := by
    decide
  exact h

theorem isArtifactRef_toTree (ref : ArtifactRef) : isArtifactRef ref.toTree = true := by
  have hmember : ∀ {key value}, (key, value) ∈ ref.members → ∀ guard,
      has guard key ref.toTree = value.any guard := has_record ref.nodup_keys
  have hoptional : ∀ {key value}, (key, value) ∈ ref.members → ∀ guard,
      hasOptional guard key ref.toTree = value.all guard := hasOptional_record ref.nodup_keys
  have hid : ("id", some (str ref.id)) ∈ ref.members := by simp [ArtifactRef.members]
  have hkind : ("kind", some (str ref.kind)) ∈ ref.members := by simp [ArtifactRef.members]
  have huri : ("uri", some (str ref.uri)) ∈ ref.members := by simp [ArtifactRef.members]
  have htitle : ("title", ref.title.map str) ∈ ref.members := by simp [ArtifactRef.members]
  have hmediaType : ("mediaType", ref.mediaType.map str) ∈ ref.members := by
    simp [ArtifactRef.members]
  have hversion : ("version", ref.version.map str) ∈ ref.members := by
    simp [ArtifactRef.members]
  have hmetadata : ("metadata", ref.metadata.map obj) ∈ ref.members := by
    simp [ArtifactRef.members]
  rw [isArtifactRef, hmember hid, hmember hkind, hmember huri, hasOptionalString,
    hasOptionalJsonObject, hoptional htitle, hoptional hmediaType, hoptional hversion,
    hoptional hmetadata, all_map_str, all_map_str, all_map_str, all_map_obj]
  rfl

theorem ArtifactManifest.nodup_keys (manifest : ArtifactManifest) :
    (manifest.members.map fun m => js m.1).Nodup := by
  have h : (["id", "createdAt", "updatedAt", "artifacts"].map js).Nodup := by decide
  exact h

theorem isArtifactManifest_toTree (manifest : ArtifactManifest) :
    isArtifactManifest manifest.toTree = manifest.id.isSome := by
  have hmember : ∀ {key value}, (key, value) ∈ manifest.members → ∀ guard,
      has guard key manifest.toTree = value.any guard := has_record manifest.nodup_keys
  have hoptional : ∀ {key value}, (key, value) ∈ manifest.members → ∀ guard,
      hasOptional guard key manifest.toTree = value.all guard :=
    hasOptional_record manifest.nodup_keys
  have hid : ("id", manifest.id.map str) ∈ manifest.members := by
    simp [ArtifactManifest.members]
  have hcreatedAt : ("createdAt", some (str manifest.createdAt)) ∈ manifest.members := by
    simp [ArtifactManifest.members]
  have hupdatedAt : ("updatedAt", manifest.updatedAt.map str) ∈ manifest.members := by
    simp [ArtifactManifest.members]
  have hartifacts : ("artifacts", some (arr (manifest.artifacts.map ArtifactRef.toTree))) ∈
      manifest.members := by
    simp [ArtifactManifest.members]
  have hrefs : (some (arr (manifest.artifacts.map ArtifactRef.toTree))).any
      isArtifactRefArray = true := by
    show (manifest.artifacts.map ArtifactRef.toTree).all isArtifactRef = true
    rw [all_map, all_eq_true]
    intro ref _
    exact isArtifactRef_toTree ref
  have hmetadata : hasOptional isJsonObject "metadata" manifest.toTree = true := by
    have habsent : js "metadata" ∉ ["id", "createdAt", "updatedAt", "artifacts"].map js := by
      decide
    have hnone : field "metadata" manifest.toTree = none := field_record_absent habsent
    rw [hasOptional, hnone]
    rfl
  have hstring : (some (str manifest.createdAt)).any isString = true := rfl
  have hrecord : isRecord manifest.toTree = true := rfl
  rw [isArtifactManifest, hrecord, hmember hid, hmember hartifacts, hmember hcreatedAt,
    hasOptionalString, hasOptionalJsonObject, hoptional hupdatedAt,
    hmetadata, hrefs, hstring, any_map_str, all_map_str]
  simp only [Bool.true_and, Bool.and_true]

end AcademicAgent.LeadAgent
