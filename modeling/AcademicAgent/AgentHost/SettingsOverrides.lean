import AcademicAgent.AgentHost.SettingsSetters

/-!
# Merging the layers of the settings

`deepMergeSettings` merges the fields of two settings objects, and the members of a field that
is an object in both.
-/

namespace AcademicAgent

namespace SettingsManager

open Json List

variable {key field : JsString} {changed : ScopeSettings} {path : Path}

/-- A value in memory, where the value of a property can be undefined. -/
inductive SettingValue where
  | undefined
  | null
  | bool (b : Bool)
  | num (n : Decimal)
  | str (s : JsString)
  | arr (xs : List SettingValue)
  | obj (ms : List (JsString × SettingValue))

abbrev Properties := List (JsString × SettingValue)

/-- `Object.keys(value)`. -/
def ownKeys (ms : Properties) : List JsString := ms.map Prod.fst

/-- `value[key]`. -/
def readMember (key : JsString) (ms : Properties) : SettingValue :=
  (assocGet key ms).getD .undefined

/-- `{ ...baseValue, ...overrideValue }`: an own property replaces one also when it is
undefined. -/
def spread (baseValue overrideValue : Properties) : Properties :=
  (ownKeys overrideValue).foldl (fun result key =>
    setMember key (readMember key overrideValue) result) baseValue

/-- What an override that is defined makes of the value of a field. -/
def mergeValue (baseValue overrideValue : SettingValue) : SettingValue :=
  match overrideValue, baseValue with
  | .obj overrideMembers, .obj baseMembers => .obj (spread baseMembers overrideMembers)
  | overrideValue, _ => overrideValue

/-- `deepMergeSettings(base, overrides)`. -/
def deepMergeSettings (base overrides : Properties) : Properties :=
  (ownKeys overrides).foldl (fun result key =>
    match readMember key overrides with
    | .undefined => result
    | overrideValue =>
      setMember key (mergeValue (readMember key base) overrideValue) result) base

namespace SettingValue

def atPath : List JsString → SettingValue → SettingValue
  | [], v => v
  | key :: path, .obj ms => atPath path (readMember key ms)
  | _ :: _, _ => .undefined

/-- What is seen at a path: nothing, a value that is taken as a whole, or an object, whose
properties are seen at longer paths. -/
inductive Seen where
  | undefined
  | whole (v : SettingValue)
  | object

def seen : SettingValue → Seen
  | .undefined => .undefined
  | .obj _ => .object
  | v => .whole v

/-- A value that is taken as a whole stands before the end of a path. -/
def replacedAbove : List JsString → SettingValue → Bool
  | [], _ => false
  | key :: path, .obj ms => replacedAbove path (readMember key ms)
  | _ :: _, .undefined => false
  | _ :: _, _ => true

/-- What a recursive merge has at a path: what the override defines there, nothing below a
value that the override puts in place as a whole, and otherwise what the base has. -/
def mergedSeen (base overrides : SettingValue) (path : List JsString) : Seen :=
  match seen (overrides.atPath path) with
  | .undefined => if replacedAbove path overrides then .undefined else seen (base.atPath path)
  | s => s

end SettingValue

open SettingValue

/-- The merged object is at every path what a recursive merge is there. -/
def MergesRecursively (base overrides merged : Properties) : Prop :=
  ∀ path, seen ((SettingValue.obj merged).atPath path) =
    mergedSeen (.obj base) (.obj overrides) path

/-- Wherever a field is an object in both, a member that the override has leaves out nothing
that the base defines at it or below it. -/
def MembersComplete (base overrides : Properties) : Prop :=
  ∀ field baseMembers overrideMembers, readMember field base = .obj baseMembers →
    readMember field overrides = .obj overrideMembers →
    ∀ key ∈ ownKeys overrideMembers, ∀ path,
      seen ((readMember key overrideMembers).atPath path) = .undefined →
      replacedAbove path (readMember key overrideMembers) = false →
      seen ((readMember key baseMembers).atPath path) = .undefined

theorem assocGet_foldl_setMember (assigned : JsString → Option SettingValue) (keys : List JsString)
    (base : Properties) (k : JsString) :
    assocGet k (keys.foldl (fun result key =>
        match assigned key with
        | some v => setMember key v result
        | none => result) base) =
      if k ∈ keys then (assigned k).or (assocGet k base) else assocGet k base := by
  induction keys generalizing base with
  | nil => rw [foldl_nil, if_neg not_mem_nil]
  | cons key keys ih =>
    rw [foldl_cons, ih]
    have hset : assocGet k (match assigned key with
        | some v => setMember key v base
        | none => base) =
        if key = k then (assigned k).or (assocGet k base) else assocGet k base := by
      by_cases hkey : key = k
      · subst hkey
        rw [if_pos rfl]
        cases assigned key with
        | none => rfl
        | some v =>
          rw [Option.some_or, assocGet_setMember, if_pos rfl]
      · rw [if_neg hkey]
        cases assigned key with
        | none => rfl
        | some v =>
          rw [assocGet_setMember, if_neg hkey]
    rw [hset]
    by_cases hkey : key = k
    · subst hkey
      rw [if_pos rfl, if_pos mem_cons_self]
      cases assigned key <;> simp
    · have hmem : k ∈ key :: keys ↔ k ∈ keys := by
        rw [mem_cons]
        exact or_iff_right (Ne.symm hkey)
      rw [if_neg hkey]
      by_cases hk : k ∈ keys
      · rw [if_pos hk, if_pos (hmem.mpr hk)]
      · rw [if_neg hk, if_neg fun h => hk (hmem.mp h)]

theorem readMember_of_not_mem {ms : Properties} (h : key ∉ ownKeys ms) :
    readMember key ms = .undefined := by
  rw [readMember, (assocGet_eq_none_iff key ms).mpr h]
  rfl

theorem readMember_spread (baseValue overrideValue : Properties) (key : JsString) :
    readMember key (spread baseValue overrideValue) =
      if key ∈ ownKeys overrideValue then readMember key overrideValue
      else readMember key baseValue := by
  have h := assocGet_foldl_setMember (fun key => some (readMember key overrideValue))
    (ownKeys overrideValue) baseValue key
  rw [readMember, spread, h]
  split
  · rfl
  · rfl

theorem readMember_deepMergeSettings (base overrides : Properties) (field : JsString) :
    readMember field (deepMergeSettings base overrides) = match readMember field overrides with
      | .undefined => readMember field base
      | overrideValue => mergeValue (readMember field base) overrideValue := by
  have hloop : deepMergeSettings base overrides = (ownKeys overrides).foldl (fun result key =>
      match (match readMember key overrides with
        | .undefined => none
        | overrideValue => some (mergeValue (readMember key base) overrideValue)) with
      | some v => setMember key v result
      | none => result) base := by
    unfold deepMergeSettings
    congr 1
    funext result key
    cases readMember key overrides <;> rfl
  rw [hloop, readMember, assocGet_foldl_setMember]
  by_cases hmem : field ∈ ownKeys overrides
  · rw [if_pos hmem]
    cases readMember field overrides <;> rfl
  · rw [if_neg hmem, readMember_of_not_mem hmem]
    rfl

theorem mergedSeen_cons (base overrides : Properties) (key : JsString) (path : List JsString) :
    mergedSeen (.obj base) (.obj overrides) (key :: path) =
      mergedSeen (readMember key base) (readMember key overrides) path := rfl

theorem mergedSeen_undefined (base : SettingValue) (path : List JsString) :
    mergedSeen base .undefined path = seen (base.atPath path) := by
  cases path <;> rfl

theorem mergedSeen_of_not_object {base overrides : SettingValue} (hdefined : overrides ≠ .undefined)
    (hnot : ∀ bs os, base = .obj bs → overrides ≠ .obj os) (path : List JsString) :
    mergedSeen base overrides path = seen (overrides.atPath path) := by
  cases path with
  | nil =>
    cases overrides <;> first | rfl | exact absurd rfl hdefined
  | cons key path =>
    unfold mergedSeen
    split
    · rename_i hundefined
      rw [hundefined]
      split
      · rfl
      · rename_i hreplaced
        cases overrides with
        | undefined => exact absurd rfl hdefined
        | obj os =>
          cases base with
          | obj bs => exact absurd rfl (hnot bs os rfl)
          | _ => rfl
        | _ => exact absurd rfl hreplaced
    · rfl

theorem seen_eq_mergedSeen_iff (base overrides : SettingValue) (path : List JsString) :
    seen (overrides.atPath path) = mergedSeen base overrides path ↔
      (seen (overrides.atPath path) = .undefined → replacedAbove path overrides = false →
        seen (base.atPath path) = .undefined) := by
  unfold mergedSeen
  cases hseen : seen (overrides.atPath path) with
  | undefined =>
    cases replacedAbove path overrides with
    | true => exact ⟨fun _ _ h => absurd h (by decide), fun _ => rfl⟩
    | false => exact ⟨fun h _ _ => h.symm, fun h => (h rfl rfl).symm⟩
  | whole v | object => exact ⟨fun _ h => (nomatch h), fun _ => rfl⟩

theorem mergeValue_obj (bs os : Properties) :
    mergeValue (.obj bs) (.obj os) = .obj (spread bs os) := by
  unfold mergeValue
  rfl

theorem seen_mergeValue_iff {base overrides : SettingValue} (hdefined : overrides ≠ .undefined) :
    (∀ path, seen ((mergeValue base overrides).atPath path) = mergedSeen base overrides path) ↔
      ∀ bs os, base = .obj bs → overrides = .obj os → ∀ key ∈ ownKeys os, ∀ path,
        seen ((readMember key os).atPath path) = .undefined →
        replacedAbove path (readMember key os) = false →
        seen ((readMember key bs).atPath path) = .undefined := by
  by_cases hobjects : ∃ bs os, base = .obj bs ∧ overrides = .obj os
  · obtain ⟨bs, os, rfl, rfl⟩ := hobjects
    constructor
    · intro h bs' os' hbs hos key hkey path
      cases hbs
      cases hos
      have hat := h (key :: path)
      rw [mergedSeen_cons, mergeValue_obj, SettingValue.atPath, readMember_spread,
        if_pos hkey] at hat
      exact (seen_eq_mergedSeen_iff _ _ _).mp hat
    · intro h path
      cases path with
      | nil => rfl
      | cons key path =>
        rw [mergedSeen_cons, mergeValue_obj, SettingValue.atPath, readMember_spread]
        by_cases hkey : key ∈ ownKeys os
        · rw [if_pos hkey]
          exact (seen_eq_mergedSeen_iff _ _ _).mpr (h bs os rfl rfl key hkey path)
        · rw [if_neg hkey, readMember_of_not_mem hkey, mergedSeen_undefined]
  · have hvalue : mergeValue base overrides = overrides := by
      unfold mergeValue
      split
      · exact absurd ⟨_, _, rfl, rfl⟩ hobjects
      · rfl
    refine ⟨fun _ bs os hbs hos => absurd ⟨bs, os, hbs, hos⟩ hobjects, fun _ path => ?_⟩
    rw [hvalue, mergedSeen_of_not_object hdefined fun bs os hbs hos =>
      hobjects ⟨bs, os, hbs, hos⟩]

/-- The merge of two settings objects is recursive exactly when no member of a nested object
of the override leaves out something that the base defines there. -/
theorem deepMergeSettings_recursive_iff (base overrides : Properties) :
    MergesRecursively base overrides (deepMergeSettings base overrides) ↔
      MembersComplete base overrides := by
  have hfields : MergesRecursively base overrides (deepMergeSettings base overrides) ↔
      ∀ field path, seen ((readMember field (deepMergeSettings base overrides)).atPath path) =
        mergedSeen (readMember field base) (readMember field overrides) path := by
    refine ⟨fun h field path => h (field :: path), fun h path => ?_⟩
    cases path with
    | nil => rfl
    | cons field path => exact h field path
  rw [hfields]
  refine forall_congr' fun field => ?_
  rw [readMember_deepMergeSettings]
  by_cases hundefined : readMember field overrides = .undefined
  · rw [hundefined]
    refine ⟨fun _ bs os _ hos => (nomatch hos), fun _ path => ?_⟩
    rw [mergedSeen_undefined]
  · have hvalue : (match readMember field overrides with
        | .undefined => readMember field base
        | overrideValue => mergeValue (readMember field base) overrideValue) =
        mergeValue (readMember field base) (readMember field overrides) := by
      split
      · rename_i h
        exact absurd h hundefined
      · rfl
    rw [hvalue]
    exact seen_mergeValue_iff hundefined

/-- Settings with two fields of the retry provider. -/
def globalRetry : Properties :=
  [(js "retry", .obj [(js "provider", .obj [(js "maxRetries", .num (.ofInt 2)),
    (js "timeoutMs", .num (.ofInt 1000))])])]

def projectRetry : Properties :=
  [(js "retry", .obj [(js "provider", .obj [(js "timeoutMs", .num (.ofInt 500))])])]

def maxRetriesPath : List JsString := [js "retry", js "provider", js "maxRetries"]

/-- A project setting below the second level removes its sibling in the global settings. -/
theorem deepMergeSettings_drops_sibling :
    seen ((SettingValue.obj globalRetry).atPath maxRetriesPath) = .whole (.num (.ofInt 2)) ∧
      seen ((SettingValue.obj (deepMergeSettings globalRetry projectRetry)).atPath
        maxRetriesPath) = .undefined ∧
      ¬ MergesRecursively globalRetry projectRetry
        (deepMergeSettings globalRetry projectRetry) := by
  refine ⟨rfl, rfl, fun h => ?_⟩
  have hat := h maxRetriesPath
  cases hat

end SettingsManager

/-!
# Overrides of the settings

`applyOverrides` merges into the effective settings only, and every setter computes them again
from the two layers that have files.
-/

namespace SettingsManager

open Json List

variable {key field : JsString} {changed : ScopeSettings} {path : Path}

mutual

def SettingValue.ofTree : Tree → SettingValue
  | .null => .null
  | .bool b => .bool b
  | .num n => .num n
  | .str s => .str s
  | .arr xs => .arr (SettingValue.ofTrees xs)
  | .obj ms => .obj (SettingValue.ofMembers ms)

def SettingValue.ofTrees : List Tree → List SettingValue
  | [] => []
  | x :: xs => SettingValue.ofTree x :: SettingValue.ofTrees xs

def SettingValue.ofMembers : List (JsString × Tree) → Properties
  | [] => []
  | (key, value) :: ms => (key, SettingValue.ofTree value) :: SettingValue.ofMembers ms

end

open SettingValue

abbrev Fields := JsString → SettingValue

def fieldsOf (settings : Settings) : Fields := fun field =>
  (settings field).elim .undefined ofTree

/-- `deepMergeSettings` on fields by name. -/
def mergeFields (base overrides : Fields) : Fields := fun field =>
  match overrides field with
  | .undefined => base field
  | overrideValue => mergeValue (base field) overrideValue

/-- `deepMergeSettings(this.globalSettings, this.projectSettings)`. -/
def Manager.merged (manager : Manager) : Fields :=
  mergeFields (fieldsOf (manager.scopes .global).settings)
    (fieldsOf (manager.scopes .project).settings)

def valueAt (settings : Fields) : Path → SettingValue
  | .field field => settings field
  | .member field key => (settings field).atPath [key]

/-- The manager with its effective settings, and what a reader knows: what the overrides
gave that no setter has set since. -/
structure Overridden where
  session : Session
  settings : Fields
  given : Path → SettingValue

/-- What is given after an override: a value that is no object takes the place of the field
with its members, and an object gives the members it defines. -/
def giveOverrides (overrides : Properties) (given : Path → SettingValue) : Path → SettingValue
  | .field field =>
    match readMember field overrides with
    | .undefined => given (.field field)
    | .obj _ => .undefined
    | overrideValue => overrideValue
  | .member field key =>
    match readMember field overrides with
    | .undefined => given (.member field key)
    | .obj ms =>
      match readMember key ms with
      | .undefined => given (.member field key)
      | overrideValue => overrideValue
    | _ => .undefined

/-- Whether an assignment sets a path, by itself or with what stands around it. -/
def Assignment.sets : Assignment → Path → Bool
  | .fields values, .field field | .fields values, .member field _ =>
    decide (field ∈ values.map Prod.fst)
  | .nested field _ _, .field field' => decide (field' = field)
  | .nested field key _, .member field' key' => decide (field' = field ∧ key' = key)

inductive OverrideEvent where
  | override (overrides : Properties)
  | event (e : Event)

/-- `applyOverrides(overrides)`. -/
def Overridden.applyOverrides (s : Overridden) (overrides : Properties) : Overridden :=
  { s with
    settings := mergeFields s.settings fun field => readMember field overrides
    given := giveOverrides overrides s.given }

/-- The effective settings after a setter, which are computed again unless it throws. -/
def Overridden.saved (s : Overridden) (session : Session) (call : Call) : Overridden :=
  match (s.session.manager.scopes call.assignment.1).assign call.assignment.2 with
  | none => { s with session := session }
  | some _ =>
    { session := session
      settings := session.manager.merged
      given := fun path => if call.assignment.2.sets path then .undefined else s.given path }

def Overridden.step (s : Overridden) : OverrideEvent → Option Overridden
  | .override overrides => some (s.applyOverrides overrides)
  | .event e =>
    (s.session.step e).map fun session =>
      match e with
      | .set call => s.saved session call
      | _ => { s with session := session }

/-- `SettingsManager.fromStorage(storage)`. -/
def Overridden.start (files : SettingsScope → SettingsFile) : Overridden where
  session := fromStorage files
  settings := (fromStorage files).manager.merged
  given _ := .undefined

def Overridden.KeepsGiven (s : Overridden) : Prop :=
  ∀ path, s.given path ≠ .undefined → valueAt s.settings path = s.given path

/-- An override does not hide what an earlier one gave behind an undefined member, and a
setter that does not throw comes when the layers have what the overrides gave and it does
not set. -/
def Overridden.Lasting (s : Overridden) : OverrideEvent → Prop
  | .override overrides =>
    ∀ field ms key, readMember field overrides = .obj ms → key ∈ ownKeys ms →
      readMember key ms = .undefined → s.given (.member field key) = .undefined
  | .event (.set call) =>
    ((s.session.manager.scopes call.assignment.1).assign call.assignment.2).isSome = true →
      ∀ path, call.assignment.2.sets path = false → s.given path ≠ .undefined →
        valueAt s.session.manager.merged path = s.given path
  | .event _ => True

theorem mergeValue_of_base {base : SettingValue} (h : ∀ bs, base ≠ .obj bs)
    (overrides : SettingValue) : mergeValue base overrides = overrides := by
  unfold mergeValue
  split
  · exact absurd rfl (h _)
  · rfl

theorem mergeValue_of_override (base : SettingValue) {overrides : SettingValue}
    (h : ∀ os, overrides ≠ .obj os) : mergeValue base overrides = overrides := by
  unfold mergeValue
  split
  · exact absurd rfl (h _)
  · rfl

theorem mergeFields_of_undefined {base overrides : Fields} (h : overrides field = .undefined) :
    mergeFields base overrides field = base field := by
  rw [mergeFields, h]

theorem mergeFields_of_defined {base overrides : Fields} (h : overrides field ≠ .undefined) :
    mergeFields base overrides field = mergeValue (base field) (overrides field) := by
  unfold mergeFields
  split
  · rename_i hundefined
    exact absurd hundefined h
  · rfl

theorem mergeFields_of_not_obj (base : Fields) {overrides : Fields}
    (hdefined : overrides field ≠ .undefined) (hobj : ∀ os, overrides field ≠ .obj os) :
    mergeFields base overrides field = overrides field := by
  rw [mergeFields_of_defined hdefined, mergeValue_of_override _ hobj]

theorem valueAt_mergeFields_member {base overrides : Fields} {os : Properties}
    (h : overrides field = .obj os) :
    valueAt (mergeFields base overrides) (.member field key) =
      if key ∈ ownKeys os then readMember key os else valueAt base (.member field key) := by
  have hmerged : mergeFields base overrides field = mergeValue (base field) (.obj os) := by
    rw [mergeFields_of_defined (by rw [h]; exact nofun), h]
  have hread : ∀ ms : Properties, (SettingValue.obj ms).atPath [key] = readMember key ms :=
    fun _ => rfl
  rw [valueAt, hmerged, valueAt]
  cases hbase : base field with
  | obj bs => rw [mergeValue_obj, hread, hread, readMember_spread]
  | _ =>
    rw [mergeValue_of_base (by nofun), hread]
    by_cases hkey : key ∈ ownKeys os
    · rw [if_pos hkey]
    · rw [if_neg hkey, readMember_of_not_mem hkey]
      rfl

theorem Overridden.KeepsGiven.applyOverrides {s : Overridden} (h : s.KeepsGiven)
    {overrides : Properties} (hlasting : s.Lasting (.override overrides)) :
    (s.applyOverrides overrides).KeepsGiven := by
  intro path hgiven
  change giveOverrides overrides s.given path ≠ .undefined at hgiven
  change valueAt (mergeFields s.settings fun field => readMember field overrides) path =
    giveOverrides overrides s.given path
  cases path with
  | field field =>
    rw [giveOverrides] at hgiven ⊢
    rw [valueAt]
    cases hoverride : readMember field overrides with
    | undefined =>
      rw [hoverride] at hgiven
      rw [mergeFields_of_undefined hoverride]
      exact h (.field field) hgiven
    | obj os =>
      rw [hoverride] at hgiven
      exact absurd rfl hgiven
    | _ =>
      rw [mergeFields_of_not_obj _ (by rw [hoverride]; nofun) (by rw [hoverride]; nofun), hoverride]
  | member field key =>
    rw [giveOverrides] at hgiven ⊢
    cases hoverride : readMember field overrides with
    | undefined =>
      rw [hoverride] at hgiven
      rw [valueAt, mergeFields_of_undefined hoverride]
      exact h (.member field key) hgiven
    | obj os =>
      rw [hoverride] at hgiven
      dsimp only at hgiven ⊢
      rw [valueAt_mergeFields_member hoverride]
      by_cases hkey : key ∈ ownKeys os
      · rw [if_pos hkey]
        cases hmember : readMember key os with
        | undefined =>
          rw [hmember] at hgiven
          exact absurd (hlasting field os key hoverride hkey hmember) hgiven
        | _ => rfl
      · rw [if_neg hkey]
        rw [readMember_of_not_mem hkey] at hgiven ⊢
        exact h (.member field key) hgiven
    | _ =>
      rw [hoverride] at hgiven
      exact absurd rfl hgiven

theorem readMember_ofMembers (key : JsString) (ms : List (JsString × Tree)) :
    readMember key (ofMembers ms) = (assocGet key ms).elim .undefined ofTree := by
  induction ms with
  | nil => rfl
  | cons m ms ih =>
    obtain ⟨k, v⟩ := m
    rw [readMember] at ih
    rw [ofMembers, readMember, assocGet, assocGet]
    by_cases hk : k = key
    · rw [if_pos hk, if_pos hk]
      rfl
    · rw [if_neg hk, if_neg hk]
      exact ih

theorem mem_ownKeys_ofMembers {ms : List (JsString × Tree)} :
    key ∈ ownKeys (ofMembers ms) ↔ assocGet key ms ≠ none := by
  rw [ne_eq, assocGet_eq_none_iff, not_not]
  induction ms with
  | nil => rfl
  | cons m ms ih =>
    obtain ⟨k, v⟩ := m
    rw [ofMembers, ownKeys, map_cons, map_cons, mem_cons, mem_cons]
    exact or_congr_right ih

theorem fieldsOf_eq_undefined {settings : Settings} (h : fieldsOf settings field = .undefined) :
    settings field = none := by
  rw [fieldsOf] at h
  cases hsetting : settings field with
  | none => rfl
  | some t =>
    rw [hsetting] at h
    cases t <;> cases h

theorem fieldsOf_eq_obj {settings : Settings} {os : Properties}
    (h : fieldsOf settings field = .obj os) :
    ∃ ms, settings field = some (.obj ms) ∧ os = ofMembers ms := by
  rw [fieldsOf] at h
  cases hsetting : settings field with
  | none =>
    rw [hsetting] at h
    cases h
  | some t =>
    rw [hsetting] at h
    cases t with
    | obj ms =>
      cases h
      exact ⟨ms, rfl, rfl⟩
    | _ => cases h

theorem setNested_settings {scope : ScopeSettings} {value : Tree}
    (h : scope.setNested field key value = some changed) : ∃ nested, changed.settings =
        Function.update scope.settings field (some (.obj (setMember key value nested))) ∧
      (scope.settings field = none → nested = []) ∧
      ∀ ms, scope.settings field = some (.obj ms) → nested = ms := by
  rw [ScopeSettings.setNested] at h
  cases hsetting : scope.settings field with
  | none =>
    rw [hsetting] at h
    cases h
    exact ⟨[], rfl, fun _ => rfl, fun ms hms => by cases hms⟩
  | some current =>
    rw [hsetting] at h
    obtain ⟨nested, hnested, hchanged⟩ := Option.map_eq_some_iff.mp h
    refine ⟨nested, by rw [← hchanged], (fun hnone => by cases hnone), ?_⟩
    rintro ms hms
    cases hms
    have hmembers : some ms = some nested := hnested
    exact (Option.some.inj hmembers).symm

theorem mergeFields_congr {base base' overrides overrides' : Fields}
    (hbase : base' field = base field) (hoverrides : overrides' field = overrides field) :
    mergeFields base' overrides' field = mergeFields base overrides field := by
  rw [mergeFields, mergeFields, hbase, hoverrides]

theorem valueAt_congr {settings settings' : Fields}
    (h : ∀ field, path = .field field ∨ (∃ key, path = .member field key) → settings' field = settings field)
    : valueAt settings' path = valueAt settings path := by
  cases path with
  | field field => exact h field (.inl rfl)
  | member field key => rw [valueAt, valueAt, h field (.inr ⟨key, rfl⟩)]

theorem merged_save_of_eq {manager : Manager} {scope : SettingsScope}
    (h : changed.settings field = (manager.scopes scope).settings field) :
    (manager.save scope changed).merged field = manager.merged field := by
  have hscope : ∀ other, fieldsOf ((manager.save scope changed).scopes other).settings field =
      fieldsOf (manager.scopes other).settings field := by
    intro other
    rw [fieldsOf, fieldsOf]
    by_cases hother : other = scope
    · subst hother
      rw [show (manager.save other changed).scopes other = changed from
        Function.update_self _ _ _, h]
    · rw [show (manager.save scope changed).scopes other = manager.scopes other from
        Function.update_of_ne hother _ _]
  exact mergeFields_congr (hscope .global) (hscope .project)

theorem valueAt_mergeFields_base {layer layer' other : Fields} {k : JsString}
    (hlayer : valueAt layer (.member field k) ≠ .undefined → valueAt layer' (.member field k) = valueAt layer (.member field k))
    (hdefined : valueAt (mergeFields layer other) (.member field k) ≠ .undefined) :
    valueAt (mergeFields layer' other) (.member field k) =
      valueAt (mergeFields layer other) (.member field k) := by
  cases hother : other field with
  | undefined =>
    have hmerged : ∀ base : Fields, valueAt (mergeFields base other) (.member field k) =
        valueAt base (.member field k) := by
      intro base
      rw [valueAt, mergeFields_of_undefined hother]
      rfl
    rw [hmerged] at hdefined
    rw [hmerged, hmerged]
    exact hlayer hdefined
  | obj os =>
    rw [valueAt_mergeFields_member hother] at hdefined ⊢
    rw [valueAt_mergeFields_member hother]
    by_cases hk : k ∈ ownKeys os
    · rw [if_pos hk, if_pos hk]
    · rw [if_neg hk] at hdefined
      rw [if_neg hk, if_neg hk]
      exact hlayer hdefined
  | _ =>
    have hmerged : ∀ base : Fields, mergeFields base other field = other field := fun base =>
      mergeFields_of_not_obj base (by rw [hother]; nofun) (by rw [hother]; nofun)
    rw [valueAt, valueAt, hmerged, hmerged]

section SetNested

variable {layer layer' : Fields} {field key k : JsString} {value : Tree}
  {nested : List (JsString × Tree)} (hkey : k ≠ key)

include hkey

theorem readMember_ofMembers_setMember :
    readMember k (ofMembers (setMember key value nested)) = readMember k (ofMembers nested) := by
  rw [readMember_ofMembers, readMember_ofMembers, assocGet_setMember, if_neg (Ne.symm hkey)]

theorem mem_ownKeys_ofMembers_setMember :
    k ∈ ownKeys (ofMembers (setMember key value nested)) ↔ k ∈ ownKeys (ofMembers nested) := by
  rw [mem_ownKeys_ofMembers, mem_ownKeys_ofMembers, assocGet_setMember, if_neg (Ne.symm hkey)]

theorem valueAt_setNested (hlayer' : layer' field = .obj (ofMembers (setMember key value nested)))
    (hobj : ∀ os, layer field = .obj os → os = ofMembers nested)
    (hdefined : valueAt layer (.member field k) ≠ .undefined) :
    valueAt layer' (.member field k) = valueAt layer (.member field k) := by
  rw [valueAt, valueAt, hlayer'] at *
  cases hold : layer field with
  | obj os =>
    rw [hobj os hold]
    exact readMember_ofMembers_setMember hkey
  | _ =>
    rw [hold] at hdefined
    exact absurd rfl hdefined

theorem valueAt_mergeFields_override (other : Fields)
    (hlayer' : layer' field = .obj (ofMembers (setMember key value nested)))
    (hnone : layer field = .undefined → nested = [])
    (hobj : ∀ os, layer field = .obj os → os = ofMembers nested)
    (hdefined : valueAt (mergeFields other layer) (.member field k) ≠ .undefined) :
    valueAt (mergeFields other layer') (.member field k) =
      valueAt (mergeFields other layer) (.member field k) := by
  rw [valueAt_mergeFields_member hlayer']
  cases hold : layer field with
  | undefined =>
    have hnotin : k ∉ ownKeys (ofMembers (setMember key value nested)) := by
      rw [mem_ownKeys_ofMembers_setMember hkey, hnone hold]
      exact not_mem_nil
    rw [if_neg hnotin, valueAt, valueAt, mergeFields_of_undefined hold]
  | obj os =>
    rw [valueAt_mergeFields_member hold, hobj os hold, readMember_ofMembers_setMember hkey]
    by_cases hk : k ∈ ownKeys (ofMembers nested)
    · rw [if_pos ((mem_ownKeys_ofMembers_setMember hkey).mpr hk), if_pos hk]
    · rw [if_neg fun h => hk ((mem_ownKeys_ofMembers_setMember hkey).mp h), if_neg hk]
  | _ =>
    have hmerged : mergeFields other layer field = layer field :=
      mergeFields_of_not_obj other (by rw [hold]; nofun) (by rw [hold]; nofun)
    rw [valueAt, hmerged, hold] at hdefined
    exact absurd rfl hdefined

end SetNested

theorem valueAt_merged_save {manager : Manager} {scope : SettingsScope} {assignment : Assignment}
    (h : (manager.scopes scope).assign assignment = some changed)
    (hsets : assignment.sets path = false) (hdefined : valueAt manager.merged path ≠ .undefined) :
    valueAt (manager.save scope changed).merged path = valueAt manager.merged path := by
  cases assignment with
  | fields values =>
    cases h
    have hnotin : ∀ field, path = .field field ∨ (∃ key, path = .member field key) →
        field ∉ values.map Prod.fst := by
      rintro field (rfl | ⟨key, rfl⟩) <;> exact of_decide_eq_false hsets
    exact valueAt_congr fun field hpath =>
      merged_save_of_eq (foldl_update_notMem (hnotin field hpath) _)
  | nested field key value =>
    obtain ⟨nested, hsettings, hnone, hobj⟩ := setNested_settings h
    have hother : ∀ f, f ≠ field → changed.settings f = (manager.scopes scope).settings f := by
      intro f hf
      rw [hsettings]
      exact Function.update_of_ne hf _ _
    cases path with
    | field f =>
      have hf : f ≠ field := of_decide_eq_false hsets
      exact merged_save_of_eq (hother f hf)
    | member f k =>
      have hnot : ¬ (f = field ∧ k = key) := of_decide_eq_false hsets
      by_cases hf : f = field
      · subst hf
        have hkey : k ≠ key := fun hk => hnot ⟨rfl, hk⟩
        have hchanged : fieldsOf changed.settings f =
            .obj (ofMembers (setMember key value nested)) := by
          rw [fieldsOf, hsettings, Function.update_self]
          rfl
        have hundefined : fieldsOf (manager.scopes scope).settings f = .undefined →
            nested = [] := fun hundefined => hnone (fieldsOf_eq_undefined hundefined)
        have hmembers : ∀ os, fieldsOf (manager.scopes scope).settings f = .obj os →
            os = ofMembers nested := by
          intro os hos
          obtain ⟨ms, hms, rfl⟩ := fieldsOf_eq_obj hos
          rw [hobj ms hms]
        cases scope with
        | global =>
          exact valueAt_mergeFields_base (valueAt_setNested hkey hchanged hmembers) hdefined
        | project =>
          exact valueAt_mergeFields_override hkey _ hchanged hundefined hmembers hdefined
      · exact valueAt_congr fun g hpath => by
          rcases hpath with hpath | ⟨key', hpath⟩
          · cases hpath
          · cases hpath
            exact merged_save_of_eq (hother _ hf)

theorem Overridden.KeepsGiven.step {s t : Overridden} {i : OverrideEvent} (h : s.KeepsGiven)
    (hlasting : s.Lasting i) (hstep : s.step i = some t) : t.KeepsGiven := by
  cases i with
  | override overrides =>
    cases hstep
    exact h.applyOverrides hlasting
  | event e =>
    obtain ⟨session, hsession, ht⟩ := Option.map_eq_some_iff.mp hstep
    cases e with
    | set call =>
      cases hsession
      dsimp only at ht
      rw [Overridden.saved] at ht
      cases hassign : (s.session.manager.scopes call.assignment.1).assign call.assignment.2 with
      | none =>
        rw [hassign] at ht
        cases ht
        exact h
      | some changed =>
        rw [hassign] at ht
        cases ht
        intro path hgiven
        dsimp only at hgiven ⊢
        cases hsets : call.assignment.2.sets path with
        | true =>
          rw [hsets] at hgiven
          exact absurd rfl hgiven
        | false =>
          rw [hsets] at hgiven
          have hlayers := hlasting (by rw [hassign]; rfl) path hsets hgiven
          rw [Session.set, hassign]
          rw [if_neg Bool.false_ne_true, ← hlayers]
          refine valueAt_merged_save hassign hsets ?_
          rw [hlayers]
          exact hgiven
    | write fails | edit scope file =>
      cases ht
      exact h

/-- In every run in which each setter comes when the layers agree with the overrides that it
does not set, what the overrides gave stays in effect. -/
theorem overrides_last (files : SettingsScope → SettingsFile) {events : List OverrideEvent}
    {s : Overridden} (hlasting : Along Overridden.step Overridden.Lasting (.start files) events)
    (hrun : run Overridden.step (.start files) events = some s) : s.KeepsGiven :=
  run_invariant (fun _ _ _ h hi hstep => h.step hi hstep)
    (fun _ hgiven => absurd rfl hgiven) hlasting hrun

def noFiles : SettingsScope → SettingsFile := fun _ => .absent

/-- An override of the theme and then a setter of another field. -/
def themeOverridden : List OverrideEvent :=
  [.override [(js "theme", .str (js "light"))], .event (.set (.setQuietStartup true))]

/-- The setter puts the theme back. -/
theorem overrides_reverted_by_setter :
    ∃ s, run Overridden.step (.start noFiles) themeOverridden = some s ∧
      s.given (.field (js "theme")) = .str (js "light") ∧
      valueAt s.settings (.field (js "theme")) = .undefined :=
  ⟨_, rfl, rfl, rfl⟩

/-- A project file with the theme of the override. -/
def lightProject : SettingsScope → SettingsFile
  | .global => .absent
  | .project => .content fun field =>
    if field = js "theme" then some (.str (js "light")) else none

theorem given_lightTheme
    (h : giveOverrides [(js "theme", .str (js "light"))] (fun _ => .undefined) path ≠ .undefined) :
    path = .field (js "theme") := by
  have hread : ∀ field, readMember field [(js "theme", .str (js "light"))] =
      if js "theme" = field then .str (js "light") else .undefined := by
    intro field
    rw [readMember, assocGet]
    split <;> rfl
  cases path with
  | field field =>
    rw [giveOverrides, hread] at h
    by_cases hfield : js "theme" = field
    · rw [hfield]
    · rw [if_neg hfield] at h
      exact absurd rfl h
  | member field key =>
    rw [giveOverrides, hread] at h
    by_cases hfield : js "theme" = field
    · rw [if_pos hfield] at h
      exact absurd rfl h
    · rw [if_neg hfield] at h
      exact absurd rfl h

/-- The override lasts when the project has the same theme. -/
theorem overrides_last_lightProject :
    ∃ s, run Overridden.step (.start lightProject) themeOverridden = some s ∧
      s.given (.field (js "theme")) = .str (js "light") ∧
      valueAt s.settings (.field (js "theme")) = .str (js "light") := by
  have hlasting : Along Overridden.step Overridden.Lasting (.start lightProject)
      themeOverridden := by
    refine ⟨fun field ms key hobj => ?_, fun t ht => ⟨?_, fun _ _ => trivial⟩⟩
    · rw [readMember, assocGet] at hobj
      split at hobj <;> cases hobj
    · cases ht
      intro _ path _ hgiven
      cases given_lightTheme hgiven
      rfl
  exact ⟨_, rfl, rfl, overrides_last lightProject hlasting rfl _ nofun⟩

end SettingsManager

end AcademicAgent
