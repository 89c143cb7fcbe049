import AcademicAgent.Agent.PendingMessageQueue
import AcademicAgent.Ai.Providers.CodexWebSockets

/-!
# The settings manager

Settings are kept in memory for each scope.
-/

namespace AcademicAgent

open Function (update)

namespace SettingsManager

open Json

/-- The fields of an object, by name; a field that is undefined is none. -/
abbrev Settings := JsString → Option Tree

/-- `{ ...value }`: the own members of a value. -/
def members : Tree → List (JsString × Tree)
  | .obj ms => ms
  | .arr xs => xs.zipIdx.map fun (x, i) => (decimalText i, x)
  | .str s => s.zipIdx.map fun (c, i) => (decimalText i, .str [c])
  | _ => []

/-- `typeof value === "object" && value !== null`. -/
def isObject : Tree → Bool
  | .obj _ | .arr _ => true
  | _ => false

/-- `!value`. -/
def isFalsy : Tree → Bool
  | .null => true
  | .bool b => !b
  | .num n => n.mantissa = 0
  | .str s => s.isEmpty
  | _ => false

/-- `merged[key] = value`, where an undefined member is not written. -/
def assignMember (merged : List (JsString × Tree)) (key : JsString) :
    Option Tree → List (JsString × Tree)
  | some value => setMember key value merged
  | none => merged.filter fun p => !decide (p.1 = key)

inductive Path where
  | field (field : JsString)
  | member (field key : JsString)
  deriving DecidableEq

section

variable (settings : Settings)

def Settings.at : Path → Option Tree
  | .field field => settings field
  | .member field key => (settings field).bind fun value => assocGet key (members value)

/-- `queueMode` to `steeringMode`. -/
def migrateQueueMode : Settings :=
  if (settings (js "queueMode")).isSome ∧ (settings (js "steeringMode")).isNone then
    update (update settings (js "steeringMode") (settings (js "queueMode")))
      (js "queueMode") none
  else settings

/-- `websockets` to `transport`. -/
def migrateWebsockets : Settings :=
  match settings (js "transport"), settings (js "websockets") with
  | none, some (.bool websockets) =>
    update (update settings (js "transport")
      (some (.str (if websockets then js "websocket" else js "sse")))) (js "websockets") none
  | _, _ => settings

end

/-- `skills.enableSkillCommands` to `enableSkillCommands`. -/
def migrateSkillCommands (skillsSettings : List (JsString × Tree)) (settings : Settings) :
    Settings :=
  match assocGet (js "enableSkillCommands") skillsSettings,
    settings (js "enableSkillCommands") with
  | some value, none => update settings (js "enableSkillCommands") (some value)
  | _, _ => settings

/-- `skills` as an object to `skills` as an array. -/
def migrateSkills (settings : Settings) : Settings :=
  match settings (js "skills") with
  | some (.obj skillsSettings) =>
    let enabled := migrateSkillCommands skillsSettings settings
    match assocGet (js "customDirectories") skillsSettings with
    | some (.arr (x :: xs)) => update enabled (js "skills") (some (.arr (x :: xs)))
    | _ => update enabled (js "skills") none
  | _ => settings

/-- The members of `retry` with `maxDelayMs` at `provider.maxRetryDelayMs`. -/
def withProvider (retrySettings : List (JsString × Tree)) : List (JsString × Tree) :=
  let providerSettings := (assocGet (js "provider") retrySettings).filter isObject
  match assocGet (js "maxDelayMs") retrySettings,
    providerSettings.bind fun provider => assocGet (js "maxRetryDelayMs") (members provider) with
  | some (.num n), none | some (.num n), some .null =>
    setMember (js "provider") (.obj (setMember (js "maxRetryDelayMs") (.num n)
      ((providerSettings.map members).getD []))) retrySettings
  | _, _ => retrySettings

/-- `retry.maxDelayMs` to `retry.provider.maxRetryDelayMs`. -/
def migrateRetry (settings : Settings) : Settings :=
  match settings (js "retry") with
  | some (.obj retrySettings) =>
    update settings (js "retry")
      (some (.obj ((withProvider retrySettings).filter fun p => !decide (p.1 = js "maxDelayMs"))))
  | _ => settings

def migrateSettings (settings : Settings) : Settings :=
  migrateRetry (migrateSkills (migrateWebsockets (migrateQueueMode settings)))

inductive SettingsScope where
  | global
  | project
  deriving DecidableEq

/-- What is at the path of a scope: nothing, a text that cannot be read, or an object. -/
inductive SettingsFile where
  | absent
  | unreadable
  | content (settings : Settings)

/-- `loadFromStorage`, which throws for a text that cannot be read. -/
def SettingsFile.load : SettingsFile → Option Settings
  | .absent => some fun _ => none
  | .unreadable => none
  | .content settings => some (migrateSettings settings)

/-- `tryLoadFromStorage(...).settings`. -/
def SettingsFile.read (file : SettingsFile) : Settings := file.load.getD fun _ => none

/-- The modified fields, and their modified members. -/
structure Modified where
  fields : List JsString
  nested : List (JsString × JsString)

def Modified.empty : Modified := ⟨[], []⟩

section

variable (modified : Modified)

/-- `markModified(field, nestedKey)`. -/
def Modified.mark (field : JsString) (nestedKey : Option JsString) :
    Modified :=
  { fields := modified.fields.insert field
    nested :=
      match nestedKey with
      | some key => modified.nested.insert (field, key)
      | none => modified.nested }

/-- `modifiedNestedFields.get(field)`. -/
def Modified.keysOf (field : JsString) : List JsString :=
  (modified.nested.filter fun p => decide (p.1 = field)).map Prod.snd

def Modified.paths : List Path :=
  (modified.fields.filter fun field => (modified.keysOf field).isEmpty).map .field ++
    modified.nested.map fun (field, key) => .member field key

end

structure ScopeSettings where
  settings : Settings
  modified : Modified
  loadError : Bool

structure Write where
  scope : SettingsScope
  snapshot : Settings
  modified : Modified

structure Manager where
  scopes : SettingsScope → ScopeSettings
  writeQueue : List Write

/-- `persistScopedSettings`: what is written over what the file has. -/
def persistScopedSettings (current snapshotSettings : Settings) (modified : Modified) : Settings :=
  fun field =>
    if field ∈ modified.fields then
      match snapshotSettings field with
      | some value =>
        if ¬ (modified.keysOf field).isEmpty ∧ isObject value then
          let baseNested := ((current field).map members).getD []
          some (.obj ((modified.keysOf field).foldl (fun merged nestedKey =>
            assignMember merged nestedKey (assocGet nestedKey (members value))) baseNested))
        else some value
      | none => none
    else current field

/-- What a setter assigns: some fields, or a member of a field that holds an object. -/
inductive Assignment where
  | fields (values : List (JsString × Option Tree))
  | nested (field key : JsString) (value : Tree)

section

variable (scope : ScopeSettings)

/-- `this.globalSettings.field = value; this.markModified("field")`, for each field. -/
def ScopeSettings.setFields (values : List (JsString × Option Tree)) :
    ScopeSettings :=
  { scope with
    settings := values.foldl (fun settings (field, value) => update settings field value)
      scope.settings
    modified := values.foldl (fun modified (field, _) => modified.mark field none) scope.modified }

/-- `this.globalSettings.field.key = value` with an object put in place of a field that is
not there. It throws for a field that is a string, a number or true. -/
def ScopeSettings.setNested (field key : JsString) (value : Tree) :
    Option ScopeSettings :=
  let nested :=
    match scope.settings field with
    | none => some []
    | some current =>
      if isFalsy current then some []
      else if isObject current then some (members current)
      else none
  nested.map fun nested =>
    { scope with
      settings := update scope.settings field (some (.obj (setMember key value nested)))
      modified := scope.modified.mark field (some key) }

def ScopeSettings.assign : Assignment → Option ScopeSettings
  | .fields values => some (scope.setFields values)
  | .nested field key value => scope.setNested field key value

end

/-- `save` and `saveProjectSettings`. -/
def Manager.save (manager : Manager) (scope : SettingsScope) (changed : ScopeSettings) : Manager :=
  { scopes := update manager.scopes scope changed
    writeQueue :=
      if changed.loadError then manager.writeQueue
      else manager.writeQueue ++ [⟨scope, changed.settings, changed.modified⟩] }

inductive ThinkingLevel where
  | off
  | minimal
  | low
  | medium
  | high
  | xhigh

inductive DoubleEscapeAction where
  | fork
  | tree
  | none

inductive TreeFilterMode where
  | default
  | noTools
  | userOnly
  | labeledOnly
  | all

/-- A package by name, or with the resources to load of it. -/
inductive PackageSource where
  | source (source : JsString)
  | filtered (source : JsString) (extensions skills prompts themes : Option (List JsString))

def queueModeText : QueueMode → JsString
  | .all => js "all"
  | .oneAtATime => js "one-at-a-time"

def thinkingLevelText : ThinkingLevel → JsString
  | .off => js "off"
  | .minimal => js "minimal"
  | .low => js "low"
  | .medium => js "medium"
  | .high => js "high"
  | .xhigh => js "xhigh"

def transportText : Codex.Transport → JsString
  | .sse => js "sse"
  | .websocket => js "websocket"
  | .websocketCached => js "websocket-cached"
  | .auto => js "auto"

def doubleEscapeActionText : DoubleEscapeAction → JsString
  | .fork => js "fork"
  | .tree => js "tree"
  | .none => js "none"

def treeFilterModeText : TreeFilterMode → JsString
  | .default => js "default"
  | .noTools => js "no-tools"
  | .userOnly => js "user-only"
  | .labeledOnly => js "labeled-only"
  | .all => js "all"

def strings (xs : List JsString) : Tree := .arr (xs.map .str)

def object (ms : List (JsString × Option Tree)) : Tree :=
  .obj (ms.filterMap fun (key, value) => value.map fun v => (key, v))

def packageSourceValue : PackageSource → Tree
  | .source source => .str source
  | .filtered source extensions skills prompts themes =>
    object [(js "source", some (.str source)), (js "extensions", extensions.map strings),
      (js "skills", skills.map strings), (js "prompts", prompts.map strings),
      (js "themes", themes.map strings)]

inductive Call where
  | setLastChangelogVersion (version : JsString)
  | setDefaultProvider (provider : JsString)
  | setDefaultModel (modelId : JsString)
  | setDefaultModelAndProvider (provider modelId : JsString)
  | setSteeringMode (mode : QueueMode)
  | setFollowUpMode (mode : QueueMode)
  | setTheme (theme : JsString)
  | setDefaultThinkingLevel (level : ThinkingLevel)
  | setTransport (transport : Codex.Transport)
  | setCompactionEnabled (enabled : Bool)
  | setRetryEnabled (enabled : Bool)
  | setHideThinkingBlock (hide : Bool)
  | setShellPath (path : Option JsString)
  | setQuietStartup (quiet : Bool)
  | setShellCommandPrefix (shellCommandPrefix : Option JsString)
  | setNpmCommand (command : Option (List JsString))
  | setCollapseChangelog (collapse : Bool)
  | setEnableInstallTelemetry (enabled : Bool)
  | setPackages (packages : List PackageSource)
  | setProjectPackages (packages : List PackageSource)
  | setExtensionPaths (paths : List JsString)
  | setProjectExtensionPaths (paths : List JsString)
  | setSkillPaths (paths : List JsString)
  | setProjectSkillPaths (paths : List JsString)
  | setPromptTemplatePaths (paths : List JsString)
  | setProjectPromptTemplatePaths (paths : List JsString)
  | setThemePaths (paths : List JsString)
  | setProjectThemePaths (paths : List JsString)
  | setEnableSkillCommands (enabled : Bool)
  | setShowImages (showImages : Bool)
  | setImageWidthCells (width : Rat)
  | setClearOnShrink (enabled : Bool)
  | setShowTerminalProgress (enabled : Bool)
  | setImageAutoResize (enabled : Bool)
  | setBlockImages (blocked : Bool)
  | setEnabledModels (patterns : Option (List JsString))
  | setDoubleEscapeAction (action : DoubleEscapeAction)
  | setTreeFilterMode (mode : TreeFilterMode)
  | setShowHardwareCursor (enabled : Bool)
  | setEditorPaddingX (padding : Rat)
  | setAutocompleteMaxVisible (maxVisible : Rat)
  | setWarnings (anthropicExtraUsage : Option Bool)

def globalField (field : String) (value : Option Tree) : SettingsScope × Assignment :=
  (.global, .fields [(js field, value)])

def projectField (field : String) (value : Tree) : SettingsScope × Assignment :=
  (.project, .fields [(js field, some value)])

def globalNested (field key : String) (value : Tree) : SettingsScope × Assignment :=
  (.global, .nested (js field) (js key) value)

def Call.assignment : Call → SettingsScope × Assignment
  | .setLastChangelogVersion version => globalField "lastChangelogVersion" (some (.str version))
  | .setDefaultProvider provider => globalField "defaultProvider" (some (.str provider))
  | .setDefaultModel modelId => globalField "defaultModel" (some (.str modelId))
  | .setDefaultModelAndProvider provider modelId =>
    (.global, .fields [(js "defaultProvider", some (.str provider)),
      (js "defaultModel", some (.str modelId))])
  | .setSteeringMode mode => globalField "steeringMode" (some (.str (queueModeText mode)))
  | .setFollowUpMode mode => globalField "followUpMode" (some (.str (queueModeText mode)))
  | .setTheme theme => globalField "theme" (some (.str theme))
  | .setDefaultThinkingLevel level =>
    globalField "defaultThinkingLevel" (some (.str (thinkingLevelText level)))
  | .setTransport transport => globalField "transport" (some (.str (transportText transport)))
  | .setCompactionEnabled enabled => globalNested "compaction" "enabled" (.bool enabled)
  | .setRetryEnabled enabled => globalNested "retry" "enabled" (.bool enabled)
  | .setHideThinkingBlock hide => globalField "hideThinkingBlock" (some (.bool hide))
  | .setShellPath path => globalField "shellPath" (path.map .str)
  | .setQuietStartup quiet => globalField "quietStartup" (some (.bool quiet))
  | .setShellCommandPrefix shellCommandPrefix =>
    globalField "shellCommandPrefix" (shellCommandPrefix.map .str)
  | .setNpmCommand command => globalField "npmCommand" (command.map strings)
  | .setCollapseChangelog collapse => globalField "collapseChangelog" (some (.bool collapse))
  | .setEnableInstallTelemetry enabled =>
    globalField "enableInstallTelemetry" (some (.bool enabled))
  | .setPackages packages =>
    globalField "packages" (some (.arr (packages.map packageSourceValue)))
  | .setProjectPackages packages =>
    projectField "packages" (.arr (packages.map packageSourceValue))
  | .setExtensionPaths paths => globalField "extensions" (some (strings paths))
  | .setProjectExtensionPaths paths => projectField "extensions" (strings paths)
  | .setSkillPaths paths => globalField "skills" (some (strings paths))
  | .setProjectSkillPaths paths => projectField "skills" (strings paths)
  | .setPromptTemplatePaths paths => globalField "prompts" (some (strings paths))
  | .setProjectPromptTemplatePaths paths => projectField "prompts" (strings paths)
  | .setThemePaths paths => globalField "themes" (some (strings paths))
  | .setProjectThemePaths paths => projectField "themes" (strings paths)
  | .setEnableSkillCommands enabled => globalField "enableSkillCommands" (some (.bool enabled))
  | .setShowImages showImages => globalNested "terminal" "showImages" (.bool showImages)
  | .setImageWidthCells width =>
    globalNested "terminal" "imageWidthCells" (.num (.ofInt (max 1 width.floor)))
  | .setClearOnShrink enabled => globalNested "terminal" "clearOnShrink" (.bool enabled)
  | .setShowTerminalProgress enabled =>
    globalNested "terminal" "showTerminalProgress" (.bool enabled)
  | .setImageAutoResize enabled => globalNested "images" "autoResize" (.bool enabled)
  | .setBlockImages blocked => globalNested "images" "blockImages" (.bool blocked)
  | .setEnabledModels patterns => globalField "enabledModels" (patterns.map strings)
  | .setDoubleEscapeAction action =>
    globalField "doubleEscapeAction" (some (.str (doubleEscapeActionText action)))
  | .setTreeFilterMode mode =>
    globalField "treeFilterMode" (some (.str (treeFilterModeText mode)))
  | .setShowHardwareCursor enabled => globalField "showHardwareCursor" (some (.bool enabled))
  | .setEditorPaddingX padding =>
    globalField "editorPaddingX" (some (.num (.ofInt (max 0 (min 3 padding.floor)))))
  | .setAutocompleteMaxVisible maxVisible =>
    globalField "autocompleteMaxVisible" (some (.num (.ofInt (max 3 (min 20 maxVisible.floor)))))
  | .setWarnings anthropicExtraUsage =>
    globalField "warnings" (some (object [(js "anthropicExtraUsage",
      anthropicExtraUsage.map .bool)]))

/-- The paths that an assignment sets, with their values. -/
def Assignment.values : Assignment → List (Path × Option Tree)
  | .fields values => values.map fun (field, value) => (.field field, value)
  | .nested field key value => [(.member field key, some value)]

/-- The manager with the files, and what a reader of the session knows: what the setters
have set, the last first, what the files had, and how the last writes went. -/
structure Session where
  manager : Manager
  files : SettingsScope → SettingsFile
  assigned : SettingsScope → List (Path × Option Tree)
  origin : SettingsScope → Settings
  lastWrite : SettingsScope → Option Bool

/-- `SettingsManager.fromStorage(storage)`. -/
def fromStorage (files : SettingsScope → SettingsFile) : Session where
  manager :=
    { scopes := fun scope => ⟨(files scope).read, .empty, (files scope).load.isNone⟩
      writeQueue := [] }
  files
  assigned _ := []
  origin scope := (files scope).read
  lastWrite _ := none

/-- What happens: a setter is called, the first write of the queue runs, or the file of a
scope is changed by another program. -/
inductive Event where
  | set (call : Call)
  | write (fails : Bool)
  | edit (scope : SettingsScope) (file : SettingsFile)

def Session.set (s : Session) (scope : SettingsScope) (assignment : Assignment) : Session :=
  match (s.manager.scopes scope).assign assignment with
  | none => s
  | some changed =>
    { s with
      manager := s.manager.save scope changed
      assigned := update s.assigned scope
        (assignment.values.reverse ++ s.assigned scope) }

/-- `clearModifiedScope(scope)`. -/
def Manager.clearModifiedScope (manager : Manager) (scope : SettingsScope) : Manager :=
  { manager with
    scopes := update manager.scopes scope
      { manager.scopes scope with modified := .empty } }

/-- The task of `enqueueWrite`, which fails for a file that cannot be read. -/
def Session.write (s : Session) (w : Write) (rest : List Write) (fails : Bool) : Session :=
  match if fails then none else (s.files w.scope).load with
  | none =>
    { s with
      manager := { s.manager with writeQueue := rest }
      lastWrite := update s.lastWrite w.scope (some false) }
  | some current =>
    { s with
      manager := { s.manager with writeQueue := rest }.clearModifiedScope w.scope
      files := update s.files w.scope
        (.content (persistScopedSettings current w.snapshot w.modified))
      lastWrite := update s.lastWrite w.scope (some true) }

/-- The session after an event; there must be a write to run. -/
def Session.step (s : Session) : Event → Option Session
  | .set call => some (s.set call.assignment.1 call.assignment.2)
  | .write fails =>
    match s.manager.writeQueue with
    | [] => none
    | w :: rest => some (s.write w rest fails)
  | .edit scope file =>
    some { s with
      files := update s.files scope file
      origin := update s.origin scope file.read }

end SettingsManager

end AcademicAgent
