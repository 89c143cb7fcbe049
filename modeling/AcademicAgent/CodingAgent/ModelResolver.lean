import AcademicAgent.Core.JsMap
import AcademicAgent.Core.Json.Number
import AcademicAgent.Core.Path

/-!
# Resolution of model references

A model is named on the command line by its id, by `provider/id`, or by a part of its id or
name, each possibly with a thinking level behind a colon.
-/

namespace AcademicAgent

namespace ModelResolver

/-- The fields of a model that the resolution reads. -/
structure RegistryModel where
  provider : JsString
  id : JsString
  name : Option JsString
  deriving DecidableEq

def defaultModelPerProvider : List (JsString × JsString) :=
  [(js "amazon-bedrock", js "us.anthropic.claude-opus-4-6-v1"),
    (js "anthropic", js "claude-opus-4-7"),
    (js "openai", js "gpt-5.4"),
    (js "azure-openai-responses", js "gpt-5.4"),
    (js "openai-codex", js "gpt-5.5"),
    (js "deepseek", js "deepseek-v4-pro"),
    (js "google", js "gemini-3.1-pro-preview"),
    (js "google-vertex", js "gemini-3.1-pro-preview"),
    (js "github-copilot", js "gpt-5.4"),
    (js "openrouter", js "moonshotai/kimi-k2.6"),
    (js "vercel-ai-gateway", js "zai/glm-5.1"),
    (js "xai", js "grok-4.20-0309-reasoning"),
    (js "groq", js "openai/gpt-oss-120b"),
    (js "cerebras", js "zai-glm-4.7"),
    (js "zai", js "glm-5.1"),
    (js "mistral", js "devstral-medium-latest"),
    (js "minimax", js "MiniMax-M2.7"),
    (js "minimax-cn", js "MiniMax-M2.7"),
    (js "moonshotai", js "kimi-k2.6"),
    (js "moonshotai-cn", js "kimi-k2.6"),
    (js "huggingface", js "moonshotai/Kimi-K2.6"),
    (js "fireworks", js "accounts/fireworks/models/kimi-k2p6"),
    (js "opencode", js "kimi-k2.6"),
    (js "opencode-go", js "kimi-k2.6"),
    (js "kimi-coding", js "kimi-for-coding"),
    (js "cloudflare-workers-ai", js "@cf/moonshotai/kimi-k2.6"),
    (js "cloudflare-ai-gateway", js "workers-ai/@cf/moonshotai/kimi-k2.6"),
    (js "xiaomi", js "mimo-v2.5-pro"),
    (js "xiaomi-token-plan-cn", js "mimo-v2.5-pro"),
    (js "xiaomi-token-plan-ams", js "mimo-v2.5-pro"),
    (js "xiaomi-token-plan-sgp", js "mimo-v2.5-pro")]

def VALID_THINKING_LEVELS : List JsString :=
  [js "off", js "minimal", js "low", js "medium", js "high", js "xhigh"]

def isValidThinkingLevel (level : JsString) : Bool := level ∈ VALID_THINKING_LEVELS

/-- A hyphen and the eight digits of a date stand at the end. -/
def endsWithDate (id : JsString) : Bool :=
  let tail := id.drop (id.length - 9)
  tail.length = 9 && tail.head? == some 0x2D && tail.tail.all isDigit

def isAlias (id : JsString) : Bool := js "-latest" <:+ id || !endsWithDate id

/-- What is before the first slash and what is behind it. -/
def splitSlash (s : JsString) : Option (JsString × JsString) :=
  if Path.slash ∈ s then some (s.takeWhile (· != Path.slash), (s.dropWhile (· != Path.slash)).tail)
  else none

def colon : CodeUnit := 0x3A

/-- What is before the last colon and what is behind it. -/
def splitLastColon (s : JsString) : Option (JsString × JsString) :=
  if colon ∈ s then
    let suffix := s.rtakeWhile (· != colon)
    some (s.take (s.length - suffix.length - 1), suffix)
  else none

theorem length_fst_splitLastColon {s : JsString} {parts : JsString × JsString}
    (h : splitLastColon s = some parts) : parts.1.length < s.length := by
  rw [splitLastColon] at h
  split at h
  · rename_i hmem
    obtain rfl := Option.some.inj h
    have hpos := List.length_pos_of_mem hmem
    simp only [List.length_take]
    omega
  · cases h

/-- One match is the match, and several are none; without a match the search goes on. -/
def onlyOne (found : List RegistryModel) (otherwise : Option RegistryModel) :
    Option RegistryModel :=
  match found with
  | [] => otherwise
  | [model] => some model
  | _ :: _ :: _ => none

section Matching

variable (toLowerCase : JsString → JsString) (localeCompare : JsString → JsString → Int)

/-- `provider/id`. -/
def RegistryModel.reference (model : RegistryModel) : JsString :=
  model.provider ++ Path.slash :: model.id

/-- The models whose provider and id are the two parts of a reference. -/
def providerMatches (trimmedReference : JsString) (availableModels : List RegistryModel) :
    List RegistryModel :=
  match splitSlash trimmedReference with
  | none => []
  | some (provider, modelId) =>
    if trim provider ≠ [] ∧ trim modelId ≠ [] then
      availableModels.filter fun model =>
        toLowerCase model.provider = toLowerCase (trim provider) ∧
          toLowerCase model.id = toLowerCase (trim modelId)
    else []

def findExactModelReferenceMatch (modelReference : JsString)
    (availableModels : List RegistryModel) : Option RegistryModel :=
  let trimmedReference := trim modelReference
  if trimmedReference = [] then none
  else
    let normalizedReference := toLowerCase trimmedReference
    onlyOne (availableModels.filter fun model => toLowerCase model.reference = normalizedReference)
      (onlyOne (providerMatches toLowerCase trimmedReference availableModels)
        (onlyOne (availableModels.filter fun model => toLowerCase model.id = normalizedReference)
          none))

/-- The id or the name of a model contains a pattern. -/
def containsPattern (modelPattern : JsString) (model : RegistryModel) : Bool :=
  toLowerCase modelPattern <:+: toLowerCase model.id ||
    model.name.any fun name => toLowerCase modelPattern <:+: toLowerCase name

/-- `models.sort((a, b) => b.id.localeCompare(a.id))`. -/
def sortDescending (models : List RegistryModel) : List RegistryModel :=
  models.mergeSort fun a b => decide (localeCompare b.id a.id ≤ 0)

section

variable (modelPattern : JsString) (availableModels : List RegistryModel)

/-- The best of the models that contain a pattern: aliases before dated versions. -/
def bestPartialMatch : Option RegistryModel :=
  let found := availableModels.filter (containsPattern toLowerCase modelPattern)
  let aliases := found.filter fun model => isAlias model.id
  let datedVersions := found.filter fun model => !isAlias model.id
  if aliases ≠ [] then (sortDescending localeCompare aliases).head?
  else (sortDescending localeCompare datedVersions).head?

def tryMatchModel : Option RegistryModel :=
  match findExactModelReferenceMatch toLowerCase modelPattern availableModels with
  | some exactMatch => some exactMatch
  | none => bestPartialMatch toLowerCase localeCompare modelPattern availableModels

end

structure ParsedModelResult where
  model : Option RegistryModel
  thinkingLevel : Option JsString := none
  warning : Option JsString := none
  deriving DecidableEq

def invalidLevelWarning (suffix pattern : JsString) : JsString :=
  js "Invalid thinking level \"" ++ suffix ++ js "\" in pattern \"" ++ pattern ++
    js "\". Using default instead."

def parseModelPattern (allowInvalidThinkingLevelFallback : Bool)
    (availableModels : List RegistryModel) (pattern : JsString) : ParsedModelResult :=
  match tryMatchModel toLowerCase localeCompare pattern availableModels with
  | some exactMatch => { model := some exactMatch }
  | none =>
    match h : splitLastColon pattern with
    | none => { model := none }
    | some (before, suffix) =>
      have := length_fst_splitLastColon h
      if isValidThinkingLevel suffix then
        let result := parseModelPattern allowInvalidThinkingLevelFallback availableModels before
        if result.model.isSome then
          { result with thinkingLevel := if result.warning.isSome then none else some suffix }
        else result
      else if allowInvalidThinkingLevelFallback then
        let result := parseModelPattern allowInvalidThinkingLevelFallback availableModels before
        if result.model.isSome then
          { result with
            thinkingLevel := none
            warning := some (invalidLevelWarning suffix pattern) }
        else result
      -- the command line takes the suffix as a part of the id
      else { model := none }
termination_by pattern.length

def buildFallbackModel (provider modelId : JsString) (availableModels : List RegistryModel) :
    Option RegistryModel :=
  let providerModels := availableModels.filter fun m => m.provider = provider
  let baseModel : Option RegistryModel :=
    match nonEmpty (assocGet provider defaultModelPerProvider) with
    | some defaultId => (providerModels.find? fun m : RegistryModel => m.id = defaultId).or providerModels.head?
    | none => providerModels.head?
  baseModel.map fun m : RegistryModel => { m with id := modelId, name := some modelId }

structure ResolveCliModelResult where
  model : Option RegistryModel
  thinkingLevel : Option JsString := none
  warning : Option JsString := none
  error : Option JsString := none
  deriving DecidableEq

/-- The providers under their lower case; of two that differ in case only, the last. -/
def providerMap (availableModels : List RegistryModel) : JsMap JsString JsString :=
  availableModels.foldl (fun map m => map.set (toLowerCase m.provider) m.provider) .empty

section

variable (cliModel : JsString) (availableModels : List RegistryModel)

/-- The first model that a text names by its id or by its reference, as it stands. -/
def findVerbatim : Option RegistryModel :=
  let lower := toLowerCase cliModel
  availableModels.find? fun m => toLowerCase m.id = lower || toLowerCase m.reference = lower

/-- The provider that the text before the first slash names, and what is behind the slash. -/
def inferProvider : Option (JsString × JsString) :=
  match splitSlash cliModel with
  | none => none
  | some (maybeProvider, rest) =>
    match nonEmpty ((providerMap toLowerCase availableModels).get (toLowerCase maybeProvider)) with
    | some canonical => some (canonical, rest)
    | none => none

end

def notFoundWarning (pattern provider : JsString) : JsString :=
  js "Model \"" ++ pattern ++ js "\" not found for provider \"" ++ provider ++
    js "\". Using custom model id."

/-- The end of `resolveCliModel`, where nothing was found. -/
def resolveMissing (provider : Option JsString) (pattern cliModel : JsString)
    (warning : Option JsString) (availableModels : List RegistryModel) : ResolveCliModelResult :=
  match provider.bind fun provider => (buildFallbackModel provider pattern availableModels).map
      fun model => (provider, model) with
  | some (provider, fallbackModel) =>
    { model := some fallbackModel
      warning := some ((match nonEmpty warning with
        | some warning => warning ++ js " "
        | none => []) ++ notFoundWarning pattern provider) }
  | none =>
    let display := match provider with
      | some provider => provider ++ Path.slash :: pattern
      | none => cliModel
    { model := none
      warning
      error := some (js "Model \"" ++ display ++
        js "\" not found. Use --list-models to see available models.") }

/-- The end of `resolveCliModel`, where the provider is known, or none is. -/
def resolveWithin (provider : Option JsString) (inferredProvider : Bool)
    (pattern cliModel : JsString) (availableModels : List RegistryModel) : ResolveCliModelResult :=
  let candidates := match provider with
    | some provider => availableModels.filter fun m => m.provider = provider
    | none => availableModels
  let result := parseModelPattern toLowerCase localeCompare false candidates pattern
  let missing := resolveMissing provider pattern cliModel result.warning availableModels
  if result.model.isSome then
    { model := result.model, thinkingLevel := result.thinkingLevel, warning := result.warning }
  else if inferredProvider then
    match findVerbatim toLowerCase cliModel availableModels with
    | some exact => { model := some exact }
    | none =>
      let fallback := parseModelPattern toLowerCase localeCompare false availableModels cliModel
      if fallback.model.isSome then
        { model := fallback.model
          thinkingLevel := fallback.thinkingLevel
          warning := fallback.warning }
      else missing
  else missing

/-- `--model` with an explicit `--provider`. -/
def resolveForProvider (provider cliModel : JsString) (availableModels : List RegistryModel) :
    ResolveCliModelResult :=
  let opening := provider ++ [Path.slash]
  let pattern :=
    if toLowerCase opening <+: toLowerCase cliModel then cliModel.drop opening.length else cliModel
  resolveWithin toLowerCase localeCompare (some provider) false pattern cliModel availableModels

def resolveCliModel (cliProvider cliModel : Option JsString)
    (availableModels : List RegistryModel) : ResolveCliModelResult :=
  match nonEmpty cliModel with
  | none => { model := none }
  | some cliModel =>
    if availableModels = [] then
      { model := none
        error := some
          (js "No models available. Check your installation or add models to models.json.") }
    else
      match nonEmpty cliProvider with
      | some cliProvider =>
        match nonEmpty ((providerMap toLowerCase availableModels).get
            (toLowerCase cliProvider)) with
        | some provider =>
          resolveForProvider toLowerCase localeCompare provider cliModel availableModels
        | none =>
          { model := none
            error := some (js "Unknown provider \"" ++ cliProvider ++
              js "\". Use --list-models to see available providers/models.") }
      | none =>
        match inferProvider toLowerCase cliModel availableModels with
        | some (provider, pattern) =>
          resolveWithin toLowerCase localeCompare (some provider) true pattern cliModel
            availableModels
        | none =>
          match findVerbatim toLowerCase cliModel availableModels with
          | some exact => { model := some exact }
          | none =>
            resolveWithin toLowerCase localeCompare none false cliModel cliModel availableModels

end Matching

end ModelResolver

end AcademicAgent
