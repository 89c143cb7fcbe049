import AcademicAgent.Core.Json.DecimalOrder
import AcademicAgent.Core.Json.Text
import AcademicAgent.LeadAgent.ArtifactStore

/-!
# The literature search tool

A call is checked against the policy of its tool, answered from an artifact with the same cache
key when there is one, and otherwise asks its providers.
-/

namespace AcademicAgent.LeadAgent

open Json

inductive LiteratureProviderId where
  | crossref
  | semanticScholar
  | pubmed
  | arxiv
  deriving DecidableEq

def LiteratureProviderId.text : LiteratureProviderId → JsString
  | .crossref => js "crossref"
  | .semanticScholar => js "semantic-scholar"
  | .pubmed => js "pubmed"
  | .arxiv => js "arxiv"

def providerIds : List LiteratureProviderId := [.crossref, .semanticScholar, .pubmed, .arxiv]

structure LiteratureSearchToolInput where
  query : JsString
  providers : Option (List LiteratureProviderId) := none
  maxResults : Option Decimal := none
  fromYear : Option Decimal := none
  toYear : Option Decimal := none
  fieldOfStudy : Option JsString := none
  includePreprints : Option Bool := none
  includeBiomedical : Option Bool := none
  refresh : Option Bool := none

structure LiteratureSearchToolPolicy where
  maxCalls : Option Decimal := none
  defaultProviders : Option (List JsString) := none
  allowedProviders : Option (List JsString) := none
  maxResultsPerProvider : Option Decimal := none
  requireArtifactOutput : Option Bool := none
  allowRefresh : Option Bool := none

def asProviderId (value : JsString) : Except JsString LiteratureProviderId :=
  match providerIds.find? (·.text = value) with
  | some provider => .ok provider
  | none => .error (js "Unsupported literature provider: " ++ value)

def resolveProviders (input : LiteratureSearchToolInput) (policy : LiteratureSearchToolPolicy) :
    Except JsString (List LiteratureProviderId) := do
  let everyId := providerIds.map (·.text)
  let requested := ((input.providers.map (·.map (·.text))).or policy.defaultProviders).getD everyId
  let allowed ← (policy.allowedProviders.getD everyId).mapM asProviderId
  let providers ← requested.mapM asProviderId
  providers.mapM fun provider =>
    if provider ∈ allowed then .ok provider
    else .error (js "Provider is not allowed by this worker profile: " ++ provider.text)

section

variable (policy : LiteratureSearchToolPolicy)

def exceededLimit (callCount : Nat) : Option Decimal :=
  policy.maxCalls.filter (·.lt (.ofInt callCount))

/-- The providers of a call by its number, or the error that refuses the call. -/
def checkCall (callCount : Nat)
    (input : LiteratureSearchToolInput) : Except JsString (List LiteratureProviderId) :=
  match exceededLimit policy callCount with
  | some maxCalls =>
    .error (js "Tool call limit exceeded for literature.search: " ++ maxCalls.toString)
  | none =>
    if input.refresh = some true ∧ policy.allowRefresh ≠ some true then
      .error (js "Refresh is not allowed by this worker profile.")
    else
      match resolveProviders input policy with
      | .error message => .error message
      | .ok providers =>
        if providers = [] then .error (js "No allowed literature providers were selected.")
        else .ok providers

/-- `Math.min`. -/
def minDecimal (a b : Decimal) : Decimal := if a.le b then a else b

def policyMaxResults : Decimal :=
  policy.maxResultsPerProvider.getD (.ofInt 10)

/-- The number of results that each provider is asked for. -/
def maxResultsFor (input : LiteratureSearchToolInput) : Decimal :=
  minDecimal (input.maxResults.getD (policyMaxResults policy)) (policyMaxResults policy)

end

def collapseWhitespace (inRun : Bool) : JsString → JsString
  | [] => []
  | c :: cs =>
    if isWhitespace c then (if inRun then [] else [0x20]) ++ collapseWhitespace true cs
    else c :: collapseWhitespace false cs

section

variable (toLowerCase : JsString → JsString)

def normalizedQuery (query : JsString) : JsString :=
  collapseWhitespace false (toLowerCase (trim query))

section

variable (input : LiteratureSearchToolInput) (providers : List LiteratureProviderId)
  (maxResults : Decimal)

/-- The members of the record whose text is the cache key. -/
def cacheKeyMembers : List (String × Option Tree) :=
  [("providers", some (.arr ((providers.map (·.text)).mergeSort.map .str))),
    ("query", some (.str (normalizedQuery toLowerCase input.query))),
    ("maxResults", some (.num maxResults)), ("fromYear", input.fromYear.map .num),
    ("toYear", input.toYear.map .num), ("fieldOfStudy", input.fieldOfStudy.map .str),
    ("includePreprints", input.includePreprints.map .bool),
    ("includeBiomedical", input.includeBiomedical.map .bool)]

def stableCacheKey : JsString :=
  (record (cacheKeyMembers toLowerCase input providers maxResults)).print

end

end

structure LiteratureProviderRequest where
  query : JsString
  maxResults : Decimal
  fromYear : Option Decimal
  toYear : Option Decimal
  fieldOfStudy : Option JsString
  includePreprints : Option Bool
  includeBiomedical : Option Bool

structure LiteratureProviderResult (α : Type) where
  candidates : List α
  warnings : List JsString

inductive LiteratureProviderStatus where
  | success
  | failed
  deriving DecidableEq

structure LiteratureProviderRunSummary where
  provider : LiteratureProviderId
  status : LiteratureProviderStatus
  candidateCount : Nat
  warnings : List JsString
  error : Option JsString := none
  deriving DecidableEq

structure LiteratureSearchToolOutput (β : Type) where
  retrievalRunId : JsString
  providers : List LiteratureProviderRunSummary
  artifactRefs : List ArtifactRef
  candidatesPreview : List β
  warnings : List JsString

/-- The value whose text is the content of an artifact. -/
structure LiteratureSearchContent (α β : Type) where
  retrievalRunId : JsString
  input : LiteratureSearchToolInput
  cacheKey : JsString
  providers : List LiteratureProviderRunSummary
  candidates : List α
  warnings : List JsString
  output : Option (LiteratureSearchToolOutput β) := none

/-- An artifact of literature search results, its content by value. -/
structure LiteratureArtifact (α β : Type) extends ArtifactRef where
  content : LiteratureSearchContent α β
  createdAt : JsString
  updatedAt : JsString

/-- `ACADEMIC_ARTIFACT_KINDS.literatureSearchResults`. -/
def literatureResultsKind : JsString := js "literature-search-results"

/-- How candidates are merged and ranked for a query, and shown in a preview. -/
structure CandidateRanking (α β : Type) where
  dedupeAndRankCandidates : List α → JsString → List α
  toCandidateBrief : α → β

/-- What a call meets: the clock, the id that is drawn, and what the providers answer. -/
structure LiteratureWorld (α : Type) where
  dateNow : Nat
  uuid : JsString
  createdAt : JsString
  updatedAt : JsString
  search : LiteratureProviderId → LiteratureProviderRequest →
    Except JsString (LiteratureProviderResult α)

/-- What a call returns, with the requests that it made of the providers. -/
structure LiteratureAnswer (β : Type) where
  text : JsString
  details : LiteratureSearchToolOutput β
  requests : List (LiteratureProviderId × LiteratureProviderRequest) := []

section

variable {α β : Type} (toLowerCase : JsString → JsString) (ranking : CandidateRanking α β)
  (rootDir : JsString)

/-- The artifact that `create` makes. -/
def newLiteratureArtifact (title : JsString) (content : LiteratureSearchContent α β)
    (metadata : JsonObject) (id now : JsString) : LiteratureArtifact α β where
  id := id
  kind := literatureResultsKind
  uri := js "file://" ++ Path.join [rootDir, id ++ js ".artifact"]
  title := some title
  mediaType := some (js "application/json")
  version := some (js "v1")
  metadata := some metadata
  content := content
  createdAt := now
  updatedAt := now

section

variable (artifacts : List (LiteratureArtifact α β))

/-- `FileSystemArtifactStore.create`, for an artifact of the tool. -/
def createLiteratureArtifact (title : JsString)
    (content : LiteratureSearchContent α β) (metadata : JsonObject) (id now : JsString) :
    List (LiteratureArtifact α β) × LiteratureArtifact α β :=
  let artifact := newLiteratureArtifact rootDir title content metadata id now
  (artifacts ++ [artifact], artifact)

def LiteratureArtifact.updated (current : LiteratureArtifact α β)
    (content : LiteratureSearchContent α β) (metadata : Option JsonObject) (now : JsString) :
    LiteratureArtifact α β :=
  { current with
    content
    metadata := metadata.or current.metadata
    version := some (nextVersion current.version)
    updatedAt := now }

/-- `FileSystemArtifactStore.update`, for an artifact of the tool. -/
def updateLiteratureArtifact (id : JsString)
    (content : LiteratureSearchContent α β) (metadata : Option JsonObject) (now : JsString) :
    Except JsString (List (LiteratureArtifact α β)) :=
  match artifacts.findIdx? (·.id = id) with
  | none => .error (FileSystemArtifactStore.notFound id)
  | some index =>
    match artifacts[index]? with
    | none => .error (FileSystemArtifactStore.notFound id)
    | some current => .ok (artifacts.set index (current.updated content metadata now))

def cachedOutput (cacheKey : JsString) : Option (LiteratureSearchToolOutput β) :=
  (artifacts.find? fun artifact =>
    (artifact.metadata.bind fun metadata => field "cacheKey" (.obj metadata)) =
      some (.str cacheKey)).bind (·.content.output)

end

def providerSummary (provider : LiteratureProviderId) :
    Except JsString (LiteratureProviderResult α) → LiteratureProviderRunSummary
  | .ok result => {
      provider
      status := .success
      candidateCount := result.candidates.length
      warnings := result.warnings }
  | .error error => { provider, status := .failed, candidateCount := 0, warnings := [], error }

def runCandidates : Except JsString (LiteratureProviderResult α) → List α
  | .ok result => result.candidates
  | .error _ => []

def runWarnings (provider : LiteratureProviderId) :
    Except JsString (LiteratureProviderResult α) → List JsString
  | .ok result => result.warnings
  | .error error => [provider.text ++ js ": " ++ error]

def providerRequest (input : LiteratureSearchToolInput) (maxResults : Decimal) :
    LiteratureProviderRequest where
  query := input.query
  maxResults := maxResults
  fromYear := input.fromYear
  toYear := input.toYear
  fieldOfStudy := input.fieldOfStudy
  includePreprints := input.includePreprints
  includeBiomedical := input.includeBiomedical

/-- What the providers find for a call, as it is first stored. -/
def searchProviders (input : LiteratureSearchToolInput) (providers : List LiteratureProviderId)
    (maxResults : Decimal) (world : LiteratureWorld α) : LiteratureSearchContent α β :=
  let runs := providers.map fun provider =>
    (provider, world.search provider (providerRequest input maxResults))
  { retrievalRunId := js "literature-" ++ decimalText world.dateNow
    input
    cacheKey := stableCacheKey toLowerCase input providers maxResults
    providers := runs.map fun run => providerSummary run.1 run.2
    candidates := ranking.dedupeAndRankCandidates (runs.flatMap fun run => runCandidates run.2)
      input.query
    warnings := runs.flatMap fun run => runWarnings run.1 run.2 }

def searchMetadata (content : LiteratureSearchContent α β)
    (providers : List LiteratureProviderId) : JsonObject :=
  [(js "retrievalRunId", .str content.retrievalRunId), (js "cacheKey", .str content.cacheKey),
    (js "query", .str content.input.query),
    (js "providers", .arr (providers.map fun provider => .str provider.text))]

def searchOutput (content : LiteratureSearchContent α β) (artifact : LiteratureArtifact α β) :
    LiteratureSearchToolOutput β where
  retrievalRunId := content.retrievalRunId
  providers := content.providers
  artifactRefs := [artifact.toArtifactRef]
  candidatesPreview := (content.candidates.take 10).map ranking.toCandidateBrief
  warnings := content.warnings

/-- The id of the first artifact of an output, for a text. -/
def firstArtifactId (output : LiteratureSearchToolOutput β) : JsString :=
  (output.artifactRefs.head?.map (·.id)).getD (js "(none)")

/-- The `brief` of `artifactBriefFor`. -/
def searchBrief (output : LiteratureSearchToolOutput β) : JsString :=
  js "Retrieved " ++ decimalText output.candidatesPreview.length ++
    js " preview candidates across " ++ decimalText output.providers.length ++ js " providers."

/-- Ask the providers, store what they find and answer. -/
def searchFresh (policy : LiteratureSearchToolPolicy) (artifacts : List (LiteratureArtifact α β))
    (input : LiteratureSearchToolInput) (providers : List LiteratureProviderId)
    (world : LiteratureWorld α) :
    List (LiteratureArtifact α β) × Except JsString (LiteratureAnswer β) :=
  let maxResults := maxResultsFor policy input
  let content := searchProviders toLowerCase ranking input providers maxResults world
  let (created, artifact) := createLiteratureArtifact rootDir artifacts
    (js "Literature search: " ++ input.query) content (searchMetadata content providers)
    world.uuid world.createdAt
  let output := searchOutput ranking content artifact
  match updateLiteratureArtifact created artifact.id { content with output := some output }
    artifact.metadata world.updatedAt with
  | .error message => (created, .error message)
  | .ok updated =>
    if policy.requireArtifactOutput = some true ∧ output.artifactRefs = [] then
      (updated, .error (js "Literature search did not produce an artifact."))
    else (updated, .ok {
      text := searchBrief output ++ js "\nArtifact: " ++ firstArtifactId output
      details := output
      requests := providers.map fun provider => (provider, providerRequest input maxResults) })

/-- `execute`, for a call by its number. -/
def literatureSearch (policy : LiteratureSearchToolPolicy) (callCount : Nat)
    (artifacts : List (LiteratureArtifact α β)) (input : LiteratureSearchToolInput)
    (world : LiteratureWorld α) :
    List (LiteratureArtifact α β) × Except JsString (LiteratureAnswer β) :=
  match checkCall policy callCount input with
  | .error message => (artifacts, .error message)
  | .ok providers =>
    let cacheKey := stableCacheKey toLowerCase input providers (maxResultsFor policy input)
    match if input.refresh = some true then none else cachedOutput artifacts cacheKey with
    | some cached => (artifacts, .ok {
        text := js "Reused cached literature search artifact: " ++ firstArtifactId cached
        details := cached })
    | none => searchFresh toLowerCase ranking rootDir policy artifacts input providers world

end

end AcademicAgent.LeadAgent
