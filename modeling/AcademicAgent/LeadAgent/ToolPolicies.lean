import AcademicAgent.Core.Json.Codec
import AcademicAgent.LeadAgent.LiteratureSearch
import AcademicAgent.LeadAgent.Routing
import Mathlib.Algebra.Order.Archimedean.Basic

/-!
# The tool policies of workers

The default runner makes one literature tool for all workers of a run and gives it no policy,
so that the tool keeps to its own limits only.
-/

namespace AcademicAgent

open List Option

theorem Decimal.value_ofInt (n : Int) : (Decimal.ofInt n).value = n := by
  have hint := Decimal.toInt?_ofInt n
  rw [toInt?] at hint
  split at hint
  · next hexponent =>
    have hvalue : (n : ℚ) = (ofInt n).mantissa * 10 ^ (ofInt n).exponent.toNat := by
      exact_mod_cast (some.inj hint).symm
    rw [value, hvalue, ← zpow_natCast, Int.toNat_of_nonneg hexponent]
  · cases hint

namespace LeadAgent

variable {providers : List LiteratureProviderId}

open Json

def numberMember (key : String) (value : Tree) : Option Decimal :=
  match field key value with
  | some (.num n) => some n
  | _ => none

def stringsMember (key : String) (value : Tree) : Option (List JsString) :=
  match field key value with
  | some (.arr xs) => some (stringArrayFrom (some (.arr xs)))
  | _ => none

namespace WorkerProfile

variable (profile : WorkerProfile)

def allowedTools : Option (List JsString) := stringsMember "allowedTools" (.obj profile.rest)

def toolPolicy : Option LiteratureSearchToolPolicy :=
  (field "toolPolicy" (.obj profile.rest)).map fun policy => {
    maxCalls := numberMember "maxCalls" policy
    defaultProviders := stringsMember "defaultProviders" policy
    allowedProviders := stringsMember "allowedProviders" policy
    maxResultsPerProvider := numberMember "maxResultsPerProvider" policy
    requireArtifactOutput := booleanMember "requireArtifactOutput" policy
    allowRefresh := booleanMember "allowRefresh" policy }

end WorkerProfile

structure ProfileWorker where
  workerType : JsString
  profile : Option WorkerProfile

def workerForProfile (profiles : List WorkerProfile) (profileId : JsString) : ProfileWorker where
  workerType := profileId
  profile := profiles.find? (·.id = profileId)

inductive ProfileRunner where
  | literature
  | structured
  | unhandled
  deriving DecidableEq

def structuredProfileIds : List JsString :=
  [js "researcher", js "citation-checker", js "reviewer", js "writer", js "reviser",
    js "method-auditor"]

def literatureSearcher : JsString := js "literature-searcher"

section

variable (worker : ProfileWorker)

/-- `createProfileWorkerDispatcher`. -/
def profileRunnerFor : ProfileRunner :=
  let profileId := (worker.profile.map (·.id)).getD worker.workerType
  if profileId = literatureSearcher then .literature
  else if profileId ∈ structuredProfileIds then .structured
  else .unhandled

/-- The name of the tool of the literature runner. -/
def literatureToolName : JsString := js "literature.search"

/-- The tools that the profile of a worker allows. -/
def allowedToolsOf : List JsString :=
  (worker.profile.bind (·.allowedTools)).getD []

/-- The first of the allowed tools that the literature runner does not have. -/
def validateAllowedTools : Option JsString :=
  ((allowedToolsOf worker).find? (· ≠ literatureToolName)).map (js "Unknown allowed tool: " ++ ·)

/-- Whether a worker gets a session with the literature tool: without allowed tools it has
none. -/
def hasLiteratureTool : Bool :=
  profileRunnerFor worker = .literature && (validateAllowedTools worker).isNone &&
    decide (literatureToolName ∈ allowedToolsOf worker)

end

structure ServedCall (β : Type) where
  worker : Nat
  input : LiteratureSearchToolInput
  answer : LiteratureAnswer β

/-- The workers that were started, the calls of the tool and its store. -/
structure DefaultRunnerState (α β : Type) where
  workers : List ProfileWorker := []
  callCount : Nat := 0
  artifacts : List (LiteratureArtifact α β) := []
  served : List (ServedCall β) := []

inductive DefaultRunnerAction (α : Type) where
  | start (profileId : JsString)
  | search (worker : Nat) (input : LiteratureSearchToolInput) (world : LiteratureWorld α)

section

variable {α β : Type} (toLowerCase : JsString → JsString) (ranking : CandidateRanking α β)
  (rootDir : JsString) (profiles : List WorkerProfile)

/-- A step of a run with the one tool of the default runner, which has no policy. -/
def DefaultRunnerState.step (s : DefaultRunnerState α β) :
    DefaultRunnerAction α → Option (DefaultRunnerState α β)
  | .start profileId => some { s with workers := s.workers ++ [workerForProfile profiles profileId] }
  | .search worker input world =>
    match s.workers[worker]?.filter hasLiteratureTool with
    | none => none
    | some _ =>
      let (artifacts, answer) := literatureSearch toLowerCase ranking rootDir {} (s.callCount + 1)
        s.artifacts input world
      some { s with
        callCount := s.callCount + 1
        artifacts
        served := s.served ++ (answer.toOption.map fun answer => { worker, input, answer }).toList }

structure PolicyKept (policy : LiteratureSearchToolPolicy) (calls : List (ServedCall β)) :
    Prop where
  maxCalls : ∀ limit, policy.maxCalls = some limit → calls ≠ [] →
    (Decimal.ofInt calls.length).le limit = true
  allowedProviders : ∀ allowed, policy.allowedProviders = some allowed →
    ∀ call ∈ calls, ∀ request ∈ call.answer.requests, request.1.text ∈ allowed
  maxResultsPerProvider : ∀ limit, policy.maxResultsPerProvider = some limit →
    ∀ call ∈ calls, ∀ request ∈ call.answer.requests, request.2.maxResults.le limit = true
  allowRefresh : policy.allowRefresh ≠ some true →
    ∀ call ∈ calls, call.input.refresh ≠ some true

/-- Every worker keeps to the policy of its profile. -/
def PoliciesKept (s : DefaultRunnerState α β) : Prop :=
  ∀ (i : Nat) worker profile policy, s.workers[i]? = some worker → worker.profile = some profile →
    profile.toolPolicy = some policy → PolicyKept policy (s.served.filter (·.worker = i))

/-- A policy that allows what the tool without a policy allows. -/
structure Unrestricting (policy : LiteratureSearchToolPolicy) : Prop where
  maxCalls : policy.maxCalls = none
  allowedProviders : ∀ allowed, policy.allowedProviders = some allowed →
    ∀ provider : LiteratureProviderId, provider.text ∈ allowed
  maxResultsPerProvider : ∀ limit, policy.maxResultsPerProvider = some limit →
    (Decimal.ofInt 10).le limit = true

/-- The policy of the searcher's profile, when it has the literature tool. -/
def searcherPolicy : Option LiteratureSearchToolPolicy :=
  if hasLiteratureTool (workerForProfile profiles literatureSearcher) then
    (workerForProfile profiles literatureSearcher).profile.bind (·.toolPolicy)
  else none

end

section

variable {α β : Type} {toLowerCase : JsString → JsString} {ranking : CandidateRanking α β}
  {rootDir : JsString} {artifacts : List (LiteratureArtifact α β)}
  {input : LiteratureSearchToolInput} {world : LiteratureWorld α} {callCount : Nat}

theorem minDecimal_le (a b : Decimal) : (minDecimal a b).le b = true := by
  unfold minDecimal
  split
  · assumption
  · exact (Decimal.le_iff_value _ _).mpr (le_refl _)

variable (artifacts) in
theorem updateLiteratureArtifact_ok {id : JsString} (hmem : ∃ artifact ∈ artifacts, artifact.id = id)
    (content : LiteratureSearchContent α β) (metadata : Option JsonObject) (now : JsString) :
    ∃ updated, updateLiteratureArtifact artifacts id content metadata now = .ok updated := by
  rw [updateLiteratureArtifact]
  cases hindex : artifacts.findIdx? (·.id = id) with
  | none =>
    obtain ⟨artifact, hartifact, hid⟩ := hmem
    have hnot := findIdx?_eq_none_iff.mp hindex artifact hartifact
    exact absurd hid (by simpa using hnot)
  | some index =>
    obtain ⟨hlt, -⟩ := findIdx?_eq_some_iff_getElem.mp hindex
    dsimp only
    rw [getElem?_eq_getElem hlt]
    exact ⟨_, rfl⟩

variable (toLowerCase ranking rootDir artifacts input world) in
theorem searchFresh_requests (policy : LiteratureSearchToolPolicy)
    (providers : List LiteratureProviderId) :
    ∃ updated answer,
      searchFresh toLowerCase ranking rootDir policy artifacts input providers world =
        (updated, .ok answer) ∧
      answer.requests = providers.map fun provider =>
        (provider, providerRequest input (maxResultsFor policy input)) := by
  rw [searchFresh]
  dsimp only [createLiteratureArtifact]
  generalize newLiteratureArtifact rootDir _ _ _ world.uuid world.createdAt = artifact
  obtain ⟨updated, hupdated⟩ := updateLiteratureArtifact_ok (artifacts ++ [artifact])
    ⟨artifact, mem_append_right _ (mem_singleton_self _), rfl⟩ _ artifact.metadata
    world.updatedAt
  rw [hupdated]
  dsimp only
  rw [if_neg (fun h => by cases h.2)]
  exact ⟨_, _, rfl, rfl⟩

variable (toLowerCase ranking rootDir artifacts world) in
theorem literatureSearch_returns {policy : LiteratureSearchToolPolicy}
    (h : checkCall policy callCount input = .ok providers) :
    ∃ updated answer,
      literatureSearch toLowerCase ranking rootDir policy callCount artifacts input world =
        (updated, .ok answer) ∧
      (answer.requests = (providers.map fun provider =>
          (provider, providerRequest input (maxResultsFor policy input))) ∨
        answer.requests = [] ∧ artifacts ≠ []) := by
  rw [literatureSearch, h]
  dsimp only
  split
  · next cached hcached =>
    refine ⟨_, _, rfl, .inr ⟨rfl, ?_⟩⟩
    rintro rfl
    split at hcached
    · cases hcached
    · cases hcached
  · obtain ⟨updated, answer, hfresh, hrequests⟩ := searchFresh_requests toLowerCase ranking
      rootDir artifacts input world policy providers
    exact ⟨updated, answer, hfresh, .inl hrequests⟩

theorem literatureSearch_unlimited {answer : LiteratureAnswer β}
    (h : (literatureSearch toLowerCase ranking rootDir {} callCount artifacts input world).2 =
      .ok answer) : input.refresh ≠ some true ∧
      ∀ request ∈ answer.requests, request.2.maxResults.le (.ofInt 10) = true := by
  cases hcheck : checkCall {} callCount input with
  | error message =>
    rw [literatureSearch, hcheck] at h
    cases h
  | ok providers =>
    refine ⟨fun hrefresh => ?_, fun request hrequest => ?_⟩
    · rw [checkCall, exceededLimit] at hcheck
      rw [if_pos ⟨hrefresh, by decide⟩] at hcheck
      cases hcheck
    · obtain ⟨updated, answer', hcall, hrequests⟩ := literatureSearch_returns toLowerCase
        ranking rootDir artifacts world hcheck
      rw [hcall] at h
      cases h
      rcases hrequests with hrequests | ⟨hrequests, -⟩
      · rw [hrequests] at hrequest
        obtain ⟨provider, -, rfl⟩ := mem_map.mp hrequest
        exact minDecimal_le _ _
      · rw [hrequests] at hrequest
        cases hrequest

end

section

variable {α β : Type} (toLowerCase : JsString → JsString) (ranking : CandidateRanking α β)
  (rootDir : JsString) (profiles : List WorkerProfile)

variable {s : DefaultRunnerState α β}

/-- What the calls of a run keep to: only workers with the tool call it, none refreshes and
none asks for more than ten results. -/
structure DefaultRunnerState.Sound (s : DefaultRunnerState α β) : Prop where
  workers : ∀ worker ∈ s.workers, ∃ profileId, worker = workerForProfile profiles profileId
  served : ∀ call ∈ s.served,
    (∃ worker, s.workers[call.worker]? = some worker ∧ hasLiteratureTool worker = true) ∧
    call.input.refresh ≠ some true ∧
    ∀ request ∈ call.answer.requests, request.2.maxResults.le (.ofInt 10) = true

theorem DefaultRunnerState.Sound.step {t : DefaultRunnerState α β} {action : DefaultRunnerAction α}
    (h : s.Sound profiles) (hstep : s.step toLowerCase ranking rootDir profiles action = some t) :
    t.Sound profiles := by
  cases action with
  | start profileId =>
    cases hstep
    refine ⟨fun worker hworker => ?_, fun call hcall => ?_⟩
    · rcases mem_append.mp hworker with hworker | hworker
      · exact h.workers worker hworker
      · exact ⟨profileId, mem_singleton.mp hworker⟩
    · obtain ⟨⟨worker, hworker, htool⟩, hrest⟩ := h.served call hcall
      have hlt := (List.getElem?_eq_some_iff.mp hworker).1
      exact ⟨⟨worker, by rw [getElem?_append_left hlt]; exact hworker, htool⟩, hrest⟩
  | search i input world =>
    rw [DefaultRunnerState.step] at hstep
    cases hworker : s.workers[i]?.filter hasLiteratureTool with
    | none =>
      rw [hworker] at hstep
      cases hstep
    | some worker =>
      rw [hworker] at hstep
      generalize hresult : literatureSearch toLowerCase ranking rootDir {} (s.callCount + 1)
        s.artifacts input world = result at hstep
      obtain ⟨artifacts, answer⟩ := result
      cases hstep
      obtain ⟨hworker, htool⟩ := filter_eq_some_iff.mp hworker
      refine ⟨h.workers, fun call hcall => ?_⟩
      rcases mem_append.mp hcall with hcall | hcall
      · exact h.served call hcall
      · cases answer with
        | error message => cases hcall
        | ok answer =>
          cases mem_singleton.mp hcall
          exact ⟨⟨worker, hworker, htool⟩, literatureSearch_unlimited (congrArg Prod.snd hresult)⟩

theorem hasLiteratureTool_profile {profileId : JsString} {profile : WorkerProfile}
    (hprofile : (workerForProfile profiles profileId).profile = some profile)
    (htool : hasLiteratureTool (workerForProfile profiles profileId) = true) :
    profileId = literatureSearcher := by
  have hid : profile.id = profileId := by
    have hfound := find?_some hprofile
    simpa using hfound
  rw [hasLiteratureTool, Bool.and_eq_true, Bool.and_eq_true, decide_eq_true_eq] at htool
  have hrunner := htool.1.1
  rw [profileRunnerFor, hprofile] at hrunner
  split at hrunner
  · next hsearcher => exact hid.symm.trans hsearcher
  · split at hrunner
    · cases hrunner
    · cases hrunner

theorem DefaultRunnerState.Sound.policiesKept (h : s.Sound profiles)
    (hpolicy : ∀ policy, searcherPolicy profiles = some policy → Unrestricting policy) :
    PoliciesKept s := by
  intro i worker profile policy hworker hprofile htoolPolicy
  have hcalled : ∀ call ∈ s.served.filter (·.worker = i), Unrestricting policy := by
    intro call hcall
    obtain ⟨hcall, hi⟩ := mem_filter.mp hcall
    obtain ⟨⟨caller, hcaller, htool⟩, -⟩ := h.served call hcall
    rw [of_decide_eq_true hi, hworker] at hcaller
    cases hcaller
    obtain ⟨profileId, rfl⟩ := h.workers worker (mem_of_getElem? hworker)
    have hsearcher := hasLiteratureTool_profile profiles hprofile htool
    subst hsearcher
    refine hpolicy policy ?_
    rw [searcherPolicy, if_pos htool, hprofile]
    exact htoolPolicy
  have hserved : ∀ call ∈ s.served.filter (·.worker = i), call ∈ s.served :=
    fun call hcall => (mem_filter.mp hcall).1
  refine ⟨fun limit hlimit hcalls => ?_, fun allowed hallowed call hcall request _ => ?_,
    fun limit hlimit call hcall request hrequest => ?_, fun _ call hcall => ?_⟩
  · obtain ⟨call, hcall⟩ := exists_mem_of_ne_nil _ hcalls
    rw [(hcalled call hcall).maxCalls] at hlimit
    cases hlimit
  · exact (hcalled call hcall).allowedProviders allowed hallowed request.1
  · exact Decimal.le_trans ((h.served call (hserved call hcall)).2.2 request hrequest)
      ((hcalled call hcall).maxResultsPerProvider limit hlimit)
  · exact (h.served call (hserved call hcall)).2.1

def silentWorld : LiteratureWorld α where
  dateNow := 0
  uuid := []
  createdAt := []
  updatedAt := []
  search _ _ := .error []

theorem run_searches {input : LiteratureSearchToolInput}
    (hallowed : ∀ callCount, checkCall {} callCount input = .ok providers) {worker : ProfileWorker}
    (htool : hasLiteratureTool worker = true) (n : Nat) (hworkers : s.workers = [worker])
    (hserved : ∀ call ∈ s.served, call.worker = 0) :
    ∃ t, run (DefaultRunnerState.step toLowerCase ranking rootDir profiles) s
        (replicate n (.search 0 input silentWorld)) = some t ∧
      t.workers = [worker] ∧ t.served.length = s.served.length + n ∧
      ∀ call ∈ t.served, call.worker = 0 := by
  induction n generalizing s with
  | zero => exact ⟨s, rfl, hworkers, rfl, hserved⟩
  | succ n ih =>
    obtain ⟨updated, answer, hcall, -⟩ := literatureSearch_returns toLowerCase ranking rootDir
      s.artifacts silentWorld (hallowed (s.callCount + 1))
    have hstep : s.step toLowerCase ranking rootDir profiles (.search 0 input silentWorld) =
        some { s with
          callCount := s.callCount + 1
          artifacts := updated
          served := s.served ++ [{ worker := 0, input, answer }] } := by
      rw [DefaultRunnerState.step, hworkers]
      dsimp only [getElem?_cons_zero]
      rw [filter_some_pos htool, hcall]
      rfl
    obtain ⟨t, hrun, hworkers', hlength, hserved'⟩ := ih (s := { s with
      callCount := s.callCount + 1
      artifacts := updated
      served := s.served ++ [{ worker := 0, input, answer }] }) hworkers (by
        intro call hmem
        rcases mem_append.mp hmem with hmem | hmem
        · exact hserved call hmem
        · rw [mem_singleton.mp hmem])
    refine ⟨t, ?_, hworkers', ?_, hserved'⟩
    · rw [replicate_succ, run_cons_eq_some]
      exact ⟨_, hstep, hrun⟩
    · rw [hlength, length_append, length_singleton]
      omega

theorem checkCall_unlimited (callCount : Nat) :
    checkCall {} callCount { query := [] } = .ok providerIds ∧
      ∀ provider, checkCall {} callCount { query := [], providers := some [provider] } =
        .ok [provider] := by
  have hlimit : exceededLimit {} callCount = none := rfl
  refine ⟨?_, fun provider => ?_⟩
  · rw [checkCall, hlimit]
    decide
  · rw [checkCall, hlimit]
    cases provider <;> decide

theorem run_start_searches
    (htool : hasLiteratureTool (workerForProfile profiles literatureSearcher) = true) (n : Nat) :
    ∃ t : DefaultRunnerState α β,
      run (DefaultRunnerState.step toLowerCase ranking rootDir profiles) {}
        (.start literatureSearcher ::
          replicate n (.search 0 { query := [] } silentWorld)) = some t ∧
      t.workers = [workerForProfile profiles literatureSearcher] ∧
      (t.served.filter (·.worker = 0)).length = n := by
  obtain ⟨t, hrun, hworkers, hlength, hserved⟩ := run_searches toLowerCase ranking rootDir
    profiles (fun callCount => (checkCall_unlimited callCount).1) htool n
    (s := { workers := [workerForProfile profiles literatureSearcher] }) rfl
    (fun call hcall => by cases hcall)
  have hall : t.served.filter (·.worker = 0) = t.served :=
    filter_eq_self.mpr fun call hcall => decide_eq_true (hserved call hcall)
  refine ⟨t, run_cons_eq_some.mpr ⟨_, rfl, hrun⟩, hworkers, ?_⟩
  rw [hall, hlength]
  exact Nat.zero_add n

theorem run_search {input : LiteratureSearchToolInput}
    (hallowed : checkCall {} 1 input = .ok providers)
    (htool : hasLiteratureTool (workerForProfile profiles literatureSearcher) = true) :
    ∃ (t : DefaultRunnerState α β) (call : ServedCall β),
      run (DefaultRunnerState.step toLowerCase ranking rootDir profiles) {}
        [.start literatureSearcher, .search 0 input silentWorld] = some t ∧
      t.workers = [workerForProfile profiles literatureSearcher] ∧
      call ∈ t.served.filter (·.worker = 0) ∧
      call.answer.requests = providers.map fun provider =>
        (provider, providerRequest input (maxResultsFor {} input)) := by
  obtain ⟨updated, answer, hcall, hrequests⟩ := literatureSearch_returns toLowerCase ranking
    rootDir ([] : List (LiteratureArtifact α β)) silentWorld hallowed
  have hstep : DefaultRunnerState.step toLowerCase ranking rootDir profiles
      { workers := [workerForProfile profiles literatureSearcher] }
        (.search 0 input silentWorld) = some {
          workers := [workerForProfile profiles literatureSearcher]
          callCount := 1
          artifacts := updated
          served := [{ worker := 0, input, answer }] } := by
    rw [DefaultRunnerState.step]
    dsimp only [getElem?_cons_zero]
    rw [filter_some_pos htool]
    rw [hcall]
    rfl
  have hrun := run_cons_eq_some.mpr ⟨_, hstep, run_nil _ _⟩
  refine ⟨_, _, run_cons_eq_some.mpr ⟨_, rfl, hrun⟩, rfl, mem_cons_self, ?_⟩
  · rcases hrequests with hrequests | ⟨-, hne⟩
    · exact hrequests
    · exact absurd rfl hne

/-- Every run keeps the policies of its workers exactly when the searcher's policy, if it has
one and the tool, allows what the tool of the runner allows. -/
theorem policies_kept_iff :
    (∀ (artifacts : List (LiteratureArtifact α β)) (actions : List (DefaultRunnerAction α)) t,
      run (DefaultRunnerState.step toLowerCase ranking rootDir profiles) { artifacts } actions =
        some t → PoliciesKept t) ↔
    ∀ policy, searcherPolicy profiles = some policy → Unrestricting policy := by
  constructor
  · intro hkept policy hpolicy
    have htool : hasLiteratureTool (workerForProfile profiles literatureSearcher) = true := by
      rw [searcherPolicy] at hpolicy
      by_contra hnone
      rw [if_neg hnone] at hpolicy
      cases hpolicy
    rw [searcherPolicy, if_pos htool] at hpolicy
    obtain ⟨profile, hprofile, htoolPolicy⟩ := Option.bind_eq_some_iff.mp hpolicy
    have hkeeps {actions : List (DefaultRunnerAction α)} {t : DefaultRunnerState α β}
        (hrun : run (DefaultRunnerState.step toLowerCase ranking rootDir profiles) {} actions =
          some t) (hworkers : t.workers = [workerForProfile profiles literatureSearcher]) :
        PolicyKept policy (t.served.filter (·.worker = 0)) := by
      refine hkept [] actions t hrun 0 _ profile policy ?_ hprofile htoolPolicy
      rw [hworkers]
      rfl
    refine ⟨?_, fun allowed hallowed provider => ?_, fun limit hlimit => ?_⟩
    · refine Option.eq_none_iff_forall_ne_some.mpr fun limit hlimit => ?_
      obtain ⟨n, hn⟩ := exists_nat_gt limit.value
      obtain ⟨t, hrun, hworkers, hlength⟩ :=
        run_start_searches toLowerCase ranking rootDir profiles htool (n + 1)
      have hle := (hkeeps hrun hworkers).maxCalls limit hlimit (ne_nil_of_length_pos (by omega))
      rw [hlength, Decimal.le_iff_value, Decimal.value_ofInt] at hle
      push_cast at hle
      linarith
    · obtain ⟨t, call, hrun, hworkers, hcall, hrequests⟩ := run_search toLowerCase ranking rootDir
        profiles ((checkCall_unlimited 1).2 provider) htool
      obtain ⟨request, hrequest, hprovider⟩ :
          ∃ request ∈ call.answer.requests, request.1 = provider := by
        rw [hrequests]
        exact ⟨_, mem_cons_self, rfl⟩
      rw [← hprovider]
      exact (hkeeps hrun hworkers).allowedProviders allowed hallowed call hcall request hrequest
    · obtain ⟨t, call, hrun, hworkers, hcall, hrequests⟩ := run_search toLowerCase ranking rootDir
        profiles (checkCall_unlimited 1).1 htool
      refine (hkeeps hrun hworkers).maxResultsPerProvider limit hlimit call hcall
        (.crossref, providerRequest { query := [] } (maxResultsFor {} { query := [] })) ?_
      rw [hrequests]
      exact mem_cons_self
  · intro hpolicy artifacts actions t hrun
    have hstart : DefaultRunnerState.Sound profiles ({ artifacts } : DefaultRunnerState α β) := by
      refine ⟨fun worker hworker => ?_, fun call hcall => ?_⟩
      · cases hworker
      · cases hcall
    have hsound : t.Sound profiles :=
      Reachable.invariant (fun s action u h hstep =>
        h.step toLowerCase ranking rootDir profiles hstep) hstart ⟨actions, hrun⟩
    exact hsound.policiesKept profiles hpolicy

end

/-- The searcher's profile with a policy of one call. -/
def oneCallProfile : WorkerProfile where
  id := literatureSearcher
  rest := [(js "allowedTools", .arr [.str literatureToolName]),
    (js "toolPolicy", .obj [(js "maxCalls", .num (.ofInt 1))])]

/-- A policy of one call is not kept. -/
theorem policies_not_kept :
    ¬ ∀ (toLowerCase : JsString → JsString) (ranking : CandidateRanking JsString JsString)
      (rootDir : JsString) (profiles : List WorkerProfile)
      (artifacts : List (LiteratureArtifact JsString JsString))
      (actions : List (DefaultRunnerAction JsString)) (t : DefaultRunnerState JsString JsString),
      run (DefaultRunnerState.step toLowerCase ranking rootDir profiles) { artifacts } actions =
        some t → PoliciesKept t := by
  intro h
  have htool : hasLiteratureTool (workerForProfile [oneCallProfile] literatureSearcher) = true := by
    decide
  obtain ⟨t, hrun, hworkers, hlength⟩ := run_start_searches id
    ⟨fun candidates _ => candidates, id⟩ [] [oneCallProfile] htool 2
  have hkept := h id ⟨fun candidates _ => candidates, id⟩ [] [oneCallProfile] [] _ t hrun 0 _
    oneCallProfile { maxCalls := some (.ofInt 1) } (by rw [hworkers]; rfl) rfl rfl
  have hle := hkept.maxCalls (.ofInt 1) rfl (ne_nil_of_length_pos (by omega))
  rw [hlength] at hle
  exact absurd hle (by decide)

end LeadAgent

end AcademicAgent
