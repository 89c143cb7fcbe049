import AcademicAgent.LeadAgent.LiteratureSearch

/-!
# Literature results and the store

The answer of a call names its artifact as it was before the answer was stored in it, so its
references are one version behind the store, now and whenever the answer is served again.
-/

namespace AcademicAgent.LeadAgent

open Json List Tree
open Option (map_injective some.inj)

section

variable {α β : Type} (text : LiteratureSearchContent α β → JsString)

def LiteratureArtifact.toStored (artifact : LiteratureArtifact α β) : StoredArtifact :=
  { artifact.toArtifactRef with
    content := text artifact.content
    createdAt := artifact.createdAt
    updatedAt := artifact.updatedAt
    lineage := [] }

section

variable {store : FileSystemArtifactStore} (directory : Directory)
  {artifacts : List (LiteratureArtifact α β)}

theorem create_toStored
    (h : store.data.artifacts = artifacts.map (·.toStored text)) (title : JsString)
    (content : LiteratureSearchContent α β) (metadata : JsonObject) (id now : JsString) :
    (store.create directory {
      kind := literatureResultsKind
      content := text content
      title := some title
      mediaType := some (js "application/json")
      metadata := some metadata } id now).1.data.artifacts =
        (createLiteratureArtifact store.rootDir artifacts title content metadata id now).1.map
          (·.toStored text) := by
  rw [FileSystemArtifactStore.create, createLiteratureArtifact, map_append, ← h]
  rfl

theorem update_toStored (h : store.data.artifacts = artifacts.map (·.toStored text)) (id : JsString)
    (content : LiteratureSearchContent α β) (metadata : Option JsonObject) (now : JsString) :
    (store.update directory id { content := text content, metadata } now).map
        (·.1.data.artifacts) =
      (updateLiteratureArtifact artifacts id content metadata now).map
        (List.map (·.toStored text)) := by
  have hindex : store.data.artifacts.findIdx? (·.id = id) = artifacts.findIdx? (·.id = id) := by
    rw [h, findIdx?_map]
    rfl
  rw [FileSystemArtifactStore.update, updateLiteratureArtifact, hindex]
  cases hfound : artifacts.findIdx? (·.id = id) with
  | none => rfl
  | some index =>
    have hat : store.data.artifacts[index]? = artifacts[index]?.map (·.toStored text) := by
      rw [h, getElem?_map]
    dsimp only
    rw [hat]
    cases artifacts[index]? with
    | none => rfl
    | some current =>
      simp only [Option.map_some, Except.map, h, map_set]
      rfl

end

end

/-- The tool of a run, the artifacts of the store, and the answers so far. -/
structure LiteratureState (α β : Type) where
  policy : LiteratureSearchToolPolicy
  callCount : Nat := 0
  artifacts : List (LiteratureArtifact α β) := []
  answers : List (LiteratureAnswer β) := []

inductive LiteratureAction (α : Type) where
  /-- A new tool on the same store. -/
  | newTool (policy : LiteratureSearchToolPolicy)
  | call (input : LiteratureSearchToolInput) (world : LiteratureWorld α)

section

variable {α β : Type} (toLowerCase : JsString → JsString) (ranking : CandidateRanking α β)
  (rootDir : JsString)

def LiteratureState.callNext (s : LiteratureState α β) (input : LiteratureSearchToolInput)
    (world : LiteratureWorld α) :
    List (LiteratureArtifact α β) × Except JsString (LiteratureAnswer β) :=
  literatureSearch toLowerCase ranking rootDir s.policy (s.callCount + 1) s.artifacts input world

def LiteratureState.step (s : LiteratureState α β) :
    LiteratureAction α → Option (LiteratureState α β)
  | .newTool policy => some { s with policy, callCount := 0 }
  | .call input world =>
    let called := s.callNext toLowerCase ranking rootDir input world
    some { s with
      callCount := s.callCount + 1
      artifacts := called.1
      answers := s.answers ++ called.2.toOption.toList }

section

variable (artifacts : List (LiteratureArtifact α β)) (answer : LiteratureAnswer β)

/-- The references of an answer are those of the artifacts in the store. -/
def RefsCurrent : Prop :=
  ∀ ref ∈ answer.details.artifactRefs, ∃ artifact,
    artifacts.find? (·.id = ref.id) = some artifact ∧ artifact.toArtifactRef = ref

/-- The references of an answer are those of the artifacts in the store before their one
update. -/
def RefsOneBehind : Prop :=
  ∃ ref, answer.details.artifactRefs = [ref] ∧ ref.version = some (js "v1") ∧ ∃ artifact,
    artifacts.find? (·.id = ref.id) = some artifact ∧
      artifact.toArtifactRef = { ref with version := some (js "v2") }

/-- The preview of an answer is of the first ten candidates of its artifacts. -/
def PreviewCurrent : Prop :=
  ∀ ref ∈ answer.details.artifactRefs, ∀ artifact,
    artifacts.find? (·.id = ref.id) = some artifact → answer.details.candidatesPreview =
      (artifact.content.candidates.take 10).map ranking.toCandidateBrief

end

/-- A search is that of the requests of an answer: its query as it is normalized, its
providers in any order, its limit and its filters. -/
structure SameSearch (input : LiteratureSearchToolInput) (providers : List LiteratureProviderId)
    (maxResults : Decimal) (stored : LiteratureAnswer β) : Prop where
  providers_perm : providers.Perm (stored.requests.map Prod.fst)
  requests_eq : ∀ request ∈ stored.requests,
    normalizedQuery toLowerCase request.2.query = normalizedQuery toLowerCase input.query ∧
      request.2 = { providerRequest input maxResults with query := request.2.query }

/-- A cached answer is an earlier one that asked the providers, for the same search. -/
def CachedForSame (s : LiteratureState α β) (input : LiteratureSearchToolInput)
    (answer : LiteratureAnswer β) (also : LiteratureAnswer β → Prop) : Prop :=
  answer.requests = [] → ∃ stored ∈ s.answers, stored.requests ≠ [] ∧
    stored.details = answer.details ∧ also stored ∧
    ∀ providers, checkCall s.policy (s.callCount + 1) input = .ok providers →
      SameSearch toLowerCase input providers (maxResultsFor s.policy input) stored

def NoneFailed (answer : LiteratureAnswer β) : Prop :=
  ∀ run ∈ answer.details.providers, run.status = .success

section

variable (s : LiteratureState α β)

def AgreesWithStore : LiteratureAction α → Prop
  | .newTool _ => True
  | .call input world => ∀ answer,
    (s.callNext toLowerCase ranking rootDir input world).2 = .ok answer →
      let artifacts := (s.callNext toLowerCase ranking rootDir input world).1
      RefsCurrent artifacts answer ∧ PreviewCurrent ranking artifacts answer ∧
        CachedForSame toLowerCase s input answer NoneFailed

/-- A call that returns agrees with the store but for the version of its references, and
for the failures of providers. -/
def AgreesOneBehind : LiteratureAction α → Prop
  | .newTool _ => True
  | .call input world => ∀ answer,
    (s.callNext toLowerCase ranking rootDir input world).2 = .ok answer →
      let artifacts := (s.callNext toLowerCase ranking rootDir input world).1
      RefsOneBehind artifacts answer ∧ PreviewCurrent ranking artifacts answer ∧
        CachedForSame toLowerCase s input answer fun _ => True

def IsRefused : LiteratureAction α → Prop
  | .newTool _ => True
  | .call input _ => ∃ message, checkCall s.policy (s.callCount + 1) input = .error message

def DrawsNewId : LiteratureAction α → Prop
  | .newTool _ => True
  | .call _ world => ∀ artifact ∈ s.artifacts, artifact.id ≠ world.uuid

end

end

theorem LiteratureProviderId.text_injective : Function.Injective LiteratureProviderId.text := by
  intro p q h
  cases p <;> cases q <;> first | rfl | exact absurd h (by decide)

theorem record_ordered {members : List (String × Option Tree)}
    (hkeys : KeysOrdered (members.map fun m => js m.1))
    (hvalues : ∀ m ∈ members, ∀ value, m.2 = some value → value.ordered = true) :
    (record members).ordered = true := by
  have hsub : ((members.filterMap fun m => m.2.map fun value => (js m.1, value)).map
      Prod.fst).Sublist (members.map fun m => js m.1) := by
    clear hkeys hvalues
    induction members with
    | nil => exact List.Sublist.refl _
    | cons m members ih =>
      obtain ⟨key, value⟩ := m
      cases value with
      | none => exact ih.cons _
      | some value => exact ih.cons_cons _
  rw [record, Tree.ordered, Bool.and_eq_true, decide_eq_true_eq, Tree.orderedMembers_iff]
  refine ⟨List.Pairwise.sublist hsub hkeys, fun m hm => ?_⟩
  obtain ⟨member, hmember, hvalue⟩ := mem_filterMap.mp hm
  obtain ⟨value, hsome, rfl⟩ := Option.map_eq_some_iff.mp hvalue
  exact hvalues member hmember value hsome

theorem orderedList_str (texts : List JsString) : orderedList (texts.map .str) = true := by
  induction texts with
  | nil => rfl
  | cons text texts ih => exact ih

section

variable {toLowerCase : JsString → JsString} {input input' : LiteratureSearchToolInput}
  {providers providers' : List LiteratureProviderId} {maxResults maxResults' : Decimal}

theorem cacheKeyMembers_ordered :
    (record (cacheKeyMembers toLowerCase input providers maxResults)).ordered = true := by
  refine record_ordered ?_ fun m hm value hvalue => ?_
  · simp only [cacheKeyMembers, map_cons, map_nil]
    decide
  · simp only [cacheKeyMembers, mem_cons, not_mem_nil, or_false] at hm
    rcases hm with rfl | rfl | rfl | rfl | rfl | rfl | rfl | rfl
    · cases hvalue
      exact orderedList_str _
    · cases hvalue
      rfl
    · cases hvalue
      rfl
    all_goals
      obtain ⟨x, -, rfl⟩ := Option.map_eq_some_iff.mp hvalue
      rfl

theorem stableCacheKey_inj (h : stableCacheKey toLowerCase input providers maxResults =
      stableCacheKey toLowerCase input' providers' maxResults') : providers.Perm providers' ∧
      normalizedQuery toLowerCase input.query = normalizedQuery toLowerCase input'.query ∧
      maxResults = maxResults' ∧ providerRequest input maxResults =
        { providerRequest input' maxResults' with query := input.query } := by
  have hrecord : record (cacheKeyMembers toLowerCase input providers maxResults) =
      record (cacheKeyMembers toLowerCase input' providers' maxResults') := by
    have hparse := congrArg parseTree h
    rw [stableCacheKey, stableCacheKey, parseTree_print cacheKeyMembers_ordered,
      parseTree_print cacheKeyMembers_ordered] at hparse
    exact some.inj hparse
  have hkeys (input : LiteratureSearchToolInput) (providers : List LiteratureProviderId)
      (maxResults : Decimal) : ((cacheKeyMembers toLowerCase input providers maxResults).map
        fun m => js m.1).Nodup := by
    simp only [cacheKeyMembers, map_cons, map_nil]
    decide
  have hfield (i : Nat) {key : String} {value value' : Option Tree}
      (hi : (cacheKeyMembers toLowerCase input providers maxResults)[i]? = some (key, value))
      (hi' : (cacheKeyMembers toLowerCase input' providers' maxResults')[i]? =
        some (key, value')) : value = value' := by
    rw [← field_record (hkeys _ _ _) (mem_of_getElem? hi), hrecord,
      field_record (hkeys _ _ _) (mem_of_getElem? hi')]
  have hproviders := hfield 0 rfl rfl
  have hquery := hfield 1 rfl rfl
  have hlimit := hfield 2 rfl rfl
  have hfrom := hfield 3 rfl rfl
  have hto := hfield 4 rfl rfl
  have hfieldOfStudy := hfield 5 rfl rfl
  have hpreprints := hfield 6 rfl rfl
  have hbiomedical := hfield 7 rfl rfl
  have hnum (a b : Option Decimal) (hab : a.map num = b.map num) : a = b :=
    map_injective (fun _ _ h => num.inj h) hab
  have hbool (a b : Option Bool) (hab : a.map bool = b.map bool) : a = b :=
    map_injective (fun _ _ h => bool.inj h) hab
  have hstr (a b : Option JsString) (hab : a.map str = b.map str) : a = b :=
    map_injective (fun _ _ h => str.inj h) hab
  have hsorted := map_injective_iff.mpr (fun _ _ h => str.inj h)
    (arr.inj (some.inj hproviders))
  have hperm : (providers.map (·.text)).Perm (providers'.map (·.text)) := by
    refine (mergeSort_perm _ fun a b => decide (a ≤ b)).symm.trans ?_
    rw [hsorted]
    exact mergeSort_perm _ _
  refine ⟨(map_perm_map_iff LiteratureProviderId.text_injective).mp hperm,
    str.inj (some.inj hquery), num.inj (some.inj hlimit), ?_⟩
  rw [providerRequest, providerRequest, hnum _ _ hfrom, hnum _ _ hto, hstr _ _ hfieldOfStudy,
    hbool _ _ hpreprints, hbool _ _ hbiomedical, num.inj (some.inj hlimit)]

end

section

variable {α β : Type} {toLowerCase : JsString → JsString} {ranking : CandidateRanking α β}
  {rootDir : JsString}

variable {artifact : LiteratureArtifact α β}

/-- An artifact whose output is some details: the references are one version behind. -/
structure Describes (ranking : CandidateRanking α β) (artifact : LiteratureArtifact α β)
    (details : LiteratureSearchToolOutput β) : Prop where
  output_eq : artifact.content.output = some details
  version_eq : artifact.version = some (js "v2")
  refs_eq : details.artifactRefs =
    [{ artifact.toArtifactRef with version := some (js "v1") }]
  preview_eq : details.candidatesPreview =
    (artifact.content.candidates.take 10).map ranking.toCandidateBrief

/-- An artifact of an earlier answer, under the cache key of its search. -/
def StoredFor (toLowerCase : JsString → JsString) (ranking : CandidateRanking α β)
    (answers : List (LiteratureAnswer β)) (artifact : LiteratureArtifact α β) : Prop :=
  ∃ stored ∈ answers, ∃ input providers maxResults,
    stored.requests = providers.map (fun provider => (provider, providerRequest input maxResults)) ∧
      providers ≠ [] ∧ Describes ranking artifact stored.details ∧
      (artifact.metadata.bind fun metadata => field "cacheKey" (.obj metadata)) =
        some (.str (stableCacheKey toLowerCase input providers maxResults))

theorem checkCall_ne_nil {policy : LiteratureSearchToolPolicy} {callCount : Nat}
    {input : LiteratureSearchToolInput} {providers : List LiteratureProviderId}
    (h : checkCall policy callCount input = .ok providers) : providers ≠ [] := by
  unfold checkCall at h
  split at h
  · cases h
  · split at h
    · cases h
    · split at h
      · cases h
      · split at h
        · cases h
        · next hne =>
          cases h
          exact hne

theorem updateLiteratureArtifact_new {artifacts : List (LiteratureArtifact α β)}
    (hnew : ∀ a ∈ artifacts, a.id ≠ artifact.id) (content : LiteratureSearchContent α β)
    (metadata : Option JsonObject) (now : JsString) :
    updateLiteratureArtifact (artifacts ++ [artifact]) artifact.id content metadata now =
      .ok (artifacts ++ [artifact.updated content metadata now]) := by
  have hindex : (artifacts ++ [artifact]).findIdx? (·.id = artifact.id) =
      some artifacts.length := by
    have hnone : artifacts.findIdx? (·.id = artifact.id) = none :=
      findIdx?_eq_none_iff.mpr fun a ha => decide_eq_false (hnew a ha)
    rw [findIdx?_append, hnone]
    simp
  rw [updateLiteratureArtifact, hindex]
  simp

theorem searchFresh_new (policy : LiteratureSearchToolPolicy)
    {artifacts : List (LiteratureArtifact α β)} (input : LiteratureSearchToolInput)
    {providers : List LiteratureProviderId} (hproviders : providers ≠ [])
    {world : LiteratureWorld α} (hnew : ∀ a ∈ artifacts, a.id ≠ world.uuid) : ∃ artifact answer,
      searchFresh toLowerCase ranking rootDir policy artifacts input providers world =
        (artifacts ++ [artifact], .ok answer) ∧
      artifact.id = world.uuid ∧ answer.requests ≠ [] ∧
      StoredFor toLowerCase ranking [answer] artifact ∧
      Describes ranking artifact answer.details := by
  rw [searchFresh]
  dsimp only [createLiteratureArtifact]
  rw [updateLiteratureArtifact_new hnew]
  dsimp only
  rw [if_neg (fun h => by cases h.2)]
  have hdescribes (content : LiteratureSearchContent α β) (title : JsString)
      (metadata : JsonObject) :
      Describes ranking
        ((newLiteratureArtifact rootDir title content metadata world.uuid world.createdAt).updated
          { content with output := some (searchOutput ranking content
            (newLiteratureArtifact rootDir title content metadata world.uuid world.createdAt)) }
          (newLiteratureArtifact rootDir title content metadata world.uuid
            world.createdAt).metadata world.updatedAt)
        (searchOutput ranking content
          (newLiteratureArtifact rootDir title content metadata world.uuid world.createdAt)) :=
    ⟨rfl, rfl, rfl, rfl⟩
  refine ⟨_, _, rfl, rfl, ?_, ⟨_, mem_singleton_self _, input, providers, _, rfl, hproviders,
    hdescribes _ _ _, rfl⟩, hdescribes _ _ _⟩
  exact fun h => hproviders (map_eq_nil_iff.mp h)

/-- Every artifact is of an earlier answer, and ids are distinct. -/
structure LiteratureState.Sound (toLowerCase : JsString → JsString)
    (ranking : CandidateRanking α β) (s : LiteratureState α β) : Prop where
  stored : ∀ artifact ∈ s.artifacts, StoredFor toLowerCase ranking s.answers artifact
  nodup : (s.artifacts.map (·.id)).Nodup

theorem StoredFor.mono {answers more : List (LiteratureAnswer β)}
    (h : StoredFor toLowerCase ranking answers artifact) (hsub : ∀ answer ∈ answers, answer ∈ more)
    : StoredFor toLowerCase ranking more artifact := by
  obtain ⟨stored, hmem, hrest⟩ := h
  exact ⟨stored, hsub stored hmem, hrest⟩

/-- A call that returns: its answer describes an artifact of the store, and one that asked no
provider is an earlier answer to the same search. -/
structure Returns (s : LiteratureState α β) (input : LiteratureSearchToolInput)
    (artifacts : List (LiteratureArtifact α β)) (answer : LiteratureAnswer β)
    (toLowerCase : JsString → JsString) (ranking : CandidateRanking α β) : Prop where
  described : ∃ artifact ∈ artifacts, Describes ranking artifact answer.details
  cached : CachedForSame toLowerCase s input answer fun _ => True
  sound : LiteratureState.Sound toLowerCase ranking
    { s with artifacts, answers := s.answers ++ [answer] }

variable (rootDir) in
theorem LiteratureState.Sound.callNext {s : LiteratureState α β}
    (h : s.Sound toLowerCase ranking) (input : LiteratureSearchToolInput)
    {world : LiteratureWorld α} (hnew : ∀ artifact ∈ s.artifacts, artifact.id ≠ world.uuid) :
    (∃ message, checkCall s.policy (s.callCount + 1) input = .error message ∧
      s.callNext toLowerCase ranking rootDir input world = (s.artifacts, .error message)) ∨
    (∃ providers, checkCall s.policy (s.callCount + 1) input = .ok providers) ∧ ∃ artifacts answer,
        s.callNext toLowerCase ranking rootDir input world = (artifacts, .ok answer) ∧
          Returns s input artifacts answer toLowerCase ranking := by
  rw [LiteratureState.callNext, literatureSearch]
  cases hcheck : checkCall s.policy (s.callCount + 1) input with
  | error message => exact .inl ⟨message, rfl, rfl⟩
  | ok providers =>
    refine .inr ⟨⟨providers, rfl⟩, ?_⟩
    have hproviders := checkCall_ne_nil hcheck
    dsimp only
    split
    · next cached hcached =>
      have hfound : cachedOutput s.artifacts (stableCacheKey toLowerCase input providers
          (maxResultsFor s.policy input)) = some cached := by
        split at hcached
        · cases hcached
        · exact hcached
      obtain ⟨artifact, hfind, houtput⟩ := Option.bind_eq_some_iff.mp hfound
      have hmem := mem_of_find?_eq_some hfind
      have hkey := find?_some hfind
      rw [decide_eq_true_eq] at hkey
      obtain ⟨stored, hstored, input', providers', maxResults', hrequests, hne, hdescribes,
        hkey'⟩ := h.stored artifact hmem
      have hdetails : stored.details = cached := by
        have hsame := hdescribes.output_eq
        rw [houtput] at hsame
        exact (some.inj hsame).symm
      refine ⟨_, _, rfl, ⟨artifact, hmem, hdetails ▸ hdescribes⟩, fun _ => ?_, ?_, h.nodup⟩
      · refine ⟨stored, hstored, ?_, hdetails, trivial, fun providers'' hproviders'' => ?_⟩
        · rw [hrequests]
          exact fun hnil => hne (map_eq_nil_iff.mp hnil)
        · rw [hcheck] at hproviders''
          cases hproviders''
          rw [hkey] at hkey'
          obtain ⟨hperm, hquery, hlimit, hfilters⟩ :=
            stableCacheKey_inj (str.inj (some.inj hkey'))
          refine ⟨?_, fun request hrequest => ?_⟩
          · rw [hrequests, map_map]
            simpa [Function.comp_def] using hperm
          · rw [hrequests] at hrequest
            obtain ⟨provider, -, rfl⟩ := mem_map.mp hrequest
            refine ⟨hquery.symm, ?_⟩
            dsimp only
            rw [hfilters]
      · exact fun artifact hartifact => (h.stored artifact hartifact).mono fun answer hanswer =>
          mem_append_left _ hanswer
    · obtain ⟨artifact, answer, hfresh, hid, hrequests, hstored, hdescribes⟩ :=
        searchFresh_new s.policy input hproviders hnew
      refine ⟨_, answer, hfresh, ⟨artifact, mem_append_right _ (mem_singleton_self _),
        hdescribes⟩, fun hnil => absurd hnil hrequests, fun a ha => ?_, ?_⟩
      · rcases mem_append.mp ha with ha | ha
        · exact (h.stored a ha).mono fun answer hanswer => mem_append_left _ hanswer
        · rw [mem_singleton.mp ha]
          exact hstored.mono fun answer hanswer => mem_append_right _ hanswer
      · dsimp only
        rw [map_append, nodup_append]
        refine ⟨h.nodup, nodup_singleton _, ?_⟩
        intro id hmem id' hmem' heq
        obtain ⟨a, ha, rfl⟩ := mem_map.mp hmem
        rw [map_singleton, mem_singleton] at hmem'
        exact hnew a ha (heq.trans (hmem'.trans hid))

section

variable {artifacts : List (LiteratureArtifact α β)}

theorem find?_of_nodup (hnodup : (artifacts.map (·.id)).Nodup) (hmem : artifact ∈ artifacts) :
    artifacts.find? (·.id = artifact.id) = some artifact := by
  induction artifacts with
  | nil => cases hmem
  | cons a artifacts ih =>
    rw [map_cons, nodup_cons] at hnodup
    rcases mem_cons.mp hmem with rfl | hmem
    · exact find?_cons_of_pos (by simp)
    · have hne : a.id ≠ artifact.id := by
        intro heq
        exact hnodup.1 (heq ▸ mem_map_of_mem hmem)
      rw [find?_cons_of_neg (by simpa using hne)]
      exact ih hnodup.2 hmem

theorem Describes.oneBehind {answer : LiteratureAnswer β}
    (h : Describes ranking artifact answer.details) (hmem : artifact ∈ artifacts)
    (hnodup : (artifacts.map (·.id)).Nodup) :
    RefsOneBehind artifacts answer ∧ PreviewCurrent ranking artifacts answer := by
  have hfind : artifacts.find? (·.id = artifact.id) = some artifact :=
    find?_of_nodup hnodup hmem
  refine ⟨⟨_, h.refs_eq, rfl, artifact, hfind, ?_⟩, fun ref href found hfound => ?_⟩
  · rw [← h.version_eq]
  · rw [h.refs_eq, mem_singleton] at href
    subst href
    rw [hfind] at hfound
    cases hfound
    exact h.preview_eq

theorem RefsOneBehind.not_current
    {answer : LiteratureAnswer β} (h : RefsOneBehind artifacts answer) :
    ¬ RefsCurrent artifacts answer := by
  intro hcurrent
  obtain ⟨ref, hrefs, hversion, artifact, hfind, hartifact⟩ := h
  obtain ⟨artifact', hfind', hsame⟩ := hcurrent ref (by rw [hrefs]; exact mem_singleton_self _)
  rw [hfind] at hfind'
  cases hfind'
  rw [hartifact] at hsame
  have hversions := congrArg ArtifactRef.version hsame
  rw [hversion] at hversions
  exact absurd (some.inj hversions) (by decide)

end

end

section

variable {α β : Type} (toLowerCase : JsString → JsString) (ranking : CandidateRanking α β)
  (rootDir : JsString)

theorem LiteratureState.Sound.step {s t : LiteratureState α β} {action : LiteratureAction α}
    (h : s.Sound toLowerCase ranking) (hnew : DrawsNewId s action)
    (hstep : s.step toLowerCase ranking rootDir action = some t) : t.Sound toLowerCase ranking := by
  cases action with
  | newTool policy =>
    cases hstep
    exact ⟨h.stored, h.nodup⟩
  | call input world =>
    cases hstep
    rcases h.callNext rootDir input hnew with ⟨message, -, hcall⟩ |
      ⟨-, artifacts, answer, hcall, hreturns⟩
    · rw [hcall]
      exact ⟨fun artifact hartifact => (h.stored artifact hartifact).mono fun answer hanswer =>
        mem_append_left _ hanswer, h.nodup⟩
    · rw [hcall]
      exact ⟨hreturns.sound.stored, hreturns.sound.nodup⟩

theorem LiteratureState.Sound.agrees {s : LiteratureState α β} {action : LiteratureAction α}
    (h : s.Sound toLowerCase ranking) (hnew : DrawsNewId s action) :
    (AgreesWithStore toLowerCase ranking rootDir s action ↔ IsRefused s action) ∧
      AgreesOneBehind toLowerCase ranking rootDir s action := by
  cases action with
  | newTool policy => exact ⟨Iff.rfl, trivial⟩
  | call input world =>
    rcases h.callNext rootDir input hnew with ⟨message, hrefused, hcall⟩ |
      ⟨⟨providers, hallowed⟩, artifacts, answer, hcall, hreturns⟩
    · refine ⟨iff_of_true (fun answer hanswer => ?_) ⟨message, hrefused⟩, fun answer hanswer => ?_⟩
      all_goals
        rw [hcall] at hanswer
        cases hanswer
    · obtain ⟨artifact, hmem, hdescribes⟩ := hreturns.described
      obtain ⟨hrefs, hpreview⟩ := hdescribes.oneBehind hmem hreturns.sound.nodup
      refine ⟨iff_of_false (fun hagrees => ?_) ?_, fun answer' hanswer => ?_⟩
      · have hcurrent := (hagrees answer (by rw [hcall])).1
        rw [hcall] at hcurrent
        exact hrefs.not_current hcurrent
      · rintro ⟨message, hrefused⟩
        rw [hallowed] at hrefused
        cases hrefused
      · rw [hcall] at hanswer ⊢
        cases hanswer
        exact ⟨hrefs, hpreview, hreturns.cached⟩

/-- In a run on an empty store whose calls draw new ids, the calls agree with the store
exactly when all of them are refused; a call that returns agrees with it but for the version
of its references and for the failures of providers. -/
theorem literature_results_agree_iff (policy : LiteratureSearchToolPolicy)
    (actions : List (LiteratureAction α))
    (hnew : Along (LiteratureState.step toLowerCase ranking rootDir) DrawsNewId
      { policy } actions) : (Along (LiteratureState.step toLowerCase ranking rootDir)
        (AgreesWithStore toLowerCase ranking rootDir) { policy } actions ↔
      Along (LiteratureState.step toLowerCase ranking rootDir) IsRefused { policy } actions) ∧
    Along (LiteratureState.step toLowerCase ranking rootDir)
      (AgreesOneBehind toLowerCase ranking rootDir) { policy } actions := by
  have hstart : LiteratureState.Sound toLowerCase ranking ({ policy } : LiteratureState α β) := by
    refine ⟨fun artifact h => ?_, nodup_nil⟩
    cases h
  have hboth : Along (LiteratureState.step toLowerCase ranking rootDir) (fun s action =>
        DrawsNewId s action ∧ AgreesWithStore toLowerCase ranking rootDir s action)
          { policy } actions ↔
      Along (LiteratureState.step toLowerCase ranking rootDir) (fun s action =>
        DrawsNewId s action ∧ IsRefused s action) { policy } actions :=
    along_iff_along (fun s action (h : s.Sound toLowerCase ranking) =>
        and_congr_right fun hnew => (h.agrees toLowerCase ranking rootDir hnew).1)
      (fun s action t h hq hstep => h.step toLowerCase ranking rootDir hq.1 hstep) hstart
  have hbehind : Along (LiteratureState.step toLowerCase ranking rootDir) DrawsNewId
        { policy } actions ↔
      Along (LiteratureState.step toLowerCase ranking rootDir) (fun s action =>
        DrawsNewId s action ∧ AgreesOneBehind toLowerCase ranking rootDir s action)
          { policy } actions :=
    along_iff_along (fun s action (h : s.Sound toLowerCase ranking) =>
        ⟨fun hnew => ⟨hnew, (h.agrees toLowerCase ranking rootDir hnew).2⟩, And.left⟩)
      (fun s action t h hq hstep => h.step toLowerCase ranking rootDir hq.1 hstep) hstart
  refine ⟨⟨fun hagrees => ?_, fun hrefused => ?_⟩, ?_⟩
  · exact (hboth.mp (hnew.and hagrees)).imp fun _ _ h => h.2
  · exact (hboth.mpr (hnew.and hrefused)).imp fun _ _ h => h.2
  · exact (hbehind.mp hnew).imp fun _ _ h => h.2

end

/-- A ranking that keeps the candidates as they are, the one there is for none of them. -/
def keepCandidates : CandidateRanking JsString JsString where
  dedupeAndRankCandidates candidates _ := candidates
  toCandidateBrief := id

def offlineWorld : LiteratureWorld JsString where
  dateNow := 1
  uuid := js "a"
  createdAt := js "t0"
  updatedAt := js "t1"
  search _ _ := .error (js "offline")

/-- A call on an empty store. -/
theorem literature_results_agree_offline : (Along (LiteratureState.step id keepCandidates (js "/w"))
        (AgreesWithStore id keepCandidates (js "/w")) { policy := {} }
        [.call { query := js "q" } offlineWorld] ↔
      Along (LiteratureState.step id keepCandidates (js "/w")) IsRefused { policy := {} }
        [.call { query := js "q" } offlineWorld]) ∧
    Along (LiteratureState.step id keepCandidates (js "/w"))
      (AgreesOneBehind id keepCandidates (js "/w")) { policy := {} }
      [.call { query := js "q" } offlineWorld] := by
  refine literature_results_agree_iff id keepCandidates (js "/w") {}
    [.call { query := js "q" } offlineWorld] ⟨fun artifact h => ?_, fun _ _ => trivial⟩
  cases h

/-- The answer of one call is behind the store. -/
theorem literature_results_disagree :
    ¬ ∀ (toLowerCase : JsString → JsString) (ranking : CandidateRanking JsString JsString)
      (rootDir : JsString) (policy : LiteratureSearchToolPolicy)
      (actions : List (LiteratureAction JsString)),
      Along (LiteratureState.step toLowerCase ranking rootDir) DrawsNewId { policy } actions →
        Along (LiteratureState.step toLowerCase ranking rootDir)
          (AgreesWithStore toLowerCase ranking rootDir) { policy } actions := by
  intro h
  have hnew : DrawsNewId ({ policy := {} } : LiteratureState JsString JsString)
      (.call { query := js "q" } offlineWorld) := fun artifact hmem => by cases hmem
  have hstart : LiteratureState.Sound id keepCandidates { policy := {} } := by
    refine ⟨fun artifact hmem => ?_, nodup_nil⟩
    cases hmem
  have hagrees := (h id keepCandidates (js "/w") {} [.call { query := js "q" } offlineWorld]
    ⟨hnew, fun _ _ => trivial⟩).1
  obtain ⟨message, hrefused⟩ := (hstart.agrees id keepCandidates (js "/w") hnew).1.mp hagrees
  have hallowed : checkCall {} 1 { query := js "q" } = .ok providerIds := by decide
  rw [hallowed] at hrefused
  cases hrefused

end AcademicAgent.LeadAgent
