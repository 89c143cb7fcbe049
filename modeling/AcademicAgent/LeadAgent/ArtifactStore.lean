import AcademicAgent.Core.Path
import AcademicAgent.Core.Run
import AcademicAgent.Core.Worklist
import AcademicAgent.LeadAgent.Contracts

/-!
# The artifact store of a session workspace

A store keeps its artifacts in `artifacts.json` of its directory and reads the file back when
it is opened.
-/

namespace AcademicAgent

open List

/-- `Number.parseInt` with radix 10. -/
def parseInt (s : JsString) : Option Int :=
  let s := s.dropWhile isWhitespace
  let negative := s.head? == some 0x2D
  let s := if negative || s.head? == some 0x2B then s.tail else s
  let digits := s.takeWhile isDigit
  if digits = [] then none
  else some (if negative then -(digitsValue digits : Int) else digitsValue digits)

namespace LeadAgent

structure StoredArtifact extends ArtifactRef where
  content : JsString
  createdAt : JsString
  updatedAt : JsString
  lineage : List JsString
  deriving DecidableEq

structure CreateArtifactInput where
  kind : JsString
  content : JsString
  title : Option JsString := none
  mediaType : Option JsString := none
  metadata : Option JsonObject := none
  lineage : Option (List JsString) := none

structure UpdateArtifactInput where
  content : JsString
  metadata : Option JsonObject := none

def artifactToRef (artifact : StoredArtifact) : ArtifactRef where
  id := artifact.id
  kind := artifact.kind
  uri := artifact.uri
  title := artifact.title
  mediaType := artifact.mediaType
  version := artifact.version
  metadata := artifact.metadata

def nextVersion (current : Option JsString) : JsString :=
  let numeric := match current with
    | some (c :: cs) => parseInt (if c = 0x76 then cs else c :: cs)
    | _ => some 0
  js "v" ++ match numeric with
    | some n => (Decimal.ofInt (n + 1)).toString
    | none => js "1"

/-- What a store holds; it has no manifest id when the file it was read from has none.
Other members of the file are kept and never read. -/
structure FileStoreData where
  manifestId : Option JsString
  createdAt : JsString
  artifacts : List StoredArtifact
  deriving DecidableEq

/-- The two shapes of `artifacts.json`. -/
inductive ArtifactsJson where
  | data (data : FileStoreData)
  | manifest (manifest : ArtifactManifest) (empty : manifest.artifacts = [])
  deriving DecidableEq

structure Directory where
  artifactsJson : Option ArtifactsJson := none
  /-- The content of an artifact by the path of its file. -/
  contents : List (JsString × JsString) := []
  deriving DecidableEq

structure FileSystemArtifactStore where
  rootDir : JsString
  data : FileStoreData
  deriving DecidableEq

variable {store : FileSystemArtifactStore}

namespace FileSystemArtifactStore

def load (directory : Directory) (uuid now : JsString) : FileStoreData :=
  match directory.artifactsJson with
  | none => { manifestId := some uuid, createdAt := now, artifacts := [] }
  | some (.data data) => data
  | some (.manifest manifest _) =>
    { manifestId := none, createdAt := manifest.createdAt, artifacts := [] }

def new (rootDir : JsString) (directory : Directory) (uuid now : JsString) :
    FileSystemArtifactStore :=
  { rootDir, data := load directory uuid now }

section

variable (store : FileSystemArtifactStore)

def artifactPath (id : JsString) : JsString :=
  Path.join [store.rootDir, id ++ js ".artifact"]

/-- The directory after the content of an artifact and the data are written. -/
def save (id content : JsString) (directory : Directory) : Directory where
  artifactsJson := some (.data store.data)
  contents := assocSet (store.artifactPath id) content directory.contents

/-- The artifact that `create` makes. -/
def newArtifact (input : CreateArtifactInput) (id now : JsString) : StoredArtifact where
  id := id
  kind := input.kind
  uri := js "file://" ++ store.artifactPath id
  title := input.title
  mediaType := input.mediaType
  version := some (js "v1")
  metadata := input.metadata
  content := input.content
  createdAt := now
  updatedAt := now
  lineage := input.lineage.getD []

def create (directory : Directory) (input : CreateArtifactInput) (id now : JsString) :
    FileSystemArtifactStore × Directory × StoredArtifact :=
  let artifact := store.newArtifact input id now
  let store := { store with
    data := { store.data with artifacts := store.data.artifacts ++ [artifact] } }
  (store, store.save id input.content directory, artifact)

end

/-- The artifact that `update` puts in place of the current one. -/
def updatedArtifact (current : StoredArtifact) (input : UpdateArtifactInput) (now : JsString) :
    StoredArtifact :=
  { current with
    content := input.content
    metadata := input.metadata.or current.metadata
    version := some (nextVersion current.version)
    updatedAt := now }

def notFound (id : JsString) : JsString := js "Artifact not found: " ++ id

section

variable (store : FileSystemArtifactStore)

def update (directory : Directory) (id : JsString) (input : UpdateArtifactInput) (now : JsString) :
    Except JsString (FileSystemArtifactStore × Directory × StoredArtifact) :=
  match store.data.artifacts.findIdx? (·.id = id) with
  | none => .error (notFound id)
  | some index =>
    match store.data.artifacts[index]? with
    | none => .error (notFound id)
    | some current =>
      let updated := updatedArtifact current input now
      let store := { store with
        data := { store.data with artifacts := store.data.artifacts.set index updated } }
      .ok (store, store.save id input.content directory, updated)

def get (id : JsString) : Option StoredArtifact :=
  store.data.artifacts.find? (·.id = id)

def list : List StoredArtifact := store.data.artifacts

def manifest (now : JsString) : ArtifactManifest where
  id := store.data.manifestId
  createdAt := store.data.createdAt
  updatedAt := some now
  artifacts := store.list.map artifactToRef

end

end FileSystemArtifactStore

structure LeadSessionWorkspaceOptions where
  cwd : JsString
  sessionId : JsString
  artifactDir : Option JsString := none

section

variable (options : LeadSessionWorkspaceOptions)

def LeadSessionWorkspaceOptions.rootDir : JsString :=
  options.artifactDir.getD (Path.join [options.cwd, js ".lead-agent", js "artifacts",
    js "sessions", options.sessionId])

/-- `createLeadSessionWorkspace`: the store it opens and the directory it leaves. -/
def createLeadSessionWorkspace (directory : Directory)
    (uuid now : JsString) : FileSystemArtifactStore × Directory :=
  let store := FileSystemArtifactStore.new options.rootDir directory uuid now
  if h : (store.manifest now).artifacts = [] then
    (store, { directory with artifactsJson := some (.manifest (store.manifest now) h) })
  else (store, directory)

/-- An opening of the workspace or a call on the store of the latest one; ids and
times are what the system draws. -/
inductive StoreAction where
  | openWorkspace (uuid now : JsString)
  | create (input : CreateArtifactInput) (uuid now : JsString)
  | update (id : JsString) (input : UpdateArtifactInput) (now : JsString)

/-- The directory and the store of the latest opening, with the id and creation
time of the first manifest and the artifacts as `create` and `update` returned them. -/
structure StoreState where
  directory : Directory := {}
  store : Option FileSystemArtifactStore := none
  first : Option (Option JsString × JsString) := none
  created : List StoredArtifact := []
  deriving DecidableEq

/-- The artifacts after one of them, the first under its id, got a newer version. -/
def supersede (created : List StoredArtifact) (artifact : StoredArtifact) : List StoredArtifact :=
  match created with
  | [] => []
  | a :: as => if a.id = artifact.id then artifact :: as else a :: supersede as artifact

section

variable (s : StoreState)

/-- One step of a run; a call needs an opened store, and a refused update changes nothing. -/
def storeStep :
    StoreAction → Option StoreState
  | .openWorkspace uuid now =>
    let opened := createLeadSessionWorkspace options s.directory uuid now
    let manifest := opened.1.manifest now
    some { s with
      directory := opened.2
      store := some opened.1
      first := s.first.or (some (manifest.id, manifest.createdAt)) }
  | .create input uuid now =>
    s.store.map fun store =>
      let result := store.create s.directory input uuid now
      { s with
        directory := result.2.1
        store := some result.1
        created := s.created ++ [result.2.2] }
  | .update id input now =>
    s.store.map fun store =>
      match store.update s.directory id input now with
      | .error _ => s
      | .ok result =>
        { s with
          directory := result.2.1
          store := some result.1
          created := supersede s.created result.2.2 }

/-- The opened store has the id and creation time of the first opening, a manifest that
passes its guard, and the artifacts created so far at their latest version. -/
def Intact : Prop :=
  ∀ store first, s.store = some store → s.first = some first →
    (∀ now, (store.manifest now).id = first.1 ∧ (store.manifest now).createdAt = first.2 ∧
      isArtifactManifest (store.manifest now).toTree = true) ∧
    store.list = s.created

def OpensIntact : StoreAction → Prop
  | .openWorkspace uuid now =>
    ∀ t, storeStep options s (.openWorkspace uuid now) = some t → Intact t
  | _ => True

end

end

variable {s : StoreState}

/-- An opening is the first one, or an artifact has been created before. -/
def OpensFreshOrFilled (s : StoreState) : StoreAction → Prop
  | .openWorkspace _ _ => s.directory.artifactsJson = none ∨ s.created ≠ []
  | _ => True

/-- After an opening, the file holds the data of the store, or an empty manifest while
nothing has been created. -/
structure Kept (s : StoreState) (store : FileSystemArtifactStore) (id : JsString) : Prop where
  store_eq : s.store = some store
  first_eq : s.first = some (some id, store.data.createdAt)
  manifestId_eq : store.data.manifestId = some id
  artifacts_eq : store.data.artifacts = s.created
  file_eq : s.created ≠ [] ∧ s.directory.artifactsJson = some (.data store.data) ∨
    s.created = [] ∧ ∃ manifest empty,
      s.directory.artifactsJson = some (.manifest manifest empty)

/-- The states of a run whose openings are first or follow a creation. -/
def StoreInvariant (s : StoreState) : Prop := s = {} ∨ ∃ store id, Kept s store id

theorem Kept.intact {id : JsString} (h : Kept s store id) : Intact s := by
  intro store' first hstore hfirst
  rw [h.store_eq] at hstore
  rw [h.first_eq] at hfirst
  cases hstore
  cases hfirst
  refine ⟨fun now => ⟨h.manifestId_eq, rfl, ?_⟩, h.artifacts_eq⟩
  rw [isArtifactManifest_toTree, FileSystemArtifactStore.manifest, h.manifestId_eq]
  rfl

theorem supersede_eq_set {artifacts : List StoredArtifact} {index : Nat}
    {current updated : StoredArtifact} (hid : updated.id = current.id)
    (hindex : artifacts.findIdx? (·.id = current.id) = some index) :
    supersede artifacts updated = artifacts.set index updated := by
  induction artifacts generalizing index with
  | nil => cases hindex
  | cons a as ih =>
    rw [findIdx?_cons] at hindex
    by_cases ha : a.id = current.id
    · simp only [ha, decide_true, ite_true, Option.some.injEq] at hindex
      subst hindex
      rw [supersede, if_pos (ha.trans hid.symm), set_cons_zero]
    · simp only [ha, decide_false, Bool.false_eq_true, ite_false, Option.map_eq_some_iff] at hindex
      obtain ⟨i, hi, rfl⟩ := hindex
      rw [supersede, if_neg fun h => ha (h.trans hid), set_cons_succ, ih hi]

theorem FileSystemArtifactStore.update_ok {directory : Directory} {id now : JsString}
    {input : UpdateArtifactInput} {result : FileSystemArtifactStore × Directory × StoredArtifact}
    (h : store.update directory id input now = .ok result) :
    store.data.artifacts ≠ [] ∧ result.1.data.manifestId = store.data.manifestId ∧
      result.1.data.createdAt = store.data.createdAt ∧
      result.1.data.artifacts = supersede store.data.artifacts result.2.2 ∧
      result.2.1.artifactsJson = some (.data result.1.data) := by
  unfold update at h
  split at h
  · cases h
  · rename_i index hindex
    split at h
    · cases h
    · rename_i current hcurrent
      cases h
      obtain ⟨hlt, hfound, -⟩ := findIdx?_eq_some_iff_getElem.mp hindex
      have hid : current.id = id := by
        rw [getElem?_eq_getElem hlt] at hcurrent
        cases hcurrent
        exact of_decide_eq_true hfound
      subst hid
      refine ⟨ne_nil_of_length_pos (by omega), rfl, rfl, ?_, rfl⟩
      have hsame : (updatedArtifact current input now).id = current.id := rfl
      exact (supersede_eq_set hsame hindex).symm

theorem supersede_ne_nil {created : List StoredArtifact} (artifact : StoredArtifact)
    (h : created ≠ []) : supersede created artifact ≠ [] := by
  cases created with
  | nil => exact absurd rfl h
  | cons a as =>
    rw [supersede]
    split
    all_goals exact cons_ne_nil _ _

variable {options : LeadSessionWorkspaceOptions}

theorem createLeadSessionWorkspace_store (directory : Directory) (uuid now : JsString) :
    (createLeadSessionWorkspace options directory uuid now).1 =
      .new options.rootDir directory uuid now := by
  unfold createLeadSessionWorkspace
  dsimp only
  split
  · rfl
  · rfl

section

variable {t : StoreState}

theorem storeStep_open_kept {uuid now : JsString} (h : StoreInvariant s)
    (hp : OpensFreshOrFilled s (.openWorkspace uuid now))
    (hstep : storeStep options s (.openWorkspace uuid now) = some t) :
    ∃ store id, Kept t store id := by
  rcases h with rfl | ⟨store, id, h⟩
  · cases hstep
    exact ⟨_, uuid, rfl, rfl, rfl, rfl, .inr ⟨rfl, _, _, rfl⟩⟩
  · rcases h.file_eq with ⟨hcreated, hfile⟩ | ⟨hcreated, manifest, hempty, hfile⟩
    · have hload : FileSystemArtifactStore.load s.directory uuid now = store.data := by
        rw [FileSystemArtifactStore.load, hfile]
      have hartifacts : (FileSystemArtifactStore.manifest
          (.new options.rootDir s.directory uuid now) now).artifacts ≠ [] := by
        intro hnil
        refine hcreated (h.artifacts_eq ▸ ?_)
        rw [← hload]
        exact map_eq_nil_iff.mp hnil
      have hopened : createLeadSessionWorkspace options s.directory uuid now =
          (.new options.rootDir s.directory uuid now, s.directory) := dif_neg hartifacts
      rw [storeStep, hopened] at hstep
      cases hstep
      refine ⟨_, id, rfl, ?_, ?_, ?_, .inl ⟨hcreated, ?_⟩⟩
      · rw [h.first_eq, FileSystemArtifactStore.new, hload]
        rfl
      · rw [FileSystemArtifactStore.new, hload]
        exact h.manifestId_eq
      · rw [FileSystemArtifactStore.new, hload]
        exact h.artifacts_eq
      · rw [FileSystemArtifactStore.new, hload]
        exact hfile
    · rcases hp with hnone | hfilled
      · rw [hfile] at hnone
        cases hnone
      · exact absurd hcreated hfilled

theorem storeStep_call_kept {id : JsString} (h : Kept s store id)
    {action : StoreAction} (hcall : ∀ uuid now, action ≠ .openWorkspace uuid now)
    (hstep : storeStep options s action = some t) : ∃ store id, Kept t store id := by
  cases action with
  | openWorkspace uuid now => exact absurd rfl (hcall uuid now)
  | create input uuid now =>
    rw [storeStep, h.store_eq] at hstep
    cases hstep
    refine ⟨_, id, rfl, h.first_eq, h.manifestId_eq, ?_, .inl ⟨?_, rfl⟩⟩
    · exact congrArg (· ++ [store.newArtifact input uuid now]) h.artifacts_eq
    · simp
  | update updatedId input now =>
    rw [storeStep, h.store_eq, Option.map_some] at hstep
    cases hresult : store.update s.directory updatedId input now with
    | error message =>
      rw [hresult] at hstep
      cases hstep
      exact ⟨store, id, h⟩
    | ok result =>
      obtain ⟨hne, hmanifestId, hcreatedAt, hartifacts, hfile⟩ :=
        FileSystemArtifactStore.update_ok hresult
      rw [hresult] at hstep
      cases hstep
      rw [h.artifacts_eq] at hartifacts hne
      refine ⟨result.1, id, rfl, ?_, hmanifestId.trans h.manifestId_eq, hartifacts, ?_⟩
      · rw [hcreatedAt]
        exact h.first_eq
      · exact .inl ⟨supersede_ne_nil _ hne, hfile⟩

theorem StoreInvariant.step {action : StoreAction} (h : StoreInvariant s)
    (hp : OpensFreshOrFilled s action) (hstep : storeStep options s action = some t) :
    StoreInvariant t := by
  cases action with
  | openWorkspace uuid now => exact .inr (storeStep_open_kept h hp hstep)
  | create input uuid now | update updatedId input now =>
    rcases h with rfl | ⟨store, id, h⟩
    · cases hstep
    · exact .inr (storeStep_call_kept h (fun _ _ => StoreAction.noConfusion) hstep)

end

theorem opensIntact_iff (h : StoreInvariant s) (action : StoreAction) :
    OpensIntact options s action ↔ OpensFreshOrFilled s action := by
  cases action with
  | create | update => exact Iff.rfl
  | openWorkspace uuid now =>
    constructor
    · intro hintact
      rcases h with rfl | ⟨store, id, h⟩
      · exact .inl rfl
      · rcases h.file_eq with ⟨hcreated, -⟩ | ⟨-, manifest, hempty, hfile⟩
        · exact .inr hcreated
        · have hload : (FileSystemArtifactStore.load s.directory uuid now).manifestId = none := by
            rw [FileSystemArtifactStore.load, hfile]
          have hopened : (createLeadSessionWorkspace options s.directory uuid now).1 =
              .new options.rootDir s.directory uuid now := createLeadSessionWorkspace_store ..
          have hfirst := h.first_eq
          have hid := ((hintact _ rfl _ _ rfl (by rw [hfirst]; rfl)).1 now).1
          rw [hopened] at hid
          rw [FileSystemArtifactStore.manifest, FileSystemArtifactStore.new, hload] at hid
          cases hid
    · intro hp t hstep
      obtain ⟨store, id, hkept⟩ := storeStep_open_kept h hp hstep
      exact hkept.intact

/-- Every opening of a run leaves the store intact exactly when each is the first one or
comes after an artifact has been created. -/
theorem openings_intact_iff (options : LeadSessionWorkspaceOptions) (actions : List StoreAction) :
    Along (storeStep options) (OpensIntact options) {} actions ↔
      Along (storeStep options) OpensFreshOrFilled {} actions :=
  along_iff_along (fun _ action h => opensIntact_iff h action)
    (fun _ _ _ h hp hstep => h.step hp hstep) (.inl rfl)

/-- Opening a new directory twice loses the id of its manifest. -/
theorem reopening_loses_id :
    ¬ ∀ options actions, Along (storeStep options) (OpensIntact options) {} actions := by
  intro h
  have hrun := h { cwd := js "/w", sessionId := js "s" }
    [.openWorkspace (js "m1") (js "t1"), .openWorkspace (js "m2") (js "t2")]
  have hintact := (hrun.2 _ rfl).1 _ rfl
  have hid := ((hintact _ _ rfl rfl).1 []).1
  cases hid

namespace FileSystemArtifactStore

open Relation

section

variable (store : FileSystemArtifactStore)

/-- `resolveArtifactLineage`; `visit` is nested at most as deep as there are artifacts. -/
def resolveArtifactLineage (artifactId : JsString) : Option (List StoredArtifact) :=
  match store.get artifactId with
  | none => some []
  | some artifact =>
    artifact.lineage.foldlM (visitFrom store.get (·.id) (·.lineage) store.list.length) []

/-- A stored artifact is named as a parent of another. -/
def IsParent (artifact parent : StoredArtifact) : Prop :=
  ∃ id ∈ artifact.lineage, store.get id = some parent

/-- The lineage of an artifact ends on every graph, with each artifact that parent references
reach once. -/
theorem resolveArtifactLineage_exact (artifactId : JsString) :
    ∃ resolved, store.resolveArtifactLineage artifactId = some resolved ∧ resolved.Nodup ∧
      ∀ a, a ∈ resolved ↔
        ∃ artifact, store.get artifactId = some artifact ∧ TransGen store.IsParent artifact a := by
  rw [resolveArtifactLineage]
  cases hget : store.get artifactId with
  | none => exact ⟨[], rfl, nodup_nil, fun a => by simp⟩
  | some artifact =>
    have hkey : ∀ id a, store.get id = some a → a.id = id := fun id a h => by
      simpa using find?_some (p := fun a : StoredArtifact => a.id = id) h
    have hall : ∀ id a, store.get id = some a → a ∈ store.list :=
      fun id a h => mem_of_find?_eq_some h
    have hstart : Recorded store.get (·.id) ([] : List StoredArtifact) := ⟨nofun, nodup_nil⟩
    obtain ⟨resolved, hresolved, hvisits⟩ := exists_visits_foldlM
      (fun seen id h hn => exists_visits hkey hall h hn id) hstart
      (length_filter_le _ _) artifact.lineage
    refine ⟨resolved, hresolved, hvisits.recorded.nodup.of_map, fun a => ?_⟩
    have hhead : TransGen store.IsParent artifact a ↔
        ∃ parent, store.IsParent artifact parent ∧ ReflTransGen store.IsParent parent a :=
      TransGen.head'_iff
    simp only [Option.some.injEq, exists_eq_left', hhead]
    rw [hvisits.mem_iff]
    constructor
    · rintro ⟨id, hid, parent, hparent, hreach⟩
      exact ⟨parent, ⟨id, hid, hparent⟩, hreach⟩
    · rintro ⟨parent, ⟨id, hid, hparent⟩, hreach⟩
      exact ⟨id, hid, parent, hparent, hreach⟩

end

end FileSystemArtifactStore

end LeadAgent

end AcademicAgent
