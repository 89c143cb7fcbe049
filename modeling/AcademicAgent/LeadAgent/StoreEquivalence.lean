import AcademicAgent.LeadAgent.ArtifactStore

/-!
# The memory store and the file store

Both stores answer the same calls.
-/

namespace AcademicAgent

open List

theorem decimalText_mul_ten {m : Nat} (hm : m ≠ 0) :
    decimalText (m * 10) = decimalText m ++ [0x30] := by
  rw [decimalText, Nat.toDigits_of_base_le (by decide) (by omega), map_append,
    Nat.mul_div_cancel _ (by decide), Nat.mul_mod_left]
  rfl

theorem decimalText_mul_pow {m : Nat} (hm : m ≠ 0) (z : Nat) :
    decimalText (m * 10 ^ z) = decimalText m ++ replicate z 0x30 := by
  induction z with
  | zero => simp
  | succ z ih =>
    have hpow : m * 10 ^ z ≠ 0 := Nat.mul_ne_zero hm (by positivity)
    rw [pow_succ, ← mul_assoc, decimalText_mul_ten hpow, ih, append_assoc,
      replicate_succ']

theorem exists_mul_pow_ten (n : Nat) (hn : n ≠ 0) : ∃ m z, n = m * 10 ^ z ∧ m % 10 ≠ 0 := by
  induction n using Nat.strongRecOn with
  | ind n ih =>
    by_cases hmod : n % 10 = 0
    · obtain ⟨m, z, hm, hlast⟩ := ih (n / 10) (by omega) (by omega)
      refine ⟨m, z + 1, ?_, hlast⟩
      rw [pow_succ, ← mul_assoc, ← hm]
      omega
    · exact ⟨n, 0, by simp, hmod⟩

theorem length_decimalText_lt {n k : Nat} (hk : 0 < k) (h : n < 10 ^ k) :
    (decimalText n).length ≤ k := by
  rw [decimalText, length_map]
  exact (Nat.length_toDigits_le_iff (by decide) hk).mpr h

theorem Decimal.toString_ofInt_natCast {n : Nat} (h : n < 10 ^ 21) :
    (Decimal.ofInt n).toString = decimalText n := by
  by_cases hn : n = 0
  · subst hn
    decide
  · obtain ⟨m, z, rfl, hm⟩ := exists_mul_pow_ten n hn
    have hm0 : m ≠ 0 := fun h0 => hm (by rw [h0])
    have hlength := length_decimalText_lt (by decide) h
    rw [decimalText_mul_pow hm0, length_append, length_replicate] at hlength
    have hz : z ≤ m * 10 ^ z :=
      (Nat.lt_pow_self (by decide)).le.trans (Nat.le_mul_of_pos_left _ (Nat.pos_of_ne_zero hm0))
    have hmake : Decimal.ofInt ((m * 10 ^ z : Nat) : Int) = ⟨m, z, .inl (by omega)⟩ := by
      have hstrip := Decimal.strip_mul_pow hm hz 0
      have hneg : ¬ ((m * 10 ^ z : Nat) : Int) < 0 := by omega
      simp only [Decimal.ofInt, Decimal.make, Int.natAbs_natCast, hn, dite_false, hstrip, hneg,
        decide_false, Bool.false_eq_true, ite_false, Int.zero_add]
    rw [hmake, Decimal.toString, Decimal.numeral, if_neg (by simpa using hm0)]
    simp only [Decimal.layout, Int.natAbs_natCast]
    rw [if_pos (by omega), Numeral.text, decimalText_mul_pow hm0]
    simp

end AcademicAgent

namespace AcademicAgent.LeadAgent

structure MemoryArtifactStore where
  artifacts : JsMap JsString StoredArtifact := .empty
  manifestId : JsString
  createdAt : JsString

namespace MemoryArtifactStore

/-- The artifact that `create` makes. -/
def newArtifact (input : CreateArtifactInput) (id now : JsString) : StoredArtifact where
  id := id
  kind := input.kind
  uri := js "memory://" ++ id
  title := input.title
  mediaType := input.mediaType
  version := some (js "v1")
  metadata := input.metadata
  content := input.content
  createdAt := now
  updatedAt := now
  lineage := input.lineage.getD []

def create (store : MemoryArtifactStore) (input : CreateArtifactInput) (id now : JsString) :
    MemoryArtifactStore × StoredArtifact :=
  let artifact := newArtifact input id now
  ({ store with artifacts := store.artifacts.set id artifact }, artifact)

/-- The copy of an artifact that `update` makes is the one of the file store. -/
def update (store : MemoryArtifactStore) (id : JsString) (input : UpdateArtifactInput)
    (now : JsString) : Except JsString (MemoryArtifactStore × StoredArtifact) :=
  match store.artifacts.get id with
  | none => .error (FileSystemArtifactStore.notFound id)
  | some current =>
    let updated := FileSystemArtifactStore.updatedArtifact current input now
    .ok ({ store with artifacts := store.artifacts.set id updated }, updated)

def get (store : MemoryArtifactStore) (id : JsString) : Option StoredArtifact :=
  store.artifacts.get id

def list (store : MemoryArtifactStore) : List StoredArtifact :=
  store.artifacts.entries.map Prod.snd

def manifest (store : MemoryArtifactStore) (now : JsString) : ArtifactManifest where
  id := some store.manifestId
  createdAt := store.createdAt
  updatedAt := some now
  artifacts := store.list.map artifactToRef

end MemoryArtifactStore

/-- A call of a store, or the opening of its directory by a new file store; ids and
times are what the system draws. -/
inductive StoreOperation where
  | reopen (uuid now : JsString)
  | create (input : CreateArtifactInput) (uuid now : JsString)
  | update (id : JsString) (input : UpdateArtifactInput) (now : JsString)
  | get (id : JsString)
  | list
  | manifest (now : JsString)

inductive StoreAnswer where
  | reopened
  | artifact (artifact : StoredArtifact)
  | failed (message : JsString)
  | found (artifact : Option StoredArtifact)
  | listed (artifacts : List StoredArtifact)
  | manifest (manifest : ArtifactManifest)
  deriving DecidableEq

def MemoryArtifactStore.perform (store : MemoryArtifactStore) :
    StoreOperation → MemoryArtifactStore × StoreAnswer
  | .reopen _ _ => (store, .reopened)
  | .create input uuid now =>
    let created := store.create input uuid now
    (created.1, .artifact created.2)
  | .update id input now =>
    match store.update id input now with
    | .error message => (store, .failed message)
    | .ok updated => (updated.1, .artifact updated.2)
  | .get id => (store, .found (store.get id))
  | .list => (store, .listed store.list)
  | .manifest now => (store, .manifest (store.manifest now))

/-- The store after an operation, the directory it leaves and its answer. -/
def FileSystemArtifactStore.perform (store : FileSystemArtifactStore) (directory : Directory) :
    StoreOperation → FileSystemArtifactStore × Directory × StoreAnswer
  | .reopen uuid now => (.new store.rootDir directory uuid now, directory, .reopened)
  | .create input uuid now =>
    let created := store.create directory input uuid now
    (created.1, created.2.1, .artifact created.2.2)
  | .update id input now =>
    match store.update directory id input now with
    | .error message => (store, directory, .failed message)
    | .ok updated => (updated.1, updated.2.1, .artifact updated.2.2)
  | .get id => (store, directory, .found (store.get id))
  | .list => (store, directory, .listed store.list)
  | .manifest now => (store, directory, .manifest (store.manifest now))

def StoredArtifact.withoutUri (artifact : StoredArtifact) : StoredArtifact :=
  { artifact with uri := [] }

def ArtifactRef.withoutUri (ref : ArtifactRef) : ArtifactRef := { ref with uri := [] }

def StoreAnswer.withoutUri : StoreAnswer → StoreAnswer
  | .reopened => .reopened
  | .artifact a => .artifact a.withoutUri
  | .failed message => .failed message
  | .found a => .found (a.map StoredArtifact.withoutUri)
  | .listed as => .listed (as.map StoredArtifact.withoutUri)
  | .manifest m => .manifest { m with artifacts := m.artifacts.map ArtifactRef.withoutUri }

def StoreAnswer.withoutIdentity : StoreAnswer → StoreAnswer
  | .manifest m => .manifest { m with id := none, createdAt := [] }
  | answer => answer

/-- Both stores, the directory of the file store, and the ids whose updates succeeded,
one for each update. -/
structure StorePair where
  memory : MemoryArtifactStore
  file : FileSystemArtifactStore
  directory : Directory := {}
  updated : List JsString := []

namespace StorePair

/-- Both stores, opened with the same id and time and nothing stored. -/
def start (rootDir uuid now : JsString) : StorePair where
  memory := { manifestId := uuid, createdAt := now }
  file := .new rootDir {} uuid now

def memoryAnswer (s : StorePair) (operation : StoreOperation) : StoreAnswer :=
  (s.memory.perform operation).2

def fileAnswer (s : StorePair) (operation : StoreOperation) : StoreAnswer :=
  (s.file.perform s.directory operation).2.2

def updatedId : StoreOperation → StoreAnswer → List JsString
  | .update id _ _, .artifact _ => [id]
  | _, _ => []

section

variable (s : StorePair) (operation : StoreOperation)

def step : Option StorePair :=
  some {
    memory := (s.memory.perform operation).1
    file := (s.file.perform s.directory operation).1
    directory := (s.file.perform s.directory operation).2.1
    updated := s.updated ++ updatedId operation (s.memoryAnswer operation) }

/-- The stores give the same answer up to the uri. -/
def AnswersAgree : Prop :=
  (s.memoryAnswer operation).withoutUri = (s.fileAnswer operation).withoutUri

/-- The stores give the same answer up to the uri and the identity of the manifest. -/
def AnswersAgreeButIdentity : Prop :=
  (s.memoryAnswer operation).withoutUri.withoutIdentity =
    (s.fileAnswer operation).withoutUri.withoutIdentity

end

def DrawsFreshId (s : StorePair) : StoreOperation → Prop
  | .create _ uuid _ => s.memory.get uuid = none
  | _ => True

/-- The file store is reopened only after an artifact was created. -/
def ReopensFilled (s : StorePair) : StoreOperation → Prop
  | .reopen _ _ => s.memory.list ≠ []
  | _ => True

instance (s : StorePair) : ∀ operation, Decidable (s.DrawsFreshId operation)
  | .create _ uuid _ => inferInstanceAs (Decidable (s.memory.get uuid = none))
  | .reopen _ _ | .update _ _ _ | .get _ | .list | .manifest _ => isTrue trivial

def keyed (artifacts : List StoredArtifact) : List (JsString × StoredArtifact) :=
  artifacts.map fun a => (a.id, a)

theorem assocGet_keyed (id : JsString) (artifacts : List StoredArtifact) :
    assocGet id (keyed artifacts) = artifacts.find? (·.id = id) := by
  induction artifacts with
  | nil => rfl
  | cons a as ih =>
    rw [keyed, List.map_cons, assocGet, List.find?_cons]
    by_cases ha : a.id = id
    · simp [ha]
    · rw [if_neg ha]
      simp only [ha, decide_false]
      exact ih

section

variable {artifact : StoredArtifact} {artifacts : List StoredArtifact}

theorem assocSet_keyed_fresh (h : artifacts.find? (·.id = artifact.id) = none) :
    assocSet artifact.id artifact (keyed artifacts) = keyed (artifacts ++ [artifact]) := by
  have hnotin : artifact.id ∉ (keyed artifacts).map Prod.fst := by
    rw [← assocGet_eq_none_iff, assocGet_keyed, h]
  rw [assocSet_of_not_mem artifact hnotin, keyed, keyed, List.map_append]
  rfl

theorem assocSet_keyed_present (h : artifacts.find? (·.id = artifact.id) ≠ none) :
    assocSet artifact.id artifact (keyed artifacts) = keyed (supersede artifacts artifact) := by
  induction artifacts with
  | nil => exact absurd rfl h
  | cons a as ih =>
    rw [keyed, List.map_cons, assocSet, supersede]
    by_cases ha : a.id = artifact.id
    · rw [if_pos ha, if_pos ha]
      rfl
    · rw [List.find?_cons_of_neg (by simpa using ha)] at h
      rw [if_neg ha, if_neg ha]
      exact congrArg ((a.id, a) :: ·) (ih h)

end

theorem find?_withoutUri (id : JsString) (artifacts : List StoredArtifact) :
    (artifacts.map StoredArtifact.withoutUri).find? (·.id = id) =
      (artifacts.find? (·.id = id)).map StoredArtifact.withoutUri := by
  rw [List.find?_map]
  rfl

theorem supersede_withoutUri (artifacts : List StoredArtifact) (artifact : StoredArtifact) :
    (supersede artifacts artifact).map StoredArtifact.withoutUri =
      supersede (artifacts.map StoredArtifact.withoutUri) artifact.withoutUri := by
  induction artifacts with
  | nil => rfl
  | cons a as ih =>
    rw [List.map_cons, supersede, supersede]
    by_cases ha : a.id = artifact.id
    · rw [if_pos ha, if_pos (show a.withoutUri.id = artifact.withoutUri.id from ha)]
      rfl
    · rw [if_neg ha, if_neg (show ¬ a.withoutUri.id = artifact.withoutUri.id from ha),
        List.map_cons, ih]

theorem mem_supersede {artifacts : List StoredArtifact} {artifact a : StoredArtifact}
    (hnodup : (artifacts.map (·.id)).Nodup) (h : a ∈ supersede artifacts artifact) :
    a = artifact ∨ a ∈ artifacts ∧ a.id ≠ artifact.id := by
  induction artifacts with
  | nil => cases h
  | cons b as ih =>
    rw [List.map_cons, List.nodup_cons] at hnodup
    rw [supersede] at h
    split at h
    · rename_i hb
      rcases List.mem_cons.mp h with rfl | h
      · exact .inl rfl
      · refine .inr ⟨List.mem_cons_of_mem _ h, fun ha => hnodup.1 ?_⟩
        rw [hb, ← ha]
        exact List.mem_map_of_mem h
    · rename_i hb
      rcases List.mem_cons.mp h with rfl | h
      · exact .inr ⟨List.mem_cons_self, hb⟩
      · exact (ih hnodup.2 h).imp id (And.imp_left (List.mem_cons_of_mem _))

theorem map_snd_keyed (artifacts : List StoredArtifact) :
    (keyed artifacts).map Prod.snd = artifacts := by
  simp [keyed, Function.comp_def]

end StorePair

theorem FileSystemArtifactStore.update_eq (store : FileSystemArtifactStore)
    (directory : Directory) (id : JsString) (input : UpdateArtifactInput) (now : JsString) :
    store.update directory id input now = match store.get id with
      | none => .error (notFound id)
      | some current =>
        let updated := updatedArtifact current input now
        let store := { store with
          data := { store.data with artifacts := supersede store.data.artifacts updated } }
        .ok (store, store.save id input.content directory, updated) := by
  unfold update get
  rw [List.find?_eq_bind_findIdx?_getElem?]
  cases hindex : store.data.artifacts.findIdx? (·.id = id) with
  | none => rfl
  | some index =>
    obtain ⟨hlt, hfound, -⟩ := List.findIdx?_eq_some_iff_getElem.mp hindex
    simp only [Option.bind_some, List.getElem?_eq_getElem hlt]
    have hid : store.data.artifacts[index].id = id := of_decide_eq_true hfound
    have hset := @supersede_eq_set _ _ store.data.artifacts[index]
      (updatedArtifact store.data.artifacts[index] input now) rfl (hid.symm ▸ hindex)
    simp only [hset]

theorem not_isWhitespace_of_isDigit {c : CodeUnit} (h : isDigit c = true) :
    isWhitespace c = false := by
  simp only [isDigit, Bool.and_eq_true, decide_eq_true_eq, UInt16.le_iff_toNat_le,
    UInt16.reduceToNat] at h
  simp only [isWhitespace, Bool.or_eq_false_iff, Bool.and_eq_false_iff, decide_eq_false_iff_not,
    beq_eq_false_iff_ne, ne_eq, ← UInt16.toNat_inj, UInt16.le_iff_toNat_le, UInt16.reduceToNat]
  omega

theorem nextVersion_decimalText {n : Nat} (h : n + 1 < 10 ^ 21) :
    nextVersion (some (js "v" ++ decimalText n)) = js "v" ++ decimalText (n + 1) := by
  have hdigits := @isDigit_of_mem_decimalText n
  have hparse : parseInt (decimalText n) = some (n : Int) := by
    have hread := digitsValue_decimalText n
    obtain ⟨c, cs, hcs⟩ := List.exists_cons_of_ne_nil (decimalText_ne_nil n)
    rw [hcs] at hdigits hread ⊢
    have hc := hdigits c List.mem_cons_self
    have hspace : isWhitespace c = false := not_isWhitespace_of_isDigit hc
    have hminus : c ≠ 0x2D := by rintro rfl; cases hc
    have hplus : c ≠ 0x2B := by rintro rfl; cases hc
    have htake : (c :: cs).takeWhile isDigit = c :: cs := List.takeWhile_eq_self_iff.mpr hdigits
    simp only [parseInt, List.dropWhile_cons_of_neg (by simp [hspace] : ¬ isWhitespace c = true),
      List.head?_cons, Option.some_beq_some, beq_false_of_ne hminus, beq_false_of_ne hplus,
      Bool.or_false, Bool.false_eq_true, ite_false, htake, reduceCtorEq, hread]
  have hnext : nextVersion (some (js "v" ++ decimalText n)) =
      js "v" ++ (Decimal.ofInt (n + 1)).toString := by
    rw [show js "v" ++ decimalText n = 0x76 :: decimalText n from rfl, nextVersion]
    simp only [↓reduceIte, hparse]
  rw [hnext]
  exact congrArg (js "v" ++ ·) (Decimal.toString_ofInt_natCast h)

namespace StorePair

variable {s t : StorePair} {operation : StoreOperation}

/-- The stores hold the same artifacts, and the file has what the file store holds. -/
structure Corresponds (s : StorePair) : Prop where
  entries_eq : s.memory.artifacts.entries = keyed s.memory.list
  artifacts_eq : s.memory.list.map StoredArtifact.withoutUri =
    s.file.list.map StoredArtifact.withoutUri
  written : s.directory.artifactsJson = some (.data s.file.data) ∨
    s.directory.artifactsJson = none ∧ s.file.list = []

/-- The manifests of the stores have the same id and creation time. -/
def Identified (s : StorePair) : Prop :=
  s.file.data.manifestId = some s.memory.manifestId ∧
    s.file.data.createdAt = s.memory.createdAt

section

variable (h : s.Corresponds)
include h

theorem Corresponds.get_eq (id : JsString) : s.memory.get id = s.memory.list.find? (·.id = id) := by
  rw [MemoryArtifactStore.get, JsMap.get, h.entries_eq, assocGet_keyed]

theorem Corresponds.get_withoutUri (id : JsString) :
    (s.memory.get id).map StoredArtifact.withoutUri =
      (s.file.get id).map StoredArtifact.withoutUri := by
  rw [h.get_eq, ← find?_withoutUri, h.artifacts_eq, find?_withoutUri]
  rfl

theorem Corresponds.list_eq_nil_iff : s.memory.list = [] ↔ s.file.list = [] := by
  rw [← List.map_eq_nil_iff (f := StoredArtifact.withoutUri), h.artifacts_eq, List.map_eq_nil_iff]

theorem Corresponds.load_eq (hfilled : s.memory.list ≠ []) (uuid now : JsString) :
    FileSystemArtifactStore.load s.directory uuid now = s.file.data := by
  rcases h.written with hwritten | ⟨-, hempty⟩
  · rw [FileSystemArtifactStore.load, hwritten]
  · exact absurd (h.list_eq_nil_iff.mpr hempty) hfilled

end

theorem Corresponds.start (rootDir uuid now : JsString) : (start rootDir uuid now).Corresponds where
  entries_eq := rfl
  artifacts_eq := rfl
  written := .inr ⟨rfl, rfl⟩

/-- The memory store with an artifact in place of the one with its id. -/
def replaced (s : StorePair) (artifact : StoredArtifact) : MemoryArtifactStore :=
  { s.memory with artifacts := s.memory.artifacts.set artifact.id artifact }

/-- The file store with an artifact in place of the first one with its id. -/
def superseded (s : StorePair) (artifact : StoredArtifact) : FileSystemArtifactStore :=
  { s.file with data :=
    { s.file.data with artifacts := supersede s.file.data.artifacts artifact } }

theorem Corresponds.update_cases (h : s.Corresponds) (id : JsString)
    (input : UpdateArtifactInput) (now : JsString) : (s.memory.perform (.update id input now) =
        (s.memory, .failed (FileSystemArtifactStore.notFound id)) ∧
      s.file.perform s.directory (.update id input now) =
        (s.file, s.directory, .failed (FileSystemArtifactStore.notFound id))) ∨
    ∃ current stored, s.memory.get id = some current ∧ current.id = id ∧
      current.withoutUri = stored.withoutUri ∧
      s.memory.perform (.update id input now) =
        (s.replaced (FileSystemArtifactStore.updatedArtifact current input now),
          .artifact (FileSystemArtifactStore.updatedArtifact current input now)) ∧
      s.file.perform s.directory (.update id input now) =
        (s.superseded (FileSystemArtifactStore.updatedArtifact stored input now),
          (s.superseded (FileSystemArtifactStore.updatedArtifact stored input now)).save id
            input.content s.directory,
          .artifact (FileSystemArtifactStore.updatedArtifact stored input now)) := by
  have hget := h.get_withoutUri id
  cases hmemory : s.memory.get id with
  | none =>
    rw [hmemory] at hget
    have hfile : s.file.get id = none := Option.map_eq_none_iff.mp hget.symm
    refine .inl ⟨?_, ?_⟩
    · simp only [MemoryArtifactStore.perform, MemoryArtifactStore.update,
        show s.memory.artifacts.get id = none from hmemory]
    · simp only [FileSystemArtifactStore.perform, FileSystemArtifactStore.update_eq, hfile]
  | some current =>
    rw [hmemory] at hget
    obtain ⟨stored, hfile, hsame⟩ := Option.map_eq_some_iff.mp hget.symm
    have hid : current.id = id := by
      rw [h.get_eq] at hmemory
      simpa using List.find?_some hmemory
    refine .inr ⟨current, stored, rfl, hid, hsame.symm, ?_, ?_⟩
    · subst hid
      simp only [MemoryArtifactStore.perform, MemoryArtifactStore.update,
        show s.memory.artifacts.get current.id = some current from hmemory]
      rfl
    · simp only [FileSystemArtifactStore.perform, FileSystemArtifactStore.update_eq, hfile]
      rfl

section

variable (h : s.Corresponds) {artifact : StoredArtifact}
include h

theorem Corresponds.entries_replaced (hpresent : s.memory.get artifact.id ≠ none) :
    (s.replaced artifact).artifacts.entries = keyed (supersede s.memory.list artifact) := by
  rw [h.get_eq] at hpresent
  show assocSet artifact.id artifact s.memory.artifacts.entries = _
  rw [h.entries_eq]
  exact assocSet_keyed_present hpresent

theorem Corresponds.list_replaced (hpresent : s.memory.get artifact.id ≠ none) :
    (s.replaced artifact).list = supersede s.memory.list artifact := by
  rw [MemoryArtifactStore.list, h.entries_replaced hpresent, map_snd_keyed]

theorem Corresponds.entries_create (hfresh : s.memory.get artifact.id = none) :
    (s.replaced artifact).artifacts.entries = keyed (s.memory.list ++ [artifact]) := by
  rw [h.get_eq] at hfresh
  show assocSet artifact.id artifact s.memory.artifacts.entries = _
  rw [h.entries_eq]
  exact assocSet_keyed_fresh hfresh

theorem Corresponds.list_create (hfresh : s.memory.get artifact.id = none) :
    (s.replaced artifact).list = s.memory.list ++ [artifact] := by
  rw [MemoryArtifactStore.list, h.entries_create hfresh, map_snd_keyed]

end

theorem updatedArtifact_withoutUri {current stored : StoredArtifact}
    (h : current.withoutUri = stored.withoutUri) (input : UpdateArtifactInput) (now : JsString) :
    (FileSystemArtifactStore.updatedArtifact current input now).withoutUri =
      (FileSystemArtifactStore.updatedArtifact stored input now).withoutUri := by
  have hstep (a : StoredArtifact) : (FileSystemArtifactStore.updatedArtifact a input now).withoutUri =
      FileSystemArtifactStore.updatedArtifact a.withoutUri input now := rfl
  rw [hstep, hstep, h]

theorem Corresponds.step (h : s.Corresponds) (hfresh : s.DrawsFreshId operation)
    (hstep : s.step operation = some t) : t.Corresponds := by
  cases hstep
  cases operation with
  | get id | list | manifest now => exact ⟨h.entries_eq, h.artifacts_eq, h.written⟩
  | reopen uuid now =>
    rcases h.written with hwritten | ⟨hnone, hempty⟩
    · have hload : FileSystemArtifactStore.load s.directory uuid now = s.file.data := by
        rw [FileSystemArtifactStore.load, hwritten]
      refine ⟨h.entries_eq, ?_, .inl ?_⟩
      · show _ = (FileSystemArtifactStore.load s.directory uuid now).artifacts.map _
        rw [hload]
        exact h.artifacts_eq
      · show _ = some (ArtifactsJson.data (FileSystemArtifactStore.load s.directory uuid now))
        rw [hload]
        exact hwritten
    · have hload : (FileSystemArtifactStore.load s.directory uuid now).artifacts = [] := by
        rw [FileSystemArtifactStore.load, hnone]
      refine ⟨h.entries_eq, ?_, .inr ⟨hnone, hload⟩⟩
      show _ = (FileSystemArtifactStore.load s.directory uuid now).artifacts.map _
      rw [hload, ← hempty]
      exact h.artifacts_eq
  | create input uuid now =>
    have hnew : (MemoryArtifactStore.newArtifact input uuid now).id = uuid := rfl
    have hnone : s.memory.get (MemoryArtifactStore.newArtifact input uuid now).id = none := hfresh
    refine ⟨?_, ?_, .inl rfl⟩
    · show (s.replaced (MemoryArtifactStore.newArtifact input uuid now)).artifacts.entries =
        keyed (s.replaced (MemoryArtifactStore.newArtifact input uuid now)).list
      rw [h.list_create hnone, h.entries_create hnone]
    · show (s.replaced (MemoryArtifactStore.newArtifact input uuid now)).list.map _ =
        (s.file.list ++ [s.file.newArtifact input uuid now]).map _
      rw [h.list_create hnone, List.map_append, h.artifacts_eq, List.map_append]
      rfl
  | update id input now =>
    rcases h.update_cases id input now with
      ⟨hmemory, hfile⟩ | ⟨current, stored, hcurrent, hid, hsame, hmemory, hfile⟩
    · rw [hmemory, hfile]
      exact ⟨h.entries_eq, h.artifacts_eq, h.written⟩
    · have hpresent : s.memory.get
          (FileSystemArtifactStore.updatedArtifact current input now).id ≠ none := by
        show s.memory.get current.id ≠ none
        rw [hid, hcurrent]
        exact Option.some_ne_none _
      rw [hmemory, hfile]
      refine ⟨?_, ?_, .inl rfl⟩
      · rw [h.list_replaced hpresent, h.entries_replaced hpresent]
      · rw [h.list_replaced hpresent, supersede_withoutUri, h.artifacts_eq,
          updatedArtifact_withoutUri hsame, ← supersede_withoutUri]
        rfl

theorem map_artifactToRef_withoutUri (artifacts : List StoredArtifact) :
    (artifacts.map artifactToRef).map ArtifactRef.withoutUri =
      (artifacts.map StoredArtifact.withoutUri).map artifactToRef := by
  simp [Function.comp_def, artifactToRef, ArtifactRef.withoutUri, StoredArtifact.withoutUri]

section

variable (h : s.Corresponds)
include h

theorem Corresponds.answersAgree
    (hid : ∀ now, operation = .manifest now → s.Identified) : s.AnswersAgree operation := by
  cases operation with
  | reopen uuid now => rfl
  | create input uuid now => rfl
  | get id => exact congrArg StoreAnswer.found (h.get_withoutUri id)
  | list => exact congrArg StoreAnswer.listed h.artifacts_eq
  | manifest now =>
    obtain ⟨hmanifestId, hcreatedAt⟩ := hid now rfl
    simp only [AnswersAgree, memoryAnswer, fileAnswer, MemoryArtifactStore.perform,
      FileSystemArtifactStore.perform, StoreAnswer.withoutUri, MemoryArtifactStore.manifest,
      FileSystemArtifactStore.manifest, map_artifactToRef_withoutUri, h.artifacts_eq,
      hmanifestId, hcreatedAt]
  | update id input now =>
    rcases h.update_cases id input now with
      ⟨hmemory, hfile⟩ | ⟨current, stored, -, -, hsame, hmemory, hfile⟩
    · rw [AnswersAgree, memoryAnswer, fileAnswer, hmemory, hfile]
    · rw [AnswersAgree, memoryAnswer, fileAnswer, hmemory, hfile]
      exact congrArg StoreAnswer.artifact (updatedArtifact_withoutUri hsame input now)

theorem Corresponds.answersAgreeButIdentity : s.AnswersAgreeButIdentity operation := by
  by_cases hmanifest : ∃ now, operation = .manifest now
  · obtain ⟨now, rfl⟩ := hmanifest
    simp only [AnswersAgreeButIdentity, memoryAnswer, fileAnswer, MemoryArtifactStore.perform,
      FileSystemArtifactStore.perform, StoreAnswer.withoutUri, StoreAnswer.withoutIdentity,
      MemoryArtifactStore.manifest, FileSystemArtifactStore.manifest,
      map_artifactToRef_withoutUri, h.artifacts_eq]
  · exact congrArg StoreAnswer.withoutIdentity
      (h.answersAgree fun now hnow => absurd ⟨now, hnow⟩ hmanifest)

theorem Corresponds.identified (hid : s.Identified)
    (hfilled : s.ReopensFilled operation) (hstep : s.step operation = some t) : t.Identified := by
  cases hstep
  cases operation with
  | get id => exact hid
  | list => exact hid
  | manifest now => exact hid
  | create input uuid now => exact hid
  | reopen uuid now =>
    show (FileSystemArtifactStore.load s.directory uuid now).manifestId = _ ∧
      (FileSystemArtifactStore.load s.directory uuid now).createdAt = _
    rw [h.load_eq hfilled]
    exact hid
  | update id input now =>
    rcases h.update_cases id input now with
      ⟨hmemory, hfile⟩ | ⟨current, stored, -, -, -, hmemory, hfile⟩
    all_goals
      rw [hmemory, hfile]
      exact hid

end

/-- Every artifact has the version after its updates, as long as these can be counted
exactly. -/
structure Counted (s : StorePair) : Prop where
  corresponds : s.Corresponds
  known : ∀ id ∈ s.updated, s.memory.get id ≠ none
  version_eq : s.updated.length < 2 ^ 53 → ∀ a ∈ s.memory.list,
    a.version = some (js "v" ++ decimalText (1 + s.updated.count a.id))

theorem Corresponds.nodup (h : s.Corresponds) : (s.memory.list.map (·.id)).Nodup := by
  have hnodup := s.memory.artifacts.nodup
  rw [h.entries_eq, keyed, List.map_map] at hnodup
  exact hnodup

theorem Counted.step (h : s.Counted) (hfresh : s.DrawsFreshId operation)
    (hstep : s.step operation = some t) : t.Counted := by
  have hcorresponds := h.corresponds.step hfresh hstep
  have hsame (hmemory : t.memory = s.memory) (hupdated : t.updated = s.updated) : t.Counted := by
    refine ⟨hcorresponds, ?_, ?_⟩
    · rw [hmemory, hupdated]
      exact h.known
    · rw [hmemory, hupdated]
      exact h.version_eq
  cases hstep
  cases operation with
  | get id | list | manifest now | reopen uuid now => exact hsame rfl (List.append_nil _)
  | create input uuid now =>
    have hnone : s.memory.get (MemoryArtifactStore.newArtifact input uuid now).id = none := hfresh
    have hupdated : s.updated ++ updatedId (.create input uuid now)
        (s.memoryAnswer (.create input uuid now)) = s.updated := List.append_nil _
    refine ⟨hcorresponds, ?_, ?_⟩
    · intro id hid
      rw [hupdated] at hid
      show (s.memory.artifacts.set uuid _).get id ≠ none
      rw [JsMap.get_set]
      split
      · exact Option.some_ne_none _
      · exact h.known id hid
    · intro hlt a ha
      rw [hupdated] at hlt ⊢
      have hlist : a ∈ s.memory.list ++ [MemoryArtifactStore.newArtifact input uuid now] :=
        h.corresponds.list_create hnone ▸ ha
      rcases List.mem_append.mp hlist with ha | ha
      · exact h.version_eq hlt a ha
      · rw [List.mem_singleton.mp ha]
        have hcount : s.updated.count (MemoryArtifactStore.newArtifact input uuid now).id = 0 :=
          List.count_eq_zero.mpr fun hmem => h.known _ hmem hnone
        rw [hcount]
        rfl
  | update id input now =>
    rcases h.corresponds.update_cases id input now with
      ⟨hmemory, -⟩ | ⟨current, stored, hcurrent, hid, -, hmemory, -⟩
    · refine hsame (by rw [hmemory]) ?_
      rw [memoryAnswer, hmemory]
      exact List.append_nil _
    · subst hid
      have hpresent : s.memory.get
          (FileSystemArtifactStore.updatedArtifact current input now).id ≠ none := by
        show s.memory.get current.id ≠ none
        rw [hcurrent]
        exact Option.some_ne_none _
      have hupdated : s.updated ++ updatedId (.update current.id input now)
          (s.memoryAnswer (.update current.id input now)) = s.updated ++ [current.id] := by
        rw [memoryAnswer, hmemory]
        rfl
      refine ⟨hcorresponds, ?_, ?_⟩
      · intro id hid
        rw [hupdated] at hid
        rw [hmemory]
        show (s.memory.artifacts.set _ _).get id ≠ none
        rw [JsMap.get_set]
        split
        · exact Option.some_ne_none _
        · rename_i hne
          rcases List.mem_append.mp hid with hid | hid
          · exact h.known id hid
          · exact absurd (List.mem_singleton.mp hid).symm hne
      · intro hlt a ha
        rw [hupdated] at hlt ⊢
        rw [List.length_append, List.length_singleton] at hlt
        rw [hmemory, h.corresponds.list_replaced hpresent] at ha
        have hold := h.version_eq (by omega)
        rw [List.count_append]
        rcases mem_supersede h.corresponds.nodup ha with rfl | ⟨ha, hne⟩
        · have hmem : current ∈ s.memory.list := by
            rw [h.corresponds.get_eq] at hcurrent
            exact List.mem_of_find?_eq_some hcurrent
          have hcount : s.updated.count current.id ≤ s.updated.length := List.count_le_length
          show some (nextVersion current.version) = _
          rw [hold current hmem, nextVersion_decimalText (by omega)]
          show _ = some (js "v" ++ decimalText (1 + (s.updated.count current.id +
            [current.id].count current.id)))
          rw [List.count_singleton_self, Nat.add_assoc]
        · have hzero : [current.id].count a.id = 0 :=
            List.count_eq_zero.mpr fun hmem => hne (List.mem_singleton.mp hmem)
          rw [hzero, Nat.add_zero]
          exact hold a ha

theorem Counted.start (rootDir uuid now : JsString) : (start rootDir uuid now).Counted where
  corresponds := .start rootDir uuid now
  known _ hid := absurd hid List.not_mem_nil
  version_eq _ _ ha := absurd ha List.not_mem_nil

/-- Two artifacts, one of them updated after the file store was reopened. -/
def reading : List StoreOperation :=
  [.create { kind := js "note", content := js "x" } (js "a") (js "t1"),
    .create { kind := js "note", content := js "y" } (js "b") (js "t2"),
    .reopen (js "m2") (js "t3"), .update (js "a") { content := js "z" } (js "t4"), .list,
    .manifest (js "t5")]

/-- The stores give equal answers up to the uri and the identity of manifests; also the
identity is equal when the file store is reopened only after an artifact was created; and
a version counts the updates. -/
theorem stores_agree (rootDir uuid now : JsString) (operations : List StoreOperation)
    (hfresh : Along step DrawsFreshId (start rootDir uuid now) operations) :
    Along step AnswersAgreeButIdentity (start rootDir uuid now) operations ∧
    (Along step ReopensFilled (start rootDir uuid now) operations →
      Along step AnswersAgree (start rootDir uuid now) operations) ∧
    ∀ t, run step (start rootDir uuid now) operations = some t → t.updated.length < 2 ^ 53 →
      ∀ artifacts ∈ [t.memory.list, t.file.list], ∀ a ∈ artifacts,
        a.version = some (js "v" ++ decimalText (1 + t.updated.count a.id)) := by
  have hstart := Corresponds.start rootDir uuid now
  refine ⟨?_, fun hfilled => ?_, fun t ht hlt artifacts hartifacts a ha => ?_⟩
  · have hboth : Along step (fun s operation => s.DrawsFreshId operation ∧
        s.AnswersAgreeButIdentity operation) (start rootDir uuid now) operations :=
      (along_iff_along (fun s operation (h : s.Corresponds) =>
          ⟨fun hp => ⟨hp, h.answersAgreeButIdentity⟩, And.left⟩)
        (fun s operation t h hp hstep => h.step hp.1 hstep) hstart).mp hfresh
    exact hboth.imp fun _ _ => And.right
  · have hboth : Along step (fun s operation => (s.DrawsFreshId operation ∧
        s.ReopensFilled operation) ∧ s.AnswersAgree operation) (start rootDir uuid now)
        operations :=
      (along_iff_along (fun s operation (h : s.Corresponds ∧ s.Identified) =>
          ⟨fun hp => ⟨hp, h.1.answersAgree fun _ _ => h.2⟩, And.left⟩)
        (fun s operation t h hp hstep =>
          ⟨h.1.step hp.1.1 hstep, h.1.identified h.2 hp.1.2 hstep⟩)
        ⟨hstart, rfl, rfl⟩).mp (hfresh.and hfilled)
    exact hboth.imp fun _ _ => And.right
  · have hcounted : t.Counted :=
      run_invariant (fun s operation t h hp hstep => h.step hp hstep)
        (.start rootDir uuid now) hfresh ht
    have hmemory := hcounted.version_eq hlt
    rcases List.mem_pair.mp hartifacts with rfl | rfl
    · exact hmemory a ha
    · have hmem : a.withoutUri ∈ t.memory.list.map StoredArtifact.withoutUri := by
        rw [hcounted.corresponds.artifacts_eq]
        exact List.mem_map_of_mem ha
      obtain ⟨b, hb, hsame⟩ := List.mem_map.mp hmem
      have hversion : b.version = a.version := congrArg (fun a => a.version) hsame
      have hid : b.id = a.id := congrArg (fun a => a.id) hsame
      rw [← hversion, ← hid]
      exact hmemory b hb

/-- Two artifacts, one of them updated after the file store was reopened. -/
theorem stores_agree_reading :
    Along step AnswersAgreeButIdentity (start (js "/w") (js "m") (js "t0")) reading ∧
    (Along step ReopensFilled (start (js "/w") (js "m") (js "t0")) reading →
      Along step AnswersAgree (start (js "/w") (js "m") (js "t0")) reading) ∧
    ∀ t, run step (start (js "/w") (js "m") (js "t0")) reading = some t →
      t.updated.length < 2 ^ 53 → ∀ artifacts ∈ [t.memory.list, t.file.list], ∀ a ∈ artifacts,
        a.version = some (js "v" ++ decimalText (1 + t.updated.count a.id)) :=
  stores_agree _ _ _ reading (by decide)

/-- An empty file store that is reopened has another manifest id. -/
theorem reopened_store_differs : ¬ ∀ rootDir uuid now operations,
      Along step DrawsFreshId (start rootDir uuid now) operations →
        Along step AnswersAgree (start rootDir uuid now) operations := by
  intro h
  have hrun := h [] (js "m1") (js "t1") [.reopen (js "m2") (js "t2"), .manifest (js "t3")]
    ⟨trivial, fun _ _ => ⟨trivial, fun _ _ => trivial⟩⟩
  have hagree := (hrun.2 _ rfl).1
  unfold AnswersAgree at hagree
  exact absurd hagree (by decide)

end StorePair

end AcademicAgent.LeadAgent
