import AcademicAgent.Core.JsMap
import AcademicAgent.Core.JsString
import AcademicAgent.Core.Run

/-!
# The storage of credentials

Storages of several processes share one file and the lock on it, and each keeps a copy in
memory.
-/

namespace AcademicAgent

open Function (update update_of_ne update_self)

namespace Auth

/-- The part of `OAuthCredentials` that is read. -/
structure OAuthCredentials where
  refresh : JsString
  access : JsString
  expires : Int
  deriving DecidableEq, Repr

/-- A stored credential, by its `type`. -/
inductive Credential where
  | apiKey (key : JsString)
  | oauth (credentials : OAuthCredentials)
  deriving DecidableEq, Repr

/-- `AuthStorageData`: the credentials of the providers. -/
abbrev AuthStorageData := JsMap JsString Credential

/-- What is at the path of the file: nothing, a text that is not JSON, or data. -/
inductive AuthFile where
  | absent
  | unreadable
  | data (content : AuthStorageData)

namespace AuthFile

/-- `parseStorageData` of what is read, which throws for a text that is not JSON. -/
def parseStorageData : AuthFile → Option AuthStorageData
  | .absent => some .empty
  | .unreadable => none
  | .data content => some content

def get (file : AuthFile) (provider : JsString) : Option Credential :=
  match file with
  | .data content => content.get provider
  | _ => none

def isEmpty : AuthFile → Bool
  | .absent => true
  | .unreadable => false
  | .data content => content.entries.isEmpty

end AuthFile

inductive Operation where
  /-- `persistProviderChange` with a credential. -/
  | set (provider : JsString) (credential : Credential)
  /-- `persistProviderChange` without a credential. -/
  | remove (provider : JsString)
  | reload
  /-- `refreshOAuthTokenWithLock`. -/
  | refresh (provider : JsString)
  deriving DecidableEq

inductive Phase where
  | idle
  /-- Before `existsSync` in `ensureFileExists`. -/
  | starting (operation : Operation)
  /-- Before the `writeFileSync` of `ensureFileExists`. -/
  | creating (operation : Operation)
  /-- Before the lock is taken. -/
  | waiting (operation : Operation)
  /-- With the lock, before the file is read. -/
  | locked (operation : Operation)
  /-- With the lock, while the provider refreshes a credential. -/
  | refreshing (provider : JsString) (currentData : AuthStorageData) (cred : OAuthCredentials)
  /-- With the lock, before `next` is written; `refreshes` after a refresh. -/
  | writing (provider : JsString) (next : AuthStorageData) (refreshes : Bool)
  /-- Before the lock is released; `after` is what the storage does then. -/
  | releasing (after : Option Operation)

def Phase.HoldsLock : Phase → Prop
  | .locked _ | .refreshing .. | .writing .. | .releasing _ => True
  | _ => False

structure Task where
  storage : Nat
  phase : Phase

/-- The fields of one `AuthStorage`. -/
structure Memory where
  data : AuthStorageData
  loadError : Bool

/-- The file, its lock, the clock, the storages and their tasks, and what the operations on
each provider have stored: the credential, how many there were, and which of them a
refresh has replaced. -/
structure State where
  file : AuthFile
  holder : Option Nat
  now : Int
  memories : Nat → Memory
  tasks : Nat → Task
  stored : JsString → Option Credential
  version : JsString → Nat
  refreshed : List (JsString × Nat)

/-- Storages without a task, on a file with any content. -/
def State.initial (file : AuthFile) (now : Int) : State where
  file
  holder := none
  now
  memories := fun _ => ⟨.empty, false⟩
  tasks := fun _ => ⟨0, .idle⟩
  stored := file.get
  version := fun _ => 0
  refreshed := []

/-- The public operations of a storage that concern the file. -/
inductive Call where
  | set (provider : JsString) (credential : Credential)
  | remove (provider : JsString)
  | reload
  | getApiKey (provider : JsString)
  deriving DecidableEq

inductive Event where
  /-- A new task begins with a call on a storage. -/
  | call (task storage : Nat) (call : Call)
  /-- `existsSync`. -/
  | check (task : Nat)
  /-- The `writeFileSync` of `ensureFileExists`. -/
  | create (task : Nat)
  /-- The lock is taken. -/
  | acquire (task : Nat)
  /-- The lock is not taken within the attempts. -/
  | giveUp (task : Nat)
  /-- The file is read and the function under the lock runs. -/
  | read (task : Nat)
  /-- The provider answers with credentials, or throws. -/
  | answer (task : Nat) (credentials : Option OAuthCredentials)
  /-- The file is written. -/
  | write (task : Nat)
  /-- The lock is released. -/
  | release (task : Nat)
  /-- The clock moves on. -/
  | tick (now : Int)
  deriving DecidableEq

namespace State

def setPhase (s : State) (task : Nat) (phase : Phase) : State :=
  { s with tasks := update s.tasks task { s.tasks task with phase } }

def setMemory (s : State) (storage : Nat) (memory : Memory) : State :=
  { s with memories := update s.memories storage memory }

/-- `persistProviderChange`, which does nothing after a load error. -/
def persistProviderChange (s : State) (task storage : Nat) (operation : Operation) : State :=
  if (s.memories storage).loadError then s
  else { s with tasks := update s.tasks task ⟨storage, .starting operation⟩ }

variable (isOAuthProvider : JsString → Bool)

/-- The part of a call before its first step on the file. -/
def beginCall (s : State) (task storage : Nat) : Call → State
  | .set provider credential =>
    let memory := s.memories storage
    (s.setMemory storage { memory with data := memory.data.set provider credential })
      |>.persistProviderChange task storage (.set provider credential)
  | .remove provider =>
    let memory := s.memories storage
    (s.setMemory storage { memory with data := memory.data.delete provider })
      |>.persistProviderChange task storage (.remove provider)
  | .reload => { s with tasks := update s.tasks task ⟨storage, .starting .reload⟩ }
  | .getApiKey provider =>
    match (s.memories storage).data.get provider with
    | some (.oauth cred) =>
      if isOAuthProvider provider = true ∧ cred.expires ≤ s.now then
        { s with tasks := update s.tasks task ⟨storage, .starting (.refresh provider)⟩ }
      else s
    | _ => s

/-- What a storage does when its task throws: a refresh is followed by a reload. -/
def afterError : Operation → Option Operation
  | .refresh _ => some .reload
  | _ => none

section

variable (s : State) (task : Nat)

/-- The function that runs under the lock, up to its write or its call of the provider. -/
def readUnderLock (operation : Operation) : State :=
  let storage := (s.tasks task).storage
  let memory := s.memories storage
  match s.file.parseStorageData with
  | none =>
    let memory := if operation = .reload then { memory with loadError := true } else memory
    (s.setMemory storage memory).setPhase task (.releasing (afterError operation))
  | some currentData =>
    match operation with
    | .set provider credential =>
      s.setPhase task (.writing provider (currentData.set provider credential) false)
    | .remove provider => s.setPhase task (.writing provider (currentData.delete provider) false)
    | .reload => (s.setMemory storage ⟨currentData, false⟩).setPhase task (.releasing none)
    | .refresh provider =>
      let s := s.setMemory storage ⟨currentData, false⟩
      match currentData.get provider with
      | some (.oauth cred) =>
        if s.now < cred.expires then s.setPhase task (.releasing none)
        else s.setPhase task (.refreshing provider currentData cred)
      | _ => s.setPhase task (.releasing none)

/-- The refreshed credentials are merged into what was read. -/
def answered (provider : JsString) (currentData : AuthStorageData) :
    Option OAuthCredentials → State
  | none => s.setPhase task (.releasing (some .reload))
  | some credentials =>
    let merged := currentData.set provider (.oauth credentials)
    (s.setMemory (s.tasks task).storage ⟨merged, false⟩).setPhase task (.writing provider merged true)

/-- `next` is written. -/
def written (provider : JsString) (next : AuthStorageData) (refreshes : Bool) : State :=
  { s.setPhase task (.releasing none) with
    file := .data next
    stored := update s.stored provider (next.get provider)
    version := update s.version provider (s.version provider + 1)
    refreshed :=
      if refreshes then (provider, s.version provider) :: s.refreshed else s.refreshed }

end

def step (s : State) : Event → Option State
  | .call task storage call =>
    match (s.tasks task).phase with
    | .idle => some (s.beginCall isOAuthProvider task storage call)
    | _ => none
  | .check task =>
    match (s.tasks task).phase with
    | .starting operation =>
      match s.file with
      | .absent => some (s.setPhase task (.creating operation))
      | _ => some (s.setPhase task (.waiting operation))
    | _ => none
  | .create task =>
    match (s.tasks task).phase with
    | .creating operation => some { s.setPhase task (.waiting operation) with file := .data .empty }
    | _ => none
  | .acquire task =>
    match (s.tasks task).phase with
    | .waiting operation =>
      if s.holder = none then some { s.setPhase task (.locked operation) with holder := some task }
      else none
    | _ => none
  | .giveUp task =>
    match (s.tasks task).phase with
    | .waiting operation =>
      let storage := (s.tasks task).storage
      match operation with
      | .refresh _ => some (s.setPhase task (.starting .reload))
      | .reload =>
        some ((s.setMemory storage { s.memories storage with loadError := true }).setPhase task .idle)
      | _ => some (s.setPhase task .idle)
    | _ => none
  | .read task =>
    match (s.tasks task).phase with
    | .locked operation => some (s.readUnderLock task operation)
    | _ => none
  | .answer task credentials =>
    match (s.tasks task).phase with
    | .refreshing provider currentData _ => some (s.answered task provider currentData credentials)
    | _ => none
  | .write task =>
    match (s.tasks task).phase with
    | .writing provider next refreshes => some (s.written task provider next refreshes)
    | _ => none
  | .release task =>
    match (s.tasks task).phase with
    | .releasing after =>
      some { s.setPhase task (after.elim .idle .starting) with holder := none }
    | _ => none
  | .tick now => if s.now ≤ now then some { s with now } else none

end State

end Auth

/-!
# No operation loses the credential of another provider

Whoever holds the lock has read what the file has, so a write changes one provider only, and a
credential is refreshed only while it is the stored one.
-/

namespace Auth

namespace State

variable (s : State) (task storage : Nat) (phase : Phase) (memory : Memory)

@[simp] theorem setPhase_phase : ((s.setPhase task phase).tasks task).phase = phase := by
  simp [setPhase]

theorem setPhase_other {other : Nat} (h : other ≠ task) :
    (s.setPhase task phase).tasks other = s.tasks other :=
  update_of_ne h _ s.tasks

/-- The file has for every provider what the last operation on it has stored, and a
credential that is being refreshed is the stored one, has expired, and was not refreshed
before. -/
structure Kept (s : State) : Prop where
  stored : ∀ provider, s.file.get provider = s.stored provider
  once : ∀ task provider currentData cred,
    (s.tasks task).phase = .refreshing provider currentData cred →
      s.file.get provider = some (.oauth cred) ∧ cred.expires ≤ s.now ∧
        (provider, s.version provider) ∉ s.refreshed

/-- Whoever creates the file finds no credential in it. -/
def CreatesEmpty (s : State) : Event → Prop
  | .create _ => s.file.isEmpty = true
  | _ => True

instance decidableCreatesEmpty (s : State) : ∀ e, Decidable (CreatesEmpty s e)
  | .create _ => inferInstanceAs (Decidable (_ = true))
  | .call .. | .check _ | .acquire _ | .giveUp _ | .read _ | .answer .. | .write _ | .release _
  | .tick _ => isTrue trivial

/-- The task that holds the lock has read what the file has. -/
structure Inv (s : State) : Prop where
  stored : ∀ provider, s.file.get provider = s.stored provider
  holder : ∀ task, (s.tasks task).phase.HoldsLock → s.holder = some task
  refreshing : ∀ task provider currentData cred,
    (s.tasks task).phase = .refreshing provider currentData cred →
      (∀ other, currentData.get other = s.file.get other) ∧
        currentData.get provider = some (.oauth cred) ∧ cred.expires ≤ s.now
  writing : ∀ task provider next refreshes,
    (s.tasks task).phase = .writing provider next refreshes →
      ∀ other, other ≠ provider → next.get other = s.file.get other
  past : ∀ provider version, (provider, version) ∈ s.refreshed → version < s.version provider

theorem inv_initial (file : AuthFile) (now : Int) : Inv (initial file now) where
  stored := fun _ => rfl
  holder := fun _ h => h.elim
  refreshing := fun _ _ _ _ h => by cases h
  writing := fun _ _ _ _ h => by cases h
  past := fun _ _ h => by cases h

variable {s} {s' : State} {task storage} {phase}

theorem Inv.kept (hs : Inv s) : Kept s where
  stored := hs.stored
  once := by
    intro task provider currentData cred hphase
    obtain ⟨hread, hcred, hexpired⟩ := hs.refreshing task provider currentData cred hphase
    refine ⟨by rw [← hread, hcred], hexpired, fun hmem => ?_⟩
    exact Nat.lt_irrefl _ (hs.past _ _ hmem)

/-- The files, the other tasks and their lock are as they were. -/
structure OnlyMoves (s s' : State) (task : Nat) : Prop where
  file : ∀ provider, s'.file.get provider = s.file.get provider
  stored : s'.stored = s.stored
  version : s'.version = s.version
  refreshed : s'.refreshed = s.refreshed
  now : s.now ≤ s'.now
  other : ∀ other, other ≠ task → (s'.tasks other).phase = (s.tasks other).phase
  held : ∀ other, other ≠ task → (s.tasks other).phase.HoldsLock → s'.holder = s.holder

theorem Inv.move (hs : Inv s) (task : Nat) (hmoves : OnlyMoves s s' task)
    (hholds : (s'.tasks task).phase.HoldsLock → s'.holder = some task)
    (hrefreshing : ∀ provider currentData cred,
      (s'.tasks task).phase = .refreshing provider currentData cred →
        (∀ other, currentData.get other = s.file.get other) ∧
          currentData.get provider = some (.oauth cred) ∧ cred.expires ≤ s.now)
    (hwriting : ∀ provider next refreshes,
      (s'.tasks task).phase = .writing provider next refreshes →
        ∀ other, other ≠ provider → next.get other = s.file.get other) : Inv s' where
  stored := by
    intro provider
    rw [hmoves.file, hmoves.stored, hs.stored]
  holder := by
    intro other hlock
    by_cases hcase : other = task
    · subst hcase
      exact hholds hlock
    · rw [hmoves.other other hcase] at hlock
      rw [hmoves.held other hcase hlock]
      exact hs.holder other hlock
  refreshing := by
    intro other provider currentData cred hphase
    have hread : (∀ q, currentData.get q = s.file.get q) ∧
        currentData.get provider = some (.oauth cred) ∧ cred.expires ≤ s.now := by
      by_cases hcase : other = task
      · subst hcase
        exact hrefreshing provider currentData cred hphase
      · rw [hmoves.other other hcase] at hphase
        exact hs.refreshing other provider currentData cred hphase
    exact ⟨fun q => (hread.1 q).trans (hmoves.file q).symm, hread.2.1,
      Int.le_trans hread.2.2 hmoves.now⟩
  writing := by
    intro other provider next refreshes hphase q hq
    rw [hmoves.file q]
    by_cases hcase : other = task
    · subst hcase
      exact hwriting provider next refreshes hphase q hq
    · rw [hmoves.other other hcase] at hphase
      exact hs.writing other provider next refreshes hphase q hq
  past := by
    rw [hmoves.refreshed, hmoves.version]
    exact hs.past

theorem Inv.unlocked (hs : Inv s) (task : Nat) (hmoves : OnlyMoves s s' task)
    (hfree : ¬ (s'.tasks task).phase.HoldsLock) : Inv s' := by
  refine hs.move task hmoves (fun h => absurd h hfree) ?_ ?_
  · intro provider currentData cred hphase
    rw [hphase] at hfree
    exact absurd trivial hfree
  · intro provider next refreshes hphase
    rw [hphase] at hfree
    exact absurd trivial hfree

variable {isOAuthProvider : JsString → Bool}

section

variable (hs : Inv s)
include hs

section

variable (memories : Nat → Memory)

theorem Inv.begin (begun : Task) (hfree : ¬ begun.phase.HoldsLock) :
    Inv { s with memories, tasks := update s.tasks task begun } := by
  refine hs.unlocked task ⟨fun _ => rfl, rfl, rfl, rfl, Int.le_refl _, fun other h => ?_,
    fun _ _ _ => rfl⟩ ?_
  · exact congrArg Task.phase (update_of_ne h begun s.tasks)
  · simpa using hfree

theorem Inv.setMemories : Inv { s with memories } :=
  ⟨hs.stored, hs.holder, hs.refreshing, hs.writing, hs.past⟩

theorem inv_beginCall (call : Call) : Inv (s.beginCall isOAuthProvider task storage call) := by
  have hpersist : ∀ (memory : Memory) (operation : Operation),
      Inv ((s.setMemory storage memory).persistProviderChange task storage operation) := by
    intro memory operation
    rw [persistProviderChange]
    split_ifs
    · exact hs.setMemories _
    · exact hs.begin _ _ fun h => h
  cases call with
  | set provider credential | remove provider => exact hpersist _ _
  | reload => exact hs.begin _ _ fun h => h
  | getApiKey provider =>
    simp only [beginCall]
    split
    · split_ifs
      · exact hs.begin _ _ fun h => h
      · exact hs
    · exact hs

theorem Inv.setPhase (hfree : ¬ phase.HoldsLock) :
    Inv (({ s with memories } : State).setPhase task phase) :=
  hs.begin memories _ hfree

end

theorem Inv.underLock (hlock : (s.tasks task).phase.HoldsLock) (memories : Nat → Memory)
    (hrefreshing : ∀ provider currentData cred, phase = .refreshing provider currentData cred →
      (∀ other, currentData.get other = s.file.get other) ∧
        currentData.get provider = some (.oauth cred) ∧ cred.expires ≤ s.now)
    (hwriting : ∀ provider next refreshes, phase = .writing provider next refreshes →
      ∀ other, other ≠ provider → next.get other = s.file.get other) :
    Inv (({ s with memories } : State).setPhase task phase) := by
  refine hs.move task ⟨fun _ => rfl, rfl, rfl, rfl, Int.le_refl _, fun other h => ?_,
    fun _ _ _ => rfl⟩
    (fun _ => hs.holder task hlock) ?_ ?_
  · exact congrArg Task.phase (setPhase_other { s with memories } task phase h)
  · intro provider currentData cred hphase
    rw [setPhase_phase] at hphase
    exact hrefreshing provider currentData cred hphase
  · intro provider next refreshes hphase
    rw [setPhase_phase] at hphase
    exact hwriting provider next refreshes hphase

end

theorem parseStorageData_get {file : AuthFile} {currentData : AuthStorageData}
    (h : file.parseStorageData = some currentData) (provider : JsString) :
    currentData.get provider = file.get provider := by
  cases file with
  | absent | data content =>
    cases h
    rfl
  | unreadable => cases h

section

variable (hs : Inv s)
include hs

theorem inv_readUnderLock {operation : Operation}
    (hlock : (s.tasks task).phase.HoldsLock) : Inv (s.readUnderLock task operation) := by
  rw [readUnderLock]
  have hrelease : ∀ (memories : Nat → Memory) (after : Option Operation),
      Inv (({ s with memories } : State).setPhase task (.releasing after)) := fun memories after =>
    hs.underLock hlock memories (fun _ _ _ h => by cases h) fun _ _ _ h => by cases h
  split
  · exact hrelease _ _
  · rename_i currentData hparse
    have hread := parseStorageData_get hparse
    cases operation with
    | set provider credential =>
      refine hs.underLock hlock s.memories (fun _ _ _ h => by cases h) fun _ _ _ h other hne => ?_
      cases h
      rw [JsMap.get_set, if_neg (Ne.symm hne), hread]
    | remove provider =>
      refine hs.underLock hlock s.memories (fun _ _ _ h => by cases h) fun _ _ _ h other hne => ?_
      cases h
      rw [JsMap.get_delete, if_neg (Ne.symm hne), hread]
    | reload => exact hrelease _ _
    | refresh provider =>
      simp only
      split
      · rename_i cred hcred
        split_ifs with hvalid
        · exact hrelease _ _
        · refine hs.underLock hlock _ (fun _ _ _ h => ?_) fun _ _ _ h => by cases h
          cases h
          exact ⟨hread, hcred, Int.not_lt.mp hvalid⟩
      · exact hrelease _ _

theorem inv_answered {provider : JsString} {currentData : AuthStorageData} {cred : OAuthCredentials}
    (hphase : (s.tasks task).phase = .refreshing provider currentData cred)
    (credentials : Option OAuthCredentials) :
    Inv (s.answered task provider currentData credentials) := by
  have hlock : (s.tasks task).phase.HoldsLock := by
    rw [hphase]
    trivial
  obtain ⟨hread, -, -⟩ := hs.refreshing task provider currentData cred hphase
  cases credentials with
  | none =>
    exact hs.underLock hlock s.memories (fun _ _ _ h => by cases h) fun _ _ _ h => by cases h
  | some credentials =>
    refine hs.underLock hlock _ (fun _ _ _ h => by cases h) fun _ _ _ h other hne => ?_
    cases h
    rw [JsMap.get_set, if_neg (Ne.symm hne), hread]

theorem inv_written {provider : JsString} {next : AuthStorageData} {refreshes : Bool}
    (hphase : (s.tasks task).phase = .writing provider next refreshes) :
    Inv (s.written task provider next refreshes) := by
  have hholder : s.holder = some task := hs.holder task (by rw [hphase]; trivial)
  have halone : ∀ other, ((s.written task provider next refreshes).tasks other).phase.HoldsLock →
      other = task := by
    intro other hlock
    by_contra hne
    have htask : (s.written task provider next refreshes).tasks other = s.tasks other :=
      setPhase_other s task _ hne
    rw [htask] at hlock
    have := hs.holder other hlock
    rw [hholder] at this
    exact hne (Option.some.inj this).symm
  have hreleasing : ((s.written task provider next refreshes).tasks task).phase = .releasing none :=
    setPhase_phase s task _
  refine ⟨fun q => ?_, fun other hlock => ?_, fun other q currentData cred h => ?_,
    fun other q next' refreshes' h => ?_, fun q version hmem => ?_⟩
  · by_cases hq : q = provider
    · subst hq
      exact (update_self q _ s.stored).symm
    · have hkept := hs.writing task provider next refreshes hphase q hq
      exact hkept.trans ((hs.stored q).trans (update_of_ne hq _ s.stored).symm)
  · rw [halone other hlock]
    exact hholder
  · have hother := halone other (by rw [h]; trivial)
    rw [hother, hreleasing] at h
    cases h
  · have hother := halone other (by rw [h]; trivial)
    rw [hother, hreleasing] at h
    cases h
  · have hpast : (q, version) = (provider, s.version provider) ∨ version < s.version q := by
      have hmem' : (q, version) ∈ (provider, s.version provider) :: s.refreshed := by
        cases refreshes with
        | false => exact List.mem_cons_of_mem _ hmem
        | true => exact hmem
      rcases List.mem_cons.mp hmem' with hnew | hold
      · exact .inl hnew
      · exact .inr (hs.past q version hold)
    by_cases hq : q = provider
    · subst hq
      have hself : (s.written task q next refreshes).version q = s.version q + 1 :=
        update_self q _ s.version
      rw [hself]
      rcases hpast with hnew | hold
      · rw [(Prod.mk.inj hnew).2]
        exact Nat.lt_succ_self _
      · exact Nat.lt_succ_of_lt hold
    · have hsame : (s.written task provider next refreshes).version q = s.version q :=
        update_of_ne hq _ s.version
      rw [hsame]
      rcases hpast with hnew | hold
      · exact absurd (Prod.mk.inj hnew).1 hq
      · exact hold

theorem inv_create {operation : Operation} (hempty : s.file.isEmpty = true) :
    Inv { s.setPhase task (.waiting operation) with file := .data .empty } := by
  have hfile : ∀ provider, (AuthFile.data .empty).get provider = s.file.get provider := by
    intro provider
    cases hcase : s.file with
    | absent => rfl
    | unreadable => rfl
    | data content =>
      rw [hcase] at hempty
      have hnone : content.entries = [] := List.isEmpty_iff.mp hempty
      simp [AuthFile.get, JsMap.get, hnone, assocGet, JsMap.empty]
  refine hs.unlocked task ⟨hfile, rfl, rfl, rfl, Int.le_refl _, fun other h => ?_,
    fun _ _ _ => rfl⟩ ?_
  · exact congrArg Task.phase (setPhase_other s task _ h)
  · intro hlock
    rw [show ({ s.setPhase task (.waiting operation) with file := .data .empty } : State).tasks =
      (s.setPhase task (.waiting operation)).tasks from rfl, setPhase_phase] at hlock
    exact hlock

theorem inv_step {e : Event} (hcreates : CreatesEmpty s e)
    (h : s.step isOAuthProvider e = some s') : Inv s' := by
  cases e with
  | call task storage call =>
    simp only [step] at h
    split at h
    · cases h
      exact inv_beginCall hs call
    · cases h
  | check task =>
    simp only [step] at h
    split at h
    · split at h
      all_goals
        cases h
        exact hs.setPhase _ fun h => h
    · cases h
  | create task =>
    simp only [step] at h
    split at h
    · cases h
      exact inv_create hs hcreates
    · cases h
  | acquire task =>
    simp only [step] at h
    split at h
    · rename_i operation hphase
      split_ifs at h with hfree
      cases h
      refine hs.move task ⟨fun _ => rfl, rfl, rfl, rfl, Int.le_refl _, fun other hne => ?_,
        fun other _ hlock => ?_⟩ (fun _ => rfl) (fun _ _ _ hcase => ?_) (fun _ _ _ hcase => ?_)
      · exact congrArg Task.phase (setPhase_other s task _ hne)
      · rw [hs.holder other hlock] at hfree
        cases hfree
      all_goals
        rw [show Task.phase _ = _ from setPhase_phase s task (.locked operation)] at hcase
        cases hcase
    · cases h
  | giveUp task =>
    simp only [step] at h
    split at h
    · split at h
      all_goals
        cases h
        exact hs.setPhase _ fun h => h
    · cases h
  | read task =>
    simp only [step] at h
    split at h
    · rename_i operation hphase
      cases h
      exact inv_readUnderLock hs (by rw [hphase]; trivial)
    · cases h
  | answer task credentials =>
    simp only [step] at h
    split at h
    · rename_i provider currentData cred hphase
      cases h
      exact inv_answered hs hphase credentials
    · cases h
  | write task =>
    simp only [step] at h
    split at h
    · rename_i provider next refreshes hphase
      cases h
      exact inv_written hs hphase
    · cases h
  | release task =>
    simp only [step] at h
    split at h
    · rename_i after hphase
      cases h
      have hholder : s.holder = some task := hs.holder task (by rw [hphase]; trivial)
      refine hs.unlocked task ⟨fun _ => rfl, rfl, rfl, rfl, Int.le_refl _, fun other hne => ?_,
        fun other hne hlock => ?_⟩ ?_
      · exact congrArg Task.phase (setPhase_other s task _ hne)
      · rw [hs.holder other hlock] at hholder
        exact absurd (Option.some.inj hholder) hne
      · rw [show Task.phase _ = _ from setPhase_phase s task (after.elim .idle .starting)]
        cases after <;> exact fun h => h
    · cases h
  | tick now =>
    simp only [step] at h
    split_ifs at h with hnow
    cases h
    exact ⟨hs.stored, hs.holder, fun task provider currentData cred hphase =>
      (hs.refreshing task provider currentData cred hphase).imp_right fun hread =>
        hread.imp_right fun hexpired => Int.le_trans hexpired hnow, hs.writing, hs.past⟩

end

def expiredFile : AuthFile :=
  .data ((JsMap.empty.set (js "a") (.oauth ⟨js "r", js "x", 5⟩)).set (js "b") (.apiKey (js "k")))

/-- Two storages find a token expired, one waits while the other refreshes it, and the
credential of another provider is removed afterwards. -/
def refreshWaiting : List Event :=
  [.call 0 0 .reload, .check 0, .acquire 0, .read 0, .release 0,
    .call 0 1 .reload, .check 0, .acquire 0, .read 0, .release 0,
    .call 0 0 (.getApiKey (js "a")), .call 1 1 (.getApiKey (js "a")),
    .call 2 1 (.remove (js "b")), .check 0, .check 1, .check 2, .acquire 0, .read 0, .tick 11,
    .answer 0 (some ⟨js "r", js "y", 50⟩), .write 0, .release 0, .acquire 1, .read 1,
    .release 1, .acquire 2, .read 2, .write 2]

/-- Two storages find no file; the second creates it and stores a credential before the
first creates it once more. -/
def createLate : List Event :=
  [.call 0 0 (.set (js "a") (.apiKey (js "k"))), .check 0,
    .call 1 1 (.set (js "b") (.apiKey (js "l"))), .check 1, .create 1, .acquire 1, .read 1,
    .write 1, .release 1, .create 0, .acquire 0, .read 0, .write 0, .release 0]

end State

end Auth

end AcademicAgent
