import AcademicAgent.AgentHost.Session.Context
import AcademicAgent.Core.Lines

/-!
# The session manager

The state of a `SessionManager` with the file system it writes, and its operations.
-/

namespace AcademicAgent

open Option

abbrev Files := JsString → Option JsString

namespace Files

section

variable (files : Files) (path content : JsString)

def writeFileSync : Files :=
  fun p => if p = path then some content else files p

/-- `appendFileSync`, which creates a missing file. -/
def appendFileSync : Files :=
  fun p => if p = path then some ((files path).getD [] ++ content) else files p

@[simp] theorem writeFileSync_self : files.writeFileSync path content path = some content := by
  simp [writeFileSync]

@[simp] theorem appendFileSync_self :
    files.appendFileSync path content path = some ((files path).getD [] ++ content) := by
  simp [appendFileSync]

end

theorem foldl_appendFileSync {α : Type} (f : α → JsString) (path : JsString) {as : List α}
    (h : as ≠ []) (files : Files) :
    (as.foldl (fun fs a => fs.appendFileSync path (f a)) files) path =
      some ((files path).getD [] ++ as.flatMap f) := by
  induction as generalizing files with
  | nil => contradiction
  | cons a as ih =>
    rw [List.foldl_cons]
    by_cases has : as = []
    · subst has
      simp
    · rw [ih has]
      simp

end Files

structure SessionManager where
  sessionId : JsString := []
  sessionFile : Option JsString := none
  sessionDir : JsString
  cwd : JsString
  persist : Bool
  flushed : Bool := false
  fileEntries : List FileEntry := []
  byId : EntryMap := .empty
  labelsById : JsMap JsString JsString := .empty
  labelTimestampsById : JsMap JsString JsString := .empty
  leafId : Option JsString := none
  /-- The file system the manager reads and writes. -/
  disk : Files

/-- The text `randomUUID()` returns. -/
structure Uuid where
  text : JsString
  length_text : text.length = 36

/-- The draws of one operation: the clock, `uuidv7()` and the results of
`randomUUID()`, the first index counting the ids generated. -/
structure Draws where
  now : JsString
  sessionId : JsString
  uuid : Nat → Nat → Uuid

def Draws.repeating (c : CodeUnit) : Draws where
  now := js "2025-01-01T00:00:00.000Z"
  sessionId := [c]
  uuid k _ := ⟨List.replicate 36 (c + UInt16.ofNat k), by simp⟩

section

variable (uuid : Nat → Uuid) (has : JsString → Bool)

/-- `generateId(byId)`: the first of 100 short ids that is not taken, else a full one. -/
def generateId : JsString :=
  match (List.range 100).find? fun i => !has ((uuid i).text.take 8) with
  | some i => (uuid i).text.take 8
  | none => (uuid 100).text

theorem has_generateId (h : has (uuid 100).text = false) : has (generateId uuid has) = false := by
  unfold generateId
  cases hf : (List.range 100).find? fun i => !has ((uuid i).text.take 8) with
  | none => exact h
  | some i => simpa using List.find?_some hf

theorem length_generateId :
    (generateId uuid has).length = 8 ∨ generateId uuid has = (uuid 100).text := by
  unfold generateId
  split
  · rename_i i _
    have := (uuid i).length_text
    exact .inl (by rw [List.length_take]; omega)
  · exact .inr rfl

theorem generateId_ne_nil : generateId uuid has ≠ [] := by
  intro hnil
  rcases length_generateId uuid has with h | h
  · simp [hnil] at h
  · have := (uuid 100).length_text
    simp [← h, hnil] at this

end

/-- `migrateV1ToV2`: `done` holds the records already rewritten. The set of ids
that `generateId` checks against stays empty. -/
def migrateV1ToV2 (uuid : Nat → Nat → Uuid) (done : List FileEntry)
    (prevId : Option JsString) : List FileEntry → List FileEntry
  | [] => done
  | .session h :: rest =>
    migrateV1ToV2 uuid (done ++ [.session { h with version := some 2 }]) prevId rest
  | .entry e :: rest =>
    let id := generateId (uuid done.length) fun _ => false
    let e' : SessionEntry := { e with id := id, parentId := prevId }
    let e'' : SessionEntry :=
      match e'.body with
      | .compaction summary firstKept tokensBefore details fromHook (some index) =>
        let target := ((done ++ .entry e' :: rest)[index]?).bind FileEntry.entry?
        { e' with
          body := .compaction summary ((target.map SessionEntry.id).getD firstKept)
            tokensBefore details fromHook none }
      | _ => e'
    migrateV1ToV2 uuid (done ++ [.entry e'']) (some id) rest

/-- `migrateV2ToV3` for one record. -/
def migrateV2ToV3 : FileEntry → FileEntry
  | .session h => .session { h with version := some 3 }
  | .entry e =>
    match e.body with
    | .message (.hookMessage m) => .entry { e with body := .message (.custom m) }
    | _ => .entry e

/-- `entries.find((e) => e.type === "session")`. -/
def findHeader (fileEntries : List FileEntry) : Option SessionHeader :=
  fileEntries.findSome? FileEntry.header?

/-- `header?.version ?? 1`. -/
def fileVersion (fileEntries : List FileEntry) : Nat :=
  ((findHeader fileEntries).bind SessionHeader.version).getD 1

/-- `migrateToCurrentVersion`, with whether anything was migrated. -/
def migrateToCurrentVersion (uuid : Nat → Nat → Uuid) (fileEntries : List FileEntry) :
    List FileEntry × Bool :=
  let version := fileVersion fileEntries
  if version ≥ CURRENT_SESSION_VERSION then (fileEntries, false)
  else
    let v2 := if version < 2 then migrateV1ToV2 uuid [] none fileEntries else fileEntries
    (if version < 3 then v2.map migrateV2ToV3 else v2, true)

/-- `loadEntriesFromFile`: the records of a file that starts with a header. -/
def loadEntriesFromFile (codec : LineCodec FileEntry) (disk : Files) (path : JsString) :
    List FileEntry :=
  match disk path with
  | none => []
  | some content =>
    match codec.parseLines content with
    | .session h :: rest => .session h :: rest
    | _ => []

namespace SessionManager

/-- `timestamp.replace(/[:.]/g, "-")`. -/
def fileTimestamp (timestamp : JsString) : JsString :=
  timestamp.map fun c => if c = 0x3A ∨ c = 0x2E then 0x2D else c

section

variable (s : SessionManager)

/-- `join(sessionDir, fileTimestamp + "_" + sessionId + ".jsonl")`. -/
def sessionPath (timestamp sessionId : JsString) : JsString :=
  s.sessionDir ++ js "/" ++ fileTimestamp timestamp ++ js "_" ++ sessionId ++ js ".jsonl"

/-- `this.fileEntries.some((e) => e.type === "message" && e.message.role === "assistant")`. -/
def hasAssistant : Bool :=
  (getEntries s.fileEntries).any SessionEntry.isAssistantMessage

/-- `newSession(options)`. The label timestamps are not cleared. -/
def newSession (d : Draws) (id parentSession : Option JsString := none) :
    SessionManager :=
  let sessionId := id.getD d.sessionId
  { s with
    sessionId := sessionId
    fileEntries := [.session ⟨some CURRENT_SESSION_VERSION, sessionId, d.now, s.cwd, parentSession⟩]
    byId := .empty
    labelsById := .empty
    leafId := none
    flushed := false
    sessionFile := if s.persist then some (s.sessionPath d.now sessionId) else s.sessionFile }

/-- One iteration of `_buildIndex`. -/
def indexEntry (e : SessionEntry) : SessionManager :=
  let s' := { s with byId := s.byId.set e.id e, leafId := some e.id }
  match e.body with
  | .label targetId (some label) =>
    if label = [] then
      { s' with
        labelsById := s.labelsById.delete targetId
        labelTimestampsById := s.labelTimestampsById.delete targetId }
    else
      { s' with
        labelsById := s.labelsById.set targetId label
        labelTimestampsById := s.labelTimestampsById.set targetId e.timestamp }
  | .label targetId none =>
    { s' with
      labelsById := s.labelsById.delete targetId
      labelTimestampsById := s.labelTimestampsById.delete targetId }
  | _ => s'

/-- `_buildIndex`. -/
def buildIndex : SessionManager :=
  (getEntries s.fileEntries).foldl indexEntry
    { s with byId := .empty, labelsById := .empty, labelTimestampsById := .empty, leafId := none }

end

section

variable (codec : LineCodec FileEntry) (s : SessionManager)

/-- `_rewriteFile`. -/
def rewriteFile : SessionManager :=
  match s.persist, s.sessionFile with
  | true, some path =>
    { s with
      disk := s.disk.writeFileSync path
        ([lf].intercalate (s.fileEntries.map codec.stringify) ++ [lf]) }
  | _, _ => s

/-- `setSessionFile(path)`. -/
def setSessionFile (d : Draws) (path : JsString) : SessionManager :=
  let s := { s with sessionFile := some path }
  if (s.disk path).isSome then
    match loadEntriesFromFile codec s.disk path with
    | [] =>
      { rewriteFile codec { s.newSession d with sessionFile := some path } with flushed := true }
    | fileEntries =>
      let header := findHeader fileEntries
      let (migrated, changed) := migrateToCurrentVersion d.uuid fileEntries
      let s := { s with
        sessionId := (header.map SessionHeader.id).getD d.sessionId, fileEntries := migrated }
      let s := if changed then rewriteFile codec s else s
      { s.buildIndex with flushed := true }
  else
    { s.newSession d with sessionFile := some path }

/-- `_persist(entry)`. -/
def persistEntry (e : SessionEntry) : SessionManager :=
  match s.persist, s.sessionFile with
  | true, some path =>
    if !s.hasAssistant then { s with flushed := false }
    else if !s.flushed then
      { s with
        disk := s.fileEntries.foldl
          (fun disk f => disk.appendFileSync path (codec.stringify f ++ [lf])) s.disk
        flushed := true }
    else { s with disk := s.disk.appendFileSync path (codec.stringify (.entry e) ++ [lf]) }
  | _, _ => s

/-- `_appendEntry(entry)`. -/
def appendEntry (e : SessionEntry) : SessionManager :=
  persistEntry codec
    { s with
      fileEntries := s.fileEntries ++ [.entry e]
      byId := s.byId.set e.id e
      leafId := some e.id } e

end

def childEntry (s : SessionManager) (d : Draws) (body : EntryBody) : SessionEntry where
  id := generateId (d.uuid 0) s.byId.has
  parentId := s.leafId
  timestamp := d.now
  body := body

/-- The shape the `appendXXX` operations share: append a child of the leaf and return its id. -/
def appendBody (codec : LineCodec FileEntry) (s : SessionManager) (d : Draws) (body : EntryBody) :
    SessionManager × JsString :=
  (appendEntry codec s (s.childEntry d body), (s.childEntry d body).id)

variable (codec : LineCodec FileEntry) (s : SessionManager) (d : Draws)

def appendMessage (message : AgentMessage) : SessionManager × JsString :=
  appendBody codec s d (.message message)

def appendThinkingLevelChange (thinkingLevel : JsString) : SessionManager × JsString :=
  appendBody codec s d (.thinkingLevelChange thinkingLevel)

def appendModelChange (provider modelId : JsString) : SessionManager × JsString :=
  appendBody codec s d (.modelChange provider modelId)

def appendCompaction (summary firstKeptEntryId : JsString) (tokensBefore : Nat)
    (details : Option Json) (fromHook : Option Bool) : SessionManager × JsString :=
  appendBody codec s d (.compaction summary firstKeptEntryId tokensBefore details fromHook none)

def appendCustomEntry (customType : JsString) (data : Option Json) : SessionManager × JsString :=
  appendBody codec s d (.custom customType data)

def appendSessionInfo (name : JsString) : SessionManager × JsString :=
  appendBody codec s d (.sessionInfo (some (trim name)))

def appendCustomMessageEntry (customType : JsString) (content : MessageContent) (display : Bool)
    (details : Option Json) : SessionManager × JsString :=
  appendBody codec s d (.customMessage customType content display details)

/-- `Entry ${id} not found`. -/
def notFound (id : JsString) : JsString := js "Entry " ++ id ++ js " not found"

/-- `appendLabelChange(targetId, label)`. -/
def appendLabelChange (targetId : JsString) (label : Option JsString) :
    Except JsString (SessionManager × JsString) :=
  if !s.byId.has targetId then .error (notFound targetId)
  else
    let (s', id) := appendBody codec s d (.label targetId label)
    match label with
    | some l =>
      if l = [] then
        .ok ({ s' with
          labelsById := s'.labelsById.delete targetId
          labelTimestampsById := s'.labelTimestampsById.delete targetId }, id)
      else
        .ok ({ s' with
          labelsById := s'.labelsById.set targetId l
          labelTimestampsById := s'.labelTimestampsById.set targetId d.now }, id)
    | none =>
      .ok ({ s' with
        labelsById := s'.labelsById.delete targetId
        labelTimestampsById := s'.labelTimestampsById.delete targetId }, id)

/-- `getBranch(fromId)`: the path from the root, if the walk ends. -/
def getBranch (fromId : Option JsString := none) : Option (List SessionEntry) :=
  pathTo s.byId ((fromId.or s.leafId).bind fun id => if id = [] then none else s.byId.get id)

/-- `buildSessionContext()`: the context of the current leaf. -/
def buildSessionContext : Option SessionContext :=
  AcademicAgent.buildSessionContext (getEntries s.fileEntries) (some s.leafId) s.byId

/-- `branch(branchFromId)`. -/
def branch (branchFromId : JsString) : Except JsString SessionManager :=
  if !s.byId.has branchFromId then .error (notFound branchFromId)
  else .ok { s with leafId := some branchFromId }

/-- `resetLeaf()`. -/
def resetLeaf : SessionManager := { s with leafId := none }

/-- `branchWithSummary(branchFromId, summary, details, fromHook)`. -/
def branchWithSummary (branchFromId : Option JsString) (summary : JsString)
    (details : Option Json) (fromHook : Option Bool) : Except JsString (SessionManager × JsString) :=
  match branchFromId with
  | some id =>
    if !s.byId.has id then .error (notFound id)
    else .ok (appendBody codec { s with leafId := some id } d
      (.branchSummary id summary details fromHook))
  | none =>
    .ok (appendBody codec { s with leafId := none } d
      (.branchSummary (js "root") summary details fromHook))

/-- The labels a branched session recreates: those of the entries it keeps. -/
def labelsToWrite (pathWithoutLabels : List SessionEntry) : List (JsString × JsString × JsString) :=
  (s.labelsById.entries.filter fun l =>
    decide (l.1 ∈ pathWithoutLabels.map SessionEntry.id)).map fun l =>
      (l.1, l.2, (s.labelTimestampsById.get l.1).getD [])

/-- The label entries of a branched session, chained below its last entry;
`taken` are the ids already used and `k` counts the ids generated. -/
def labelEntries (uuid : Nat → Nat → Uuid) :
    Nat → List JsString → Option JsString → List (JsString × JsString × JsString) →
      List SessionEntry
  | _, _, _, [] => []
  | k, taken, parentId, (targetId, label, timestamp) :: rest =>
    let id := generateId (uuid k) fun i => decide (i ∈ taken)
    ⟨id, parentId, timestamp, .label targetId (some label)⟩ ::
      labelEntries uuid (k + 1) (taken ++ [id]) (some id) rest

section

variable (path : List SessionEntry)

/-- `lastEntryId || null`. -/
def lastId : Option JsString :=
  match path.getLast? with
  | some e => if e.id = [] then none else some e.id
  | none => none

def branchedHeader : SessionHeader :=
  ⟨some CURRENT_SESSION_VERSION, d.sessionId, d.now, s.cwd,
    if s.persist then s.sessionFile else none⟩

/-- The entries of a branched session: the path without its labels, then the
labels of what is left, recreated at the end. -/
def branchedEntries : List SessionEntry :=
  let pathWithoutLabels := path.filter fun e => !e.isLabel
  pathWithoutLabels ++ labelEntries d.uuid 0 (pathWithoutLabels.map SessionEntry.id)
    (lastId pathWithoutLabels) (s.labelsToWrite pathWithoutLabels)

/-- The manager after the session of a path replaced the current one. -/
def switchToBranch : SessionManager :=
  let s' := { s with
    fileEntries := .session (s.branchedHeader d) :: (s.branchedEntries d path).map .entry
    sessionId := d.sessionId }
  if s.persist then
    let s'' := { s' with sessionFile := some (s.sessionPath d.now d.sessionId) }.buildIndex
    if s''.hasAssistant then { rewriteFile codec s'' with flushed := true }
    else { s'' with flushed := false }
  else s'.buildIndex

end

/-- `createBranchedSession(leafId)`: the manager afterwards and the returned
path; no value when the walk to the root does not end. -/
def createBranchedSession (leafId : JsString) :
    Option (Except JsString (SessionManager × Option JsString)) :=
  (s.getBranch (some leafId)).map fun path =>
    if path = [] then .error (notFound leafId)
    else .ok (switchToBranch codec s d path,
      if s.persist then some (s.sessionPath d.now d.sessionId) else none)

section

variable (cwd sessionDir : JsString)

/-- The fields before the constructor's body runs. -/
def blank (persist : Bool) (disk : Files) : SessionManager :=
  { cwd, sessionDir, persist, disk }

/-- `new SessionManager(cwd, sessionDir, sessionFile, persist)`. -/
def make (sessionFile : Option JsString) (persist : Bool) (disk : Files) : SessionManager :=
  match sessionFile with
  | some path => setSessionFile codec (blank cwd sessionDir persist disk) d path
  | none => (blank cwd sessionDir persist disk).newSession d

/-- `SessionManager.create(cwd, sessionDir)`. -/
def create (disk : Files) : SessionManager :=
  make codec d cwd sessionDir none true disk

end

/-- `SessionManager.open(path, sessionDir, cwdOverride)` with `processCwd` as the last resort. -/
def «open» (path sessionDir : JsString) (cwdOverride : Option JsString) (processCwd : JsString)
    (disk : Files) : SessionManager :=
  let header := findHeader (loadEntriesFromFile codec disk path)
  make codec d (cwdOverride.getD ((header.map SessionHeader.cwd).getD processCwd)) sessionDir
    (some path) true disk

/-- `SessionManager.inMemory(cwd)`. -/
def inMemory (cwd : JsString) (disk : Files) : SessionManager :=
  make codec d cwd [] none false disk

end SessionManager

inductive SessionOp where
  | appendMessage (message : AgentMessage)
  | appendThinkingLevelChange (thinkingLevel : JsString)
  | appendModelChange (provider modelId : JsString)
  | appendCompaction (summary firstKeptEntryId : JsString) (tokensBefore : Nat)
      (details : Option Json) (fromHook : Option Bool)
  | appendCustomEntry (customType : JsString) (data : Option Json)
  | appendSessionInfo (name : JsString)
  | appendCustomMessageEntry (customType : JsString) (content : MessageContent) (display : Bool)
      (details : Option Json)
  | appendLabelChange (targetId : JsString) (label : Option JsString)
  | branch (branchFromId : JsString)
  | resetLeaf
  | branchWithSummary (branchFromId : Option JsString) (summary : JsString)
      (details : Option Json) (fromHook : Option Bool)
  | createBranchedSession (leafId : JsString)

/-- The leaf and the body of the entry that a call appends, when it appends one. -/
def SessionOp.appended (s : SessionManager) : SessionOp → Option (Option JsString × EntryBody)
  | .appendMessage message => some (s.leafId, .message message)
  | .appendThinkingLevelChange level => some (s.leafId, .thinkingLevelChange level)
  | .appendModelChange provider modelId => some (s.leafId, .modelChange provider modelId)
  | .appendCompaction summary firstKept tokensBefore details fromHook =>
    some (s.leafId, .compaction summary firstKept tokensBefore details fromHook none)
  | .appendCustomEntry customType data => some (s.leafId, .custom customType data)
  | .appendSessionInfo name => some (s.leafId, .sessionInfo (some (trim name)))
  | .appendCustomMessageEntry customType content display details =>
    some (s.leafId, .customMessage customType content display details)
  | .appendLabelChange targetId label =>
    if s.byId.has targetId then some (s.leafId, .label targetId label) else none
  | .branchWithSummary (some id) summary details fromHook =>
    if s.byId.has id then some (some id, .branchSummary id summary details fromHook) else none
  | .branchWithSummary none summary details fromHook =>
    some (none, .branchSummary (js "root") summary details fromHook)
  | .branch _ | .resetLeaf | .createBranchedSession _ => none

/-- The state a call leaves; a call that throws changes nothing. -/
def afterCall {ε α : Type} (s : SessionManager) (f : α → SessionManager) :
    Except ε α → SessionManager
  | .ok a => f a
  | .error _ => s

/-- The state after a call with the draws it makes, when the call returns or throws. -/
def SessionManager.step (codec : LineCodec FileEntry) (s : SessionManager) :
    SessionOp × Draws → Option SessionManager
  | (.appendMessage message, d) => some (s.appendMessage codec d message).1
  | (.appendThinkingLevelChange level, d) => some (s.appendThinkingLevelChange codec d level).1
  | (.appendModelChange provider modelId, d) =>
    some (s.appendModelChange codec d provider modelId).1
  | (.appendCompaction summary firstKept tokensBefore details fromHook, d) =>
    some (s.appendCompaction codec d summary firstKept tokensBefore details fromHook).1
  | (.appendCustomEntry customType data, d) => some (s.appendCustomEntry codec d customType data).1
  | (.appendSessionInfo name, d) => some (s.appendSessionInfo codec d name).1
  | (.appendCustomMessageEntry customType content display details, d) =>
    some (s.appendCustomMessageEntry codec d customType content display details).1
  | (.appendLabelChange targetId label, d) =>
    some (afterCall s Prod.fst (s.appendLabelChange codec d targetId label))
  | (.branch id, _) => some (afterCall s (fun t => t) (s.branch id))
  | (.resetLeaf, _) => some s.resetLeaf
  | (.branchWithSummary branchFromId summary details fromHook, d) =>
    some (afterCall s Prod.fst (s.branchWithSummary codec d branchFromId summary details fromHook))
  | (.createBranchedSession leafId, d) =>
    (s.createBranchedSession codec d leafId).map (afterCall s Prod.fst)

theorem SessionManager.step_cases {codec : LineCodec FileEntry} {s t : SessionManager}
    {op : SessionOp} {d : Draws} (h : s.step codec (op, d) = some t) :
    (∃ leaf, t = { s with leafId := leaf }) ∨
      (∃ leaf body labels times, op.appended s = some (leaf, body) ∧
        t = { appendEntry codec { s with leafId := leaf }
                (childEntry { s with leafId := leaf } d body) with
              labelsById := labels, labelTimestampsById := times }) ∨
      ∃ leafId path, op = .createBranchedSession leafId ∧
        s.getBranch (some leafId) = some path ∧ path ≠ [] ∧ t = switchToBranch codec s d path := by
  have happend (body : EntryBody) (hop : op.appended s = some (s.leafId, body))
      (ht : t = (appendBody codec s d body).1) :
      ∃ leaf body labels times, op.appended s = some (leaf, body) ∧
        t = { appendEntry codec { s with leafId := leaf }
                (childEntry { s with leafId := leaf } d body) with
              labelsById := labels, labelTimestampsById := times } :=
    ⟨_, body, _, _, hop, ht⟩
  cases op with
  | appendMessage | appendThinkingLevelChange | appendModelChange | appendCompaction
  | appendCustomEntry | appendSessionInfo | appendCustomMessageEntry =>
    exact .inr (.inl (happend _ rfl (some.inj h).symm))
  | appendLabelChange targetId label =>
    simp only [step, appendLabelChange, some.injEq] at h
    cases hhas : s.byId.has targetId with
    | false =>
      simp only [hhas, Bool.not_false, ite_true, afterCall] at h
      exact .inl ⟨s.leafId, h.symm⟩
    | true =>
      refine .inr (.inl ?_)
      simp only [hhas, Bool.not_true, Bool.false_eq_true, ite_false] at h
      have hop : (SessionOp.appendLabelChange targetId label).appended s =
          some (s.leafId, .label targetId label) := by
        simp only [SessionOp.appended, hhas, ite_true]
      cases label with
      | none =>
        exact ⟨_, _, _, _, hop, h.symm⟩
      | some l =>
        by_cases hl : l = []
        · simp only [hl, ite_true, afterCall] at h
          exact ⟨_, _, _, _, hop, by rw [← h, hl]; rfl⟩
        · simp only [hl, ite_false, afterCall] at h
          exact ⟨_, _, _, _, hop, h.symm⟩
  | branch id =>
    simp only [step, branch, some.injEq] at h
    cases hhas : s.byId.has id with
    | false =>
      simp only [hhas, Bool.not_false, ite_true, afterCall] at h
      exact .inl ⟨s.leafId, h.symm⟩
    | true =>
      simp only [hhas, Bool.not_true, Bool.false_eq_true, ite_false, afterCall] at h
      exact .inl ⟨some id, h.symm⟩
  | resetLeaf => exact .inl ⟨none, (some.inj h).symm⟩
  | branchWithSummary branchFromId summary details fromHook =>
    simp only [step, branchWithSummary, some.injEq] at h
    cases branchFromId with
    | none => exact .inr (.inl ⟨_, _, _, _, rfl, h.symm⟩)
    | some id =>
      cases hhas : s.byId.has id with
      | false =>
        simp only [hhas, Bool.not_false, ite_true, afterCall] at h
        exact .inl ⟨s.leafId, h.symm⟩
      | true =>
        simp only [hhas, Bool.not_true, Bool.false_eq_true, ite_false, afterCall] at h
        have hop : (SessionOp.branchWithSummary (some id) summary details fromHook).appended s =
            some (some id, .branchSummary id summary details fromHook) := by
          simp only [SessionOp.appended, hhas, ite_true]
        exact .inr (.inl ⟨_, _, _, _, hop, h.symm⟩)
  | createBranchedSession leafId =>
    simp only [step, createBranchedSession, map_map, map_eq_some_iff,
      Function.comp_apply] at h
    obtain ⟨path, hpath, h⟩ := h
    by_cases hnil : path = []
    · simp only [hnil, ite_true, afterCall] at h
      exact .inl ⟨s.leafId, h.symm⟩
    · simp only [hnil, ite_false, afterCall] at h
      exact .inr (.inr ⟨leafId, path, rfl, hpath, hnil, h.symm⟩)

end AcademicAgent
