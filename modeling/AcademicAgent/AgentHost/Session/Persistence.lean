import AcademicAgent.AgentHost.Session.EntryCodec
import AcademicAgent.AgentHost.Session.Index
import AcademicAgent.Core.Run

/-!
# The session file and the entries in memory

A session file is written late: nothing reaches the disk before the first assistant message,
and the flag `flushed` records whether the file already holds the entries.
-/

namespace AcademicAgent

open List Option

variable {fileEntries : List FileEntry} {path : JsString} {s : SessionManager}

namespace SessionManager

@[simp] theorem buildIndex_hasAssistant (s : SessionManager) :
    s.buildIndex.hasAssistant = s.hasAssistant := by
  rw [hasAssistant, buildIndex_fileEntries, hasAssistant]

variable {codec : LineCodec FileEntry}

def OneHeader (fileEntries : List FileEntry) : Prop :=
  ∃ (h : SessionHeader) (es : List SessionEntry), fileEntries = .session h :: es.map .entry

theorem OneHeader.ne_nil (h : OneHeader fileEntries) : fileEntries ≠ [] := by
  obtain ⟨h, es, rfl⟩ := h
  exact cons_ne_nil _ _

theorem OneHeader.append (h : OneHeader fileEntries) (e : SessionEntry) :
    OneHeader (fileEntries ++ [.entry e]) := by
  obtain ⟨h, es, rfl⟩ := h
  exact ⟨h, es ++ [e], by simp⟩

/-- The current file is the serialization of the entries in memory, and reads back as them. -/
structure PersistedExactly (codec : LineCodec FileEntry) (s : SessionManager) : Prop where
  /-- The file holds each record once, in order, and nothing else. -/
  content : ∃ path, s.sessionFile = some path ∧
    s.disk path = some (codec.serialize s.fileEntries) ∧
      loadEntriesFromFile codec s.disk path = s.fileEntries
  /-- Exactly one of the records is a header. -/
  oneHeader : OneHeader s.fileEntries

theorem loadEntriesFromFile_serialize {disk : Files} (h : OneHeader fileEntries)
    (hdisk : disk path = some (codec.serialize fileEntries)) :
    loadEntriesFromFile codec disk path = fileEntries := by
  obtain ⟨header, es, rfl⟩ := h
  simp only [loadEntriesFromFile, hdisk, codec.parseLines_serialize (cons_ne_nil _ _)]

/-- What holds between calls: either the file is up to date and known to be, or
it does not exist yet and there is no reason to write it. -/
structure FileInvariant (codec : LineCodec FileEntry) (s : SessionManager) : Prop where
  persist : s.persist = true
  oneHeader : OneHeader s.fileEntries
  file : ∃ path, s.sessionFile = some path ∧
    (s.flushed = true ∧ s.disk path = some (codec.serialize s.fileEntries) ∨
      s.flushed = false ∧ s.disk path = none ∧ s.hasAssistant = false)

theorem FileInvariant.persistedExactly (h : FileInvariant codec s) (ha : s.hasAssistant = true) :
    PersistedExactly codec s := by
  obtain ⟨path, hpath, ⟨_, hdisk⟩ | ⟨_, _, hno⟩⟩ := h.file
  · exact ⟨⟨path, hpath, hdisk, loadEntriesFromFile_serialize h.oneHeader hdisk⟩, h.oneHeader⟩
  · rw [hno] at ha
    contradiction

section

variable (s : SessionManager)

def FileMissing : Prop :=
  ∃ path, s.sessionFile = some path ∧ s.disk path = none

/-- Appending a body does not put the flag out of step with the file: the body
is an assistant message, or there is one already, or there is no file yet. -/
def KeepsFlush (body : EntryBody) : Prop :=
  (∃ m, body = .message (.assistant m)) ∨ s.hasAssistant = true ∨ s.FileMissing

/-- A step that keeps the file in step with the memory. A branched session takes
a path that is not in use, which the unique session id in it provides. -/
def Permitted (i : SessionOp × Draws) : Prop :=
  (∀ leaf body, i.1.appended s = some (leaf, body) → s.KeepsFlush body) ∧
    ∀ leafId, i.1 = .createBranchedSession leafId →
      s.disk (s.sessionPath i.2.now i.2.sessionId) = none

theorem hasAssistant_append (e : SessionEntry) (t : SessionManager)
    (ht : t.fileEntries = s.fileEntries ++ [.entry e]) :
    t.hasAssistant = (s.hasAssistant || e.isAssistantMessage) := by
  simp [hasAssistant, ht]

end

theorem persistEntry_eq (hpersist : s.persist = true) (hfile : s.sessionFile = some path)
    (e : SessionEntry) :
    persistEntry codec s e = if !s.hasAssistant then { s with flushed := false }
      else if !s.flushed then
        { s with
          disk := s.fileEntries.foldl
            (fun disk f => disk.appendFileSync path (codec.stringify f ++ [lf])) s.disk
          flushed := true }
      else { s with disk := s.disk.appendFileSync path (codec.stringify (.entry e) ++ [lf]) } := by
  unfold persistEntry
  split
  · rename_i path' _ h
    cases some.inj (h.symm.trans hfile)
    rfl
  · rename_i hno
    exact absurd hfile (hno path hpersist)

theorem rewriteFile_eq (hpersist : s.persist = true) (hfile : s.sessionFile = some path)
    (hne : s.fileEntries ≠ []) : rewriteFile codec s =
      { s with disk := s.disk.writeFileSync path (codec.serialize s.fileEntries) } := by
  unfold rewriteFile
  split
  · rename_i path' _ h
    cases some.inj (h.symm.trans hfile)
    rw [codec.intercalate_append_lf hne]
  · rename_i hno
    exact absurd hfile (hno path hpersist)

theorem FileInvariant.appendEntry {s : SessionManager} (h : FileInvariant codec s)
    {e : SessionEntry} (hk : s.KeepsFlush e.body) :
    FileInvariant codec (appendEntry codec s e) := by
  obtain ⟨path, hpath, hfile⟩ := h.file
  let t : SessionManager := { s with
    fileEntries := s.fileEntries ++ [.entry e], byId := s.byId.set e.id e, leafId := some e.id }
  have hhas : t.hasAssistant = (s.hasAssistant || e.isAssistantMessage) :=
    hasAssistant_append s e t rfl
  have hone : OneHeader t.fileEntries := h.oneHeader.append e
  change FileInvariant codec (persistEntry codec t e)
  have hpersist : t.persist = true := h.persist
  have hsession : t.sessionFile = some path := hpath
  rw [persistEntry_eq hpersist hsession]
  cases ha : t.hasAssistant with
  | false =>
    -- Nothing is written; the file must not exist, or the flag would be wrong.
    simp only [Bool.not_false, ite_true]
    rw [hhas, Bool.or_eq_false_iff] at ha
    have hmissing : s.disk path = none := by
      rcases hk with ⟨m, hm⟩ | hs | ⟨path', hpath', hnone⟩
      · simp [SessionEntry.isAssistantMessage, hm, AgentMessage.isAssistant] at ha
      · simp [hs] at ha
      · rwa [some.inj (hpath.symm.trans hpath')]
    refine ⟨hpersist, hone, path, hsession, .inr ⟨rfl, hmissing, ?_⟩⟩
    exact hhas.trans (by simp [ha])
  | true =>
    simp only [Bool.not_true, Bool.false_eq_true, ite_false]
    rcases hfile with ⟨hflushed, hdisk⟩ | ⟨hflushed, hdisk, _⟩
    · have hf : t.flushed = true := hflushed
      simp only [hf, Bool.not_true, Bool.false_eq_true, ite_false]
      refine ⟨hpersist, hone, path, hsession, .inl ⟨rfl, ?_⟩⟩
      have happend : t.disk path = some (codec.serialize s.fileEntries) := hdisk
      simp only [Files.appendFileSync_self, happend, getD_some, some.injEq]
      change _ = codec.serialize (s.fileEntries ++ [.entry e])
      simp [LineCodec.serialize_append, LineCodec.serialize_cons]
    · have hf : t.flushed = false := hflushed
      simp only [hf, Bool.not_false, ite_true]
      refine ⟨hpersist, hone, path, hsession, .inl ⟨rfl, ?_⟩⟩
      have hnone : t.disk path = none := hdisk
      simp only [Files.foldl_appendFileSync _ path hone.ne_nil, hnone, getD_none, nil_append]
      rfl

theorem FileInvariant.switchToBranch {s : SessionManager} (h : FileInvariant codec s)
    {d : Draws} (hfresh : s.disk (s.sessionPath d.now d.sessionId) = none)
    (path : List SessionEntry) : FileInvariant codec (switchToBranch codec s d path) := by
  let t : SessionManager := { s with
    fileEntries := .session (s.branchedHeader d) :: (s.branchedEntries d path).map .entry
    sessionId := d.sessionId
    sessionFile := some (s.sessionPath d.now d.sessionId) }
  have heq : SessionManager.switchToBranch codec s d path =
      if t.buildIndex.hasAssistant then { rewriteFile codec t.buildIndex with flushed := true }
      else { t.buildIndex with flushed := false } := if_pos h.persist
  have hone : OneHeader t.buildIndex.fileEntries := by
    rw [buildIndex_fileEntries]
    exact ⟨_, _, rfl⟩
  have hpersist : t.buildIndex.persist = true := t.buildIndex_persist.trans h.persist
  have hfile : t.buildIndex.sessionFile = some (s.sessionPath d.now d.sessionId) :=
    t.buildIndex_sessionFile
  have hdisk : t.buildIndex.disk (s.sessionPath d.now d.sessionId) = none := by
    rw [buildIndex_disk]
    exact hfresh
  rw [heq]
  cases ha : t.buildIndex.hasAssistant with
  | false =>
    exact ⟨hpersist, hone, _, hfile, .inr ⟨rfl, hdisk, ha⟩⟩
  | true =>
    rw [rewriteFile_eq hpersist hfile hone.ne_nil]
    exact ⟨hpersist, hone, _, hfile, .inl ⟨rfl, Files.writeFileSync_self _ _ _⟩⟩

theorem FileInvariant.step {t : SessionManager} (h : FileInvariant codec s) {i : SessionOp × Draws}
    (hp : s.Permitted i) (ht : s.step codec i = some t) : FileInvariant codec t := by
  obtain ⟨op, d⟩ := i
  rcases step_cases ht with ⟨leaf, rfl⟩ | ⟨leaf, body, labels, times, happ, rfl⟩ |
    ⟨leafId, path, rfl, _, _, rfl⟩
  · exact ⟨h.persist, h.oneHeader, h.file⟩
  · have hleaf : FileInvariant codec { s with leafId := leaf } := ⟨h.persist, h.oneHeader, h.file⟩
    have happend := hleaf.appendEntry (e := childEntry { s with leafId := leaf } d body)
      (hp.1 leaf body happ)
    exact ⟨happend.persist, happend.oneHeader, happend.file⟩
  · exact h.switchToBranch (hp.2 leafId rfl) path

inductive SessionStart where
  | create (cwd sessionDir : JsString)
  | «open» (path sessionDir : JsString) (cwdOverride : Option JsString) (processCwd : JsString)

section

variable (codec : LineCodec FileEntry) (disk : Files) (d : Draws)

def start : SessionStart → SessionManager
  | .create cwd sessionDir => create codec d cwd sessionDir disk
  | .open path sessionDir cwdOverride processCwd =>
    «open» codec d path sessionDir cwdOverride processCwd disk

/-- A start from which the file is in step. A new session takes a path that is
not in use. An opened file is absent, or has no valid header, or has one header
and either an older version or exactly the text the manager would write. -/
def StartPermitted :
    SessionStart → Prop
  | .create cwd sessionDir =>
    disk ((blank cwd sessionDir true disk).sessionPath d.now d.sessionId) = none
  | .open path _ _ _ =>
    ∀ text, disk path = some text → loadEntriesFromFile codec disk path ≠ [] →
      OneHeader (loadEntriesFromFile codec disk path) ∧
        (fileVersion (loadEntriesFromFile codec disk path) < CURRENT_SESSION_VERSION ∨
          text = codec.serialize (loadEntriesFromFile codec disk path))

end

theorem migrateV1ToV2_entries (uuid : Nat → Nat → Uuid) (done : List FileEntry)
    (prevId : Option JsString) (es : List SessionEntry) :
    ∃ es' : List SessionEntry,
      migrateV1ToV2 uuid done prevId (es.map .entry) = done ++ es'.map .entry := by
  induction es generalizing done prevId with
  | nil => exact ⟨[], (append_nil done).symm⟩
  | cons e es ih =>
    rw [map_cons, migrateV1ToV2]
    obtain ⟨es', hes'⟩ := ih _ _
    rw [hes', append_assoc]
    exact ⟨_ :: es', rfl⟩

theorem migrateV2ToV3_entries (es : List SessionEntry) :
    ∃ es' : List SessionEntry, (es.map FileEntry.entry).map migrateV2ToV3 = es'.map .entry := by
  induction es with
  | nil => exact ⟨[], rfl⟩
  | cons e es ih =>
    obtain ⟨es', hes'⟩ := ih
    have he : ∃ e', migrateV2ToV3 (.entry e) = .entry e' := by
      simp only [migrateV2ToV3]
      split
      · exact ⟨_, rfl⟩
      · exact ⟨e, rfl⟩
    obtain ⟨e', he'⟩ := he
    exact ⟨e' :: es', by rw [map_cons, map_cons, he', hes', map_cons]⟩

theorem OneHeader.migrate (h : OneHeader fileEntries) (uuid : Nat → Nat → Uuid) :
    OneHeader (migrateToCurrentVersion uuid fileEntries).1 := by
  obtain ⟨header, es, rfl⟩ := h
  have hv2 : OneHeader (migrateV1ToV2 uuid [] none (.session header :: es.map .entry)) := by
    obtain ⟨es', hes'⟩ := migrateV1ToV2_entries uuid
      ([] ++ [.session { header with version := some 2 }]) none es
    rw [migrateV1ToV2, hes']
    exact ⟨_, es', rfl⟩
  have hv3 {fs : List FileEntry} (hfs : OneHeader fs) : OneHeader (fs.map migrateV2ToV3) := by
    obtain ⟨header', es', rfl⟩ := hfs
    obtain ⟨es'', hes''⟩ := migrateV2ToV3_entries es'
    rw [map_cons, hes'']
    exact ⟨_, es'', rfl⟩
  unfold migrateToCurrentVersion
  dsimp only
  split
  · exact ⟨header, es, rfl⟩
  · dsimp only
    split
    · split
      · exact hv3 hv2
      · exact hv3 ⟨header, es, rfl⟩
    · split
      · exact hv2
      · exact ⟨header, es, rfl⟩

theorem migrateToCurrentVersion_snd (uuid : Nat → Nat → Uuid) (fileEntries : List FileEntry) :
    (migrateToCurrentVersion uuid fileEntries).2 =
      decide (fileVersion fileEntries < CURRENT_SESSION_VERSION) := by
  unfold migrateToCurrentVersion
  dsimp only
  split
  · rename_i h
    simp only [decide_eq_false (Nat.not_lt.mpr h)]
  · rename_i h
    simp only [decide_eq_true (Nat.not_le.mp h)]

theorem migrateToCurrentVersion_of_current (uuid : Nat → Nat → Uuid)
    (h : ¬ fileVersion fileEntries < CURRENT_SESSION_VERSION) :
    migrateToCurrentVersion uuid fileEntries = (fileEntries, false) :=
  if_pos (Nat.not_lt.mp h)

theorem fileInvariant_setSessionFile (s : SessionManager) (hpersist : s.persist = true)
    (d : Draws) (path : JsString)
    (hp : ∀ text, s.disk path = some text → loadEntriesFromFile codec s.disk path ≠ [] →
      OneHeader (loadEntriesFromFile codec s.disk path) ∧
        (fileVersion (loadEntriesFromFile codec s.disk path) < CURRENT_SESSION_VERSION ∨
          text = codec.serialize (loadEntriesFromFile codec s.disk path))) :
    FileInvariant codec (setSessionFile codec s d path) := by
  unfold setSessionFile
  dsimp only
  cases hdisk : s.disk path with
  | none =>
    exact ⟨hpersist, ⟨_, [], rfl⟩, path, rfl, .inr ⟨rfl, hdisk, rfl⟩⟩
  | some text =>
    cases hload : loadEntriesFromFile codec s.disk path with
    | nil =>
      dsimp only
      rw [rewriteFile_eq (by exact hpersist) rfl (cons_ne_nil _ _)]
      exact ⟨hpersist, ⟨_, [], rfl⟩, path, rfl, .inl ⟨rfl, Files.writeFileSync_self _ _ _⟩⟩
    | cons f fs =>
      dsimp only
      rw [hload] at hp
      obtain ⟨hone, htext⟩ := hp text hdisk (cons_ne_nil f fs)
      have hmigrated := hone.migrate d.uuid
      rw [migrateToCurrentVersion_snd]
      by_cases hold : fileVersion (f :: fs) < CURRENT_SESSION_VERSION
      · simp only [hold, decide_true, ite_true]
        rw [rewriteFile_eq (by exact hpersist) rfl (by exact hmigrated.ne_nil)]
        refine ⟨?_, ?_, path, ?_, .inl ⟨rfl, ?_⟩⟩
        · exact (buildIndex_persist _).trans hpersist
        · rw [buildIndex_fileEntries]
          exact hmigrated
        · exact buildIndex_sessionFile _
        · rw [buildIndex_disk, buildIndex_fileEntries]
          exact Files.writeFileSync_self _ _ _
      · have hcanonical : text = codec.serialize (f :: fs) := htext.resolve_left hold
        simp only [hold, decide_false, Bool.false_eq_true, ite_false,
          migrateToCurrentVersion_of_current d.uuid hold]
        refine ⟨?_, ?_, path, ?_, .inl ⟨rfl, ?_⟩⟩
        · exact (buildIndex_persist _).trans hpersist
        · rw [buildIndex_fileEntries]
          exact hone
        · exact buildIndex_sessionFile _
        · rw [buildIndex_disk, buildIndex_fileEntries]
          exact hdisk.trans (congrArg some hcanonical)

theorem fileInvariant_start {disk : Files} {d : Draws} {st : SessionStart}
    (hp : StartPermitted codec disk d st) : FileInvariant codec (start codec disk d st) := by
  cases st with
  | create cwd sessionDir =>
    exact ⟨rfl, ⟨_, [], rfl⟩, _, rfl, .inr ⟨rfl, hp, rfl⟩⟩
  | «open» path sessionDir cwdOverride processCwd =>
    exact fileInvariant_setSessionFile _ rfl d path hp

/-- In every run whose start and steps keep the flush flag right, the session
file agrees with the memory in every state reached. -/
theorem session_file_agrees (disk : Files) (d : Draws) (st : SessionStart)
    (calls : List (SessionOp × Draws)) (t : SessionManager)
    (hstart : StartPermitted codec disk d st)
    (hcalls : Along (step codec) Permitted (start codec disk d st) calls)
    (hrun : run (step codec) (start codec disk d st) calls = some t)
    (ha : t.hasAssistant = true) : PersistedExactly codec t :=
  (run_invariant (fun _ _ _ hs hp ht => FileInvariant.step hs hp ht)
    (fileInvariant_start hstart) hcalls hrun).persistedExactly ha

def sampleFile : JsString := js "/s.jsonl"

/-- A file that holds a session with a prompt and no answer. -/
def unansweredFile : Files := fun p =>
  if p = sampleFile then
    some (entryCodec.serialize [.session ⟨some 3, js "s", js "t", js "/w", none⟩,
      .entry ⟨js "p", none, js "t", .message (.user ⟨.string (js "hi"), 0⟩)⟩])
  else none

def promptAndAnswer : List (SessionOp × Draws) :=
  [(.appendMessage (.user ⟨.string (js "again"), 1⟩), .repeating 0x31),
    (.appendMessage (.assistant ⟨[.text ⟨js "hello", none⟩], js "api", js "provider", js "model",
      none, none, none, EMPTY_USAGE, .stop, none, 2⟩), .repeating 0x32)]

/-- Continuing a session that ended before its first answer writes its records
into the file a second time. -/
theorem session_file_written_twice :
    ∃ t, run (step entryCodec) (start entryCodec unansweredFile (.repeating 0x30)
        (.open sampleFile [] none [])) promptAndAnswer = some t ∧ t.hasAssistant = true ∧
      ¬ PersistedExactly entryCodec t := by
  refine ⟨_, rfl, by decide +kernel, ?_⟩
  rintro ⟨⟨path, hpath, hdisk, _⟩, _⟩
  have hsample : path = sampleFile := Option.some.inj (hpath.symm.trans (by decide +kernel))
  subst hsample
  exact absurd hdisk (by decide +kernel)

/-- Continuing it in a new file, where there is none, writes them once. -/
theorem session_file_agrees_new :
    ∃ t, run (step entryCodec) (start entryCodec (fun _ => none) (.repeating 0x30)
        (.open sampleFile [] none [])) promptAndAnswer = some t ∧
      PersistedExactly entryCodec t := by
  refine ⟨_, rfl, session_file_agrees (fun _ => none) (.repeating 0x30)
    (.open sampleFile [] none []) promptAndAnswer _ ?_ ?_ rfl (by decide +kernel)⟩
  · intro text h
    contradiction
  · refine ⟨⟨fun _ _ _ => Or.inr (Or.inr ⟨sampleFile, rfl, rfl⟩), fun _ h => by contradiction⟩, ?_⟩
    intro t _
    refine ⟨⟨fun _ body h => ?_, fun _ h => by contradiction⟩, fun _ _ => trivial⟩
    cases h
    exact Or.inl ⟨_, rfl⟩

end SessionManager

end AcademicAgent
