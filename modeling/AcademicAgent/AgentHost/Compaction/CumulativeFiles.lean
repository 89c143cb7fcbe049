import AcademicAgent.AgentHost.Compaction.Compact
import AcademicAgent.Core.Json.Codec

/-!
# File tracking over a chain of compactions

A compaction starts from the file lists that the one before it stored, adds the calls in the
messages it summarizes and stores two lists again.
-/

namespace AcademicAgent

open Json List

inductive FileTool where
  | read
  | write
  | edit
  deriving DecidableEq

namespace FileTool

def name : FileTool → JsString
  | read => js "read"
  | write => js "write"
  | edit => js "edit"

theorem name_injective {t u : FileTool} (h : t.name = u.name) : t = u := by
  revert h
  cases t <;> cases u <;> decide

def modifies : FileTool → Bool
  | read => false
  | write => true
  | edit => true

end FileTool

variable {q : JsString} {fileOps : FileOperations} {tool : FileTool}

def FileOperations.paths (fileOps : FileOperations) : FileTool → List JsString
  | .read => fileOps.read
  | .write => fileOps.written
  | .edit => fileOps.edited

def ToolCall.path? (call : ToolCall) : Option JsString :=
  call.arguments.tree.stringMember? (js "path")

/-- A message with a call that passes a path to a tool. -/
def Passes (tool : FileTool) (path : JsString) : AgentMessage → Prop
  | .assistant m => ∃ call ∈ m.toolCalls, call.name = tool.name ∧ call.path? = some path
  | _ => False

def ReadIn (messages : List AgentMessage) (path : JsString) : Prop :=
  ∃ m ∈ messages, Passes .read path m

/-- A summarized message that writes or edits the path. -/
def ModifiedIn (messages : List AgentMessage) (path : JsString) : Prop :=
  ∃ m ∈ messages, ∃ tool : FileTool, tool.modifies = true ∧ Passes tool path m

theorem mem_addPath {paths : List JsString} {p : JsString} :
    q ∈ addPath paths p ↔ q ∈ paths ∨ q = p := by
  unfold addPath
  split
  · rename_i h
    constructor
    · exact .inl
    · rintro (hq | rfl)
      · exact hq
      · exact h
  · rw [mem_append, mem_singleton]

theorem mem_foldl_addPath {more paths : List JsString} :
    q ∈ more.foldl addPath paths ↔ q ∈ paths ∨ q ∈ more := by
  induction more generalizing paths with
  | nil => simp
  | cons p more ih => rw [foldl_cons, ih, mem_addPath, mem_cons, or_assoc]

theorem mem_addToolCall {call : ToolCall} : q ∈ (addToolCall fileOps call).paths tool ↔
      q ∈ fileOps.paths tool ∨ (call.name = tool.name ∧ call.path? = some q ∧ q ≠ []) := by
  have hkeep : (¬ ∃ path, call.path? = some path ∧ path ≠ [] ∧ call.name = tool.name) →
      (q ∈ fileOps.paths tool ↔
        q ∈ fileOps.paths tool ∨ (call.name = tool.name ∧ call.path? = some q ∧ q ≠ [])) := by
    intro hnone
    constructor
    · exact .inl
    · rintro (hq | ⟨hname, hpath, hne⟩)
      · exact hq
      · exact absurd ⟨q, hpath, hne, hname⟩ hnone
  unfold addToolCall
  cases hpath : call.arguments.tree.stringMember? (js "path") with
  | none =>
    refine hkeep ?_
    rintro ⟨path, h, -⟩
    rw [ToolCall.path?, hpath] at h
    cases h
  | some path =>
    have hpath' : call.path? = some path := hpath
    dsimp only
    by_cases hempty : path = []
    · rw [if_pos hempty]
      refine hkeep ?_
      rintro ⟨path', h, hne, -⟩
      rw [hpath', Option.some.injEq] at h
      exact hne (h ▸ hempty)
    · rw [if_neg hempty]
      have hadd : q ∈ addPath (fileOps.paths tool) path ↔
          q ∈ fileOps.paths tool ∨ (call.path? = some q ∧ q ≠ []) := by
        rw [mem_addPath, hpath', Option.some.injEq]
        constructor
        · rintro (hq | rfl)
          · exact .inl hq
          · exact .inr ⟨rfl, hempty⟩
        · rintro (hq | ⟨rfl, -⟩)
          · exact .inl hq
          · exact .inr rfl
      have hother : ∀ other : FileTool, call.name = other.name → other ≠ tool →
          ¬ ∃ path, call.path? = some path ∧ path ≠ [] ∧ call.name = tool.name := by
        rintro other hname hne ⟨-, -, -, hname'⟩
        exact hne (FileTool.name_injective (hname.symm.trans hname'))
      have hsame : ∀ {x : List JsString}, call.name = tool.name →
          (q ∈ x ↔ q ∈ fileOps.paths tool ∨ (call.path? = some q ∧ q ≠ [])) →
            (q ∈ x ↔ q ∈ fileOps.paths tool ∨
              (call.name = tool.name ∧ call.path? = some q ∧ q ≠ [])) := by
        intro x hname hx
        rw [hx, and_iff_right hname]
      by_cases hread : call.name = js "read"
      · rw [if_pos hread]
        cases tool with
        | read => exact hsame hread hadd
        | write | edit => exact hkeep (hother .read hread (by decide))
      · rw [if_neg hread]
        by_cases hwrite : call.name = js "write"
        · rw [if_pos hwrite]
          cases tool with
          | write => exact hsame hwrite hadd
          | read | edit => exact hkeep (hother .write hwrite (by decide))
        · rw [if_neg hwrite]
          by_cases hedit : call.name = js "edit"
          · rw [if_pos hedit]
            cases tool with
            | edit => exact hsame hedit hadd
            | read | write => exact hkeep (hother .edit hedit (by decide))
          · rw [if_neg hedit]
            refine hkeep ?_
            rintro ⟨-, -, -, hname⟩
            cases tool with
            | read => exact hread hname
            | write => exact hwrite hname
            | edit => exact hedit hname

theorem mem_extractFileOpsFromMessage {m : AgentMessage} :
    q ∈ (extractFileOpsFromMessage fileOps m).paths tool ↔
      q ∈ fileOps.paths tool ∨ (Passes tool q m ∧ q ≠ []) := by
  cases m with
  | assistant m =>
    simp only [extractFileOpsFromMessage, Passes]
    generalize m.toolCalls = calls
    induction calls generalizing fileOps with
    | nil => simp
    | cons call calls ih =>
      rw [foldl_cons, ih, mem_addToolCall]
      simp only [exists_mem_cons_iff, or_and_right, and_assoc, or_assoc]
  | _ => simp [extractFileOpsFromMessage, Passes]

theorem mem_foldl_extractFileOps {messages : List AgentMessage} :
    q ∈ (messages.foldl extractFileOpsFromMessage fileOps).paths tool ↔
      q ∈ fileOps.paths tool ∨ ((∃ m ∈ messages, Passes tool q m) ∧ q ≠ []) := by
  induction messages generalizing fileOps with
  | nil => simp
  | cons m messages ih =>
    rw [foldl_cons, ih, mem_extractFileOpsFromMessage]
    simp only [exists_mem_cons_iff, or_and_right, or_assoc]

section

variable {before after : List AgentMessage} {path : JsString}

theorem readIn_append : ReadIn (before ++ after) path ↔ ReadIn before path ∨ ReadIn after path := by
  simp only [ReadIn, mem_append, or_and_right, exists_or]

theorem modifiedIn_append :
    ModifiedIn (before ++ after) path ↔ ModifiedIn before path ∨ ModifiedIn after path := by
  simp only [ModifiedIn, mem_append, or_and_right, exists_or]

end

theorem modifiedIn_iff {messages : List AgentMessage} {path : JsString} : ModifiedIn messages path ↔
      (∃ m ∈ messages, Passes .write path m) ∨ ∃ m ∈ messages, Passes .edit path m := by
  constructor
  · rintro ⟨m, hm, tool, htool, hpasses⟩
    cases tool with
    | read => contradiction
    | write => exact .inl ⟨m, hm, hpasses⟩
    | edit => exact .inr ⟨m, hm, hpasses⟩
  · rintro (⟨m, hm, hpasses⟩ | ⟨m, hm, hpasses⟩)
    · exact ⟨m, hm, .write, rfl, hpasses⟩
    · exact ⟨m, hm, .edit, rfl, hpasses⟩

section

variable {fileOps : FileOperations}

theorem mem_modifiedFiles {path : JsString} : path ∈ (computeFileLists fileOps).modifiedFiles ↔
      path ∈ fileOps.edited ∨ path ∈ fileOps.written := by
  rw [computeFileLists, mem_mergeSort, mem_foldl_addPath]

theorem mem_readFiles {path : JsString} : path ∈ (computeFileLists fileOps).readFiles ↔
      path ∈ fileOps.read ∧ path ∉ (computeFileLists fileOps).modifiedFiles := by
  rw [mem_modifiedFiles, ← mem_foldl_addPath]
  simp only [computeFileLists, mem_mergeSort, mem_filter, decide_eq_true_eq]

def FileLists.toJson (lists : FileLists) : Json where
  tree := .obj [(js "readFiles", .arr (lists.readFiles.map .str)),
    (js "modifiedFiles", .arr (lists.modifiedFiles.map .str))]
  ordered := by
    have hstrings : ∀ xs : List JsString, Tree.orderedList (xs.map .str) = true :=
      JsonCodec.orderedList_map fun s => ⟨.str s, rfl⟩
    have hkeys : KeysOrdered [js "readFiles", js "modifiedFiles"] := by decide
    simp only [Tree.ordered, Tree.orderedMembers, map_cons, map_nil, hstrings,
      decide_eq_true hkeys, Bool.and_self]

theorem filterMap_strings (xs : List JsString) : ((xs.map Tree.str).filterMap fun
      | .str s => some s
      | _ => none) = xs := by
  induction xs with
  | nil => rfl
  | cons x xs ih => rw [map_cons, filterMap_cons, ih]

theorem detailPaths_readFiles (lists : FileLists) :
    detailPaths lists.toJson (js "readFiles") = lists.readFiles := by
  have hfind : ([(js "readFiles", Tree.arr (lists.readFiles.map .str)),
      (js "modifiedFiles", .arr (lists.modifiedFiles.map .str))].find? fun m =>
        decide (m.1 = js "readFiles")) =
      some (js "readFiles", .arr (lists.readFiles.map .str)) := by
    rw [find?_cons_of_pos (by simp)]
  exact filterMap_strings lists.readFiles

theorem detailPaths_modifiedFiles (lists : FileLists) :
    detailPaths lists.toJson (js "modifiedFiles") = lists.modifiedFiles := by
  have hother : js "readFiles" ≠ js "modifiedFiles" := by decide
  have hfind : ([(js "readFiles", Tree.arr (lists.readFiles.map .str)),
      (js "modifiedFiles", .arr (lists.modifiedFiles.map .str))].find? fun m =>
        decide (m.1 = js "modifiedFiles")) =
      some (js "modifiedFiles", .arr (lists.modifiedFiles.map .str)) := by
    rw [find?_cons_of_neg (by simpa using hother), find?_cons_of_pos (by simp)]
  exact filterMap_strings lists.modifiedFiles

/-- What the lists say of the messages summarized so far. -/
structure Tracks (lists : FileLists) (summarized : List AgentMessage) : Prop where
  read : ∀ path, path ∈ lists.readFiles ↔
    path ≠ [] ∧ ReadIn summarized path ∧ ¬ ModifiedIn summarized path
  modified : ∀ path, path ∈ lists.modifiedFiles ↔ path ≠ [] ∧ ModifiedIn summarized path

/-- The entry of a compaction that the program made, with its lists. -/
def StoresLists (c : SessionEntry) (lists : FileLists) : Prop :=
  ∃ summary firstKeptEntryId tokensBefore fromHook firstKeptEntryIndex, fromHook ≠ some true ∧
    c.body = .compaction summary firstKeptEntryId tokensBefore (some lists.toJson) fromHook
      firstKeptEntryIndex

theorem StoresLists.unique {c : SessionEntry} {lists lists' : FileLists}
    (h : StoresLists c lists) (h' : StoresLists c lists') : lists = lists' := by
  obtain ⟨_, _, _, _, _, -, hbody⟩ := h
  obtain ⟨_, _, _, _, _, -, hbody'⟩ := h'
  have hjson : lists.toJson = lists'.toJson := by
    rw [hbody, EntryBody.compaction.injEq, Option.some.injEq] at hbody'
    exact hbody'.2.2.2.1
  have hread := congrArg (detailPaths · (js "readFiles")) hjson
  have hmodified := congrArg (detailPaths · (js "modifiedFiles")) hjson
  simp only [detailPaths_readFiles] at hread
  simp only [detailPaths_modifiedFiles] at hmodified
  cases lists
  cases lists'
  exact congrArg₂ FileLists.mk hread hmodified

theorem tracks_next {summarized messages : List AgentMessage}
    (hread : ∀ path, path ∈ fileOps.paths .read ↔
      path ≠ [] ∧ ReadIn summarized path ∧ ¬ ModifiedIn summarized path)
    (hwrite : ∀ path, path ∉ fileOps.paths .write)
    (hedit : ∀ path, path ∈ fileOps.paths .edit ↔ path ≠ [] ∧ ModifiedIn summarized path) :
    Tracks (computeFileLists (messages.foldl extractFileOpsFromMessage fileOps))
      (summarized ++ messages) := by
  generalize hnext : messages.foldl extractFileOpsFromMessage fileOps = next
  have hpaths : ∀ tool path, path ∈ next.paths tool ↔
      path ∈ fileOps.paths tool ∨ ((∃ m ∈ messages, Passes tool path m) ∧ path ≠ []) := by
    intro tool path
    rw [← hnext, mem_foldl_extractFileOps]
  have hmodified : ∀ path, path ∈ (computeFileLists next).modifiedFiles ↔
      path ≠ [] ∧ ModifiedIn (summarized ++ messages) path := by
    intro path
    have hwritten := hpaths .write path
    have hedited := hpaths .edit path
    rw [hedit] at hedited
    rw [or_iff_right (hwrite path)] at hwritten
    rw [mem_modifiedFiles, modifiedIn_append, @modifiedIn_iff messages path]
    change path ∈ next.paths .edit ∨ path ∈ next.paths .write ↔ _
    rw [hedited, hwritten, and_comm (b := path ≠ []), ← and_or_left, and_comm (b := path ≠ []),
      ← and_or_left, or_assoc, or_comm (b := ∃ m ∈ messages, Passes .write path m)]
  refine ⟨fun path => ?_, hmodified⟩
  have hreads := hpaths .read path
  rw [hread] at hreads
  rw [mem_readFiles, hmodified, readIn_append]
  change path ∈ next.paths .read ∧ _ ↔ _
  rw [hreads, modifiedIn_append]
  change (_ ∨ ReadIn messages path ∧ path ≠ []) ∧ _ ↔ _
  tauto

end

theorem latestCompaction_eq (path : List SessionEntry) :
    ((prevCompactionIndex path).bind fun i => path[i]?) = getLatestCompactionEntry path := by
  rcases compaction_cases path with hnone | ⟨before, c, after, rfl, hc, hafter⟩
  · rw [prevCompactionIndex_of_none hnone, getLatestCompactionEntry_eq_none hnone]
    rfl
  · rw [prevCompactionIndex_append hc hafter, getLatestCompactionEntry_append hc hafter,
      Option.bind_some]
    simp

theorem prepareCompaction_fileOps {path : List SessionEntry} {settings : CompactionSettings}
    {prep : CompactionPreparation} (h : prepareCompaction path settings = some (some prep)) :
    prep.fileOps = (prep.messagesToSummarize ++ prep.turnPrefixMessages).foldl
      extractFileOpsFromMessage (recordedFileOps (getLatestCompactionEntry path)) := by
  unfold prepareCompaction at h
  split at h
  · exact absurd (Option.some.inj h) (by simp)
  · obtain ⟨context, -, hprep⟩ := Option.map_eq_some_iff.mp h
    unfold preparationAt at hprep
    split at hprep
    · contradiction
    · split at hprep
      · contradiction
      · cases hprep
        rw [foldl_append, ← latestCompaction_eq]
        rfl

theorem compact_details {complete : SummarizationRequest → Except JsString AssistantMessage}
    {options : CompactOptions} {prep : CompactionPreparation} {result : CompactionResult}
    (h : (compact complete options prep).2 = .ok result) :
    result.details = computeFileLists prep.fileOps := by
  unfold compact at h
  cases hsummary : summaryText complete options prep with
  | error e =>
    rw [hsummary] at h
    cases h
  | ok summary =>
    rw [hsummary] at h
    change (if prep.firstKeptEntryId = [] then _ else _) = _ at h
    split at h
    · cases h
    · cases h
      rfl

/-- Compactions by the program, each on a path whose latest compaction is the one
before, with the messages summarized by all of them. -/
inductive CompactionChain : Option SessionEntry → List AgentMessage → Prop where
  | start : CompactionChain none []
  | next {latest : Option SessionEntry} {summarized : List AgentMessage}
      {path : List SessionEntry} {settings : CompactionSettings} {prep : CompactionPreparation}
      {complete : SummarizationRequest → Except JsString AssistantMessage}
      {options : CompactOptions} {result : CompactionResult} {c : SessionEntry}
      {fromHook : Option Bool} {firstKeptEntryIndex : Option Nat} :
      CompactionChain latest summarized → getLatestCompactionEntry path = latest →
      prepareCompaction path settings = some (some prep) →
      (compact complete options prep).2 = .ok result → fromHook ≠ some true →
      c.body = .compaction result.summary result.firstKeptEntryId result.tokensBefore
        (some result.details.toJson) fromHook firstKeptEntryIndex →
      CompactionChain (some c)
        (summarized ++ (prep.messagesToSummarize ++ prep.turnPrefixMessages))

theorem CompactionChain.tracks {latest : Option SessionEntry} {summarized : List AgentMessage}
    (h : CompactionChain latest summarized) :
    match latest with
    | none => summarized = []
    | some c => ∃ lists, StoresLists c lists ∧ Tracks lists summarized := by
  induction h with
  | start => rfl
  | @next latest summarized path _ prep _ _ result c fromHook firstKeptEntryIndex _ hlatest hprep
      hresult hhook hbody ih =>
    refine ⟨result.details, ⟨_, _, _, _, _, hhook, hbody⟩, ?_⟩
    rw [compact_details hresult, prepareCompaction_fileOps hprep, hlatest]
    cases latest with
    | none =>
      cases ih
      refine tracks_next ?_ ?_ ?_ <;> simp [recordedFileOps, createFileOps, FileOperations.paths,
        ReadIn, ModifiedIn]
    | some latest =>
      obtain ⟨lists, ⟨_, _, _, hook, _, hhook', hbody'⟩, htracks⟩ := ih
      have hrecorded : recordedFileOps (some latest) =
          { createFileOps with
            read := lists.readFiles.foldl addPath []
            edited := lists.modifiedFiles.foldl addPath [] } := by
        simp only [recordedFileOps, Option.map_some, hbody', if_neg hhook',
          detailPaths_readFiles, detailPaths_modifiedFiles]
      rw [hrecorded]
      refine tracks_next (fun q => ?_) (fun q => not_mem_nil) (fun q => ?_)
      · change q ∈ lists.readFiles.foldl addPath [] ↔ _
        rw [mem_foldl_addPath, or_iff_right not_mem_nil, htracks.read]
      · change q ∈ lists.modifiedFiles.foldl addPath [] ↔ _
        rw [mem_foldl_addPath, or_iff_right not_mem_nil, htracks.modified]

/-- The latest compaction of a chain lists every path that a summarized message
passed to a tool, apart from empty ones, in one list or the other. -/
theorem compactionChain_lists {c : SessionEntry} {summarized : List AgentMessage}
    (h : CompactionChain (some c) summarized) : ∃ lists, StoresLists c lists ∧
      (∀ tool path, path ≠ [] → (∃ m ∈ summarized, Passes tool path m) →
        path ∈ lists.readFiles ∨ path ∈ lists.modifiedFiles) ∧
      (∀ path ∈ lists.readFiles, path ∉ lists.modifiedFiles) ∧
      ∀ path, path ∈ lists.modifiedFiles ↔ path ≠ [] ∧ ModifiedIn summarized path := by
  obtain ⟨lists, hstores, htracks⟩ := h.tracks
  refine ⟨lists, hstores, ?_, ?_, htracks.modified⟩
  · intro tool path hne hpasses
    rw [htracks.read, htracks.modified]
    by_cases hmodified : ModifiedIn summarized path
    · exact .inr ⟨hne, hmodified⟩
    · have hread : ReadIn summarized path := by
        cases tool with
        | read => exact hpasses
        | write => exact absurd (modifiedIn_iff.mpr (.inl hpasses)) hmodified
        | edit => exact absurd (modifiedIn_iff.mpr (.inr hpasses)) hmodified
      exact .inl ⟨hne, hread, hmodified⟩
  · intro path hread hmodified
    exact ((htracks.read path).mp hread).2.2 ((htracks.modified path).mp hmodified).2

def reading (path : String) : AssistantMessage where
  content := [.toolCall { id := js "call", name := js "read"
                          arguments := ⟨.obj [(js "path", .str (js path))], by
                            simp [Tree.ordered, Tree.orderedMembers, KeysOrdered]⟩ }]
  api := js "api"
  provider := js "provider"
  model := js "model"
  usage := EMPTY_USAGE
  stopReason := .toolUse
  timestamp := 0

def readingBodies (path : String) : List EntryBody :=
  [prompt "aaaa", .message (.assistant (reading path)), prompt "bbbb", answer "cccc", prompt "dddd"]

theorem exists_compactionChain (bodies : List EntryBody) (prep : CompactionPreparation)
    (hprep : prepareCompaction (pathOf bodies) keepOne = some (some prep))
    (hlatest : getLatestCompactionEntry (pathOf bodies) = none)
    (hsplit : prep.isSplitTurn = false) (hfirst : prep.firstKeptEntryId ≠ []) :
    ∃ c, CompactionChain (some c) (prep.messagesToSummarize ++ prep.turnPrefixMessages) := by
  have hresult : ∃ result, (compact (fun _ => .ok (reading "a")) ⟨false, none, none⟩ prep).2 =
      .ok result := by
    have hsummary : summaryText (fun _ => .ok (reading "a")) ⟨false, none, none⟩ prep = .ok [] := by
      simp only [summaryText, hsplit, Bool.false_eq_true, false_and, ite_false]
      rfl
    simp only [compact, hsummary, if_neg hfirst]
    exact ⟨_, rfl⟩
  obtain ⟨result, hresult⟩ := hresult
  exact ⟨sampleEntry bodies.length (.compaction result.summary result.firstKeptEntryId
      result.tokensBefore (some result.details.toJson) (some false) none),
    .next .start hlatest hprep hresult (by simp : some false ≠ some true) rfl⟩

/-- The messages of that path before the last prompt. -/
def readingMessages (path : String) : List AgentMessage :=
  (pathOf ((readingBodies path).dropLast)).filterMap getMessageFromEntry

def readingPreparation (path : String) : Option CompactionPreparation :=
  preparationOf (readingBodies path)

/-- A file that was read before a compaction is listed by it. -/
theorem compactionChain_lists_reading :
    ∃ c lists, CompactionChain (some c) (readingMessages "a") ∧ StoresLists c lists ∧
      (∀ tool path, path ≠ [] → (∃ m ∈ readingMessages "a", Passes tool path m) →
        path ∈ lists.readFiles ∨ path ∈ lists.modifiedFiles) ∧
      (∀ path ∈ lists.readFiles, path ∉ lists.modifiedFiles) ∧
      ∀ path, path ∈ lists.modifiedFiles ↔ path ≠ [] ∧ ModifiedIn (readingMessages "a") path := by
  obtain ⟨c, hc⟩ := exists_compactionChain (readingBodies "a")
    ((readingPreparation "a").get (by decide)) (by decide) (by decide) (by decide)
    (by decide)
  have hmessages : ((readingPreparation "a").get (by decide)).messagesToSummarize ++
      ((readingPreparation "a").get (by decide)).turnPrefixMessages = readingMessages "a" := by
    decide
  rw [hmessages] at hc
  obtain ⟨lists, hstores, hlists⟩ := compactionChain_lists hc
  exact ⟨c, lists, hc, hstores, hlists⟩

/-- A call that reads the empty path is listed nowhere. -/
theorem compactionChain_omits_empty_path :
    ¬ ∀ c summarized, CompactionChain (some c) summarized → ∃ lists, StoresLists c lists ∧
      (∀ tool path, (∃ m ∈ summarized, Passes tool path m) →
        path ∈ lists.readFiles ∨ path ∈ lists.modifiedFiles) ∧
      (∀ path ∈ lists.readFiles, path ∉ lists.modifiedFiles) ∧
      ∀ path, path ∈ lists.modifiedFiles ↔ ModifiedIn summarized path := by
  intro h
  obtain ⟨c, hc⟩ := exists_compactionChain (readingBodies "")
    ((readingPreparation "").get (by decide)) (by decide) (by decide) (by decide)
    (by decide)
  obtain ⟨lists, hstores, hlisted, -, -⟩ := h c _ hc
  obtain ⟨lists', hstores', htracks⟩ := hc.tracks
  have hpassed : ∃ m ∈ ((readingPreparation "").get (by decide)).messagesToSummarize ++
      ((readingPreparation "").get (by decide)).turnPrefixMessages, Passes .read [] m :=
    ⟨.assistant (reading ""), by decide, _, mem_cons_self, rfl, rfl⟩
  obtain rfl := hstores.unique hstores'
  rcases hlisted .read [] hpassed with hread | hmodified
  · exact ((htracks.read []).mp hread).1 rfl
  · exact ((htracks.modified []).mp hmodified).1 rfl

end AcademicAgent
