import Mathlib.Data.List.Dedup
import AcademicAgent.AgentHost.Session.Context
import AcademicAgent.Core.Json.Text

/-!
# Cut points

How large messages are estimated to be, and where `findCutPoint` cuts a stretch
of a path: at a message that can start the kept part, moved back over the
entries before it that are not messages.
-/

namespace AcademicAgent

open List

/-- `usage.totalTokens || usage.input + ...`. -/
def calculateContextTokens (usage : Usage) : Nat :=
  if usage.totalTokens = 0 then
    usage.input + usage.output + usage.cacheRead + usage.cacheWrite
  else usage.totalTokens

/-- `Math.ceil(chars / 4)`. -/
def tokensOfChars (chars : Nat) : Nat := (chars + 3) / 4

/-- The length of the text of a block; an image counts as `image` characters. -/
def ContentBlock.chars (image : Nat) : ContentBlock → Nat
  | .text c => c.text.length
  | .image _ => image

def MessageContent.chars (image : Nat) : MessageContent → Nat
  | .string s => s.length
  | .blocks bs => (bs.map (ContentBlock.chars image)).sum

def AssistantBlock.chars : AssistantBlock → Nat
  | .text c => c.text.length
  | .thinking c => c.thinking.length
  | .toolCall c => c.name.length + c.arguments.stringify.length

/-- `estimateTokens(message)`. A role it does not know counts nothing. -/
def estimateTokens : AgentMessage → Nat
  | .user m => tokensOfChars (m.content.chars 0)
  | .assistant m => tokensOfChars (m.content.map AssistantBlock.chars).sum
  | .custom m => tokensOfChars (m.content.chars 4800)
  | .toolResult m => tokensOfChars (m.content.map (ContentBlock.chars 4800)).sum
  | .bashExecution m => tokensOfChars (m.command.length + m.output.length)
  | .branchSummary m => tokensOfChars m.summary.length
  | .compactionSummary m => tokensOfChars m.summary.length
  | .hookMessage _ => 0

/-- `getAssistantUsage(msg)`. -/
def getAssistantUsage : AgentMessage → Option Usage
  | .assistant m =>
    if m.stopReason = .aborted ∨ m.stopReason = .error then none else some m.usage
  | _ => none

/-- `estimateContextTokens(messages).tokens`: what the last usage reported, and
an estimate of the messages after it. -/
def estimateContextTokens (messages : List AgentMessage) : Nat :=
  let trailing := messages.reverse.takeWhile fun m => (getAssistantUsage m).isNone
  let estimated := (trailing.map estimateTokens).sum
  match messages.reverse.findSome? getAssistantUsage with
  | none => estimated
  | some usage => calculateContextTokens usage + estimated

def AgentMessage.isCutPoint : AgentMessage → Bool
  | .bashExecution _ | .custom _ | .branchSummary _ | .compactionSummary _ | .user _
  | .assistant _ => true
  | .toolResult _ | .hookMessage _ => false

def SessionEntry.isCutPoint (e : SessionEntry) : Bool :=
  match e.body with
  | .message m => m.isCutPoint
  | .branchSummary .. | .customMessage .. => true
  | _ => false

def SessionEntry.isTurnStart (e : SessionEntry) : Bool :=
  match e.body with
  | .branchSummary .. | .customMessage .. => true
  | .message (.user _) | .message (.bashExecution _) => true
  | _ => false

/-- `e.type === "message" && e.message.role === "user"`. -/
def SessionEntry.isUserMessage (e : SessionEntry) : Bool :=
  match e.body with
  | .message (.user _) => true
  | _ => false

variable (entries : List SessionEntry)

/-- Whether the entry at an index exists and has a property. -/
def entryIs (p : SessionEntry → Bool) (i : Nat) : Bool := entries[i]?.any p

/-- `findValidCutPoints`: the indices of the range, in order. -/
def findValidCutPoints (startIndex endIndex : Nat) : List Nat :=
  (List.range' startIndex (endIndex - startIndex)).filter (entryIs entries SessionEntry.isCutPoint)

/-- The loop over `i` from `n - 1` down to `startIndex` that looks for the
message at which the accumulated tokens reach the budget. -/
def findBudgetIndex (keepRecentTokens : Rat) (startIndex : Nat) : Nat → Nat → Option Nat
  | 0, _ => none
  | n + 1, accumulatedTokens =>
    if n < startIndex then none
    else
      match entries[n]?.map SessionEntry.body with
      | some (.message m) =>
        let accumulatedTokens := accumulatedTokens + estimateTokens m
        if keepRecentTokens ≤ accumulatedTokens then some n
        else findBudgetIndex keepRecentTokens startIndex n accumulatedTokens
      | _ => findBudgetIndex keepRecentTokens startIndex n accumulatedTokens

/-- The loop that moves the cut back over entries that are not messages. -/
def slideBack (startIndex : Nat) : Nat → Nat
  | 0 => 0
  | n + 1 =>
    if n + 1 ≤ startIndex then n + 1
    else if entryIs entries (fun e => e.isCompaction || e.isMessage) n then n + 1
    else slideBack startIndex n

/-- `findTurnStartIndex`: the loop over `i` from `n - 1` down to `startIndex`. -/
def findTurnStartBelow (startIndex : Nat) : Nat → Option Nat
  | 0 => none
  | n + 1 =>
    if n < startIndex then none
    else if entryIs entries SessionEntry.isTurnStart n then some n
    else findTurnStartBelow startIndex n

/-- `findTurnStartIndex(entries, entryIndex, startIndex)`, where `-1` is no value. -/
def findTurnStartIndex (entryIndex startIndex : Nat) : Option Nat :=
  findTurnStartBelow entries startIndex (entryIndex + 1)

structure CutPointResult where
  firstKeptEntryIndex : Nat
  turnStartIndex : Option Nat
  isSplitTurn : Bool
  deriving DecidableEq

def findCutPoint (startIndex endIndex : Nat) (keepRecentTokens : Rat) : CutPointResult :=
  match findValidCutPoints entries startIndex endIndex with
  | [] => ⟨startIndex, none, false⟩
  | first :: rest =>
    let atBudget := (findBudgetIndex entries keepRecentTokens startIndex endIndex 0).bind
      fun i => (first :: rest).find? fun cutPoint => decide (i ≤ cutPoint)
    let cutIndex := slideBack entries startIndex (atBudget.getD first)
    let isUserMessage := entryIs entries SessionEntry.isUserMessage cutIndex
    let turnStartIndex :=
      if isUserMessage then none else findTurnStartIndex entries cutIndex startIndex
    ⟨cutIndex, turnStartIndex, !isUserMessage && turnStartIndex.isSome⟩

variable {entries}

theorem mem_findValidCutPoints {startIndex endIndex i : Nat} :
    i ∈ findValidCutPoints entries startIndex endIndex ↔
      startIndex ≤ i ∧ i < endIndex ∧ entryIs entries SessionEntry.isCutPoint i = true := by
  rw [findValidCutPoints, mem_filter, mem_range'_1, and_assoc]
  constructor
  all_goals
    rintro ⟨hle, hlt, hcut⟩
    exact ⟨hle, by omega, hcut⟩

theorem slideBack_bounds {startIndex n : Nat} (h : startIndex ≤ n) :
    startIndex ≤ slideBack entries startIndex n ∧ slideBack entries startIndex n ≤ n := by
  induction n with
  | zero => exact ⟨h, le_rfl⟩
  | succ n ih =>
    unfold slideBack
    split
    · exact ⟨h, le_rfl⟩
    · split
      · exact ⟨h, le_rfl⟩
      · rename_i hlt _
        obtain ⟨hlow, hhigh⟩ := ih (by omega)
        exact ⟨hlow, hhigh.trans (Nat.le_succ n)⟩

theorem findTurnStartBelow_bounds {startIndex n t : Nat}
    (h : findTurnStartBelow entries startIndex n = some t) : startIndex ≤ t ∧ t < n := by
  induction n with
  | zero => contradiction
  | succ n ih =>
    unfold findTurnStartBelow at h
    split at h
    · contradiction
    · split at h
      · rename_i hle _
        cases h
        exact ⟨Nat.not_lt.mp hle, Nat.lt_succ_self _⟩
      · obtain ⟨hlow, hhigh⟩ := ih h
        exact ⟨hlow, hhigh.trans (Nat.lt_succ_self n)⟩

theorem findCutPoint_bounds {startIndex endIndex : Nat} {keepRecentTokens : Rat}
    {cut : CutPointResult} (h : findCutPoint entries startIndex endIndex keepRecentTokens = cut) :
    startIndex ≤ cut.firstKeptEntryIndex ∧
      (cut.isSplitTurn = true → ∃ t, cut.turnStartIndex = some t ∧ startIndex ≤ t ∧
        t ≤ cut.firstKeptEntryIndex) := by
  subst h
  unfold findCutPoint
  split
  · exact ⟨le_rfl, fun h => by contradiction⟩
  · rename_i first rest hpoints
    generalize hatBudget : (findBudgetIndex entries keepRecentTokens startIndex endIndex 0).bind
      (fun i => (first :: rest).find? fun cutPoint => decide (i ≤ cutPoint)) = atBudget
    have hmem : atBudget.getD first ∈ first :: rest := by
      cases atBudget with
      | none => exact mem_cons_self
      | some i =>
        obtain ⟨_, _, hfind⟩ := Option.bind_eq_some_iff.mp hatBudget
        exact mem_of_find?_eq_some hfind
    rw [← hpoints] at hmem
    have hbounds := @slideBack_bounds entries _ _ (mem_findValidCutPoints.mp hmem).1
    refine ⟨hbounds.1, fun hsplit => ?_⟩
    rw [Bool.and_eq_true] at hsplit
    obtain ⟨t, ht⟩ := Option.isSome_iff_exists.mp hsplit.2
    refine ⟨t, ht, ?_⟩
    split at ht
    · contradiction
    · obtain ⟨hlow, hhigh⟩ := findTurnStartBelow_bounds ht
      exact ⟨hlow, Nat.le_of_lt_succ hhigh⟩

end AcademicAgent

/-!
# File operations of a conversation

The paths that tool calls read, wrote and edited, collected over messages, and
the section of a summary that lists them.
-/

namespace AcademicAgent

/-- Sets of paths, each in the order in which its paths were added. -/
structure FileOperations where
  read : List JsString
  written : List JsString
  edited : List JsString
  deriving DecidableEq

def createFileOps : FileOperations := ⟨[], [], []⟩

/-- `set.add(path)`. -/
def addPath (paths : List JsString) (path : JsString) : List JsString :=
  if path ∈ paths then paths else paths ++ [path]

def Json.Tree.stringMember? (t : Json.Tree) (key : JsString) : Option JsString :=
  match t with
  | .obj ms =>
    match (ms.find? fun m => decide (m.1 = key)).map Prod.snd with
    | some (.str s) => some s
    | _ => none
  | _ => none

section

variable (fileOps : FileOperations)

def addToolCall (call : ToolCall) : FileOperations :=
  match call.arguments.tree.stringMember? (js "path") with
  | some path =>
    if path = [] then fileOps
    else if call.name = js "read" then { fileOps with read := addPath fileOps.read path }
    else if call.name = js "write" then { fileOps with written := addPath fileOps.written path }
    else if call.name = js "edit" then { fileOps with edited := addPath fileOps.edited path }
    else fileOps
  | none => fileOps

def extractFileOpsFromMessage : AgentMessage → FileOperations
  | .assistant m => m.toolCalls.foldl addToolCall fileOps
  | _ => fileOps

/-- The order of `sort()`: by code units. -/
def codeUnitsLe : JsString → JsString → Bool
  | [], _ => true
  | _ :: _, [] => false
  | a :: s, b :: t => if a = b then codeUnitsLe s t else decide (a < b)

structure FileLists where
  readFiles : List JsString
  modifiedFiles : List JsString
  deriving DecidableEq

def computeFileLists : FileLists :=
  let modified := fileOps.written.foldl addPath fileOps.edited
  { readFiles := (fileOps.read.filter fun path => decide (path ∉ modified)).mergeSort codeUnitsLe
    modifiedFiles := modified.mergeSort codeUnitsLe }

end

/-- A list of paths between tags, when there are any. -/
def fileSection (tag : JsString) (paths : List JsString) : List JsString :=
  if paths = [] then []
  else [js "<" ++ tag ++ js ">\n" ++ [lf].intercalate paths ++ js "\n</" ++ tag ++ js ">"]

def formatFileOperations (lists : FileLists) : JsString :=
  let sections := fileSection (js "read-files") lists.readFiles ++
    fileSection (js "modified-files") lists.modifiedFiles
  if sections = [] then [] else js "\n\n" ++ (js "\n\n").intercalate sections

/-!
# Preparing a compaction

`prepareCompaction` decides which entries of a path are summarized and which are kept.
-/

structure CompactionSettings where
  enabled : Bool
  reserveTokens : Nat
  keepRecentTokens : Rat
  deriving DecidableEq

def DEFAULT_COMPACTION_SETTINGS : CompactionSettings := ⟨true, 16384, 20000⟩

def shouldCompact (contextTokens contextWindow : Nat) (settings : CompactionSettings) : Bool :=
  settings.enabled && decide ((contextTokens : Int) > contextWindow - settings.reserveTokens)

def getMessageFromEntry (e : SessionEntry) : Option AgentMessage :=
  match e.body with
  | .message m => some m
  | .customMessage customType content display details =>
    some (createCustomMessage customType content display details e.timestamp)
  | .branchSummary fromId summary _ _ =>
    some (createBranchSummaryMessage summary fromId e.timestamp)
  | .compaction summary _ tokensBefore _ _ _ =>
    some (createCompactionSummaryMessage summary tokensBefore e.timestamp)
  | _ => none

def getMessageFromEntryForCompaction (e : SessionEntry) : Option AgentMessage :=
  if e.isCompaction then none else getMessageFromEntry e

/-- The strings of an array member of the details of a compaction. -/
def detailPaths (details : Json) (key : JsString) : List JsString :=
  match details.tree with
  | .obj ms =>
    match (ms.find? fun m => decide (m.1 = key)).map Prod.snd with
    | some (.arr ts) =>
      ts.filterMap fun
        | .str s => some s
        | _ => none
    | _ => []
  | _ => []

/-- The file operations that an earlier compaction recorded. -/
def recordedFileOps (prevCompaction : Option SessionEntry) : FileOperations :=
  match prevCompaction.map SessionEntry.body with
  | some (.compaction _ _ _ (some details) fromHook _) =>
    if fromHook = some true then createFileOps
    else
      { createFileOps with
        read := (detailPaths details (js "readFiles")).foldl addPath []
        edited := (detailPaths details (js "modifiedFiles")).foldl addPath [] }
  | _ => createFileOps

def extractFileOperations (messages : List AgentMessage) (prevCompaction : Option SessionEntry) :
    FileOperations :=
  messages.foldl extractFileOpsFromMessage (recordedFileOps prevCompaction)

structure CompactionPreparation where
  firstKeptEntryId : JsString
  messagesToSummarize : List AgentMessage
  turnPrefixMessages : List AgentMessage
  isSplitTurn : Bool
  tokensBefore : Nat
  previousSummary : Option JsString
  fileOps : FileOperations
  settings : CompactionSettings
  deriving DecidableEq

section

variable (path : List SessionEntry)

/-- The messages to summarize of the entries in a range of indices. -/
def messagesForCompaction (start stop : Nat) : List AgentMessage :=
  ((path.take stop).drop start).filterMap getMessageFromEntryForCompaction

def prevCompactionIndex : Option Nat :=
  (path.reverse.findIdx? SessionEntry.isCompaction).map fun i => path.length - 1 - i

/-- Where the part of a path that is not yet summarized starts. -/
def boundaryStart : Nat :=
  match prevCompactionIndex path with
  | none => 0
  | some prevCompactionIndex =>
    match path[prevCompactionIndex]?.map SessionEntry.body with
    | some (.compaction _ firstKeptEntryId _ _ _ _) =>
      (path.findIdx? fun entry => decide (entry.id = firstKeptEntryId)).getD
        (prevCompactionIndex + 1)
    | _ => 0

def previousSummary : Option JsString :=
  (prevCompactionIndex path).bind fun i =>
    match path[i]?.map SessionEntry.body with
    | some (.compaction summary _ _ _ _ _) => some summary
    | _ => none

/-- What `prepareCompaction` returns for a cut. -/
def preparationAt (settings : CompactionSettings) (tokensBefore : Nat)
    (cutPoint : CutPointResult) : Option CompactionPreparation :=
  match path[cutPoint.firstKeptEntryIndex]?.map SessionEntry.id with
  | none => none
  | some firstKeptEntryId =>
    if firstKeptEntryId = [] then none
    else
      let turnStart := cutPoint.turnStartIndex.getD 0
      let historyEnd := if cutPoint.isSplitTurn then turnStart else cutPoint.firstKeptEntryIndex
      let messagesToSummarize := messagesForCompaction path (boundaryStart path) historyEnd
      let turnPrefixMessages :=
        if cutPoint.isSplitTurn then
          messagesForCompaction path turnStart cutPoint.firstKeptEntryIndex
        else []
      let prevCompaction := (prevCompactionIndex path).bind fun i => path[i]?
      some {
        firstKeptEntryId
        messagesToSummarize
        turnPrefixMessages
        isSplitTurn := cutPoint.isSplitTurn
        tokensBefore
        previousSummary := previousSummary path
        fileOps := turnPrefixMessages.foldl extractFileOpsFromMessage
          (extractFileOperations messagesToSummarize prevCompaction)
        settings }

/-- `prepareCompaction(pathEntries, settings)`. -/
def prepareCompaction (settings : CompactionSettings) : Option (Option CompactionPreparation) :=
  if path.getLast?.any SessionEntry.isCompaction then some none
  else
    (buildSessionContext path).map fun context =>
      preparationAt path settings (estimateContextTokens context.messages)
        (findCutPoint path (boundaryStart path) path.length settings.keepRecentTokens)

end

end AcademicAgent
