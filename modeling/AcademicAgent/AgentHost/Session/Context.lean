import AcademicAgent.AgentHost.Session.Entry
import AcademicAgent.Core.JsMap

/-!
# The context of a session

`buildSessionContext` walks from a leaf to the root and reads the settings and the messages off
the path, replacing everything before the latest compaction by its summary.
-/

namespace AcademicAgent

structure ModelRef where
  provider : JsString
  modelId : JsString
  deriving DecidableEq

structure SessionContext where
  messages : List AgentMessage
  thinkingLevel : JsString
  model : Option ModelRef
  deriving DecidableEq

/-- Entries by id, as the session manager indexes them. -/
abbrev EntryMap := JsMap JsString SessionEntry

/-- The id index of a list of entries; a later entry replaces an earlier one. -/
def indexById (entries : List SessionEntry) : EntryMap :=
  entries.foldl (fun m e => m.set e.id e) .empty

/-- `current.parentId ? byId.get(current.parentId) : undefined`. -/
def parentOf (byId : EntryMap) (e : SessionEntry) : Option SessionEntry :=
  e.parentRef.bind byId.get

/-- The loop `while (current) { path.unshift(current); current = parent }`. -/
def walk (byId : EntryMap) : Nat → Option SessionEntry → List SessionEntry →
    Option (List SessionEntry)
  | _, none, path => some path
  | 0, some _, _ => none
  | fuel + 1, some e, path => walk byId fuel (parentOf byId e) (e :: path)

/-- A walk that visits more entries than the index holds repeats one of them. -/
def pathTo (byId : EntryMap) (leaf : Option SessionEntry) : Option (List SessionEntry) :=
  walk byId (byId.entries.length + 1) leaf []

section

variable (path : List SessionEntry)

def pathThinkingLevel : JsString :=
  path.foldl (fun level e =>
    match e.body with
    | .thinkingLevelChange l => l
    | _ => level) (js "off")

def SessionEntry.model? (e : SessionEntry) : Option ModelRef :=
  match e.body with
  | .modelChange provider modelId => some ⟨provider, modelId⟩
  | .message (.assistant m) => some ⟨m.provider, m.model⟩
  | _ => none

def pathModel : Option ModelRef :=
  path.foldl (fun model e => e.model?.or model) none

def getLatestCompactionEntry : Option SessionEntry :=
  path.reverse.find? SessionEntry.isCompaction

/-- `appendMessage`: the message an entry adds to the context. -/
def appendMessage (e : SessionEntry) : Option AgentMessage :=
  match e.body with
  | .message m => some m
  | .customMessage customType content display details =>
      some (createCustomMessage customType content display details e.timestamp)
  | .branchSummary fromId summary _ _ =>
      if summary = [] then none else some (createBranchSummaryMessage summary fromId e.timestamp)
  | _ => none

def appendMessages : List AgentMessage := path.filterMap appendMessage

/-- The entries before the compaction that it keeps, from its first kept entry on. -/
def keptEntries (firstKeptEntryId : JsString) (before : List SessionEntry) : List SessionEntry :=
  before.dropWhile fun e => e.id ≠ firstKeptEntryId

def pathMessages : List AgentMessage :=
  match getLatestCompactionEntry path with
  | some c =>
    match c.body with
    | .compaction summary firstKeptEntryId tokensBefore _ _ _ =>
      let compactionIdx := path.findIdx fun e => e.isCompaction && decide (e.id = c.id)
      createCompactionSummaryMessage summary tokensBefore c.timestamp ::
        (appendMessages (keptEntries firstKeptEntryId (path.take compactionIdx)) ++
          appendMessages (path.drop (compactionIdx + 1)))
    | _ => appendMessages path
  | none => appendMessages path

/-- Settings and messages of a path from the root. -/
def pathContext : SessionContext where
  messages := pathMessages path
  thinkingLevel := pathThinkingLevel path
  model := pathModel path

end

def emptyContext : SessionContext := ⟨[], js "off", none⟩

/-- `buildSessionContext(entries, leafId, byId)`. An explicit `null` leaf is
`some none`; a missing one, like an unknown id, falls back to the last entry. -/
def buildSessionContext (entries : List SessionEntry) (leafId : Option (Option JsString) := none)
    (byId : EntryMap := indexById entries) : Option SessionContext :=
  match leafId with
  | some none => some emptyContext
  | leafId =>
    let found := leafId.join.bind fun id => if id = [] then none else byId.get id
    match found.or entries.getLast? with
    | none => some emptyContext
    | some leaf => (pathTo byId (some leaf)).map pathContext

end AcademicAgent
