import AcademicAgent.AgentHost.Messages

/-!
# Session entries

The records of a session file: one header and a tree of entries linked by `parentId`.
-/

namespace AcademicAgent

def CURRENT_SESSION_VERSION : Nat := 3

structure SessionHeader where
  /-- Absent from version 1 sessions. -/
  version : Option Nat
  id : JsString
  timestamp : JsString
  cwd : JsString
  parentSession : Option JsString
  deriving DecidableEq

inductive EntryBody where
  | message (message : AgentMessage)
  | thinkingLevelChange (thinkingLevel : JsString)
  | modelChange (provider modelId : JsString)
  /-- `firstKeptEntryIndex` is the field that version 1 used instead of
  `firstKeptEntryId`; migration removes it. -/
  | compaction (summary firstKeptEntryId : JsString) (tokensBefore : Nat)
      (details : Option Json) (fromHook : Option Bool) (firstKeptEntryIndex : Option Nat)
  | branchSummary (fromId summary : JsString) (details : Option Json) (fromHook : Option Bool)
  | custom (customType : JsString) (data : Option Json)
  | customMessage (customType : JsString) (content : MessageContent) (display : Bool)
      (details : Option Json)
  | label (targetId : JsString) (label : Option JsString)
  | sessionInfo (name : Option JsString)
  deriving DecidableEq

structure SessionEntry where
  id : JsString
  parentId : Option JsString
  timestamp : JsString
  body : EntryBody
  deriving DecidableEq

inductive FileEntry where
  | session (h : SessionHeader)
  | entry (e : SessionEntry)
  deriving DecidableEq

/-- `e.type === "session"` selects the headers. -/
def FileEntry.header? : FileEntry → Option SessionHeader
  | .session h => some h
  | .entry _ => none

/-- `e.type !== "session"` selects the entries. -/
def FileEntry.entry? : FileEntry → Option SessionEntry
  | .session _ => none
  | .entry e => some e

namespace SessionEntry

section

variable (e : SessionEntry)

/-- `e.type === "label"`. -/
def isLabel : Bool :=
  match e.body with
  | .label .. => true
  | _ => false

/-- `e.type === "compaction"`. -/
def isCompaction : Bool :=
  match e.body with
  | .compaction .. => true
  | _ => false

/-- `e.type === "message"`. -/
def isMessage : Bool :=
  match e.body with
  | .message _ => true
  | _ => false

/-- `e.type === "message" && e.message.role === "assistant"`. -/
def isAssistantMessage : Bool :=
  match e.body with
  | .message m => m.isAssistant
  | _ => false

/-- A parent reference that a walk follows: present and not the empty string. -/
def parentRef : Option JsString :=
  match e.parentId with
  | some p => if p = [] then none else some p
  | none => none

end

theorem parentRef_eq_some {e : SessionEntry} {p : JsString} :
    e.parentRef = some p ↔ e.parentId = some p ∧ p ≠ [] := by
  unfold parentRef
  cases h : e.parentId with
  | none => simp
  | some q =>
    by_cases hq : q = []
    · simp only [hq, ite_true, Option.some.injEq]
      constructor
      · intro h'
        contradiction
      · rintro ⟨rfl, hne⟩
        exact absurd rfl hne
    · simp only [hq, ite_false, Option.some.injEq]
      exact ⟨fun h' => ⟨h', h' ▸ hq⟩, fun h' => h'.1⟩

end SessionEntry

/-- `getEntries()`: the entries of a file without its headers. -/
def getEntries (fileEntries : List FileEntry) : List SessionEntry :=
  fileEntries.filterMap FileEntry.entry?

@[simp] theorem getEntries_nil : getEntries [] = [] := rfl

@[simp] theorem getEntries_session (h : SessionHeader) (fs : List FileEntry) :
    getEntries (.session h :: fs) = getEntries fs := rfl

@[simp] theorem getEntries_entry (e : SessionEntry) (fs : List FileEntry) :
    getEntries (.entry e :: fs) = e :: getEntries fs := rfl

@[simp] theorem getEntries_append (fs gs : List FileEntry) :
    getEntries (fs ++ gs) = getEntries fs ++ getEntries gs :=
  List.filterMap_append

@[simp] theorem getEntries_map_entry (es : List SessionEntry) :
    getEntries (es.map .entry) = es := by
  induction es with
  | nil => rfl
  | cons e es ih => rw [List.map_cons, getEntries_entry, ih]

end AcademicAgent
