import AcademicAgent.AgentHost.Session.Entry
import AcademicAgent.Core.Json.Codec

/-!
# Session records as JSON

The line of a session record: `JSON.stringify` of the object that the manager builds, with its
members in the order of the source, and what `JSON.parse` reads back from it.
-/

namespace AcademicAgent

open JsonCodec Fields

open Union (variant)

def TextContent.fields : Fields TextContent :=
  ((required (js "text") string).both (optional (js "textSignature") string)).map
    (fun (text, textSignature) => ⟨text, textSignature⟩)
    (fun c => (c.text, c.textSignature)) fun _ => rfl

def ImageContent.fields : Fields ImageContent :=
  ((required (js "data") string).both (required (js "mimeType") string)).map
    (fun (data, mimeType) => ⟨data, mimeType⟩) (fun c => (c.data, c.mimeType)) fun _ => rfl

def ThinkingContent.fields : Fields ThinkingContent :=
  ((required (js "thinking") string).both
    ((optional (js "thinkingSignature") string).both (optional (js "redacted") bool))).map
    (fun (thinking, thinkingSignature, redacted) => ⟨thinking, thinkingSignature, redacted⟩)
    (fun c => (c.thinking, c.thinkingSignature, c.redacted)) fun _ => rfl

def ToolCall.fields : Fields ToolCall :=
  ((required (js "id") string).both ((required (js "name") string).both
    ((required (js "arguments") json).both (optional (js "thoughtSignature") string)))).map
    (fun (id, name, arguments, thoughtSignature) => ⟨id, name, arguments, thoughtSignature⟩)
    (fun c => (c.id, c.name, c.arguments, c.thoughtSignature)) fun _ => rfl

def ContentBlock.codec : JsonCodec ContentBlock :=
  (((variant (js "text") TextContent.fields).or
    (variant (js "image") ImageContent.fields)).map
    (Sum.elim .text .image)
    (fun
      | .text c => .inl c
      | .image c => .inr c)
    fun b => by cases b <;> rfl).fields (js "type") |>.object

def MessageContent.codec : JsonCodec MessageContent :=
  (JsonCodec.string.either (JsonCodec.list ContentBlock.codec) fun _ => rfl).map
    (Sum.elim .string .blocks)
    (fun
      | .string s => .inl s
      | .blocks bs => .inr bs)
    fun c => by cases c <;> rfl

def AssistantBlock.codec : JsonCodec AssistantBlock :=
  (((variant (js "text") TextContent.fields).or
    ((variant (js "thinking") ThinkingContent.fields).or
      (variant (js "toolCall") ToolCall.fields))).map
    (Sum.elim .text (Sum.elim .thinking .toolCall))
    (fun
      | .text c => .inl c
      | .thinking c => .inr (.inl c)
      | .toolCall c => .inr (.inr c))
    fun b => by cases b <;> rfl).fields (js "type") |>.object

def UsageCost.fields : Fields UsageCost :=
  ((required (js "input") decimal).both ((required (js "output") decimal).both
    ((required (js "cacheRead") decimal).both ((required (js "cacheWrite") decimal).both
      (required (js "total") decimal))))).map
    (fun (input, output, cacheRead, cacheWrite, total) =>
      ⟨input, output, cacheRead, cacheWrite, total⟩)
    (fun c => (c.input, c.output, c.cacheRead, c.cacheWrite, c.total)) fun _ => rfl

def Usage.fields : Fields Usage :=
  ((required (js "input") nat).both ((required (js "output") nat).both
    ((required (js "cacheRead") nat).both ((required (js "cacheWrite") nat).both
      ((required (js "totalTokens") nat).both
        (required (js "cost") UsageCost.fields.object)))))).map
    (fun (input, output, cacheRead, cacheWrite, totalTokens, cost) =>
      ⟨input, output, cacheRead, cacheWrite, totalTokens, cost⟩)
    (fun u => (u.input, u.output, u.cacheRead, u.cacheWrite, u.totalTokens, u.cost)) fun _ => rfl

def StopReason.text : StopReason → JsString
  | .stop => js "stop"
  | .length => js "length"
  | .toolUse => js "toolUse"
  | .error => js "error"
  | .aborted => js "aborted"

def StopReason.ofText? (s : JsString) : Option StopReason :=
  [.stop, .length, .toolUse, .error, .aborted].find? fun r => decide (r.text = s)

def StopReason.codec : JsonCodec StopReason :=
  string.filterMap StopReason.ofText? StopReason.text fun r => by cases r <;> decide

/-- A time; an invalid date is printed as `null`. -/
def Date.codec : JsonCodec Date.Time := nullable int fun _ h => by contradiction

def UserMessage.fields : Fields UserMessage :=
  ((required (js "content") MessageContent.codec).both (required (js "timestamp") int)).map
    (fun (content, timestamp) => ⟨content, timestamp⟩) (fun m => (m.content, m.timestamp))
    fun _ => rfl

def AssistantMessage.fields : Fields AssistantMessage :=
  ((required (js "content") (JsonCodec.list AssistantBlock.codec)).both
    ((required (js "api") string).both ((required (js "provider") string).both
      ((required (js "model") string).both ((optional (js "responseModel") string).both
        ((optional (js "responseId") string).both
          ((optional (js "diagnostics") (JsonCodec.list json)).both
            ((required (js "usage") Usage.fields.object).both
              ((required (js "stopReason") StopReason.codec).both
                ((optional (js "errorMessage") string).both
                  (required (js "timestamp") int))))))))))).map
    (fun (content, api, provider, model, responseModel, responseId, diagnostics, usage,
        stopReason, errorMessage, timestamp) =>
      ⟨content, api, provider, model, responseModel, responseId, diagnostics, usage, stopReason,
        errorMessage, timestamp⟩)
    (fun m => (m.content, m.api, m.provider, m.model, m.responseModel, m.responseId,
      m.diagnostics, m.usage, m.stopReason, m.errorMessage, m.timestamp)) fun _ => rfl

def ToolResultMessage.fields : Fields ToolResultMessage :=
  ((required (js "toolCallId") string).both ((required (js "toolName") string).both
    ((required (js "content") (JsonCodec.list ContentBlock.codec)).both
      ((optional (js "details") json).both ((required (js "isError") bool).both
        (required (js "timestamp") int)))))).map
    (fun (toolCallId, toolName, content, details, isError, timestamp) =>
      ⟨toolCallId, toolName, content, details, isError, timestamp⟩)
    (fun m => (m.toolCallId, m.toolName, m.content, m.details, m.isError, m.timestamp))
    fun _ => rfl

def BashExecutionMessage.fields : Fields BashExecutionMessage :=
  ((required (js "command") string).both ((required (js "output") string).both
    ((optional (js "exitCode") int).both ((required (js "cancelled") bool).both
      ((required (js "truncated") bool).both ((optional (js "fullOutputPath") string).both
        ((required (js "timestamp") int).both
          (optional (js "excludeFromContext") bool)))))))).map
    (fun (command, output, exitCode, cancelled, truncated, fullOutputPath, timestamp,
        excludeFromContext) =>
      ⟨command, output, exitCode, cancelled, truncated, fullOutputPath, timestamp,
        excludeFromContext⟩)
    (fun m => (m.command, m.output, m.exitCode, m.cancelled, m.truncated, m.fullOutputPath,
      m.timestamp, m.excludeFromContext)) fun _ => rfl

def CustomMessage.fields : Fields CustomMessage :=
  ((required (js "customType") string).both
    ((required (js "content") MessageContent.codec).both ((required (js "display") bool).both
      ((optional (js "details") json).both (required (js "timestamp") Date.codec))))).map
    (fun (customType, content, display, details, timestamp) =>
      ⟨customType, content, display, details, timestamp⟩)
    (fun m => (m.customType, m.content, m.display, m.details, m.timestamp)) fun _ => rfl

def BranchSummaryMessage.fields : Fields BranchSummaryMessage :=
  ((required (js "summary") string).both ((required (js "fromId") string).both
    (required (js "timestamp") Date.codec))).map
    (fun (summary, fromId, timestamp) => ⟨summary, fromId, timestamp⟩)
    (fun m => (m.summary, m.fromId, m.timestamp)) fun _ => rfl

def CompactionSummaryMessage.fields : Fields CompactionSummaryMessage :=
  ((required (js "summary") string).both ((required (js "tokensBefore") nat).both
    (required (js "timestamp") Date.codec))).map
    (fun (summary, tokensBefore, timestamp) => ⟨summary, tokensBefore, timestamp⟩)
    (fun m => (m.summary, m.tokensBefore, m.timestamp)) fun _ => rfl

def AgentMessage.codec : JsonCodec AgentMessage :=
  (((variant (js "user") UserMessage.fields).or
    ((variant (js "assistant") AssistantMessage.fields).or
      ((variant (js "toolResult") ToolResultMessage.fields).or
        ((variant (js "bashExecution") BashExecutionMessage.fields).or
          ((variant (js "custom") CustomMessage.fields).or
            ((variant (js "branchSummary") BranchSummaryMessage.fields).or
              ((variant (js "compactionSummary") CompactionSummaryMessage.fields).or
                (variant (js "hookMessage") CustomMessage.fields)))))))).map
    (Sum.elim .user (Sum.elim .assistant (Sum.elim .toolResult (Sum.elim .bashExecution
      (Sum.elim .custom (Sum.elim .branchSummary (Sum.elim .compactionSummary .hookMessage)))))))
    (fun
      | .user m => .inl m
      | .assistant m => .inr (.inl m)
      | .toolResult m => .inr (.inr (.inl m))
      | .bashExecution m => .inr (.inr (.inr (.inl m)))
      | .custom m => .inr (.inr (.inr (.inr (.inl m))))
      | .branchSummary m => .inr (.inr (.inr (.inr (.inr (.inl m)))))
      | .compactionSummary m => .inr (.inr (.inr (.inr (.inr (.inr (.inl m))))))
      | .hookMessage m => .inr (.inr (.inr (.inr (.inr (.inr (.inr m)))))))
    fun m => by cases m <;> rfl).fields (js "role") |>.object

def SessionHeader.fields : Fields SessionHeader :=
  ((optional (js "version") nat).both ((required (js "id") string).both
    ((required (js "timestamp") string).both ((required (js "cwd") string).both
      (optional (js "parentSession") string))))).map
    (fun (version, id, timestamp, cwd, parentSession) =>
      ⟨version, id, timestamp, cwd, parentSession⟩)
    (fun h => (h.version, h.id, h.timestamp, h.cwd, h.parentSession)) fun _ => rfl

/-- The members every entry has: `id`, `parentId` and `timestamp`. -/
abbrev EntryBase := JsString × Option JsString × JsString

def EntryBase.fields : Fields EntryBase :=
  (withDefault (js "id") string []).both
    ((withDefault (js "parentId") (nullable string fun _ h => by contradiction) none).both
      (required (js "timestamp") string))

def EntryBase.entry (b : EntryBase) (body : EntryBody) : FileEntry :=
  .entry ⟨b.1, b.2.1, b.2.2, body⟩

def SessionEntry.base (e : SessionEntry) : EntryBase := (e.id, e.parentId, e.timestamp)

namespace FileEntry

def messageFields : Fields (EntryBase × AgentMessage) :=
  EntryBase.fields.both (required (js "message") AgentMessage.codec)

def thinkingLevelChangeFields : Fields (EntryBase × JsString) :=
  EntryBase.fields.both (required (js "thinkingLevel") string)

def modelChangeFields : Fields (EntryBase × JsString × JsString) :=
  EntryBase.fields.both
    ((required (js "provider") string).both (required (js "modelId") string))

def compactionFields : Fields (EntryBase × JsString × JsString × Nat × Option Json ×
    Option Bool × Option Nat) :=
  EntryBase.fields.both ((required (js "summary") string).both
    ((withDefault (js "firstKeptEntryId") string []).both
      ((required (js "tokensBefore") nat).both ((optional (js "details") json).both
        ((optional (js "fromHook") bool).both (optional (js "firstKeptEntryIndex") nat))))))

def branchSummaryFields : Fields (EntryBase × JsString × JsString × Option Json × Option Bool) :=
  EntryBase.fields.both ((required (js "fromId") string).both
    ((required (js "summary") string).both
      ((optional (js "details") json).both (optional (js "fromHook") bool))))

def customFields : Fields ((JsString × Option Json) × EntryBase) :=
  ((required (js "customType") string).both (optional (js "data") json)).both EntryBase.fields

def customMessageFields : Fields ((JsString × MessageContent × Bool × Option Json) × EntryBase) :=
  ((required (js "customType") string).both
    ((required (js "content") MessageContent.codec).both
      ((required (js "display") bool).both (optional (js "details") json)))).both
    EntryBase.fields

def labelFields : Fields (EntryBase × JsString × Option JsString) :=
  EntryBase.fields.both ((required (js "targetId") string).both (optional (js "label") string))

def sessionInfoFields : Fields (EntryBase × Option JsString) :=
  EntryBase.fields.both (optional (js "name") string)

def union : Union FileEntry :=
  ((variant (js "session") SessionHeader.fields).or
    ((variant (js "message") messageFields).or
      ((variant (js "thinking_level_change") thinkingLevelChangeFields).or
        ((variant (js "model_change") modelChangeFields).or
          ((variant (js "compaction") compactionFields).or
            ((variant (js "branch_summary") branchSummaryFields).or
              ((variant (js "custom") customFields).or
                ((variant (js "custom_message") customMessageFields).or
                  ((variant (js "label") labelFields).or
                    (variant (js "session_info") sessionInfoFields)))))))))).map
    (Sum.elim .session (Sum.elim (fun (b, m) => b.entry (.message m))
      (Sum.elim (fun (b, level) => b.entry (.thinkingLevelChange level))
        (Sum.elim (fun (b, provider, modelId) => b.entry (.modelChange provider modelId))
          (Sum.elim (fun (b, summary, firstKept, tokensBefore, details, fromHook, index) =>
              b.entry (.compaction summary firstKept tokensBefore details fromHook index))
            (Sum.elim (fun (b, fromId, summary, details, fromHook) =>
                b.entry (.branchSummary fromId summary details fromHook))
              (Sum.elim (fun ((customType, data), b) => b.entry (.custom customType data))
                (Sum.elim (fun ((customType, content, display, details), b) =>
                    b.entry (.customMessage customType content display details))
                  (Sum.elim (fun (b, targetId, label) => b.entry (.label targetId label))
                    (fun (b, name) => b.entry (.sessionInfo name)))))))))))
    (fun
      | .session h => .inl h
      | .entry e =>
        match e.body with
        | .message m => .inr (.inl (e.base, m))
        | .thinkingLevelChange level => .inr (.inr (.inl (e.base, level)))
        | .modelChange provider modelId => .inr (.inr (.inr (.inl (e.base, provider, modelId))))
        | .compaction summary firstKept tokensBefore details fromHook index =>
          .inr (.inr (.inr (.inr (.inl
            (e.base, summary, firstKept, tokensBefore, details, fromHook, index)))))
        | .branchSummary fromId summary details fromHook =>
          .inr (.inr (.inr (.inr (.inr (.inl (e.base, fromId, summary, details, fromHook))))))
        | .custom customType data =>
          .inr (.inr (.inr (.inr (.inr (.inr (.inl ((customType, data), e.base)))))))
        | .customMessage customType content display details =>
          .inr (.inr (.inr (.inr (.inr (.inr (.inr (.inl
            ((customType, content, display, details), e.base))))))))
        | .label targetId label =>
          .inr (.inr (.inr (.inr (.inr (.inr (.inr (.inr (.inl (e.base, targetId, label)))))))))
        | .sessionInfo name =>
          .inr (.inr (.inr (.inr (.inr (.inr (.inr (.inr (.inr (e.base, name))))))))))
    fun f => by
      cases f with
      | session h => rfl
      | entry e =>
        obtain ⟨id, parentId, timestamp, body⟩ := e
        cases body <;> rfl

/-- A record, told apart by its `type`. -/
def fields : Fields FileEntry := union.fields (js "type")

end FileEntry

def entryCodec : LineCodec FileEntry := FileEntry.fields.lineCodec

end AcademicAgent
