import AcademicAgent.AgentHost.Messages
import AcademicAgent.Core.Json.Text

/-!
# Messages for the model

`convertToLlm` replaces the roles of the host by user messages, and
`serializeConversation` writes the result as the text of a conversation.
-/

namespace AcademicAgent

def COMPACTION_SUMMARY_PREFIX : JsString :=
  js "The conversation history before this point was compacted into the following summary:\n\n" ++
  js "<summary>\n"

def COMPACTION_SUMMARY_SUFFIX : JsString := js "\n</summary>"

def BRANCH_SUMMARY_PREFIX : JsString :=
  js "The following is a summary of a branch that this conversation came back from:\n\n<summary>\n"

def BRANCH_SUMMARY_SUFFIX : JsString := js "</summary>"

/-- `String(n)` for an integer. -/
def integerText (n : Int) : JsString :=
  if n < 0 then js "-" ++ decimalText n.natAbs else decimalText n.natAbs

def bashExecutionToText (m : BashExecutionMessage) : JsString :=
  js "Ran `" ++ m.command ++ js "`\n" ++
    (if m.output = [] then js "(no output)" else js "```\n" ++ m.output ++ js "\n```") ++
    (if m.cancelled then js "\n\n(command cancelled)"
      else
        match m.exitCode with
        | some code =>
          if code = 0 then [] else js "\n\nCommand exited with code " ++ integerText code
        | none => []) ++
    match m.fullOutputPath with
    | some path =>
      if m.truncated ∧ path ≠ [] then js "\n\n[Output truncated. Full output: " ++ path ++ js "]"
      else []
    | none => []

def userText (text : JsString) (timestamp : Date.Time) : Message :=
  .user (.blocks [.text ⟨text, none⟩]) timestamp

/-- The message for the model that an agent message becomes, if any. -/
def convertMessageToLlm : AgentMessage → Option Message
  | .bashExecution m =>
    if m.excludeFromContext = some true then none
    else some (userText (bashExecutionToText m) (some m.timestamp))
  | .custom m =>
    match m.content with
    | .string s => some (userText s m.timestamp)
    | .blocks bs => some (.user (.blocks bs) m.timestamp)
  | .branchSummary m =>
    some (userText (BRANCH_SUMMARY_PREFIX ++ m.summary ++ BRANCH_SUMMARY_SUFFIX) m.timestamp)
  | .compactionSummary m =>
    some (userText (COMPACTION_SUMMARY_PREFIX ++ m.summary ++ COMPACTION_SUMMARY_SUFFIX)
      m.timestamp)
  | .user m => some (.user m.content (some m.timestamp))
  | .assistant m => some (.assistant m)
  | .toolResult m => some (.toolResult m)
  | .hookMessage _ => none

def convertToLlm (messages : List AgentMessage) : List Message :=
  messages.filterMap convertMessageToLlm

def TOOL_RESULT_MAX_CHARS : Nat := 2000

def truncateForSummary (text : JsString) (maxChars : Nat) : JsString :=
  if text.length ≤ maxChars then text
  else text.take maxChars ++ js "\n\n[... " ++ decimalText (text.length - maxChars) ++
    js " more characters truncated]"

def ContentBlock.text? : ContentBlock → Option JsString
  | .text c => some c.text
  | .image _ => none

def MessageContent.plainText : MessageContent → JsString
  | .string s => s
  | .blocks bs => (bs.filterMap ContentBlock.text?).flatten

/-- A tool call as `name(key=value, ...)`. -/
def toolCallText (c : ToolCall) : JsString :=
  let members :=
    match c.arguments.tree with
    | .obj ms => ms.map fun m => m.1 ++ js "=" ++ m.2.print
    | _ => []
  c.name ++ js "(" ++ (js ", ").intercalate members ++ js ")"

/-- Parts of one kind after their heading, when there are any. -/
def headed (heading separator : JsString) (parts : List JsString) : List JsString :=
  if parts = [] then [] else [heading ++ separator.intercalate parts]

def messageParts : Message → List JsString
  | .user content _ =>
    if content.plainText = [] then [] else [js "[User]: " ++ content.plainText]
  | .assistant m =>
    headed (js "[Assistant thinking]: ") [lf] (m.content.filterMap fun
      | .thinking c => some c.thinking
      | _ => none) ++
    headed (js "[Assistant]: ") [lf] (m.content.filterMap fun
      | .text c => some c.text
      | _ => none) ++
    headed (js "[Assistant tool calls]: ") (js "; ") (m.toolCalls.map toolCallText)
  | .toolResult m =>
    let content := (m.content.filterMap ContentBlock.text?).flatten
    if content = [] then []
    else [js "[Tool result]: " ++ truncateForSummary content TOOL_RESULT_MAX_CHARS]

def serializeConversation (messages : List Message) : JsString :=
  (js "\n\n").intercalate (messages.flatMap messageParts)

end AcademicAgent
