import AcademicAgent.Ai.Types

/-!
# Messages of a host session

The agent's message union with the roles the host adds to it, and the messages
a session entry stands for.
-/

namespace AcademicAgent

structure BashExecutionMessage where
  command : JsString
  output : JsString
  exitCode : Option Int
  cancelled : Bool
  truncated : Bool
  fullOutputPath : Option JsString := none
  timestamp : Int
  excludeFromContext : Option Bool := none
  deriving DecidableEq

structure CustomMessage where
  customType : JsString
  content : MessageContent
  display : Bool
  details : Option Json
  timestamp : Date.Time
  deriving DecidableEq

structure BranchSummaryMessage where
  summary : JsString
  fromId : JsString
  timestamp : Date.Time
  deriving DecidableEq

structure CompactionSummaryMessage where
  summary : JsString
  tokensBefore : Nat
  timestamp : Date.Time
  deriving DecidableEq

/-- `AgentMessage` after the host's declaration merging. `hookMessage` is the
role that session files before version 3 give to custom messages. -/
inductive AgentMessage where
  | user (m : UserMessage)
  | assistant (m : AssistantMessage)
  | toolResult (m : ToolResultMessage)
  | bashExecution (m : BashExecutionMessage)
  | custom (m : CustomMessage)
  | branchSummary (m : BranchSummaryMessage)
  | compactionSummary (m : CompactionSummaryMessage)
  | hookMessage (m : CustomMessage)
  deriving DecidableEq

/-- `message.role === "assistant"`. -/
def AgentMessage.isAssistant : AgentMessage → Bool
  | .assistant _ => true
  | _ => false

def createBranchSummaryMessage (summary fromId timestamp : JsString) : AgentMessage :=
  .branchSummary ⟨summary, fromId, Date.getTime timestamp⟩

def createCompactionSummaryMessage (summary : JsString) (tokensBefore : Nat)
    (timestamp : JsString) : AgentMessage :=
  .compactionSummary ⟨summary, tokensBefore, Date.getTime timestamp⟩

def createCustomMessage (customType : JsString) (content : MessageContent) (display : Bool)
    (details : Option Json) (timestamp : JsString) : AgentMessage :=
  .custom ⟨customType, content, display, details, Date.getTime timestamp⟩

end AcademicAgent
