import AcademicAgent.AgentHost.Compaction.Partition
import AcademicAgent.AgentHost.ConvertToLlm

/-!
# Compacting

`compact` asks a model for the summary of a preparation.
-/

namespace AcademicAgent

open List

/-- The system prompt of every summarization request. -/
def SUMMARIZATION_SYSTEM_PROMPT : JsString :=
  js "You are a context summarization assistant. Your task is to read a conversation between a " ++
  js "user and an AI coding assistant, then produce a structured summary following the exact " ++
  js "format specified.\n\n" ++
  js "Do NOT continue the conversation. Do NOT respond to any questions in the conversation. " ++
  js "ONLY output the structured summary."

def SUMMARIZATION_PROMPT : JsString :=
  js "The messages above are a conversation to summarize. Create a structured context " ++
  js "checkpoint summary that another LLM will use to continue the work.\n\n" ++
  js "Use this EXACT format:\n\n" ++
  js "## Goal\n" ++
  js "[What is the user trying to accomplish? Can be multiple items if the session covers " ++
  js "different tasks.]\n\n" ++
  js "## Constraints & Preferences\n" ++
  js "- [Any constraints, preferences, or requirements mentioned by user]\n" ++
  js "- [Or \"(none)\" if none were mentioned]\n\n" ++
  js "## Progress\n" ++
  js "### Done\n" ++
  js "- [x] [Completed tasks/changes]\n\n" ++
  js "### In Progress\n" ++
  js "- [ ] [Current work]\n\n" ++
  js "### Blocked\n" ++
  js "- [Issues preventing progress, if any]\n\n" ++
  js "## Key Decisions\n" ++
  js "- **[Decision]**: [Brief rationale]\n\n" ++
  js "## Next Steps\n" ++
  js "1. [Ordered list of what should happen next]\n\n" ++
  js "## Critical Context\n" ++
  js "- [Any data, examples, or references needed to continue]\n" ++
  js "- [Or \"(none)\" if not applicable]\n\n" ++
  js "Keep each section concise. Preserve exact file paths, function names, and error messages."

def UPDATE_SUMMARIZATION_PROMPT : JsString :=
  js "The messages above are NEW conversation messages to incorporate into the existing summary " ++
  js "provided in <previous-summary> tags.\n\n" ++
  js "Update the existing structured summary with new information. RULES:\n" ++
  js "- PRESERVE all existing information from the previous summary\n" ++
  js "- ADD new progress, decisions, and context from the new messages\n" ++
  js "- UPDATE the Progress section: move items from \"In Progress\" to \"Done\" when " ++
  js "completed\n" ++
  js "- UPDATE \"Next Steps\" based on what was accomplished\n" ++
  js "- PRESERVE exact file paths, function names, and error messages\n" ++
  js "- If something is no longer relevant, you may remove it\n\n" ++
  js "Use this EXACT format:\n\n" ++
  js "## Goal\n" ++
  js "[Preserve existing goals, add new ones if the task expanded]\n\n" ++
  js "## Constraints & Preferences\n" ++
  js "- [Preserve existing, add new ones discovered]\n\n" ++
  js "## Progress\n" ++
  js "### Done\n" ++
  js "- [x] [Include previously done items AND newly completed items]\n\n" ++
  js "### In Progress\n" ++
  js "- [ ] [Current work - update based on progress]\n\n" ++
  js "### Blocked\n" ++
  js "- [Current blockers - remove if resolved]\n\n" ++
  js "## Key Decisions\n" ++
  js "- **[Decision]**: [Brief rationale] (preserve all previous, add new)\n\n" ++
  js "## Next Steps\n" ++
  js "1. [Update based on current state]\n\n" ++
  js "## Critical Context\n" ++
  js "- [Preserve important context, add new if needed]\n\n" ++
  js "Keep each section concise. Preserve exact file paths, function names, and error messages."

def TURN_PREFIX_SUMMARIZATION_PROMPT : JsString :=
  js "This is the PREFIX of a turn that was too large to keep. The SUFFIX (recent work) is " ++
  js "retained.\n\n" ++
  js "Summarize the prefix to provide context for the retained suffix:\n\n" ++
  js "## Original Request\n" ++
  js "[What did the user ask for in this turn?]\n\n" ++
  js "## Early Progress\n" ++
  js "- [Key decisions and work done in the prefix]\n\n" ++
  js "## Context for Suffix\n" ++
  js "- [Information needed to understand the retained recent work]\n\n" ++
  js "Be concise. Focus on what's needed to understand the kept suffix."

/-- What the caller of `compact` chooses. -/
structure CompactOptions where
  /-- `model.reasoning`. -/
  modelReasoning : Bool
  customInstructions : Option JsString
  thinkingLevel : Option JsString

/-- One call of `generateSummary` or `generateTurnPrefixSummary`. -/
inductive SummaryCall where
  | summary (currentMessages : List AgentMessage) (previousSummary : Option JsString)
  | turnPrefix (messages : List AgentMessage)
  deriving DecidableEq

structure SummarizationRequest where
  systemPrompt : JsString
  promptText : JsString
  maxTokens : Nat
  reasoning : Option JsString
  deriving DecidableEq

/-- The text between the tags of a previous summary. -/
def previousSummaryBlock (previousSummary : JsString) : JsString :=
  js "<previous-summary>\n" ++ previousSummary ++ js "\n</previous-summary>\n\n"

def conversationBlock (messages : List AgentMessage) : JsString :=
  js "<conversation>\n" ++ serializeConversation (convertToLlm messages) ++
    js "\n</conversation>\n\n"

def requestedReasoning (options : CompactOptions) : Option JsString :=
  match options.thinkingLevel with
  | some level =>
    if options.modelReasoning ∧ level ≠ [] ∧ level ≠ js "off" then some level else none
  | none => none

namespace SummaryCall

def previousSummary? : SummaryCall → Option JsString
  | .summary _ previousSummary => previousSummary
  | .turnPrefix _ => none

def request (options : CompactOptions) (reserveTokens : Nat) : SummaryCall → SummarizationRequest
  | .summary currentMessages previousSummary =>
    let basePrompt :=
      (if (nonEmpty previousSummary).isSome then UPDATE_SUMMARIZATION_PROMPT
        else SUMMARIZATION_PROMPT) ++
      match nonEmpty options.customInstructions with
      | some customInstructions => js "\n\nAdditional focus: " ++ customInstructions
      | none => []
    { systemPrompt := SUMMARIZATION_SYSTEM_PROMPT
      promptText := conversationBlock currentMessages ++
        ((nonEmpty previousSummary).map previousSummaryBlock).getD [] ++ basePrompt
      maxTokens := 8 * reserveTokens / 10
      reasoning := requestedReasoning options }
  | .turnPrefix messages =>
    { systemPrompt := SUMMARIZATION_SYSTEM_PROMPT
      promptText := conversationBlock messages ++ TURN_PREFIX_SUMMARIZATION_PROMPT
      maxTokens := 5 * reserveTokens / 10
      reasoning := requestedReasoning options }

def failure : SummaryCall → JsString
  | .summary .. => js "Summarization failed: "
  | .turnPrefix _ => js "Turn prefix summarization failed: "

end SummaryCall

structure CompactionResult where
  summary : JsString
  firstKeptEntryId : JsString
  tokensBefore : Nat
  details : FileLists

section Compact

variable (complete : SummarizationRequest → Except JsString AssistantMessage)
  (options : CompactOptions)

def generate (reserveTokens : Nat) (call : SummaryCall) : Except JsString JsString := do
  let response ← complete (call.request options reserveTokens)
  if response.stopReason = .error then
    throw (call.failure ++ (nonEmpty response.errorMessage).getD (js "Unknown error"))
  else
    return [lf].intercalate (response.content.filterMap fun
      | .text c => some c.text
      | _ => none)

section

variable (preparation : CompactionPreparation)

/-- The summary calls of a preparation. Both calls of a split turn are made
before either is awaited. -/
def summaryCalls : List SummaryCall :=
  if preparation.isSplitTurn ∧ preparation.turnPrefixMessages ≠ [] then
    (if preparation.messagesToSummarize ≠ [] then
      [.summary preparation.messagesToSummarize preparation.previousSummary]
    else []) ++ [.turnPrefix preparation.turnPrefixMessages]
  else [.summary preparation.messagesToSummarize preparation.previousSummary]

/-- The summary of a preparation. When both calls of a split turn fail, the
error is that of the first one to fail; it is taken to be the history's. -/
def summaryText : Except JsString JsString := do
  let reserveTokens := preparation.settings.reserveTokens
  if preparation.isSplitTurn ∧ preparation.turnPrefixMessages ≠ [] then
    let historyResult ←
      if preparation.messagesToSummarize ≠ [] then
        generate complete options reserveTokens
          (.summary preparation.messagesToSummarize preparation.previousSummary)
      else .ok (js "No prior history.")
    let turnPrefixResult ← generate complete options reserveTokens
      (.turnPrefix preparation.turnPrefixMessages)
    return historyResult ++ js "\n\n---\n\n**Turn Context (split turn):**\n\n" ++ turnPrefixResult
  else
    generate complete options reserveTokens
      (.summary preparation.messagesToSummarize preparation.previousSummary)

/-- `compact`: the calls it makes and its result. -/
def compact : List SummaryCall × Except JsString CompactionResult :=
  (summaryCalls preparation, do
    let summary ← summaryText complete options preparation
    let lists := computeFileLists preparation.fileOps
    if preparation.firstKeptEntryId = [] then
      throw (js "First kept entry has no UUID - session may need migration")
    else
      return {
        summary := summary ++ formatFileOperations lists
        firstKeptEntryId := preparation.firstKeptEntryId
        tokensBefore := preparation.tokensBefore
        details := lists })

/-- A preparation whose previous summary no request would carry: the turn is
split, and there is nothing to summarize before it. -/
def ForgetsSummary : Prop :=
  preparation.isSplitTurn = true ∧ preparation.turnPrefixMessages ≠ [] ∧
    preparation.messagesToSummarize = []

end

instance (preparation : CompactionPreparation) : Decidable (ForgetsSummary preparation) :=
  inferInstanceAs (Decidable (_ ∧ _ ∧ _))

theorem previousSummaryBlock_isInfix {call : SummaryCall} {s : JsString} (hne : s ≠ [])
    (h : call.previousSummary? = some s) (reserveTokens : Nat) :
    previousSummaryBlock s <:+: (call.request options reserveTokens).promptText := by
  cases call with
  | summary currentMessages previousSummary =>
    cases h
    simp only [SummaryCall.request, nonEmpty, if_neg hne, Option.map_some, Option.getD_some]
    exact infix_append _ _ _
  | turnPrefix messages => contradiction

theorem compact_ignores_previousSummary {preparation : CompactionPreparation}
    (h : ForgetsSummary preparation) (other : Option JsString) :
    compact complete options { preparation with previousSummary := other } =
      compact complete options preparation := by
  obtain ⟨hsplit, hturn, hnone⟩ := h
  simp only [compact, summaryCalls, summaryText, hsplit, hturn, hnone, ne_eq, not_false_eq_true,
    and_self, ite_true, not_true_eq_false, ite_false]

/-- A previous summary reaches the model exactly when the preparation does not
consist of a split turn alone. -/
theorem compact_passes_previousSummary_iff {preparation : CompactionPreparation} {s : JsString}
    (hs : preparation.previousSummary = some s) (hne : s ≠ []) :
    (∃ call ∈ (compact complete options preparation).1, call.previousSummary? = some s ∧
      previousSummaryBlock s <:+:
        (call.request options preparation.settings.reserveTokens).promptText) ↔
      ¬ ForgetsSummary preparation := by
  constructor
  · rintro ⟨call, hcall, hpasses, _⟩ ⟨hsplit, hturn, hnone⟩
    simp only [compact, summaryCalls, hsplit, hturn, hnone, ne_eq, not_false_eq_true, and_self,
      ite_true, not_true_eq_false, ite_false, nil_append, mem_singleton] at hcall
    subst hcall
    contradiction
  · intro hkept
    have hmem : SummaryCall.summary preparation.messagesToSummarize (some s) ∈
        (compact complete options preparation).1 := by
      simp only [compact, summaryCalls, hs]
      split
      · rename_i hsplit
        have hsome : preparation.messagesToSummarize ≠ [] :=
          fun hnone => hkept ⟨hsplit.1, hsplit.2, hnone⟩
        rw [if_pos hsome]
        exact mem_append_left _ mem_cons_self
      · exact mem_cons_self
    exact ⟨_, hmem, rfl, previousSummaryBlock_isInfix options hne rfl _⟩

end Compact

/-- With messages before the split turn the summary is passed on. -/
theorem compact_passes_previousSummary_iff_kept :
    ∃ preparation, preparationOf keptTurnBodies = some preparation ∧
      preparation.isSplitTurn = true ∧ ∀ complete options,
        ∃ call ∈ (compact complete options preparation).1,
          call.previousSummary? = some (js "s") ∧ previousSummaryBlock (js "s") <:+:
            (call.request options preparation.settings.reserveTokens).promptText := by
  refine ⟨(preparationOf keptTurnBodies).get (by decide), by decide,
    by decide, fun complete options => ?_⟩
  exact (compact_passes_previousSummary_iff complete options (by decide) (by decide)).mpr
    (by decide)

/-- A turn that an earlier compaction kept whole, with a long answer after it. -/
def splitTurnBodies : List EntryBody :=
  [prompt "aaaa", answer "bbbb", prompt "cccc", answer "dddd", compactionOf "s" "3", answer "eeee"]

def splitTurnPreparation : CompactionPreparation :=
  (preparationOf splitTurnBodies).get (by decide)

/-- Splitting the turn at which the previous compaction started to keep messages
sends the model no summary of what came before. -/
theorem compact_forgets_summary : RootPath (pathOf splitTurnBodies) ∧
      prepareCompaction (pathOf splitTurnBodies) keepOne = some (some splitTurnPreparation) ∧
      splitTurnPreparation.previousSummary = some (js "s") ∧
      ∀ complete options, (∀ call ∈ (compact complete options splitTurnPreparation).1,
          call.previousSummary? ≠ some (js "s")) ∧
        ∀ other, compact complete options { splitTurnPreparation with previousSummary := other } =
          compact complete options splitTurnPreparation := by
  refine ⟨rootPath_pathOf _ (by decide) (by decide), by decide,
    by decide, fun complete options => ⟨?_, ?_⟩⟩
  · have hcalls : summaryCalls splitTurnPreparation =
        [.turnPrefix splitTurnPreparation.turnPrefixMessages] := by decide
    intro call hcall
    simp only [compact, hcalls, mem_singleton] at hcall
    subst hcall
    nofun
  · exact compact_ignores_previousSummary complete options (by decide)

end AcademicAgent
