import AcademicAgent.Ai.Providers.ResponsesMessages

/-!
# Messages for the chat completions

A history becomes a list of messages with roles.
-/

namespace AcademicAgent

open List

variable {existing : List JsString}

namespace Completions

inductive ContentPart where
  | text (text : JsString)
  | imageUrl (url : JsString)
  deriving DecidableEq

inductive ParamContent where
  | string (text : JsString)
  | parts (parts : List ContentPart)
  deriving DecidableEq

structure FunctionParam where
  id : JsString
  name : JsString
  arguments : JsString
  deriving DecidableEq

/-- An assistant message. The reasoning stands under the name that its signature gives it, and
where that is the name of the content, it is the content. -/
structure AssistantParam where
  content : Option ParamContent
  reasoning : Option (JsString × JsString)
  toolCalls : List FunctionParam
  reasoningDetails : List Json
  reasoningContent : Option JsString
  deriving DecidableEq

/-- `ChatCompletionMessageParam`, as far as the conversion makes it. `bridge` is the assistant
message that is put between results and the user. -/
inductive MessageParam where
  | instructions (role content : JsString)
  | user (content : ParamContent)
  | assistant (msg : AssistantParam)
  | bridge
  | tool (toolCallId content : JsString) (name : Option JsString)
  deriving DecidableEq

/-- `ResolvedOpenAICompletionsCompat`, as far as the conversion reads it. -/
structure Compat where
  supportsDeveloperRole : Bool := false
  requiresToolResultName : Bool := false
  requiresAssistantAfterToolResult : Bool := false
  requiresThinkingAsText : Bool := false
  requiresReasoningContentOnAssistantMessages : Bool := false

section Conversion

variable (model : Model) (reasoning : Bool) (compat : Compat)

def imagePart (image : ImageContent) : ContentPart :=
  .imageUrl (js "data:" ++ image.mimeType ++ js ";base64," ++ image.data)

def contentPart : ContentBlock → ContentPart
  | .text item => .text (sanitizeSurrogates item.text)
  | .image item => imagePart item

/-- The message of a user message; none when it has no blocks. -/
def userParam : MessageContent → Option MessageParam
  | .string content => some (.user (.string (sanitizeSurrogates content)))
  | .blocks [] => none
  | .blocks content => some (.user (.parts (content.map contentPart)))

section

variable (content : List AssistantBlock)

/-- The texts of an assistant message that are not blank. -/
def assistantTexts : List JsString :=
  content.filterMap fun
    | .text block => if trim block.text = [] then none else some (sanitizeSurrogates block.text)
    | .thinking _ | .toolCall _ => none

def thinkingBlocks : List ThinkingContent :=
  content.filterMap fun
    | .thinking block => if trim block.thinking = [] then none else some block
    | .text _ | .toolCall _ => none

def assistantContent : Option ParamContent :=
  let texts := assistantTexts content
  let thinking := thinkingBlocks content
  if thinking ≠ [] ∧ compat.requiresThinkingAsText then
    let thinkingText :=
      [lf, lf].intercalate (thinking.map fun block => sanitizeSurrogates block.thinking)
    some (.parts ((thinkingText :: texts).map .text))
  else if texts.flatten ≠ [] then some (.string texts.flatten)
  else if compat.requiresAssistantAfterToolResult then some (.string [])
  else none

/-- The reasoning of an assistant message, under the signature of its first block. -/
def assistantReasoning : Option (JsString × JsString) :=
  if compat.requiresThinkingAsText then none
  else
    match thinkingBlocks content with
    | [] => none
    | first :: blocks =>
      (nonEmpty first.thinkingSignature).map fun signature =>
        (signature, [lf].intercalate ((first :: blocks).map ThinkingContent.thinking))

end

def isTruthy : Json.Tree → Bool
  | .null => false
  | .bool b => b
  | .num n => n ≠ Decimal.ofInt 0
  | .str s => s ≠ []
  | .arr _ | .obj _ => true

def functionParam (tc : ToolCall) : FunctionParam := ⟨tc.id, tc.name, tc.arguments.stringify⟩

def reasoningDetails (toolCalls : List ToolCall) : List Json :=
  (toolCalls.filterMap fun tc => (nonEmpty tc.thoughtSignature).bind Json.parse).filter
    fun detail => isTruthy detail.tree

def hasContent : Option ParamContent → Bool
  | none => false
  | some (.string text) => text ≠ []
  | some (.parts parts) => parts ≠ []

/-- The content, when the reasoning does not stand in its place. -/
def sentContent (msg : AssistantMessage) : Option ParamContent :=
  match assistantReasoning compat msg.content with
  | some (signature, thinking) =>
    if signature = js "content" then some (.string thinking)
    else assistantContent compat msg.content
  | none => assistantContent compat msg.content

/-- The message of an assistant message; none when it has neither content nor calls. -/
def assistantParam (msg : AssistantMessage) : Option AssistantParam :=
  let content := sentContent compat msg
  let field := assistantReasoning compat msg.content
  if hasContent content = false ∧ msg.toolCalls = [] ∧
      field.map Prod.fst ≠ some (js "tool_calls") then none
  else
    some
      { content
        reasoning := field
        toolCalls := msg.toolCalls.map functionParam
        reasoningDetails := reasoningDetails msg.toolCalls
        reasoningContent :=
          if compat.requiresReasoningContentOnAssistantMessages && reasoning &&
              decide (field.map Prod.fst ≠ some (js "reasoning_content")) then some []
          else none }

def toolParam (toolMsg : ToolResultMessage) : MessageParam :=
  let texts := toolMsg.content.filterMap fun
    | .text block => some block.text
    | .image _ => none
  let textResult := [lf].intercalate texts
  .tool toolMsg.toolCallId
    (sanitizeSurrogates (if textResult = [] then js "(see attached image)" else textResult))
    (if compat.requiresToolResultName then nonEmpty (some toolMsg.toolName) else none)

def resultImages (toolMsg : ToolResultMessage) : List ContentPart :=
  if InputKind.image ∈ model.input then
    toolMsg.content.filterMap fun
      | .image block => some (imagePart block)
      | .text _ => none
  else []

def imagesParam (images : List ContentPart) : MessageParam :=
  .user (.parts (.text (js "Attached image(s) from tool result:") :: images))

inductive LastRole where
  | user
  | assistant
  | toolResult
  deriving DecidableEq

/-- The results at the front of messages, and what follows them. -/
def resultRun : List Message → List ToolResultMessage × List Message
  | .toolResult msg :: rest => (msg :: (resultRun rest).1, (resultRun rest).2)
  | rest => ([], rest)

theorem resultRun_length_le (messages : List Message) :
    (resultRun messages).2.length ≤ messages.length := by
  fun_induction resultRun messages with
  | case1 msg rest ih => exact ih.trans (Nat.le_succ _)
  | case2 => exact Nat.le_refl _

def bridgeParams : List MessageParam :=
  if compat.requiresAssistantAfterToolResult then [.bridge] else []

/-- The loop over the messages, after a message of the last role. -/
def convertLoop : Option LastRole → List Message → List MessageParam
  | _, [] => []
  | lastRole, .user content _ :: rest =>
    (if lastRole = some .toolResult then bridgeParams compat else []) ++
      match userParam content with
      | none => convertLoop lastRole rest
      | some param => param :: convertLoop (some .user) rest
  | lastRole, .assistant msg :: rest =>
    match assistantParam reasoning compat msg with
    | none => convertLoop lastRole rest
    | some param => .assistant param :: convertLoop (some .assistant) rest
  | _, .toolResult msg :: rest =>
    let run := resultRun rest
    let imageBlocks := (msg :: run.1).flatMap (resultImages model)
    (msg :: run.1).map (toolParam compat) ++
      if imageBlocks ≠ [] then
        bridgeParams compat ++ imagesParam imageBlocks :: convertLoop (some .user) run.2
      else convertLoop (some .toolResult) run.2
  termination_by _ messages => messages.length
  decreasing_by
    all_goals simp_wf
    all_goals have hle := resultRun_length_le rest; omega

def instructionParams (systemPrompt : Option JsString) : List MessageParam :=
  match nonEmpty systemPrompt with
  | none => []
  | some systemPrompt =>
    let useDeveloperRole := reasoning && compat.supportsDeveloperRole
    [.instructions (if useDeveloperRole then js "developer" else js "system")
      (sanitizeSurrogates systemPrompt)]

/-- The history with the ids that the converter gives its calls, before turns are dropped and
results are made up. -/
def renamedMessages (context : Responses.Context) : List Message :=
  transformAll model (some fun id _ _ => normalizeCompletionsToolCallId model id) .empty
    (downgradeUnsupportedImages context.messages model)

def convertMessages (now : Nat → Int) (context : Responses.Context) : List MessageParam :=
  instructionParams reasoning compat context.systemPrompt ++
    convertLoop model reasoning compat none
      (transformMessages now context.messages model
        (some fun id _ _ => normalizeCompletionsToolCallId model id))

def flushParams (images : List ContentPart) : List MessageParam :=
  if images ≠ [] then bridgeParams compat ++ [imagesParam images] else []

def flushedRole (lastRole : Option LastRole) (images : List ContentPart) : Option LastRole :=
  if images ≠ [] then some .user else lastRole

/-- The loop, with the images of the results so far, which are sent before the next message
that is no result. -/
def emit : Option LastRole → List ContentPart → List Message → List MessageParam
  | _, images, [] => flushParams compat images
  | lastRole, images, .user content _ :: rest =>
    flushParams compat images ++
      ((if flushedRole lastRole images = some .toolResult then bridgeParams compat else []) ++
        match userParam content with
        | none => emit (flushedRole lastRole images) [] rest
        | some param => param :: emit (some .user) [] rest)
  | lastRole, images, .assistant msg :: rest =>
    flushParams compat images ++
      match assistantParam reasoning compat msg with
      | none => emit (flushedRole lastRole images) [] rest
      | some param => .assistant param :: emit (some .assistant) [] rest
  | _, images, .toolResult msg :: rest =>
    toolParam compat msg :: emit (some .toolResult) (images ++ resultImages model msg) rest

section

variable (lastRole : Option LastRole)

theorem emit_flush (images : List ContentPart)
    {messages : List Message} (h : ∀ msg rest, messages ≠ .toolResult msg :: rest) :
    emit model reasoning compat lastRole images messages = flushParams compat images ++
        emit model reasoning compat (flushedRole lastRole images) [] messages := by
  cases messages with
  | nil => simp [emit, flushParams]
  | cons msg rest =>
    cases msg with
    | user content timestamp | assistant msg => simp [emit, flushParams, flushedRole]
    | toolResult msg => exact absurd rfl (h msg rest)

theorem emit_resultRun (images : List ContentPart) (messages : List Message) :
    emit model reasoning compat lastRole images messages =
      (resultRun messages).1.map (toolParam compat) ++
        (flushParams compat (images ++ (resultRun messages).1.flatMap (resultImages model)) ++
          emit model reasoning compat
            (flushedRole (if (resultRun messages).1 = [] then lastRole else some .toolResult)
              (images ++ (resultRun messages).1.flatMap (resultImages model)))
            [] (resultRun messages).2) := by
  fun_induction resultRun messages generalizing lastRole images with
  | case1 msg rest ih =>
    rw [emit, ih, map_cons, flatMap_cons, append_assoc, cons_append, ite_self,
      if_neg (cons_ne_nil _ _)]
  | case2 rest hnot =>
    rw [if_pos rfl, flatMap_nil, append_nil, map_nil, nil_append]
    exact emit_flush model reasoning compat lastRole images hnot

theorem convertLoop_eq_emit (messages : List Message) :
    convertLoop model reasoning compat lastRole messages =
      emit model reasoning compat lastRole [] messages := by
  fun_induction convertLoop model reasoning compat lastRole messages with
  | case1 => rfl
  | case2 lastRole content timestamp rest ihNone ihSome =>
    rw [emit, flushParams, flushedRole, if_neg (not_not_intro rfl), if_neg (not_not_intro rfl),
      nil_append, ihNone, ihSome]
  | case3 lastRole msg rest hnone ih =>
    rw [emit, flushParams, flushedRole, if_neg (not_not_intro rfl), if_neg (not_not_intro rfl),
      nil_append, hnone, ih]
  | case4 lastRole msg rest param hparam ih =>
    rw [emit, flushParams, if_neg (not_not_intro rfl), nil_append, hparam, ih]
  | case5 lastRole msg rest run imageBlocks ihImages ihNone =>
    have himages : imageBlocks = resultImages model msg ++ run.1.flatMap (resultImages model) :=
      flatMap_cons
    have hlast : (if run.1 = [] then some LastRole.toolResult else some .toolResult) =
        some .toolResult := ite_self _
    rw [emit, nil_append, emit_resultRun, ← himages, map_cons, cons_append, hlast,
      flushParams, flushedRole]
    congr 2
    by_cases hsome : imageBlocks ≠ []
    · rw [if_pos hsome, if_pos hsome, if_pos hsome, ihImages, append_assoc, singleton_append]
    · rw [if_neg hsome, if_neg hsome, if_neg hsome, ihNone, nil_append]

end

end Conversion

section Replay

variable (now : Nat → Int)

/-- The results that are made up for pending calls. -/
def missingResults (existing : List JsString) : Nat → List ToolCall → List ToolResultMessage
  | _, [] => []
  | ticks, tc :: pending =>
    if tc.id ∈ existing then missingResults existing ticks pending
    else syntheticResult tc (now ticks) :: missingResults existing (ticks + 1) pending

def replayFrom : List ToolCall → List JsString → Nat → List Message → List Message
  | pending, existing, ticks, [] => (missingResults now existing ticks pending).map .toolResult
  | pending, existing, ticks, .toolResult msg :: rest =>
    .toolResult msg :: replayFrom pending (msg.toolCallId :: existing) ticks rest
  | pending, existing, ticks, .user content timestamp :: rest =>
    let missing := missingResults now existing ticks pending
    missing.map .toolResult ++
      .user content timestamp :: replayFrom [] [] (ticks + missing.length) rest
  | pending, existing, ticks, .assistant msg :: rest =>
    let missing := missingResults now existing ticks pending
    missing.map .toolResult ++
      if msg.isDropped then replayFrom [] [] (ticks + missing.length) rest
      else .assistant msg :: replayFrom msg.toolCalls [] (ticks + missing.length) rest

theorem insertMissing_foldl (pending : List ToolCall) (s : Replay) :
    pending.foldl (insertMissing now) s =
      { s with
        result := s.result ++
          (missingResults now s.existingToolResultIds s.ticks pending).map .toolResult
        ticks :=
          s.ticks + (missingResults now s.existingToolResultIds s.ticks pending).length } := by
  induction pending generalizing s with
  | nil => simp [missingResults]
  | cons tc pending ih =>
    rw [foldl_cons, ih, missingResults, insertMissing]
    by_cases hmem : tc.id ∈ s.existingToolResultIds
    · rw [if_pos hmem, if_pos hmem]
    · rw [if_neg hmem, if_neg hmem, map_cons, length_cons]
      simp [Nat.add_assoc, Nat.add_comm 1]

theorem insertSyntheticToolResults_spec (s : Replay)
    (h : s.pendingToolCalls ≠ [] → existing = s.existingToolResultIds) :
    (insertSyntheticToolResults now s).result =
        s.result ++ (missingResults now existing s.ticks s.pendingToolCalls).map .toolResult ∧
      (insertSyntheticToolResults now s).ticks =
        s.ticks + (missingResults now existing s.ticks s.pendingToolCalls).length := by
  rw [insertSyntheticToolResults]
  by_cases hnil : s.pendingToolCalls = []
  · rw [if_pos hnil, hnil]
    exact ⟨(append_nil _).symm, rfl⟩
  · rw [if_neg hnil, insertMissing_foldl, h hnil]
    exact ⟨rfl, rfl⟩

theorem replay_foldl (rest : List Message) (s : Replay)
    (h : s.pendingToolCalls ≠ [] → existing = s.existingToolResultIds) :
    (insertSyntheticToolResults now (rest.foldl (replayMessage now) s)).result =
      s.result ++ replayFrom now s.pendingToolCalls existing s.ticks rest := by
  induction rest generalizing s existing with
  | nil => exact (insertSyntheticToolResults_spec now s h).1
  | cons msg rest ih =>
    obtain ⟨hresult, hticks⟩ := insertSyntheticToolResults_spec now s h
    have hpending := insertSyntheticToolResults_pending now s
    rw [foldl_cons]
    cases msg with
    | toolResult msg =>
      have hnext : (replayMessage now s (.toolResult msg)).pendingToolCalls ≠ [] →
          msg.toolCallId :: existing =
            (replayMessage now s (.toolResult msg)).existingToolResultIds := by
        intro hne
        rw [h hne]
        rfl
      rw [ih _ hnext, replayFrom]
      exact append_assoc _ _ _
    | user content timestamp =>
      have hnext : (replayMessage now s (.user content timestamp)).pendingToolCalls ≠ [] →
          ([] : List JsString) =
            (replayMessage now s (.user content timestamp)).existingToolResultIds :=
        fun hne => absurd hpending hne
      rw [ih _ hnext, replayFrom, replayMessage]
      rw [hpending, hresult, hticks, append_assoc, append_assoc]
      rfl
    | assistant msg =>
      rw [replayFrom]
      by_cases hdropped : msg.isDropped = true
      · have hstep : replayMessage now s (.assistant msg) = insertSyntheticToolResults now s :=
          if_pos hdropped
        have hnext : (insertSyntheticToolResults now s).pendingToolCalls ≠ [] →
            ([] : List JsString) = (insertSyntheticToolResults now s).existingToolResultIds :=
          fun hne => absurd hpending hne
        rw [hstep, ih _ hnext, hpending, hresult, hticks, append_assoc, if_pos hdropped]
      · have hnext : (replayMessage now s (.assistant msg)).result =
              (insertSyntheticToolResults now s).result ++ [.assistant msg] ∧
            (replayMessage now s (.assistant msg)).pendingToolCalls = msg.toolCalls ∧
            (replayMessage now s (.assistant msg)).ticks =
              (insertSyntheticToolResults now s).ticks ∧
            (msg.toolCalls ≠ [] →
              (replayMessage now s (.assistant msg)).existingToolResultIds = []) := by
          rw [replayMessage, if_neg hdropped]
          split
          · rename_i hnil
            exact ⟨rfl, hpending.trans hnil.symm, rfl, fun hne => absurd hnil hne⟩
          · exact ⟨rfl, rfl, rfl, fun _ => rfl⟩
        obtain ⟨hr, hp, ht, he⟩ := hnext
        have hexisting : (replayMessage now s (.assistant msg)).pendingToolCalls ≠ [] →
            ([] : List JsString) = (replayMessage now s (.assistant msg)).existingToolResultIds :=
          fun hne => (he (hp ▸ hne)).symm
        rw [ih _ hexisting, hr, hp, ht, hresult, hticks, append_assoc, append_assoc,
          if_neg hdropped]
        rfl

theorem replayAll_eq_replayFrom (transformed : List Message) :
    replayAll now transformed = replayFrom now [] [] 0 transformed :=
  replay_foldl now transformed ⟨[], [], [], 0⟩ fun hne => absurd rfl hne

theorem replayFrom_settle (pending : List ToolCall) (existing : List JsString) (ticks : Nat)
    {rest : List Message} (h : ∀ msg more, rest ≠ .toolResult msg :: more) :
    replayFrom now pending existing ticks rest =
      (missingResults now existing ticks pending).map .toolResult ++
        replayFrom now [] [] (ticks + (missingResults now existing ticks pending).length) rest := by
  cases rest with
  | nil => exact (append_nil _).symm
  | cons msg rest =>
    cases msg with
    | user content timestamp => rfl
    | assistant msg => rfl
    | toolResult msg => exact absurd rfl (h msg rest)

theorem missingResults_ids (existing : List JsString) (ticks : Nat) (pending : List ToolCall) :
    (missingResults now existing ticks pending).map ToolResultMessage.toolCallId =
      (pending.map ToolCall.id).filter fun id => id ∉ existing := by
  induction pending generalizing ticks with
  | nil => rfl
  | cons tc pending ih =>
    rw [missingResults, map_cons, filter_cons]
    by_cases hmem : tc.id ∈ existing
    · rw [if_pos hmem, ih, if_neg (by simpa using hmem)]
    · rw [if_neg hmem, map_cons, ih, if_pos (by simpa using hmem)]
      rfl

theorem missingResults_ne_nil {ticks : Nat} {pending : List ToolCall} :
    missingResults now existing ticks pending ≠ [] ↔ ∃ c ∈ pending, c.id ∉ existing := by
  rw [ne_eq, ← map_eq_nil_iff (f := ToolResultMessage.toolCallId), missingResults_ids]
  simp

end Replay

section Conversion

variable (model : Model) (reasoning : Bool) (compat : Compat) (now : Nat → Int)

theorem emit_missing (lastRole : Option LastRole) (images : List ContentPart)
    (existing : List JsString) (ticks : Nat) (pending : List ToolCall) (messages : List Message) :
    emit model reasoning compat lastRole images
        ((missingResults now existing ticks pending).map .toolResult ++ messages) =
      (missingResults now existing ticks pending).map (toolParam compat) ++
        emit model reasoning compat
          (if missingResults now existing ticks pending = [] then lastRole else some .toolResult)
          images messages := by
  induction pending generalizing lastRole ticks with
  | nil => rfl
  | cons tc pending ih =>
    rw [missingResults]
    by_cases hmem : tc.id ∈ existing
    · rw [if_pos hmem]
      exact ih lastRole ticks
    · have himages : resultImages model (syntheticResult tc (now ticks)) = [] := by
        rw [resultImages]
        exact ite_self _
      rw [if_neg hmem, map_cons, cons_append, emit, himages, append_nil, ih,
        ite_self, if_neg (cons_ne_nil _ _)]
      rfl

end Conversion

end Completions

end AcademicAgent
