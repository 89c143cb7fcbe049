import AcademicAgent.Ai.Types
import AcademicAgent.Core.JsMap

/-!
# Messages for another model

A history is rewritten before it is replayed to a model.
-/

namespace AcademicAgent

inductive InputKind where
  | text
  | image
  deriving DecidableEq

/-- The fields of a model that the transformation reads. -/
structure Model where
  id : JsString
  api : JsString
  provider : JsString
  input : List InputKind

def NON_VISION_USER_IMAGE_PLACEHOLDER : JsString :=
  js "(image omitted: model does not support images)"

def NON_VISION_TOOL_IMAGE_PLACEHOLDER : JsString :=
  js "(tool image omitted: model does not support images)"

/-- The loop of `replaceImagesWithPlaceholder`: a run of images leaves one placeholder. -/
def replaceImages (placeholder : JsString) : Bool → List ContentBlock → List ContentBlock
  | _, [] => []
  | previousWasPlaceholder, .image _ :: content =>
    if previousWasPlaceholder then replaceImages placeholder true content
    else .text { text := placeholder } :: replaceImages placeholder true content
  | _, .text block :: content =>
    .text block :: replaceImages placeholder (decide (block.text = placeholder)) content

def replaceImagesWithPlaceholder (content : List ContentBlock) (placeholder : JsString) :
    List ContentBlock :=
  replaceImages placeholder false content

/-- One message of `downgradeUnsupportedImages`. -/
def downgradeImages : Message → Message
  | .user (.blocks content) timestamp =>
    .user (.blocks (replaceImagesWithPlaceholder content NON_VISION_USER_IMAGE_PLACEHOLDER)) timestamp
  | .user (.string content) timestamp => .user (.string content) timestamp
  | .toolResult msg =>
    .toolResult { msg with
      content := replaceImagesWithPlaceholder msg.content NON_VISION_TOOL_IMAGE_PLACEHOLDER }
  | .assistant msg => .assistant msg

def downgradeUnsupportedImages (messages : List Message) (model : Model) : List Message :=
  if InputKind.image ∈ model.input then messages else messages.map downgradeImages

/-- `normalizeToolCallId`, when the provider has one. -/
abbrev NormalizeToolCallId := Option (JsString → Model → AssistantMessage → JsString)

/-- The message was written by the model it is replayed to. -/
def isSameModel (model : Model) (assistantMsg : AssistantMessage) : Bool :=
  assistantMsg.provider = model.provider && assistantMsg.api = model.api &&
    assistantMsg.model = model.id

section FirstPass

variable (model : Model) (normalizeToolCallId : NormalizeToolCallId)

/-- A thinking block as it is replayed; a block that is dropped is none. -/
def transformThinking (sameModel : Bool) (block : ThinkingContent) : Option AssistantBlock :=
  if block.redacted = some true then
    if sameModel then some (.thinking block) else none
  else if sameModel && (nonEmpty block.thinkingSignature).isSome then some (.thinking block)
  else if block.thinking = [] || trim block.thinking = [] then none
  else if sameModel then some (.thinking block)
  else some (.text { text := block.thinking })

section

variable (assistantMsg : AssistantMessage)

def normalizedId (id : JsString) : JsString :=
  if isSameModel model assistantMsg then id
  else
    match normalizeToolCallId with
    | none => id
    | some normalize => normalize id model assistantMsg

def normalizedToolCall (toolCall : ToolCall) : ToolCall :=
  { toolCall with
    id := normalizedId model normalizeToolCallId assistantMsg toolCall.id
    thoughtSignature :=
      if !isSameModel model assistantMsg && (nonEmpty toolCall.thoughtSignature).isSome then none
      else toolCall.thoughtSignature }

/-- `toolCallIdMap` after a tool call of an assistant message. -/
def recordId (toolCallIdMap : JsMap JsString JsString) (id : JsString) : JsMap JsString JsString :=
  if normalizedId model normalizeToolCallId assistantMsg id ≠ id then
    toolCallIdMap.set id (normalizedId model normalizeToolCallId assistantMsg id)
  else toolCallIdMap

end

/-- The `flatMap` over the content of an assistant message. -/
def transformContent (assistantMsg : AssistantMessage) :
    JsMap JsString JsString → List AssistantBlock → JsMap JsString JsString × List AssistantBlock
  | toolCallIdMap, [] => (toolCallIdMap, [])
  | toolCallIdMap, .thinking block :: content =>
    let rest := transformContent assistantMsg toolCallIdMap content
    (rest.1, (transformThinking (isSameModel model assistantMsg) block).toList ++ rest.2)
  | toolCallIdMap, .text block :: content =>
    let rest := transformContent assistantMsg toolCallIdMap content
    (rest.1,
      (if isSameModel model assistantMsg then .text block else .text { text := block.text }) ::
        rest.2)
  | toolCallIdMap, .toolCall toolCall :: content =>
    let rest := transformContent assistantMsg
      (recordId model normalizeToolCallId assistantMsg toolCallIdMap toolCall.id) content
    (rest.1, .toolCall (normalizedToolCall model normalizeToolCallId assistantMsg toolCall) :: rest.2)

def resultId (toolCallIdMap : JsMap JsString JsString) (toolCallId : JsString) : JsString :=
  match nonEmpty (toolCallIdMap.get toolCallId) with
  | some normalizedId => normalizedId
  | none => toolCallId

def transformMessage (toolCallIdMap : JsMap JsString JsString) :
    Message → JsMap JsString JsString × Message
  | .user content timestamp => (toolCallIdMap, .user content timestamp)
  | .toolResult msg =>
    (toolCallIdMap, .toolResult { msg with toolCallId := resultId toolCallIdMap msg.toolCallId })
  | .assistant assistantMsg =>
    let transformed :=
      transformContent model normalizeToolCallId assistantMsg toolCallIdMap assistantMsg.content
    (transformed.1, .assistant { assistantMsg with content := transformed.2 })

/-- `imageAwareMessages.map`, with the map of ids that the callback writes. -/
def transformAll : JsMap JsString JsString → List Message → List Message
  | _, [] => []
  | toolCallIdMap, msg :: messages =>
    let transformed := transformMessage model normalizeToolCallId toolCallIdMap msg
    transformed.2 :: transformAll transformed.1 messages

end FirstPass

/-- The variables of the second pass, with the number of times the clock was read. -/
structure Replay where
  result : List Message
  pendingToolCalls : List ToolCall
  existingToolResultIds : List JsString
  ticks : Nat

def NO_RESULT_PROVIDED : JsString := js "No result provided"

/-- The result that stands for one that is missing. -/
def syntheticResult (tc : ToolCall) (timestamp : Int) : ToolResultMessage where
  toolCallId := tc.id
  toolName := tc.name
  content := [.text { text := NO_RESULT_PROVIDED }]
  details := none
  isError := true
  timestamp := timestamp

section SecondPass

variable (now : Nat → Int)

/-- One pending call of `insertSyntheticToolResults`. -/
def insertMissing (s : Replay) (tc : ToolCall) : Replay :=
  if tc.id ∈ s.existingToolResultIds then s
  else { s with
    result := s.result ++ [.toolResult (syntheticResult tc (now s.ticks))]
    ticks := s.ticks + 1 }

def insertSyntheticToolResults (s : Replay) : Replay :=
  if s.pendingToolCalls = [] then s
  else
    { s.pendingToolCalls.foldl (insertMissing now) s with
      pendingToolCalls := []
      existingToolResultIds := [] }

/-- A turn that failed or was aborted is not replayed. -/
def AssistantMessage.isDropped (assistantMsg : AssistantMessage) : Bool :=
  assistantMsg.stopReason = .error || assistantMsg.stopReason = .aborted

def replayMessage (s : Replay) : Message → Replay
  | .assistant assistantMsg =>
    let s := insertSyntheticToolResults now s
    if assistantMsg.isDropped then s
    else if assistantMsg.toolCalls = [] then
      { s with result := s.result ++ [.assistant assistantMsg] }
    else
      { s with
        pendingToolCalls := assistantMsg.toolCalls
        existingToolResultIds := []
        result := s.result ++ [.assistant assistantMsg] }
  | .toolResult msg =>
    { s with
      existingToolResultIds := msg.toolCallId :: s.existingToolResultIds
      result := s.result ++ [.toolResult msg] }
  | .user content timestamp =>
    let s := insertSyntheticToolResults now s
    { s with result := s.result ++ [.user content timestamp] }

def replayAll (transformed : List Message) : List Message :=
  (insertSyntheticToolResults now
    (transformed.foldl (replayMessage now) ⟨[], [], [], 0⟩)).result

end SecondPass

def transformMessages (now : Nat → Int) (messages : List Message) (model : Model)
    (normalizeToolCallId : NormalizeToolCallId) : List Message :=
  replayAll now
    (transformAll model normalizeToolCallId .empty (downgradeUnsupportedImages messages model))

end AcademicAgent

/-!
# Replayed transcripts

Every call of a replayed turn has a result behind it.
-/

namespace AcademicAgent

open List Message

variable {rest : List Message} {id : JsString} {n : Nat} {msg : Message} {s : Replay}

variable {pending : List ToolCall}

def Message.isToolResult : Message → Bool
  | .toolResult _ => true
  | .user _ _ | .assistant _ => false

/-- The message is a result for a call with an id. -/
def Message.isResultOf (id : JsString) : Message → Bool
  | .toolResult msg => msg.toolCallId = id
  | .user _ _ | .assistant _ => false

/-- The message is not a turn that failed or was aborted. -/
def Message.isReplayed : Message → Bool
  | .assistant assistantMsg => !assistantMsg.isDropped
  | .user _ _ | .toolResult _ => true

/-- The n-th message is a result with an id, and only results stand before it. -/
def AnswersIn (rest : List Message) (id : JsString) (n : Nat) : Prop :=
  (∀ msg ∈ rest.take n, msg.isToolResult = true) ∧
    ∃ msg, rest[n]? = some msg ∧ msg.isResultOf id = true

/-- Every call has a result before the next user or assistant message. -/
def EveryCallAnswered (messages : List Message) : Prop :=
  ∀ before assistantMsg rest, messages = before ++ .assistant assistantMsg :: rest →
    ∀ toolCall ∈ assistantMsg.toolCalls, ∃ n, AnswersIn rest toolCall.id n

/-- The calls of a message have distinct ids, and each has one result before the next
user or assistant message. -/
def WellAnswered (messages : List Message) : Prop :=
  ∀ before assistantMsg rest, messages = before ++ .assistant assistantMsg :: rest →
    (assistantMsg.toolCalls.map ToolCall.id).Nodup ∧
      ∀ toolCall ∈ assistantMsg.toolCalls, ∃! n, AnswersIn rest toolCall.id n

def SameTurn : Message → Message → Prop
  | .user _ timestamp, .user _ timestamp' => timestamp = timestamp'
  | .assistant msg, .assistant msg' =>
    msg.toolCalls.map (fun c => (c.name, c.arguments)) =
      msg'.toolCalls.map (fun c => (c.name, c.arguments))
  | .toolResult msg, .toolResult msg' =>
    msg'.toolName = msg.toolName ∧ msg'.details = msg.details ∧ msg'.isError = msg.isError ∧
      msg'.timestamp = msg.timestamp ∧
      (msg'.content = msg.content ∨
        msg'.content =
          replaceImagesWithPlaceholder msg.content NON_VISION_TOOL_IMAGE_PLACEHOLDER)
  | _, _ => False

/-- The output holds the replayed messages and nothing else, and a call in it is answered
by its own result only: the first result for it in the history. -/
structure Replays (messages out : List Message) : Prop where
  aligned : List.Forall₂ SameTurn (messages.filter Message.isReplayed) out
  answered : ∀ before assistantMsg rest before' assistantMsg' rest',
    messages.filter Message.isReplayed = before ++ .assistant assistantMsg :: rest →
    out = before' ++ .assistant assistantMsg' :: rest' → before.length = before'.length →
    ∀ (i : Nat) (toolCall toolCall' : ToolCall), assistantMsg.toolCalls[i]? = some toolCall →
      assistantMsg'.toolCalls[i]? = some toolCall' →
      ∀ n, AnswersIn rest' toolCall'.id n ↔
        AnswersIn rest toolCall.id n ∧ ∀ j < n, ¬ AnswersIn rest toolCall.id j

/-- A transcript that a model can be given for a history. -/
structure IsReplayable (messages out : List Message) : Prop where
  answered : EveryCallAnswered out
  original : WellAnswered messages → Replays messages out

theorem answersIn_append (h : AnswersIn rest id n) (more : List Message) :
    AnswersIn (rest ++ more) id n := by
  obtain ⟨hbefore, msg, hmsg, hid⟩ := h
  have hn : n < rest.length := (List.getElem?_eq_some_iff.mp hmsg).1
  refine ⟨?_, msg, ?_, hid⟩
  · rw [take_append_of_le_length (by omega)]
    exact hbefore
  · rw [getElem?_append_left hn]
    exact hmsg

theorem answersIn_concat (hrest : ∀ x ∈ rest, x.isToolResult = true)
    (hid : msg.isResultOf id = true) : AnswersIn (rest ++ [msg]) id rest.length := by
  refine ⟨?_, msg, ?_, hid⟩
  · rw [take_left']
    · exact hrest
    · rfl
  · rw [getElem?_append_right (Nat.le_refl _), Nat.sub_self]
    rfl

section

variable {msg : Message} {rest : List Message} {id : JsString}

theorem answersIn_cons_zero : AnswersIn (msg :: rest) id 0 ↔ msg.isResultOf id = true := by
  simp only [AnswersIn, take_zero, not_mem_nil, false_implies, implies_true, true_and,
    getElem?_cons_zero, Option.some.injEq, exists_eq_left']

theorem answersIn_cons_succ :
    AnswersIn (msg :: rest) id (n + 1) ↔ msg.isToolResult = true ∧ AnswersIn rest id n := by
  simp only [AnswersIn, take_succ_cons, forall_mem_cons, getElem?_cons_succ, and_assoc]

end

theorem not_answersIn_nil : ¬ AnswersIn [] id n := by
  rintro ⟨-, msg, hmsg, -⟩
  contradiction

theorem Message.isToolResult_of_isResultOf (h : msg.isResultOf id = true) :
    msg.isToolResult = true := by
  cases msg with
  | toolResult r => rfl
  | user content timestamp | assistant m => contradiction

theorem not_answersIn_of_head (h : msg.isToolResult = false) : ¬ AnswersIn (msg :: rest) id n := by
  intro hn
  have htrue : msg.isToolResult = true := by
    cases n with
    | zero => exact isToolResult_of_isResultOf (answersIn_cons_zero.mp hn)
    | succ n => exact (answersIn_cons_succ.mp hn).1
  rw [h] at htrue
  contradiction

theorem concat_eq_append_cons {α : Type} {l before rest : List α} {x a : α}
    (h : l ++ [x] = before ++ a :: rest) :
    (rest = [] ∧ x = a ∧ l = before) ∨ ∃ rest', rest = rest' ++ [x] ∧ l = before ++ a :: rest' := by
  rcases eq_nil_or_concat rest with rfl | ⟨rest', y, rfl⟩
  · obtain ⟨hl, hx⟩ := append_inj' h rfl
    exact .inl ⟨rfl, (List.cons.inj hx).1, hl⟩
  · rw [concat_eq_append, ← cons_append, ← append_assoc] at h
    obtain ⟨hl, hx⟩ := append_inj' h rfl
    refine .inr ⟨rest', ?_, hl⟩
    rw [(List.cons.inj hx).1, concat_eq_append]

/-- Calls without a result yet are pending, and only results follow them. -/
def CallsPending (result : List Message) (pending : List ToolCall) (existing : List JsString) :
    Prop :=
  ∀ before assistantMsg rest, result = before ++ .assistant assistantMsg :: rest →
    ∀ toolCall ∈ assistantMsg.toolCalls, (∃ n, AnswersIn rest toolCall.id n) ∨
      (toolCall ∈ pending ∧ toolCall.id ∉ existing ∧ ∀ x ∈ rest, x.isToolResult = true)

theorem callsPending_nil_iff {result : List Message} {existing : List JsString} :
    CallsPending result [] existing ↔ EveryCallAnswered result := by
  constructor
  · intro h before assistantMsg rest hsplit toolCall hcall
    rcases h before assistantMsg rest hsplit toolCall hcall with hn | ⟨hmem, -⟩
    · exact hn
    · contradiction
  · intro h before assistantMsg rest hsplit toolCall hcall
    exact .inl (h before assistantMsg rest hsplit toolCall hcall)

theorem CallsPending.result {result : List Message} {pending' : List ToolCall}
    {existing existing' : List JsString} (h : CallsPending result pending existing) {msg : Message}
    {id : JsString} (hmsg : msg.isResultOf id = true)
    (hpending : ∀ c ∈ pending, c.id ≠ id → c ∈ pending')
    (hexisting : ∀ i, i ≠ id → i ∉ existing → i ∉ existing') :
    CallsPending (result ++ [msg]) pending' existing' := by
  intro before assistantMsg rest hsplit toolCall hcall
  rcases concat_eq_append_cons hsplit with ⟨-, hx, -⟩ | ⟨rest', rfl, hl⟩
  · subst hx
    contradiction
  · rcases h before assistantMsg rest' hl toolCall hcall with ⟨n, hn⟩ | ⟨hmem, hnew, honly⟩
    · exact .inl ⟨n, answersIn_append hn [msg]⟩
    · by_cases hid : toolCall.id = id
      · refine .inl ⟨rest'.length, answersIn_concat honly ?_⟩
        rw [hid]
        exact hmsg
      · refine .inr ⟨hpending toolCall hmem hid, hexisting _ hid hnew, ?_⟩
        intro x hx
        rcases mem_append.mp hx with hx | hx
        · exact honly x hx
        · rw [mem_singleton.mp hx]
          exact isToolResult_of_isResultOf hmsg

theorem EveryCallAnswered.concat {result : List Message} (h : EveryCallAnswered result)
    {existing : List JsString}
    (hmsg : ∀ assistantMsg, msg = .assistant assistantMsg → assistantMsg.toolCalls = pending ∧ existing = [])
    : CallsPending (result ++ [msg]) pending existing := by
  intro before assistantMsg rest hsplit toolCall hcall
  rcases concat_eq_append_cons hsplit with ⟨rfl, hx, -⟩ | ⟨rest', rfl, hl⟩
  · obtain ⟨hpending, hexisting⟩ := hmsg assistantMsg hx
    rw [hpending] at hcall
    subst hexisting
    exact .inr ⟨hcall, not_mem_nil, fun x hx => nomatch hx⟩
  · obtain ⟨n, hn⟩ := h before assistantMsg rest' hl toolCall hcall
    exact .inl ⟨n, answersIn_append hn [msg]⟩

section SecondPass

variable (now : Nat → Int)

theorem everyCallAnswered_foldl (h : CallsPending s.result pending s.existingToolResultIds) :
    EveryCallAnswered (pending.foldl (insertMissing now) s).result := by
  induction pending generalizing s with
  | nil => exact callsPending_nil_iff.mp h
  | cons tc pending ih =>
    rw [foldl_cons]
    apply ih
    unfold insertMissing
    split
    · rename_i hmem
      intro before assistantMsg rest hsplit toolCall hcall
      rcases h before assistantMsg rest hsplit toolCall hcall with hn | ⟨hin, hnew, honly⟩
      · exact .inl hn
      · rcases mem_cons.mp hin with rfl | hin
        · contradiction
        · exact .inr ⟨hin, hnew, honly⟩
    · have hresult : (toolResult (syntheticResult tc (now s.ticks))).isResultOf tc.id = true :=
        decide_eq_true rfl
      apply h.result hresult
      · intro c hc hne
        rcases mem_cons.mp hc with rfl | hc
        · contradiction
        · exact hc
      · exact fun i _ hi => hi

theorem insertSyntheticToolResults_pending (s : Replay) :
    (insertSyntheticToolResults now s).pendingToolCalls = [] := by
  unfold insertSyntheticToolResults
  split
  · assumption
  · rfl

theorem insertSyntheticToolResults_answered
    (h : CallsPending s.result s.pendingToolCalls s.existingToolResultIds) :
    EveryCallAnswered (insertSyntheticToolResults now s).result := by
  unfold insertSyntheticToolResults
  split
  · rename_i hnil
    rw [hnil] at h
    exact callsPending_nil_iff.mp h
  · exact everyCallAnswered_foldl now h

theorem replayMessage_callsPending
    (h : CallsPending s.result s.pendingToolCalls s.existingToolResultIds) (msg : Message) :
    CallsPending (replayMessage now s msg).result (replayMessage now s msg).pendingToolCalls
      (replayMessage now s msg).existingToolResultIds := by
  have hanswered := insertSyntheticToolResults_answered now h
  have hpending := insertSyntheticToolResults_pending now s
  cases msg with
  | user content timestamp =>
    rw [replayMessage]
    rw [hpending]
    exact hanswered.concat (fun _ heq => nomatch heq)
  | toolResult msg =>
    rw [replayMessage]
    have hresult : (toolResult msg).isResultOf msg.toolCallId = true := decide_eq_true rfl
    apply h.result hresult
    · exact fun c hc _ => hc
    · intro i hne hi hmem
      rcases mem_cons.mp hmem with rfl | hmem
      · exact hne rfl
      · exact hi hmem
  | assistant assistantMsg =>
    rw [replayMessage]
    split
    · rw [hpending]
      exact callsPending_nil_iff.mpr hanswered
    · split
      · rename_i hnil
        rw [hpending]
        have hconcat : CallsPending ((insertSyntheticToolResults now s).result ++
            [.assistant assistantMsg]) [] [] :=
          hanswered.concat (fun m heq => by cases heq; exact ⟨hnil, rfl⟩)
        exact callsPending_nil_iff.mpr (callsPending_nil_iff.mp hconcat)
      · exact hanswered.concat (fun m heq => by cases heq; exact ⟨rfl, rfl⟩)

theorem replayAll_answered (transformed : List Message) :
    EveryCallAnswered (replayAll now transformed) := by
  apply insertSyntheticToolResults_answered
  have hfold (messages : List Message) (s : Replay)
      (h : CallsPending s.result s.pendingToolCalls s.existingToolResultIds) :
      CallsPending (messages.foldl (replayMessage now) s).result
        (messages.foldl (replayMessage now) s).pendingToolCalls
        (messages.foldl (replayMessage now) s).existingToolResultIds := by
    induction messages generalizing s with
    | nil => exact h
    | cons msg messages ih => exact ih _ (replayMessage_callsPending now h msg)
  apply hfold
  intro before assistantMsg rest hsplit
  have := congrArg List.length hsplit
  simp only [length_nil, length_append, length_cons] at this
  omega

theorem insertSyntheticToolResults_sublist (s : Replay) :
    s.result.Sublist (insertSyntheticToolResults now s).result := by
  have hfold (pending : List ToolCall) (s : Replay) :
      s.result.Sublist (pending.foldl (insertMissing now) s).result := by
    induction pending generalizing s with
    | nil => exact List.Sublist.refl _
    | cons tc pending ih =>
      refine List.Sublist.trans ?_ (ih (insertMissing now s tc))
      unfold insertMissing
      split
      · exact List.Sublist.refl _
      · exact sublist_append_left _ _
  unfold insertSyntheticToolResults
  split
  · exact List.Sublist.refl _
  · exact hfold _ s

theorem replayMessage_sublist (s : Replay) (msg : Message) :
    (s.result ++ [msg].filter isReplayed).Sublist (replayMessage now s msg).result := by
  have hsub := insertSyntheticToolResults_sublist now s
  cases msg with
  | user content timestamp => exact hsub.append_right _
  | toolResult msg => exact List.Sublist.refl _
  | assistant assistantMsg =>
    rw [replayMessage]
    split
    · rename_i hdropped
      rw [filter_cons_of_neg (by simp only [isReplayed, hdropped]; decide),
        filter_nil, append_nil]
      exact hsub
    · rename_i hkept
      rw [filter_cons_of_pos (by simp only [isReplayed, hkept]; decide), filter_nil]
      split
      · exact hsub.append_right _
      · exact hsub.append_right _

theorem filter_sublist_replayAll (transformed : List Message) :
    (transformed.filter isReplayed).Sublist (replayAll now transformed) := by
  have hfold (messages : List Message) (s : Replay) :
      (s.result ++ messages.filter isReplayed).Sublist
        (messages.foldl (replayMessage now) s).result := by
    induction messages generalizing s with
    | nil =>
      rw [filter_nil, append_nil]
      exact List.Sublist.refl _
    | cons msg messages ih =>
      refine List.Sublist.trans ?_ (ih (replayMessage now s msg))
      rw [show msg :: messages = [msg] ++ messages from rfl, filter_append, ← append_assoc]
      exact (replayMessage_sublist now s msg).append_right _
  exact (hfold transformed ⟨[], [], [], 0⟩).trans (insertSyntheticToolResults_sublist now _)

/-- The pending calls have a result, or one among the messages that follow. -/
def PendingAnswered (s : Replay) (messages : List Message) : Prop :=
  ∀ c ∈ s.pendingToolCalls, c.id ∈ s.existingToolResultIds ∨ ∃ n, AnswersIn messages c.id n

theorem insertSyntheticToolResults_result
    (h : ∀ c ∈ s.pendingToolCalls, c.id ∈ s.existingToolResultIds) :
    (insertSyntheticToolResults now s).result = s.result := by
  have hfold (pending : List ToolCall) (hpending : ∀ c ∈ pending, c.id ∈ s.existingToolResultIds) :
      pending.foldl (insertMissing now) s = s := by
    induction pending with
    | nil => rfl
    | cons tc pending ih =>
      obtain ⟨htc, hpending⟩ := forall_mem_cons.mp hpending
      rw [foldl_cons, insertMissing, if_pos htc]
      exact ih hpending
  unfold insertSyntheticToolResults
  split
  · rfl
  · rw [hfold _ h]

/-- The calls of replayed messages have a result before the next message that is none. -/
def ReplayedAnswered (messages : List Message) : Prop :=
  ∀ before assistantMsg rest, messages = before ++ .assistant assistantMsg :: rest →
    assistantMsg.isDropped = false →
      ∀ toolCall ∈ assistantMsg.toolCalls, ∃ n, AnswersIn rest toolCall.id n

theorem ReplayedAnswered.tail {messages : List Message} (h : ReplayedAnswered (msg :: messages)) :
    ReplayedAnswered messages := by
  intro before assistantMsg rest hsplit
  apply h (msg :: before) assistantMsg rest
  rw [hsplit]
  rfl

theorem PendingAnswered.existing {messages : List Message} (h : PendingAnswered s messages)
    (hhead : ∀ msg, messages.head? = some msg → msg.isToolResult = false) :
    ∀ c ∈ s.pendingToolCalls, c.id ∈ s.existingToolResultIds := by
  intro c hc
  rcases h c hc with hmem | ⟨n, hn⟩
  · exact hmem
  · cases messages with
    | nil => exact absurd hn not_answersIn_nil
    | cons msg messages => exact absurd hn (not_answersIn_of_head (hhead msg rfl))

theorem replayAll_eq {transformed : List Message} (h : ReplayedAnswered transformed) :
    replayAll now transformed = transformed.filter isReplayed := by
  have hfold (messages : List Message) (s : Replay) (hs : PendingAnswered s messages)
      (hm : ReplayedAnswered messages) :
      (insertSyntheticToolResults now (messages.foldl (replayMessage now) s)).result =
        s.result ++ messages.filter isReplayed := by
    induction messages generalizing s with
    | nil =>
      rw [foldl_nil, filter_nil, append_nil]
      exact insertSyntheticToolResults_result now (hs.existing (fun _ h => nomatch h))
    | cons msg messages ih =>
      rw [foldl_cons]
      cases msg with
      | toolResult msg =>
        rw [filter_cons_of_pos rfl, ih _ ?_ hm.tail, replayMessage]
        · dsimp only
          rw [append_assoc]
          rfl
        · intro c hc
          rcases hs c hc with hmem | ⟨n, hn⟩
          · exact .inl (mem_cons_of_mem _ hmem)
          · cases n with
            | zero =>
              have hid : msg.toolCallId = c.id :=
                of_decide_eq_true (answersIn_cons_zero.mp hn)
              refine .inl ?_
              rw [← hid]
              exact mem_cons_self
            | succ n => exact .inr ⟨n, (answersIn_cons_succ.mp hn).2⟩
      | user content timestamp =>
        have hsame := insertSyntheticToolResults_result now
          (hs.existing (fun _ h => by cases h; rfl))
        have hpending := insertSyntheticToolResults_pending now s
        rw [filter_cons_of_pos rfl, ih _ ?_ hm.tail, replayMessage]
        · dsimp only
          rw [hsame, append_assoc]
          rfl
        · intro c hc
          rw [replayMessage] at hc
          rw [hpending] at hc
          contradiction
      | assistant assistantMsg =>
        have hsame := insertSyntheticToolResults_result now
          (hs.existing (fun _ h => by cases h; rfl))
        have hpending := insertSyntheticToolResults_pending now s
        by_cases hdropped : assistantMsg.isDropped = true
        · have hstep : replayMessage now s (.assistant assistantMsg) =
              insertSyntheticToolResults now s := by
            rw [replayMessage]
            exact if_pos hdropped
          rw [filter_cons_of_neg (by simp only [isReplayed, hdropped]; decide), hstep,
            ih _ ?_ hm.tail, hsame]
          intro c hc
          rw [hpending] at hc
          contradiction
        · have hkept : assistantMsg.isDropped = false := Bool.eq_false_iff.mpr hdropped
          have hresult : (replayMessage now s (.assistant assistantMsg)).result =
              s.result ++ [.assistant assistantMsg] := by
            rw [replayMessage]
            rw [if_neg hdropped]
            split
            · exact congrArg (· ++ _) hsame
            · exact congrArg (· ++ _) hsame
          have hcalls : (replayMessage now s (.assistant assistantMsg)).pendingToolCalls =
              assistantMsg.toolCalls := by
            rw [replayMessage]
            rw [if_neg hdropped]
            split
            · rename_i hnil
              rw [hnil]
              exact hpending
            · rfl
          rw [filter_cons_of_pos (by simp only [isReplayed, hkept]; decide),
            ih _ ?_ hm.tail, hresult, append_assoc]
          · rfl
          · intro c hc
            rw [hcalls] at hc
            exact .inr (hm [] assistantMsg messages rfl hkept c hc)
  have hstart : PendingAnswered ⟨[], [], [], 0⟩ transformed := fun c hc => nomatch hc
  exact hfold transformed _ hstart h

end SecondPass

end AcademicAgent
