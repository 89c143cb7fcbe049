import AcademicAgent.Ai.Providers.TransformReplay

/-!
# The ids of replayed calls

The map of ids holds for every id its latest renaming in the history so far.
-/

namespace AcademicAgent

open List

open AssistantBlock (toolCall?)

variable {pairs : List (JsString × JsString)}

variable {toolCallIdMap : JsMap JsString JsString}

section Renaming

variable (model : Model) (normalizeToolCallId : NormalizeToolCallId)

/-- The calls of a message that are replayed under another id. -/
def callRenamings (assistantMsg : AssistantMessage) (calls : List ToolCall) :
    List (JsString × JsString) :=
  (calls.map fun c => (c.id, normalizedId model normalizeToolCallId assistantMsg c.id)).filter
    fun p => decide (p.2 ≠ p.1)

def messageRenamings : Message → List (JsString × JsString)
  | .assistant msg => callRenamings model normalizeToolCallId msg msg.toolCalls
  | .user _ _ | .toolResult _ => []

/-- All renamings of calls in a history, dropped turns included. -/
def renamings (messages : List Message) : List (JsString × JsString) :=
  messages.flatMap (messageRenamings model normalizeToolCallId)

section

variable (pairs : List (JsString × JsString)) (id : JsString)

def latest : Option JsString :=
  (pairs.reverse.find? fun p => p.1 = id).map Prod.snd

/-- The id a result is replayed under: an empty name is no name. -/
def renamed : JsString :=
  match nonEmpty (latest pairs id) with
  | some name => name
  | none => id

end

/-- The ids of the results that are replayed behind a message, each with the id that it
is replayed under. -/
def replayedResults (pairs : List (JsString × JsString)) :
    List Message → List (JsString × JsString)
  | .toolResult msg :: rest =>
    (msg.toolCallId, renamed pairs msg.toolCallId) :: replayedResults pairs rest
  | .assistant msg :: rest =>
    if msg.isDropped then
      replayedResults (pairs ++ messageRenamings model normalizeToolCallId (.assistant msg)) rest
    else []
  | .user _ _ :: _ => []
  | [] => []

/-- The ids of a history stay apart: a call that keeps its id meets no earlier renaming
of that id, no call is renamed to nothing, and no other result is replayed under the id
of a call. -/
structure IdsKeptApart (messages : List Message) : Prop where
  fresh : ∀ before assistantMsg rest, messages = before ++ .assistant assistantMsg :: rest →
    assistantMsg.isDropped = false → ∀ toolCall ∈ assistantMsg.toolCalls,
      normalizedId model normalizeToolCallId assistantMsg toolCall.id = toolCall.id →
        renamed (renamings model normalizeToolCallId before) toolCall.id = toolCall.id
  named : ∀ before assistantMsg rest, messages = before ++ .assistant assistantMsg :: rest →
    assistantMsg.isDropped = false → ∀ toolCall ∈ assistantMsg.toolCalls,
      normalizedId model normalizeToolCallId assistantMsg toolCall.id ≠ toolCall.id →
        normalizedId model normalizeToolCallId assistantMsg toolCall.id ≠ []
  apart : ∀ before assistantMsg rest, messages = before ++ .assistant assistantMsg :: rest →
    assistantMsg.isDropped = false → ∀ toolCall ∈ assistantMsg.toolCalls,
      ∀ (n : Nat) (p : JsString × JsString), (replayedResults model normalizeToolCallId
          (renamings model normalizeToolCallId (before ++ [.assistant assistantMsg])) rest)[n]? =
            some p →
        p.2 = normalizedId model normalizeToolCallId assistantMsg toolCall.id →
          p.1 = toolCall.id ∧ ∀ j < n, ∀ q : JsString × JsString, (replayedResults model normalizeToolCallId
            (renamings model normalizeToolCallId (before ++ [.assistant assistantMsg])) rest)[j]? =
              some q → q.1 ≠ toolCall.id

theorem latest_singleton (id name other : JsString) :
    latest [(id, name)] other = if id = other then some name else none := by
  by_cases hid : id = other
  · rw [latest, reverse_singleton, find?_cons_of_pos (by simpa using hid), if_pos hid]
    rfl
  · rw [latest, reverse_singleton,
      find?_cons_of_neg (by simpa only [decide_eq_true_eq] using hid), if_neg hid]
    rfl

theorem latest_append (pairs more : List (JsString × JsString)) (id : JsString) :
    latest (pairs ++ more) id = (latest more id).or (latest pairs id) := by
  rw [latest, reverse_append, find?_append, latest, latest]
  cases more.reverse.find? fun p => decide (p.1 = id) with
  | none => rfl
  | some p => rfl

theorem latest_eq_none {id : JsString} (h : ∀ p ∈ pairs, p.1 ≠ id) : latest pairs id = none := by
  rw [latest, Option.map_eq_none_iff, find?_eq_none]
  intro p hp
  rw [decide_eq_true_eq]
  exact h p (mem_reverse.mp hp)

theorem latest_eq_some {id name : JsString} (hmem : (id, name) ∈ pairs)
    (h : ∀ p ∈ pairs, p.1 = id → p.2 = name) : latest pairs id = some name := by
  rw [latest, Option.map_eq_some_iff]
  cases hfind : pairs.reverse.find? fun p => decide (p.1 = id) with
  | none =>
    have hnone := find?_eq_none.mp hfind (id, name) (mem_reverse.mpr hmem)
    rw [decide_eq_true_eq] at hnone
    exact absurd rfl hnone
  | some p =>
    have hp := mem_reverse.mp (mem_of_find?_eq_some hfind)
    have hid : decide (p.1 = id) = true :=
      find?_some (p := fun q : JsString × JsString => decide (q.1 = id)) hfind
    exact ⟨p, rfl, h p hp (of_decide_eq_true hid)⟩

theorem renamings_append (messages more : List Message) :
    renamings model normalizeToolCallId (messages ++ more) =
      renamings model normalizeToolCallId messages ++ renamings model normalizeToolCallId more :=
  flatMap_append

theorem renamings_cons (msg : Message) (messages : List Message) :
    renamings model normalizeToolCallId (msg :: messages) =
      messageRenamings model normalizeToolCallId msg ++
        renamings model normalizeToolCallId messages :=
  flatMap_cons

theorem renamings_singleton (msg : Message) :
    renamings model normalizeToolCallId [msg] = messageRenamings model normalizeToolCallId msg :=
  flatMap_singleton _ _

def Records (toolCallIdMap : JsMap JsString JsString) (pairs : List (JsString × JsString)) : Prop :=
  ∀ id, toolCallIdMap.get id = latest pairs id

theorem Records.resultId {pairs : List (JsString × JsString)} (h : Records toolCallIdMap pairs)
    (id : JsString) : resultId toolCallIdMap id = renamed pairs id := by
  have hid : toolCallIdMap.get id = latest pairs id := h id
  cases hname : nonEmpty (latest pairs id) with
  | none | some name => simp only [AcademicAgent.resultId, renamed, hid, hname]

theorem Records.recordId {pairs : List (JsString × JsString)} (h : Records toolCallIdMap pairs)
    (assistantMsg : AssistantMessage) (toolCall : ToolCall) :
    Records (recordId model normalizeToolCallId assistantMsg toolCallIdMap toolCall.id)
      (pairs ++ callRenamings model normalizeToolCallId assistantMsg [toolCall]) := by
  intro id
  rw [AcademicAgent.recordId, latest_append]
  by_cases hne : normalizedId model normalizeToolCallId assistantMsg toolCall.id ≠ toolCall.id
  · have hpairs : callRenamings model normalizeToolCallId assistantMsg [toolCall] =
        [(toolCall.id, normalizedId model normalizeToolCallId assistantMsg toolCall.id)] :=
      filter_cons_of_pos (decide_eq_true hne)
    rw [if_pos hne, hpairs, JsMap.get_set, h id, latest_singleton]
    by_cases hid : toolCall.id = id
    · rw [if_pos hid, if_pos hid]
      rfl
    · rw [if_neg hid, if_neg hid]
      rfl
  · have hpairs : callRenamings model normalizeToolCallId assistantMsg [toolCall] = [] :=
      filter_cons_of_neg (by simpa only [decide_eq_true_eq] using hne)
    rw [if_neg hne, hpairs, h id]
    rfl

section

variable (assistantMsg : AssistantMessage)

theorem callRenamings_cons (toolCall : ToolCall) (calls : List ToolCall) :
    callRenamings model normalizeToolCallId assistantMsg (toolCall :: calls) =
      callRenamings model normalizeToolCallId assistantMsg [toolCall] ++
        callRenamings model normalizeToolCallId assistantMsg calls := by
  rw [callRenamings, callRenamings, callRenamings, ← filter_append, ← map_append]
  rfl

def transformBlock : AssistantBlock → List AssistantBlock
  | .thinking block => (transformThinking (isSameModel model assistantMsg) block).toList
  | .text block =>
    [if isSameModel model assistantMsg then .text block else .text { text := block.text }]
  | .toolCall toolCall => [.toolCall (normalizedToolCall model normalizeToolCallId assistantMsg toolCall)]

/-- A message as it is replayed after the renamings of earlier messages. -/
def replayedAs (pairs : List (JsString × JsString)) : Message → Message
  | .user content timestamp => .user content timestamp
  | .toolResult msg => .toolResult { msg with toolCallId := renamed pairs msg.toolCallId }
  | .assistant msg =>
    .assistant { msg with
      content := msg.content.flatMap (transformBlock model normalizeToolCallId msg) }

/-- A message with its images replaced where the model takes none. -/
def awareMessage (msg : Message) : Message :=
  if InputKind.image ∈ model.input then msg else downgradeImages msg

/-- The first pass as a function of the renamings so far. -/
def replayedFrom (pairs : List (JsString × JsString)) : List Message → List Message
  | [] => []
  | msg :: messages =>
    replayedAs model normalizeToolCallId pairs (awareMessage model msg) ::
      replayedFrom (pairs ++ messageRenamings model normalizeToolCallId msg) messages

theorem transformContent_spec (h : Records toolCallIdMap pairs) (content : List AssistantBlock) :
    Records (transformContent model normalizeToolCallId assistantMsg toolCallIdMap content).1
        (pairs ++ callRenamings model normalizeToolCallId assistantMsg
          (content.filterMap toolCall?)) ∧
      (transformContent model normalizeToolCallId assistantMsg toolCallIdMap content).2 =
        content.flatMap (transformBlock model normalizeToolCallId assistantMsg) := by
  induction content generalizing toolCallIdMap pairs with
  | nil =>
    refine ⟨?_, rfl⟩
    have hnil : callRenamings model normalizeToolCallId assistantMsg [] = [] := rfl
    rw [filterMap_nil, hnil, append_nil]
    exact h
  | cons block content ih =>
    cases block with
    | thinking block | text block =>
      obtain ⟨hmap, hcontent⟩ := ih h
      refine ⟨hmap, ?_⟩
      rw [flatMap_cons, ← hcontent]
      rfl
    | toolCall toolCall =>
      obtain ⟨hmap, hcontent⟩ := ih (h.recordId model normalizeToolCallId assistantMsg toolCall)
      refine ⟨?_, ?_⟩
      · rw [filterMap_cons_some (show toolCall? (.toolCall toolCall) =
          some toolCall from rfl), callRenamings_cons, ← append_assoc]
        exact hmap
      · rw [flatMap_cons, ← hcontent]
        rfl

end

theorem downgradeImages_renamings (msg : Message) :
    messageRenamings model normalizeToolCallId (awareMessage model msg) =
      messageRenamings model normalizeToolCallId msg := by
  unfold awareMessage
  split
  · rfl
  · rcases msg with ⟨⟨⟩ | ⟨⟩, timestamp⟩ | msg | msg
    all_goals rfl

section

variable {toolCallIdMap : JsMap JsString JsString} {pairs : List (JsString × JsString)}

theorem transformMessage_spec (h : Records toolCallIdMap pairs) (msg : Message) :
    Records (transformMessage model normalizeToolCallId toolCallIdMap msg).1
        (pairs ++ messageRenamings model normalizeToolCallId msg) ∧
      (transformMessage model normalizeToolCallId toolCallIdMap msg).2 =
        replayedAs model normalizeToolCallId pairs msg := by
  cases msg with
  | user content timestamp =>
    refine ⟨?_, rfl⟩
    rw [messageRenamings, append_nil]
    exact h
  | toolResult msg =>
    refine ⟨?_, ?_⟩
    · rw [messageRenamings, append_nil]
      exact h
    · rw [transformMessage, replayedAs, h.resultId]
  | assistant assistantMsg =>
    obtain ⟨hmap, hcontent⟩ :=
      transformContent_spec model normalizeToolCallId assistantMsg h assistantMsg.content
    refine ⟨hmap, ?_⟩
    rw [transformMessage, replayedAs, hcontent]

theorem transformAll_eq (h : Records toolCallIdMap pairs)
    (messages : List Message) : transformAll model normalizeToolCallId toolCallIdMap
        (downgradeUnsupportedImages messages model) =
      replayedFrom model normalizeToolCallId pairs messages := by
  have haware : downgradeUnsupportedImages messages model = messages.map (awareMessage model) := by
    unfold downgradeUnsupportedImages awareMessage
    split
    · exact (map_id' messages).symm
    · rfl
  rw [haware]
  clear haware
  induction messages generalizing toolCallIdMap pairs with
  | nil => rfl
  | cons msg messages ih =>
    obtain ⟨hmap, hmsg⟩ := transformMessage_spec model normalizeToolCallId h (awareMessage model msg)
    rw [downgradeImages_renamings] at hmap
    rw [map_cons, transformAll, replayedFrom, hmsg, ih hmap]

end

theorem replayedFrom_append (pairs : List (JsString × JsString)) (messages more : List Message) :
    replayedFrom model normalizeToolCallId pairs (messages ++ more) =
      replayedFrom model normalizeToolCallId pairs messages ++
        replayedFrom model normalizeToolCallId
          (pairs ++ renamings model normalizeToolCallId messages) more := by
  induction messages generalizing pairs with
  | nil =>
    rw [renamings, flatMap_nil, append_nil]
    rfl
  | cons msg messages ih =>
    rw [cons_append, replayedFrom, ih, replayedFrom, renamings_cons, append_assoc]
    rfl

theorem replayedFrom_eq_append_cons {messages : List Message} {before' rest' : List Message}
    {msg' : Message}
    (h : replayedFrom model normalizeToolCallId pairs messages = before' ++ msg' :: rest') :
    ∃ before msg rest, messages = before ++ msg :: rest ∧
      msg' = replayedAs model normalizeToolCallId
        (pairs ++ renamings model normalizeToolCallId before) (awareMessage model msg) ∧
      rest' = replayedFrom model normalizeToolCallId
        (pairs ++ renamings model normalizeToolCallId (before ++ [msg])) rest := by
  induction before' generalizing pairs messages with
  | nil =>
    cases messages with
    | nil => contradiction
    | cons msg messages =>
      obtain ⟨hmsg, hrest⟩ := List.cons.inj h
      refine ⟨[], msg, messages, rfl, ?_, ?_⟩
      · rw [← hmsg, renamings, flatMap_nil, append_nil]
      · rw [← hrest, nil_append, renamings_singleton]
  | cons x before' ih =>
    cases messages with
    | nil => contradiction
    | cons msg₀ messages =>
      obtain ⟨-, htail⟩ := List.cons.inj h
      obtain ⟨before, msg, rest, rfl, hmsg, hrest⟩ := ih htail
      refine ⟨msg₀ :: before, msg, rest, rfl, ?_, ?_⟩
      · rw [hmsg, append_assoc, renamings_cons]
      · rw [hrest, append_assoc, cons_append, renamings_cons]

theorem awareMessage_assistant (msg : AssistantMessage) :
    awareMessage model (.assistant msg) = .assistant msg := by
  unfold awareMessage
  split
  · rfl
  · rfl

theorem awareMessage_toolResult (msg : ToolResultMessage) :
    ∃ content, awareMessage model (.toolResult msg) =
      .toolResult { msg with content := content } := by
  unfold awareMessage
  split
  · exact ⟨msg.content, rfl⟩
  · exact ⟨_, rfl⟩

section

variable (pairs : List (JsString × JsString))

theorem isReplayed_replayedAs (msg : Message) :
    (replayedAs model normalizeToolCallId pairs (awareMessage model msg)).isReplayed =
      msg.isReplayed := by
  unfold awareMessage
  split
  · cases msg with
    | user content timestamp => rfl
    | assistant msg => rfl
    | toolResult msg => rfl
  · rcases msg with ⟨⟨⟩ | ⟨⟩, timestamp⟩ | msg | msg
    all_goals rfl

theorem toolCalls_transformed (msg : AssistantMessage) :
    (msg.content.flatMap (transformBlock model normalizeToolCallId msg)).filterMap toolCall? =
      msg.toolCalls.map (normalizedToolCall model normalizeToolCallId msg) := by
  rw [AssistantMessage.toolCalls]
  induction msg.content with
  | nil => rfl
  | cons block content ih =>
    rw [flatMap_cons, filterMap_append, ih]
    cases block with
    | thinking block =>
      have hnone : (transformBlock model normalizeToolCallId msg (.thinking block)).filterMap
          toolCall? = [] := by
        rw [transformBlock]
        unfold transformThinking
        split_ifs <;> rfl
      rw [hnone]
      rfl
    | text block =>
      have hnone : (transformBlock model normalizeToolCallId msg (.text block)).filterMap
          toolCall? = [] := by
        rw [transformBlock]
        split_ifs <;> rfl
      rw [hnone]
      rfl
    | toolCall toolCall => rfl

theorem sameTurn_replayedAs (msg : Message) :
    SameTurn msg (replayedAs model normalizeToolCallId pairs (awareMessage model msg)) := by
  cases msg with
  | user content timestamp =>
    unfold awareMessage
    split
    · exact rfl
    · cases content with
      | string s => exact rfl
      | blocks bs => exact rfl
  | toolResult msg =>
    unfold awareMessage
    split
    · exact ⟨rfl, rfl, rfl, rfl, Or.inl rfl⟩
    · exact ⟨rfl, rfl, rfl, rfl, Or.inr rfl⟩
  | assistant msg =>
    rw [awareMessage_assistant, replayedAs, SameTurn, AssistantMessage.toolCalls,
      AssistantMessage.toolCalls, toolCalls_transformed, map_map]
    rfl

theorem forall₂_sameTurn (messages : List Message) :
    Forall₂ SameTurn (messages.filter Message.isReplayed)
      ((replayedFrom model normalizeToolCallId pairs messages).filter Message.isReplayed) := by
  induction messages generalizing pairs with
  | nil => exact List.Forall₂.nil
  | cons msg messages ih =>
    rw [replayedFrom]
    by_cases hkept : msg.isReplayed = true
    · rw [filter_cons_of_pos hkept, filter_cons_of_pos (by rw [isReplayed_replayedAs]; exact hkept)]
      exact List.Forall₂.cons (sameTurn_replayedAs model normalizeToolCallId pairs msg) (ih _)
    · rw [filter_cons_of_neg hkept, filter_cons_of_neg (by rw [isReplayed_replayedAs]; exact hkept)]
      exact ih _

end

end Renaming

end AcademicAgent
