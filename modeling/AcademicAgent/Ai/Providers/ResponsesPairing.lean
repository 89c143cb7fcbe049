import AcademicAgent.Core.Preceding
import AcademicAgent.Ai.Providers.ResponsesMessages
import AcademicAgent.Ai.Providers.ToolCallIdSafety

/-!
# Ids and calls of the input items

The message items of a converted history have different ids, and every result has exactly one
call before it, under conditions on the text blocks and the calls of the history.
-/

namespace AcademicAgent

open List
open Option (bind_eq_some_iff some.inj)

open Preceding (Each each_append each_cons each_nil)

namespace Responses

variable {msgIndex : Nat} {items : List InputItem} {msg : Message} {messages : List Message}

def InputItem.messageId? : InputItem → Option JsString
  | .message _ id _ => some id
  | _ => none

def InputItem.callId? : InputItem → Option JsString
  | .functionCall _ callId _ _ => some callId
  | _ => none

section

variable (items : List InputItem)

def messageIds : List JsString := items.filterMap InputItem.messageId?

def callIds : List JsString := items.filterMap InputItem.callId?

def blockHasItem : AssistantBlock → Bool
  | .thinking block => (nonEmpty block.thinkingSignature).isSome
  | .text _ | .toolCall _ => true

/-- A message that becomes an item or more, so that it is counted. -/
def hasItems : Message → Bool
  | .user content _ => userContent content ≠ []
  | .assistant msg => msg.content.any blockHasItem
  | .toolResult _ => true

def textBlock? : AssistantBlock → Option TextContent
  | .text block => some block
  | .thinking _ | .toolCall _ => none

/-- The text blocks of a message that are converted. -/
def textBlocks : Message → List TextContent
  | .assistant msg => msg.content.filterMap textBlock?
  | .user _ _ | .toolResult _ => []

def sentCallIds : Message → List JsString
  | .assistant msg => msg.toolCalls.map fun toolCall => callIdPart toolCall.id
  | .user _ _ | .toolResult _ => []

def textIdsFrom : Nat → List Message → List TextId
  | _, [] => []
  | msgIndex, msg :: messages =>
    (textBlocks msg).map (textId msgIndex) ++
      textIdsFrom (if hasItems msg then msgIndex + 1 else msgIndex) messages

def AnswersCall (before : List InputItem) (item : InputItem) (_ : List InputItem) : Prop :=
  ∀ callId output, item = .functionCallOutput callId output → (callIds before).count callId = 1

/-- Every result is behind exactly one call with its call id. -/
def CallsPaired : Prop := Each AnswersCall [] items

end

theorem callIds_append (items more : List InputItem) :
    callIds (items ++ more) = callIds items ++ callIds more := filterMap_append

theorem messageIds_append (items more : List InputItem) :
    messageIds (items ++ more) = messageIds items ++ messageIds more := filterMap_append

/-- What the items of a message are, as far as ids go. -/
structure ItemsOf (msgIndex : Nat) (texts : List TextContent) (calls : List JsString)
    (counted : Bool) (items : List InputItem) : Prop where
  messageIds_eq : messageIds items = texts.map fun block => (textId msgIndex block).msgId
  callIds_eq : callIds items = calls
  counted_iff : items = [] ↔ counted = false
  noOutput : ∀ callId output, .functionCallOutput callId output ∉ items

theorem ItemsOf.append {texts texts' : List TextContent} {calls calls' : List JsString}
    {counted counted' : Bool} {items' : List InputItem}
    (h : ItemsOf msgIndex texts calls counted items)
    (h' : ItemsOf msgIndex texts' calls' counted' items') :
    ItemsOf msgIndex (texts ++ texts') (calls ++ calls') (counted || counted')
      (items ++ items') where
  messageIds_eq := by
    rw [messageIds_append, h.messageIds_eq, h'.messageIds_eq, map_append]
  callIds_eq := by rw [callIds_append, h.callIds_eq, h'.callIds_eq]
  counted_iff := by
    rw [append_eq_nil_iff, h.counted_iff, h'.counted_iff, Bool.or_eq_false_iff]
  noOutput callId output hmem :=
    (mem_append.mp hmem).elim (h.noOutput callId output) (h'.noOutput callId output)

theorem blockItems_spec {differentModel : Bool} {block : AssistantBlock}
    (h : blockItems differentModel msgIndex block = some items) :
    ItemsOf msgIndex (textBlock? block).toList
      ((AssistantBlock.toolCall? block).toList.map fun toolCall => callIdPart toolCall.id)
      (blockHasItem block) items := by
  cases block with
  | text block =>
    obtain rfl := some.inj h
    exact ⟨rfl, rfl, by simp [blockHasItem], fun _ _ hmem => by simp at hmem⟩
  | toolCall toolCall =>
    obtain rfl := some.inj h
    exact ⟨rfl, rfl, by simp [blockHasItem], fun _ _ hmem => by simp [functionCall] at hmem⟩
  | thinking block =>
    rw [blockItems] at h
    cases hsignature : nonEmpty block.thinkingSignature with
    | none =>
      rw [hsignature] at h
      obtain rfl := some.inj h
      exact ⟨rfl, rfl, by simp [blockHasItem, hsignature], fun _ _ hmem => by cases hmem⟩
    | some signature =>
      rw [hsignature] at h
      obtain ⟨item, -, rfl⟩ := Option.map_eq_some_iff.mp h
      exact ⟨rfl, rfl, by simp [blockHasItem, hsignature], fun _ _ hmem => by simp at hmem⟩

theorem contentItems_spec {differentModel : Bool} {content : List AssistantBlock}
    (h : contentItems differentModel msgIndex content = some items) :
    ItemsOf msgIndex (content.filterMap textBlock?)
      ((content.filterMap AssistantBlock.toolCall?).map fun toolCall => callIdPart toolCall.id)
      (content.any blockHasItem) items := by
  induction content generalizing items with
  | nil =>
    obtain rfl := some.inj h
    exact ⟨rfl, rfl, by simp, fun _ _ hmem => nomatch hmem⟩
  | cons block content ih =>
    obtain ⟨first, hfirst, h⟩ := bind_eq_some_iff.mp h
    obtain ⟨rest, hrest, h⟩ := bind_eq_some_iff.mp h
    obtain rfl := some.inj h
    have happend := (blockItems_spec hfirst).append (ih hrest)
    have hcons {β : Type} (f : AssistantBlock → Option β) :
        (block :: content).filterMap f = (f block).toList ++ content.filterMap f := by
      rw [filterMap_cons]
      cases f block with
      | none => rfl
      | some b => rfl
    rw [hcons, hcons, map_append, any_cons]
    exact happend

section

variable {model : Model} {msgIndex : Nat}

theorem messageItems_spec (h : messageItems model msgIndex msg = some items)
    (hresult : msg.isToolResult = false) :
    ItemsOf msgIndex (textBlocks msg) (sentCallIds msg) (hasItems msg) items := by
  cases msg with
  | user content timestamp =>
    obtain rfl := some.inj h
    by_cases hempty : userContent content = []
    · rw [if_pos hempty]
      exact ⟨rfl, rfl, by simp [hasItems, hempty], fun _ _ hmem => nomatch hmem⟩
    · rw [if_neg hempty]
      exact ⟨rfl, rfl, by simp [hasItems, hempty], fun _ _ hmem => by simp at hmem⟩
  | assistant msg => exact contentItems_spec h
  | toolResult msg => cases hresult

theorem convertFrom_cons (h : convertFrom model msgIndex (msg :: messages) = some items) :
    ∃ first rest, messageItems model msgIndex msg = some first ∧
      convertFrom model (if hasItems msg then msgIndex + 1 else msgIndex) messages = some rest ∧
      items = first ++ rest := by
  obtain ⟨first, hfirst, h⟩ := bind_eq_some_iff.mp h
  obtain ⟨rest, hrest, h⟩ := bind_eq_some_iff.mp h
  refine ⟨first, rest, hfirst, ?_, (some.inj h).symm⟩
  have hcounted : first = [] ↔ hasItems msg = false := by
    cases msg with
    | toolResult msg =>
      obtain rfl := some.inj hfirst
      simp [hasItems]
    | user content timestamp | assistant msg => exact (messageItems_spec hfirst rfl).counted_iff
  rw [← hrest]
  congr 1
  by_cases hnil : first = []
  · rw [if_pos hnil, hcounted.mp hnil, if_neg Bool.false_ne_true]
  · rw [if_neg hnil, if_pos (by simpa using mt hcounted.mpr hnil)]

theorem messageIds_convertFrom (h : convertFrom model msgIndex messages = some items) :
    messageIds items = (textIdsFrom msgIndex messages).map TextId.msgId := by
  induction messages generalizing msgIndex items with
  | nil =>
    obtain rfl := some.inj h
    rfl
  | cons msg messages ih =>
    obtain ⟨first, rest, hfirst, hrest, rfl⟩ := convertFrom_cons h
    rw [textIdsFrom, map_append, messageIds_append, ih hrest]
    congr 1
    cases msg with
    | toolResult msg =>
      obtain rfl := some.inj hfirst
      rfl
    | user content timestamp => exact (messageItems_spec hfirst rfl).messageIds_eq
    | assistant msg =>
      rw [(messageItems_spec hfirst rfl).messageIds_eq, map_map]
      rfl

end

def TextId.stored? : TextId → Option JsString
  | .stored id => some id
  | .counter _ => none

def TextId.counter? : TextId → Option Nat
  | .counter msgIndex => some msgIndex
  | .stored _ => none

/-- The ids that the signatures of the converted text blocks store. -/
def storedIds (messages : List Message) : List JsString :=
  (textIdsFrom 0 messages).filterMap TextId.stored?

def isUnsigned (block : TextContent) : Bool :=
  (nonEmpty ((parseTextSignature block.textSignature).map TextSignature.id)).isNone

/-- No message has two text blocks without a stored id, no two stored ids become the same one
when they are too long, and none becomes the id of a counter. -/
structure TextIdsApart (messages : List Message) : Prop where
  unsigned : ∀ msg ∈ messages, ((textBlocks msg).filter isUnsigned).length ≤ 1
  stored : ∀ x y, .stored x ∈ textIdsFrom 0 messages → .stored y ∈ textIdsFrom 0 messages →
    shortenedId x = shortenedId y → x = y
  counter : ∀ x msgIndex, .stored x ∈ textIdsFrom 0 messages →
    .counter msgIndex ∈ textIdsFrom 0 messages → shortenedId x ≠ counterId msgIndex

theorem mem_filterMap_stored {ids : List TextId} {x : JsString} :
    x ∈ ids.filterMap TextId.stored? ↔ .stored x ∈ ids := by
  rw [mem_filterMap]
  constructor
  · rintro ⟨id, hmem, hid⟩
    cases id with
    | stored y => exact some.inj hid ▸ hmem
    | counter k => cases hid
  · exact fun h => ⟨_, h, rfl⟩

theorem mem_filterMap_counter {ids : List TextId} {k : Nat} :
    k ∈ ids.filterMap TextId.counter? ↔ .counter k ∈ ids := by
  rw [mem_filterMap]
  constructor
  · rintro ⟨id, hmem, hid⟩
    cases id with
    | counter j => exact some.inj hid ▸ hmem
    | stored y => cases hid
  · exact fun h => ⟨_, h, rfl⟩

theorem nodup_textIds_iff (ids : List TextId) :
    ids.Nodup ↔ (ids.filterMap TextId.stored?).Nodup ∧ (ids.filterMap TextId.counter?).Nodup := by
  induction ids with
  | nil => simp
  | cons id ids ih =>
    rw [nodup_cons, ih]
    cases id with
    | stored x =>
      have hstored : (TextId.stored x :: ids).filterMap TextId.stored? =
          x :: ids.filterMap TextId.stored? := rfl
      have hcounter : (TextId.stored x :: ids).filterMap TextId.counter? =
          ids.filterMap TextId.counter? := rfl
      rw [hstored, hcounter, nodup_cons, mem_filterMap_stored, and_assoc]
    | counter k =>
      have hstored : (TextId.counter k :: ids).filterMap TextId.stored? =
          ids.filterMap TextId.stored? := rfl
      have hcounter : (TextId.counter k :: ids).filterMap TextId.counter? =
          k :: ids.filterMap TextId.counter? := rfl
      rw [hstored, hcounter, nodup_cons, mem_filterMap_counter]
      exact and_left_comm

theorem counters_map_textId (k : Nat) (blocks : List TextContent) :
    (blocks.map (textId k)).filterMap TextId.counter? =
      replicate (blocks.filter isUnsigned).length k := by
  induction blocks with
  | nil => rfl
  | cons block blocks ih =>
    rw [map_cons, filterMap_cons, ih, filter_cons, textId, isUnsigned]
    cases nonEmpty ((parseTextSignature block.textSignature).map TextSignature.id) with
    | none => rfl
    | some id => rfl

theorem hasItems_of_textBlocks (h : textBlocks msg ≠ []) : hasItems msg = true := by
  cases msg with
  | user content timestamp => exact absurd rfl h
  | toolResult msg => rfl
  | assistant msg =>
    obtain ⟨block, hblock⟩ := exists_mem_of_ne_nil _ h
    obtain ⟨b, hb, htext⟩ := mem_filterMap.mp hblock
    refine any_eq_true.mpr ⟨b, hb, ?_⟩
    cases b with
    | text c => rfl
    | thinking c => cases htext
    | toolCall c => rfl

theorem le_of_counter_mem {k j : Nat} (h : j ∈ (textIdsFrom k messages).filterMap TextId.counter?) :
    k ≤ j := by
  induction messages generalizing k with
  | nil => cases h
  | cons msg messages ih =>
    rw [textIdsFrom, filterMap_append, counters_map_textId] at h
    rcases mem_append.mp h with h | h
    · exact (eq_of_mem_replicate h).ge
    · have hle := ih h
      split at hle <;> omega

theorem nodup_counters_iff (k : Nat) (messages : List Message) :
    ((textIdsFrom k messages).filterMap TextId.counter?).Nodup ↔
      ∀ msg ∈ messages, ((textBlocks msg).filter isUnsigned).length ≤ 1 := by
  induction messages generalizing k with
  | nil => simp [textIdsFrom]
  | cons msg messages ih =>
    rw [textIdsFrom, filterMap_append, counters_map_textId, nodup_append', ih,
      nodup_replicate, forall_mem_cons]
    refine and_congr_right fun _ => and_iff_left ?_
    intro j hj hrest
    obtain rfl := eq_of_mem_replicate hj
    have hle := le_of_counter_mem hrest
    have hblocks : textBlocks msg ≠ [] := by
      intro hnil
      rw [hnil] at hj
      cases hj
    rw [if_pos (hasItems_of_textBlocks hblocks)] at hle
    omega

theorem counterId_injective {j k : Nat} (h : counterId j = counterId k) : j = k := by
  have hvalue := congrArg digitsValue (append_cancel_left h)
  rwa [digitsValue_decimalText, digitsValue_decimalText] at hvalue

theorem nodup_messageIds_iff (hstored : (storedIds messages).Nodup) :
    ((textIdsFrom 0 messages).map TextId.msgId).Nodup ↔ TextIdsApart messages := by
  constructor
  · intro h
    have hnodup : (textIdsFrom 0 messages).Nodup := List.Nodup.of_map _ h
    have hinj := inj_on_of_nodup_map h
    refine ⟨(nodup_counters_iff 0 messages).mp ((nodup_textIds_iff _).mp hnodup).2, ?_, ?_⟩
    · intro x y hx hy heq
      exact TextId.stored.inj (hinj hx hy heq)
    · intro x k hx hk heq
      cases hinj hx hk heq
  · intro h
    refine List.Nodup.map_on ?_
      ((nodup_textIds_iff _).mpr ⟨hstored, (nodup_counters_iff 0 messages).mpr h.unsigned⟩)
    intro a ha b hb heq
    cases a with
    | stored x =>
      cases b with
      | stored y => exact congrArg TextId.stored (h.stored x y ha hb heq)
      | counter k => exact absurd heq (h.counter x k ha hb)
    | counter j =>
      cases b with
      | stored y => exact absurd heq.symm (h.counter y j hb ha)
      | counter k => exact congrArg TextId.counter (counterId_injective heq)

def allCallIds (messages : List Message) : List JsString := messages.flatMap sentCallIds

/-- A result behind exactly one call, among messages. -/
def AnswersSentCall (before : List Message) (msg : Message) (_ : List Message) : Prop :=
  ∀ result, msg = .toolResult result →
    (allCallIds before).count (callIdPart result.toolCallId) = 1

theorem allCallIds_append (messages more : List Message) :
    allCallIds (messages ++ more) = allCallIds messages ++ allCallIds more := flatMap_append

theorem allCallIds_singleton (msg : Message) : allCallIds [msg] = sentCallIds msg :=
  append_nil _

theorem each_answersCall_of_noOutput {before : List InputItem}
    (h : ∀ callId output, .functionCallOutput callId output ∉ items) :
    Each AnswersCall before items := by
  intro pre item post heq callId output hitem
  exact absurd (heq ▸ hitem ▸ mem_append_right pre mem_cons_self) (h callId output)

theorem callsPaired_iff {model : Model} {msgIndex : Nat} {messages : List Message}
    {items : List InputItem} (h : convertFrom model msgIndex messages = some items)
    {itemsBefore : List InputItem} {messagesBefore : List Message}
    (hbefore : callIds itemsBefore = allCallIds messagesBefore) :
    Each AnswersCall itemsBefore items ↔ Each AnswersSentCall messagesBefore messages := by
  induction messages generalizing msgIndex items itemsBefore messagesBefore with
  | nil =>
    obtain rfl := some.inj h
    exact iff_of_true each_nil each_nil
  | cons msg messages ih =>
    obtain ⟨first, rest, hfirst, hrest, rfl⟩ := convertFrom_cons h
    have hcalls : callIds first = sentCallIds msg := by
      cases msg with
      | toolResult msg =>
        obtain rfl := some.inj hfirst
        rfl
      | user content timestamp | assistant msg => exact (messageItems_spec hfirst rfl).callIds_eq
    have hafter : callIds (itemsBefore ++ first) = allCallIds (messagesBefore ++ [msg]) := by
      rw [callIds_append, allCallIds_append, hbefore, hcalls, allCallIds_singleton]
    have hone : Each AnswersCall itemsBefore first ↔
        AnswersSentCall messagesBefore msg messages := by
      cases msg with
      | toolResult msg =>
        obtain rfl := some.inj hfirst
        rw [each_cons, AnswersCall, AnswersSentCall, hbefore]
        constructor
        · intro hresult result hmsg
          obtain rfl := Message.toolResult.inj hmsg
          exact hresult.1 _ _ rfl
        · intro hresult
          refine ⟨fun callId output hitem => ?_, each_nil⟩
          obtain ⟨rfl, -⟩ := InputItem.functionCallOutput.inj hitem
          exact hresult _ rfl
      | user content timestamp | assistant msg =>
        refine iff_of_true ?_ (fun result hmsg => nomatch hmsg)
        exact each_answersCall_of_noOutput (messageItems_spec hfirst rfl).noOutput
    rw [each_append fun _ _ _ _ h => h, each_cons, hone, ih hrest hafter]

/-- The call ids of the messages that are not dropped. -/
def keptCallIds (messages : List Message) : List JsString :=
  allCallIds (messages.filter Message.isReplayed)

/-- A result of a history is behind exactly one call with its call id; so is a call without a
result, for the result that is made up. -/
def Pairable (before : List Message) (msg : Message) (rest : List Message) : Prop :=
  match msg with
  | .user _ _ => True
  | .toolResult result => (keptCallIds before).count (callIdPart result.toolCallId) = 1
  | .assistant msg =>
    msg.isDropped = false → ∀ toolCall ∈ msg.toolCalls, (∀ n, ¬ AnswersIn rest toolCall.id n) →
      (keptCallIds (before ++ [.assistant msg])).count (callIdPart toolCall.id) = 1

theorem keptCallIds_append (messages more : List Message) :
    keptCallIds (messages ++ more) = keptCallIds messages ++ keptCallIds more := by
  rw [keptCallIds, filter_append, allCallIds_append]
  rfl

theorem keptCallIds_singleton (msg : Message) :
    keptCallIds [msg] = if msg.isReplayed then sentCallIds msg else [] := by
  rw [keptCallIds, filter_singleton]
  cases msg.isReplayed with
  | true => exact allCallIds_singleton msg
  | false => rfl

section Replay

variable (now : Nat → Int)

theorem each_answersSentCall_concat {result : ToolResultMessage} :
    Each AnswersSentCall [] (messages ++ [.toolResult result]) ↔ Each AnswersSentCall [] messages ∧
        (allCallIds messages).count (callIdPart result.toolCallId) = 1 := by
  rw [each_append fun _ _ _ _ h => h, each_cons, nil_append]
  refine and_congr_right fun _ => (and_iff_left each_nil).trans ?_
  constructor
  · exact fun h => h result rfl
  · intro h result' hmsg
    obtain rfl := Message.toolResult.inj hmsg
    exact h

theorem each_answersSentCall_concat_of_noResult (h : msg.isToolResult = false) :
    Each AnswersSentCall [] (messages ++ [msg]) ↔ Each AnswersSentCall [] messages := by
  rw [each_append fun _ _ _ _ h => h, each_cons]
  refine and_iff_left ⟨fun result hmsg => ?_, each_nil⟩
  rw [hmsg] at h
  cases h

theorem insertMissing_paired (s : Replay) (calls : List ToolCall) :
    (Each AnswersSentCall [] (calls.foldl (insertMissing now) s).result ↔
      Each AnswersSentCall [] s.result ∧ ∀ c ∈ calls, c.id ∉ s.existingToolResultIds →
          (allCallIds s.result).count (callIdPart c.id) = 1) ∧
    allCallIds (calls.foldl (insertMissing now) s).result = allCallIds s.result := by
  induction calls generalizing s with
  | nil => exact ⟨(and_iff_left fun c hc => nomatch hc).symm, rfl⟩
  | cons tc calls ih =>
    rw [foldl_cons, forall_mem_cons]
    by_cases hexisting : tc.id ∈ s.existingToolResultIds
    · have hskip : insertMissing now s tc = s := if_pos hexisting
      rw [hskip]
      refine ⟨(ih s).1.trans (and_congr_right fun _ => ?_), (ih s).2⟩
      exact (and_iff_right fun hnot => absurd hexisting hnot).symm
    · obtain ⟨hiff, hcalls⟩ := ih (insertMissing now s tc)
      have hresult : (insertMissing now s tc).result =
          s.result ++ [.toolResult (syntheticResult tc (now s.ticks))] := by
        rw [insertMissing, if_neg hexisting]
      have hids : (insertMissing now s tc).existingToolResultIds = s.existingToolResultIds := by
        rw [insertMissing, if_neg hexisting]
      have hsame : allCallIds (insertMissing now s tc).result = allCallIds s.result := by
        rw [hresult, allCallIds_append]
        exact append_nil _
      refine ⟨?_, hcalls.trans hsame⟩
      rw [hiff, hsame, hids, hresult, each_answersSentCall_concat, and_assoc]
      refine and_congr_right fun _ => and_congr_left' ?_
      exact ⟨fun h _ => h, fun h => h hexisting⟩

theorem insertSyntheticToolResults_paired (s : Replay) :
    (Each AnswersSentCall [] (insertSyntheticToolResults now s).result ↔
      Each AnswersSentCall [] s.result ∧ ∀ c ∈ s.pendingToolCalls, c.id ∉ s.existingToolResultIds →
          (allCallIds s.result).count (callIdPart c.id) = 1) ∧
    allCallIds (insertSyntheticToolResults now s).result = allCallIds s.result := by
  rw [insertSyntheticToolResults]
  split
  · rename_i hnil
    rw [hnil]
    exact ⟨(and_iff_left fun c hc => by cases hc).symm, rfl⟩
  · exact insertMissing_paired now s s.pendingToolCalls

/-- The calls that are pending before the rest of a history will each have one call before
the result that is made up for them. -/
def PendingPaired (s : Replay) (rest : List Message) : Prop :=
  ∀ c ∈ s.pendingToolCalls, c.id ∉ s.existingToolResultIds → (∀ n, ¬ AnswersIn rest c.id n) →
    (allCallIds s.result).count (callIdPart c.id) = 1

theorem pendingPaired_cons {s : Replay} {rest : List Message} (h : msg.isToolResult = false) :
    PendingPaired s (msg :: rest) ↔ ∀ c ∈ s.pendingToolCalls, c.id ∉ s.existingToolResultIds →
        (allCallIds s.result).count (callIdPart c.id) = 1 := by
  have hnone : ∀ id n, ¬ AnswersIn (msg :: rest) id n := by
    intro id n hn
    have hresult := hn.results msg (by rw [take_succ_cons]; exact mem_cons_self)
    rw [h] at hresult
    cases hresult
  exact forall₂_congr fun c _ => forall_congr' fun _ =>
    ⟨fun hpaired => hpaired (hnone c.id), fun hpaired _ => hpaired⟩

theorem pendingPaired_of_pending_nil {s : Replay} (h : s.pendingToolCalls = [])
    (rest : List Message) : PendingPaired s rest := by
  intro c hc
  rw [h] at hc
  cases hc

theorem pendingPaired_toolResult {s : Replay} {result : ToolResultMessage} {rest : List Message} :
    PendingPaired (replayMessage now s (.toolResult result)) rest ↔
      PendingPaired s (.toolResult result :: rest) := by
  have hcalls : allCallIds (replayMessage now s (.toolResult result)).result =
      allCallIds s.result := by
    rw [replayMessage, allCallIds_append]
    exact append_nil _
  rw [PendingPaired, PendingPaired, hcalls]
  refine forall₂_congr fun c _ => ?_
  have hanswered : (∀ n, ¬ AnswersIn (.toolResult result :: rest) c.id n) ↔
      result.toolCallId ≠ c.id ∧ ∀ n, ¬ AnswersIn rest c.id n := by
    constructor
    · intro h
      refine ⟨fun heq => h 0 (answersIn_cons_zero.mpr (decide_eq_true heq)), fun n hn => ?_⟩
      exact h (n + 1) (answersIn_cons_succ.mpr ⟨rfl, hn⟩)
    · rintro ⟨hne, hrest⟩ n hn
      cases n with
      | zero => exact hne (of_decide_eq_true (answersIn_cons_zero.mp hn))
      | succ n => exact hrest n (answersIn_cons_succ.mp hn).2
  have hexisting : c.id ∉ (replayMessage now s (.toolResult result)).existingToolResultIds ↔
      result.toolCallId ≠ c.id ∧ c.id ∉ s.existingToolResultIds := by
    rw [replayMessage, mem_cons, not_or]
    exact and_congr_left' ⟨Ne.symm, Ne.symm⟩
  rw [hanswered, hexisting]
  constructor
  · exact fun h hfree hnot => h ⟨hnot.1, hfree⟩ hnot.2
  · exact fun h hboth hrest => h hboth.2 ⟨hboth.1, hrest⟩

theorem replay_paired_iff (transformed : List Message) (s : Replay) (done : List Message)
    (hcalls : allCallIds s.result = keptCallIds done) :
    Each AnswersSentCall []
        (insertSyntheticToolResults now (transformed.foldl (replayMessage now) s)).result ↔
      Each AnswersSentCall [] s.result ∧ PendingPaired s transformed ∧
        Each Pairable done transformed := by
  induction transformed generalizing s done with
  | nil =>
    rw [foldl_nil, (insertSyntheticToolResults_paired now s).1]
    refine and_congr_right fun _ => (Iff.trans ?_ (and_iff_left each_nil).symm)
    exact forall₂_congr fun c _ => forall_congr' fun _ =>
      ⟨fun h _ => h, fun h => h fun n => not_answersIn_nil⟩
  | cons msg transformed ih =>
    obtain ⟨hinsert, hsame⟩ := insertSyntheticToolResults_paired now s
    have hpending := insertSyntheticToolResults_pending now s
    have hdone (h : msg.isToolResult = false) :
        Each AnswersSentCall [] (insertSyntheticToolResults now s).result ↔
          Each AnswersSentCall [] s.result ∧ PendingPaired s (msg :: transformed) := by
      rw [hinsert, pendingPaired_cons h]
    rw [foldl_cons, each_cons]
    cases msg with
    | user content timestamp =>
      have hnext : allCallIds (replayMessage now s (.user content timestamp)).result =
          keptCallIds (done ++ [.user content timestamp]) := by
        rw [replayMessage, allCallIds_append, hsame, hcalls, keptCallIds_append]
        rfl
      have hpair : Pairable done (.user content timestamp) transformed := trivial
      have hstep : Each AnswersSentCall []
          (replayMessage now s (.user content timestamp)).result ↔ _ :=
        (each_answersSentCall_concat_of_noResult rfl).trans (hdone rfl)
      have hnone : PendingPaired (replayMessage now s (.user content timestamp)) transformed :=
        @pendingPaired_of_pending_nil (replayMessage now s (.user content timestamp)) hpending
          transformed
      rw [ih _ _ hnext, hstep, and_iff_right hnone, and_iff_right hpair, and_assoc]
    | toolResult result =>
      have hnext : allCallIds (replayMessage now s (.toolResult result)).result =
          keptCallIds (done ++ [.toolResult result]) := by
        rw [replayMessage, allCallIds_append, hcalls, keptCallIds_append]
        rfl
      have hstep : Each AnswersSentCall [] (replayMessage now s (.toolResult result)).result ↔
            Each AnswersSentCall [] s.result ∧ Pairable done (.toolResult result) transformed := by
        rw [replayMessage, each_answersSentCall_concat, hcalls, Pairable]
      rw [ih _ _ hnext, hstep, pendingPaired_toolResult, and_assoc]
      exact and_congr_right' and_left_comm
    | assistant msg =>
      by_cases hdropped : msg.isDropped = true
      · have hskip : replayMessage now s (.assistant msg) = insertSyntheticToolResults now s :=
          if_pos hdropped
        have hnext : allCallIds (insertSyntheticToolResults now s).result =
            keptCallIds (done ++ [.assistant msg]) := by
          rw [hsame, hcalls, keptCallIds_append, keptCallIds_singleton,
            if_neg (by simp [Message.isReplayed, hdropped]), append_nil]
        have hpair : Pairable done (.assistant msg) transformed := by
          intro hkept
          rw [hdropped] at hkept
          cases hkept
        have hnone := pendingPaired_of_pending_nil hpending transformed
        rw [hskip, ih _ _ hnext, hdone rfl, and_iff_right hnone, and_iff_right hpair, and_assoc]
      · have hresult : (replayMessage now s (.assistant msg)).result =
            (insertSyntheticToolResults now s).result ++ [.assistant msg] := by
          rw [replayMessage, if_neg hdropped]
          split <;> rfl
        have hnext : allCallIds (replayMessage now s (.assistant msg)).result =
            keptCallIds (done ++ [.assistant msg]) := by
          rw [hresult, allCallIds_append, hsame, hcalls, keptCallIds_append, keptCallIds_singleton,
            if_pos (by simp [Message.isReplayed, hdropped]), allCallIds_singleton]
        have hstep : Each AnswersSentCall [] (replayMessage now s (.assistant msg)).result ↔ _ :=
          hresult ▸ (each_answersSentCall_concat_of_noResult rfl).trans (hdone rfl)
        have hpair : PendingPaired (replayMessage now s (.assistant msg)) transformed ↔
            Pairable done (.assistant msg) transformed := by
          rw [PendingPaired, hnext, Pairable]
          have hkept : msg.isDropped = false := Bool.eq_false_iff.mpr hdropped
          rw [replayMessage, if_neg hdropped]
          split
          · rename_i hnil
            rw [hpending, hnil]
            exact iff_of_true (fun c hc => by cases hc) (fun _ c hc => by cases hc)
          · exact ⟨fun h _ c hc => h c hc not_mem_nil, fun h c hc _ => h hkept c hc⟩
        rw [ih _ _ hnext, hstep, hpair, and_assoc]

theorem replayAll_paired_iff (transformed : List Message) :
    Each AnswersSentCall [] (replayAll now transformed) ↔ Each Pairable [] transformed := by
  rw [replayAll, replay_paired_iff now transformed ⟨[], [], [], 0⟩ [] rfl]
  have hnone : PendingPaired ⟨[], [], [], 0⟩ transformed :=
    pendingPaired_of_pending_nil rfl transformed
  exact ⟨fun h => h.2.2, fun h => ⟨each_nil, hnone, h⟩⟩

end Replay

section Conversion

variable (now : Nat → Int) (model : Model) (allowedToolCallProviders : List JsString)

/-- A history with the ids that the converter gives its calls, before turns are dropped and
results are made up. -/
def renamedHistory (context : Context) : List Message :=
  transformAll model (some (normalizeResponsesToolCallId allowedToolCallProviders)) .empty
    (downgradeUnsupportedImages context.messages model)

theorem instructionItems_spec (reasoning includeSystemPrompt : Bool)
    (systemPrompt : Option JsString) :
    messageIds (instructionItems reasoning includeSystemPrompt systemPrompt) = [] ∧
      callIds (instructionItems reasoning includeSystemPrompt systemPrompt) = [] ∧
      ∀ callId output, .functionCallOutput callId output ∉
        instructionItems reasoning includeSystemPrompt systemPrompt := by
  rw [instructionItems]
  split
  · exact ⟨rfl, rfl, fun _ _ hmem => nomatch hmem⟩
  · split
    · exact ⟨rfl, rfl, fun _ _ hmem => by simp at hmem⟩
    · exact ⟨rfl, rfl, fun _ _ hmem => nomatch hmem⟩

/-- The items of a conversion have different message ids, when the stored ones are different,
and paired calls, exactly when the text blocks are apart and the history can be paired. -/
theorem convertResponsesMessages_iff (reasoning : Bool) (context : Context)
    (includeSystemPrompt : Bool) (items : List InputItem)
    (h : convertResponsesMessages now model allowedToolCallProviders reasoning context
      includeSystemPrompt = some items) :
    (((storedIds (transformedMessages now model allowedToolCallProviders context)).Nodup →
        (messageIds items).Nodup) ∧ CallsPaired items) ↔
      ((storedIds (transformedMessages now model allowedToolCallProviders context)).Nodup →
        TextIdsApart (transformedMessages now model allowedToolCallProviders context)) ∧
      Each Pairable [] (renamedHistory model allowedToolCallProviders context) := by
  obtain ⟨converted, hconverted, rfl⟩ := Option.map_eq_some_iff.mp h
  obtain ⟨hmessage, hcall, houtput⟩ :=
    instructionItems_spec reasoning includeSystemPrompt context.systemPrompt
  have hunique : (messageIds (instructionItems reasoning includeSystemPrompt
      context.systemPrompt ++ converted)) =
        (textIdsFrom 0 (transformedMessages now model allowedToolCallProviders context)).map
          TextId.msgId := by
    rw [messageIds_append, hmessage, nil_append, messageIds_convertFrom hconverted]
  have hpaired : CallsPaired (instructionItems reasoning includeSystemPrompt
      context.systemPrompt ++ converted) ↔
        Each Pairable [] (renamedHistory model allowedToolCallProviders context) := by
    rw [CallsPaired, each_append fun _ _ _ _ h => h, nil_append,
      @callsPaired_iff _ _ _ _ hconverted _ [] hcall]
    exact (and_iff_right (each_answersCall_of_noOutput houtput)).trans
      (replayAll_paired_iff now (renamedHistory model allowedToolCallProviders context))
  rw [hunique, hpaired]
  exact and_congr_left' (forall_congr' fun hstored => nodup_messageIds_iff hstored)

end Conversion

def gptModel : Model := ⟨js "g", js "openai-responses", js "openai", [.text]⟩

def callContext : Context := ⟨none, [callingTurn (js "a") (js "x:1"), callResult (js "x:1")]⟩

def callItems : List InputItem :=
  [.functionCall none (js "x_1") (js "f") (js "\x7b\x7d"),
    .functionCallOutput (js "x_1") (.text (js "r"))]

/-- The equivalence for a call with its result. -/
theorem convertResponsesMessages_iff_call :
    (((storedIds (transformedMessages (fun _ => 0) gptModel [] callContext)).Nodup →
        (messageIds callItems).Nodup) ∧ CallsPaired callItems) ↔
      ((storedIds (transformedMessages (fun _ => 0) gptModel [] callContext)).Nodup →
        TextIdsApart (transformedMessages (fun _ => 0) gptModel [] callContext)) ∧
      Each Pairable [] (renamedHistory gptModel [] callContext) :=
  convertResponsesMessages_iff (fun _ => 0) gptModel [] true callContext false callItems (by decide)

/-- A turn of another model that thought before it answered. -/
def thoughtTurn : Message :=
  .assistant
    { content := [.thinking { thinking := js "t" }, .text { text := js "a" }]
      api := js "anthropic-messages"
      provider := js "anthropic"
      model := js "c"
      usage := EMPTY_USAGE
      stopReason := .stop
      timestamp := 0 }

/-- The thought becomes a text, and both have the id of the counter. -/
theorem convertResponsesMessages_same_id :
    ¬ ∀ (now : Nat → Int) (model : Model) (allowed : List JsString) (reasoning : Bool)
      (context : Context) (includeSystemPrompt : Bool) (items : List InputItem),
      convertResponsesMessages now model allowed reasoning context includeSystemPrompt =
          some items →
        ((storedIds (transformedMessages now model allowed context)).Nodup →
          (messageIds items).Nodup) ∧ CallsPaired items := by
  intro h
  have hconvert : convertResponsesMessages (fun _ => 0) gptModel [] true
      ⟨none, [thoughtTurn]⟩ false =
        some [.message (js "t") (js "msg_0") none, .message (js "a") (js "msg_0") none] := by
    decide
  exact absurd ((h _ _ _ _ _ _ _ hconvert).1 (by decide)) (by decide)

end Responses

end AcademicAgent
