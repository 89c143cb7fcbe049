import AcademicAgent.Ai.Providers.ToolCallIds

/-!
# Ids that can be sent

The ids of the calls of a history as a converter sends them: each is one that the target
accepts, and two calls of a message that had different ids still have.
-/

namespace AcademicAgent

open List Message

def Message.assistant? : Message → Option AssistantMessage
  | .assistant msg => some msg
  | .user _ _ | .toolResult _ => none

/-- The assistant messages of a history that are not dropped. -/
def keptTurns (messages : List Message) : List AssistantMessage :=
  (messages.filter Message.isReplayed).filterMap Message.assistant?

theorem keptTurns_singleton (msg : AssistantMessage) :
    keptTurns [.assistant msg] = if msg.isDropped then [] else [msg] := by
  by_cases hdropped : msg.isDropped = true
  · rw [keptTurns, filter_cons_of_neg (by simp [isReplayed, hdropped]), if_pos hdropped]
    rfl
  · rw [keptTurns, filter_cons_of_pos (by simp [isReplayed, hdropped]), if_neg hdropped]
    rfl

theorem keptTurns_append (messages more : List Message) :
    keptTurns (messages ++ more) = keptTurns messages ++ keptTurns more := by
  rw [keptTurns, filter_append, filterMap_append]
  rfl

section Sent

variable (now : Nat → Int) (model : Model) (normalizeToolCallId : NormalizeToolCallId)

def sentTurns (messages : List Message) : List AssistantMessage :=
  (transformMessages now messages model normalizeToolCallId).filterMap Message.assistant?

theorem assistants_insertMissing (s : Replay) (calls : List ToolCall) :
    (calls.foldl (insertMissing now) s).result.filterMap assistant? =
      s.result.filterMap assistant? := by
  induction calls generalizing s with
  | nil => rfl
  | cons tc calls ih =>
    rw [foldl_cons, ih, insertMissing]
    split
    · rfl
    · rw [filterMap_append]
      exact append_nil _

theorem assistants_insertSyntheticToolResults (s : Replay) :
    (insertSyntheticToolResults now s).result.filterMap assistant? =
      s.result.filterMap assistant? := by
  rw [insertSyntheticToolResults]
  split
  · rfl
  · exact assistants_insertMissing now s _

theorem assistants_replayMessage (s : Replay) (msg : Message) :
    (replayMessage now s msg).result.filterMap assistant? =
      s.result.filterMap assistant? ++ keptTurns [msg] := by
  cases msg with
  | user content timestamp =>
    rw [replayMessage, filterMap_append, assistants_insertSyntheticToolResults]
    rfl
  | toolResult msg =>
    rw [replayMessage, filterMap_append]
    rfl
  | assistant msg =>
    rw [replayMessage, keptTurns_singleton]
    split
    · rw [append_nil, assistants_insertSyntheticToolResults]
    · split
      all_goals
        rw [filterMap_append, assistants_insertSyntheticToolResults]
        rfl

theorem assistants_replayAll (transformed : List Message) :
    (replayAll now transformed).filterMap assistant? = keptTurns transformed := by
  have hfold (s : Replay) :
      (transformed.foldl (replayMessage now) s).result.filterMap assistant? =
        s.result.filterMap assistant? ++ keptTurns transformed := by
    induction transformed generalizing s with
    | nil => exact (append_nil _).symm
    | cons msg transformed ih =>
      rw [foldl_cons, ih, assistants_replayMessage, append_assoc, ← keptTurns_append,
        singleton_append]
  rw [replayAll, assistants_insertSyntheticToolResults, hfold]
  rfl

def sentTurn (msg : AssistantMessage) : AssistantMessage :=
  { msg with content := msg.content.flatMap (transformBlock model normalizeToolCallId msg) }

theorem keptTurns_replayedFrom (pairs : List (JsString × JsString)) (messages : List Message) :
    keptTurns (replayedFrom model normalizeToolCallId pairs messages) =
      (keptTurns messages).map (sentTurn model normalizeToolCallId) := by
  induction messages generalizing pairs with
  | nil => rfl
  | cons msg messages ih =>
    rw [replayedFrom, ← singleton_append, keptTurns_append, ih,
      ← singleton_append (l := messages), keptTurns_append, map_append]
    congr 1
    cases msg with
    | assistant msg =>
      have hsent : replayedAs model normalizeToolCallId pairs (.assistant msg) =
          .assistant (sentTurn model normalizeToolCallId msg) := rfl
      have hdropped : (sentTurn model normalizeToolCallId msg).isDropped = msg.isDropped := rfl
      rw [awareMessage_assistant, hsent, keptTurns_singleton, keptTurns_singleton, hdropped]
      split
      · rfl
      · rfl
    | user content timestamp =>
      rw [awareMessage]
      split
      · rfl
      · cases content with
        | string s => rfl
        | blocks bs => rfl
    | toolResult msg =>
      rw [awareMessage]
      split
      · rfl
      · rfl

theorem sentTurns_eq (messages : List Message) : sentTurns now model normalizeToolCallId messages =
      (keptTurns messages).map (sentTurn model normalizeToolCallId) := by
  have hempty : Records .empty [] := fun id => JsMap.get_empty id
  rw [sentTurns, transformMessages, transformAll_eq model normalizeToolCallId hempty,
    assistants_replayAll, keptTurns_replayedFrom]

theorem toolCalls_sentTurn (msg : AssistantMessage) :
    (sentTurn model normalizeToolCallId msg).toolCalls =
      msg.toolCalls.map (normalizedToolCall model normalizeToolCallId msg) :=
  toolCalls_transformed model normalizeToolCallId msg

/-- A turn as it was and as it is sent: the normalized ids are accepted, and the call ids of
calls with different ids are different. -/
structure SafeTurn (accepts : JsString → Prop) (callId : JsString → JsString)
    (msg sent : AssistantMessage) : Prop where
  calls : sent.toolCalls.length = msg.toolCalls.length
  accepted : isSameModel model msg = false → ∀ c ∈ sent.toolCalls, accepts c.id
  apart : ∀ (i j : Nat) (c d c' d' : ToolCall), msg.toolCalls[i]? = some c →
    msg.toolCalls[j]? = some d → sent.toolCalls[i]? = some c' → sent.toolCalls[j]? = some d' →
    c.id ≠ d.id → callId c'.id ≠ callId d'.id

/-- The turns of a history are safe as they are sent. -/
def SafeIds (accepts : JsString → Prop) (callId : JsString → JsString) (messages : List Message) :
    Prop :=
  Forall₂ (SafeTurn model accepts callId) (keptTurns messages)
    (sentTurns now model normalizeToolCallId messages)

/-- The foreign ids of a history are fit, and no two ids of a turn are alike. -/
def ConvertibleIds (fit : JsString → Prop) (alike : AssistantMessage → JsString → JsString → Prop)
    (messages : List Message) : Prop :=
  ∀ msg ∈ keptTurns messages,
    (isSameModel model msg = false → ∀ c ∈ msg.toolCalls, fit c.id) ∧
      ∀ c ∈ msg.toolCalls, ∀ d ∈ msg.toolCalls, c.id ≠ d.id → ¬ alike msg c.id d.id

section Converter

variable {accepts fit : JsString → Prop} {callId : JsString → JsString}
  {alike : AssistantMessage → JsString → JsString → Prop} {model normalizeToolCallId}

theorem safeTurn_iff (hfit : ∀ msg id, isSameModel model msg = false →
      (accepts (normalizedId model normalizeToolCallId msg id) ↔ fit id))
    (halike : ∀ msg x y, (isSameModel model msg = false → fit x ∧ fit y) →
      (callId (normalizedId model normalizeToolCallId msg x) =
        callId (normalizedId model normalizeToolCallId msg y) ↔ alike msg x y))
    (msg : AssistantMessage) :
    SafeTurn model accepts callId msg (sentTurn model normalizeToolCallId msg) ↔
      (isSameModel model msg = false → ∀ c ∈ msg.toolCalls, fit c.id) ∧
        ∀ c ∈ msg.toolCalls, ∀ d ∈ msg.toolCalls, c.id ≠ d.id → ¬ alike msg c.id d.id := by
  have hcalls := toolCalls_sentTurn model normalizeToolCallId msg
  have hget (i : Nat) : (sentTurn model normalizeToolCallId msg).toolCalls[i]? =
      msg.toolCalls[i]?.map (normalizedToolCall model normalizeToolCallId msg) := by
    rw [hcalls, getElem?_map]
  have haccepted : (isSameModel model msg = false →
      ∀ c ∈ (sentTurn model normalizeToolCallId msg).toolCalls, accepts c.id) ↔
        (isSameModel model msg = false → ∀ c ∈ msg.toolCalls, fit c.id) := by
    rw [hcalls]
    refine forall_congr' fun hforeign => ?_
    rw [forall_mem_map]
    exact forall₂_congr fun c _ => hfit msg c.id hforeign
  constructor
  · intro h
    have hfits := haccepted.mp h.accepted
    refine ⟨hfits, fun c hc d hd hne halike' => ?_⟩
    obtain ⟨i, hi⟩ := getElem?_of_mem hc
    obtain ⟨j, hj⟩ := getElem?_of_mem hd
    refine h.apart i j c d _ _ hi hj (by rw [hget, hi]; rfl) (by rw [hget, hj]; rfl) hne ?_
    exact (halike msg c.id d.id fun hf => ⟨hfits hf c hc, hfits hf d hd⟩).mpr halike'
  · rintro ⟨hfits, hapart⟩
    refine ⟨by rw [hcalls, length_map], haccepted.mpr hfits, ?_⟩
    intro i j c d c' d' hi hj hi' hj' hne heq
    rw [hget, hi] at hi'
    rw [hget, hj] at hj'
    obtain rfl := Option.some.inj hi'
    obtain rfl := Option.some.inj hj'
    have hc := mem_of_getElem? hi
    have hd := mem_of_getElem? hj
    exact hapart c hc d hd hne
      ((halike msg c.id d.id fun hf => ⟨hfits hf c hc, hfits hf d hd⟩).mp heq)

theorem safeIds_iff (hfit : ∀ msg id, isSameModel model msg = false →
      (accepts (normalizedId model normalizeToolCallId msg id) ↔ fit id))
    (halike : ∀ msg x y, (isSameModel model msg = false → fit x ∧ fit y) →
      (callId (normalizedId model normalizeToolCallId msg x) =
        callId (normalizedId model normalizeToolCallId msg y) ↔ alike msg x y))
    (messages : List Message) : SafeIds now model normalizeToolCallId accepts callId messages ↔
      ConvertibleIds model fit alike messages := by
  rw [SafeIds, sentTurns_eq, forall₂_map_right_iff, forall₂_same]
  exact forall₂_congr fun msg _ => safeTurn_iff hfit halike msg

end Converter

end Sent

section Converters

variable (model : Model)

theorem normalizedId_of_same {model : Model} {normalizeToolCallId : NormalizeToolCallId}
    {msg : AssistantMessage} (h : isSameModel model msg = true) (id : JsString) :
    normalizedId model normalizeToolCallId msg id = id := if_pos h

theorem normalizedId_of_foreign {model : Model}
    {normalize : JsString → Model → AssistantMessage → JsString} {msg : AssistantMessage}
    (h : isSameModel model msg = false) (id : JsString) :
    normalizedId model (some normalize) msg id = normalize id model msg :=
  if_neg (by rw [h]; exact Bool.false_ne_true)

/-- Two foreign ids that agree up to a limit, except in characters that are replaced. -/
def AlikeWithin (limit : Nat) (part : JsString → JsString) (msg : AssistantMessage)
    (x y : JsString) : Prop :=
  if isSameModel model msg then x = y
  else Forall₂ SameUnit ((part x).take limit) ((part y).take limit)

/-- Two ids whose call ids agree: as they are, or up to the limit and trailing underscores. -/
def AlikeCallIds (allowedToolCallProviders : List JsString) (msg : AssistantMessage)
    (x y : JsString) : Prop :=
  if isSameModel model msg then callIdPart x = callIdPart y
  else ∀ i < 64, SameUnit ((callIdSource allowedToolCallProviders model x).getD i 0x5F)
    ((callIdSource allowedToolCallProviders model y).getD i 0x5F)

/-- An id that the chat completions make acceptable: its characters are replaced only where it
has a separator. -/
def FitsCompletions (id : JsString) : Prop :=
  callIdPart id ≠ [] ∧ (pipe ∉ id → ∀ c ∈ id.take 40, isIdUnit c = true)

/-- An id whose call id is not made of underscores only. -/
def FitsResponses (allowedToolCallProviders : List JsString) (id : JsString) : Prop :=
  ∃ c ∈ (callIdSource allowedToolCallProviders model id).take 64, isBlank c = false

theorem take_ne_nil {limit : Nat} (hlimit : limit ≠ 0) {s : JsString} :
    s.take limit ≠ [] ↔ s ≠ [] := by
  rw [Ne, take_eq_nil_iff]
  simp [hlimit]

theorem idWithin_sanitizeId {limit : Nat} (hlimit : limit ≠ 0) (id : JsString) :
    IdWithin limit ((sanitizeId id).take limit) ↔ id ≠ [] := by
  constructor
  · rintro h rfl
    exact h.ne_nil take_nil
  · intro h
    refine ⟨(take_ne_nil hlimit).mpr fun hnil => h (map_eq_nil_iff.mp hnil), ?_, length_take_le _ _⟩
    exact fun c hc => isIdUnit_sanitizeId id c (mem_of_mem_take hc)

theorem callIdPart_of_notMem {id : JsString} (h : pipe ∉ id) : callIdPart id = id := by
  rw [callIdPart, splitOn_eq_singleton h]
  rfl

section

variable {model : Model} (hprovider : model.provider = js "openai")
include hprovider

theorem normalizeCompletionsToolCallId_eq
    {id : JsString} (h : pipe ∉ id) : normalizeCompletionsToolCallId model id = id.take 40 := by
  rw [normalizeCompletionsToolCallId, if_neg h, if_pos hprovider]
  split
  · rfl
  · rename_i hle
    rw [take_of_length_le (Nat.le_of_not_lt hle)]

theorem idWithin_completions (id : JsString) :
    IdWithin 40 (normalizeCompletionsToolCallId model id) ↔ FitsCompletions id := by
  by_cases hpipe : pipe ∈ id
  · rw [normalizeCompletionsToolCallId, if_pos hpipe, idWithin_sanitizeId (by decide),
      FitsCompletions]
    exact (and_iff_left fun hnot => absurd hpipe hnot).symm
  · rw [normalizeCompletionsToolCallId_eq hprovider hpipe, FitsCompletions,
      callIdPart_of_notMem hpipe]
    constructor
    · exact fun h => ⟨(take_ne_nil (by decide)).mp h.ne_nil, fun _ => h.units⟩
    · exact fun h => ⟨(take_ne_nil (by decide)).mpr h.1, h.2 hpipe, length_take_le _ _⟩

theorem normalizeCompletionsToolCallId_of_fits {id : JsString} (h : FitsCompletions id) :
    normalizeCompletionsToolCallId model id = (sanitizeId (callIdPart id)).take 40 := by
  by_cases hpipe : pipe ∈ id
  · rw [normalizeCompletionsToolCallId, if_pos hpipe]
  · rw [normalizeCompletionsToolCallId_eq hprovider hpipe, callIdPart_of_notMem hpipe, sanitizeId,
      ← map_take]
    have hsame : ∀ c ∈ id.take 40, (if isIdUnit c then c else 0x5F) = c :=
      fun c hc => if_pos (h.2 hpipe c hc)
    rw [map_congr_left hsame, map_id']

end

/-- The ids that each converter sends are accepted and apart exactly when, in every turn that
is sent, the foreign ids are fit for the converter and no two ids are alike. -/
theorem safeIds_converters_iff (now : Nat → Int) (messages : List Message) :
    (SafeIds now model (some fun id _ _ => normalizeAnthropicToolCallId id) (IdWithin 64) id
        messages ↔
      ConvertibleIds model (fun id => id ≠ []) (AlikeWithin model 64 id) messages) ∧
    (model.provider = js "openai" →
      (SafeIds now model (some fun id model _ => normalizeCompletionsToolCallId model id)
          (IdWithin 40) id messages ↔
        ConvertibleIds model FitsCompletions (AlikeWithin model 40 callIdPart) messages)) ∧
    ∀ allowedToolCallProviders,
      (SafeIds now model (some (normalizeResponsesToolCallId allowedToolCallProviders))
          ResponsesIds callIdPart messages ↔
        ConvertibleIds model (FitsResponses model allowedToolCallProviders)
          (AlikeCallIds model allowedToolCallProviders) messages) := by
  refine ⟨?_, fun hprovider => ?_, fun allowedToolCallProviders => ?_⟩
  · refine safeIds_iff now (fun msg id hforeign => ?_) (fun msg x y _ => ?_) messages
    · rw [normalizedId_of_foreign hforeign]
      exact idWithin_sanitizeId (by decide) id
    · rw [AlikeWithin]
      cases hsame : isSameModel model msg with
      | true =>
        rw [normalizedId_of_same hsame, normalizedId_of_same hsame, if_pos rfl]
        exact Iff.rfl
      | false =>
        rw [normalizedId_of_foreign hsame, normalizedId_of_foreign hsame, if_neg Bool.false_ne_true]
        exact take_sanitizeId_eq_iff 64 x y
  · refine safeIds_iff now (fun msg id hforeign => ?_) (fun msg x y hfits => ?_) messages
    · rw [normalizedId_of_foreign hforeign]
      exact idWithin_completions hprovider id
    · rw [AlikeWithin]
      cases hsame : isSameModel model msg with
      | true =>
        rw [normalizedId_of_same hsame, normalizedId_of_same hsame, if_pos rfl]
        exact Iff.rfl
      | false =>
        obtain ⟨hx, hy⟩ := hfits hsame
        rw [normalizedId_of_foreign hsame, normalizedId_of_foreign hsame,
          if_neg Bool.false_ne_true, normalizeCompletionsToolCallId_of_fits hprovider hx,
          normalizeCompletionsToolCallId_of_fits hprovider hy]
        exact take_sanitizeId_eq_iff 40 (callIdPart x) (callIdPart y)
  · refine safeIds_iff now (fun msg id hforeign => ?_) (fun msg x y _ => ?_) messages
    · rw [normalizedId_of_foreign hforeign,
        (normalizeResponsesToolCallId_spec allowedToolCallProviders id model msg).2]
      exact idWithin_normalizeIdPart _
    · rw [AlikeCallIds]
      cases hsame : isSameModel model msg with
      | true =>
        rw [normalizedId_of_same hsame, normalizedId_of_same hsame, if_pos rfl]
      | false =>
        rw [normalizedId_of_foreign hsame, normalizedId_of_foreign hsame, if_neg Bool.false_ne_true,
          (normalizeResponsesToolCallId_spec allowedToolCallProviders x model msg).1,
          (normalizeResponsesToolCallId_spec allowedToolCallProviders y model msg).1]
        exact normalizeIdPart_eq_iff _ _

end Converters

def completionsModel : Model := ⟨js "b", js "openai-completions", js "openai", [.text]⟩

/-- A turn of another model with calls under the given ids. -/
def turnWithIds (ids : List JsString) : AssistantMessage where
  content := ids.map fun id => .toolCall { id, name := js "f", arguments := .emptyObject }
  api := js "google-generative-ai"
  provider := js "google"
  model := js "a"
  usage := EMPTY_USAGE
  stopReason := .toolUse
  timestamp := 0

instance (model : Model) (limit : Nat) (part : JsString → JsString) (msg : AssistantMessage)
    (x y : JsString) : Decidable (AlikeWithin model limit part msg x y) :=
  inferInstanceAs (Decidable (if isSameModel model msg then x = y
    else Forall₂ SameUnit ((part x).take limit) ((part y).take limit)))

instance (id : JsString) : Decidable (FitsCompletions id) :=
  decidable_of_iff (callIdPart id ≠ [] ∧ (pipe ∉ id → (id.take 40).all isIdUnit = true))
    (and_congr_right fun _ => imp_congr_right fun _ => all_eq_true)

/-- Ids that the chat completions keep apart. -/
theorem safeIds_converters_iff_openai : SafeIds (fun _ => 0) completionsModel
      (some fun id model _ => normalizeCompletionsToolCallId model id) (IdWithin 40) id
      [.assistant (turnWithIds [js "c1|x", js "c2"])] := by
  refine ((safeIds_converters_iff completionsModel (fun _ => 0) _).2.1 rfl).mpr ?_
  intro msg hmsg
  obtain rfl := mem_singleton.mp hmsg
  exact ⟨fun _ => by decide, by decide⟩

/-- Two ids that differ in characters that are replaced. -/
theorem normalizeAnthropicToolCallId_collides :
    ¬ ∀ (now : Nat → Int) (model : Model) (messages : List Message),
      SafeIds now model (some fun id _ _ => normalizeAnthropicToolCallId id) (IdWithin 64) id
        messages := by
  intro h
  have hsafe := h (fun _ => 0) replayModel [.assistant (turnWithIds [js "c.1", js "c:1"])]
  rw [SafeIds, sentTurns_eq] at hsafe
  have hturn := (forall₂_cons.mp hsafe).1
  exact hturn.apart 0 1 _ _ _ _ rfl rfl rfl rfl (by decide) (by decide)

end AcademicAgent
