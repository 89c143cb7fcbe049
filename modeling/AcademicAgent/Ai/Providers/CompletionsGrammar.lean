import AcademicAgent.Ai.Providers.CompletionsMessages
import AcademicAgent.Core.Preceding

/-!
# Roles of the request

The messages of a request are what providers want exactly when the results of the history
belong to its calls, and no message of the user without blocks is followed by a second
assistant message between results and the user.
-/

namespace AcademicAgent

open List Preceding

namespace Completions

section Conversion

variable (model : Model) (reasoning : Bool) (compat : Compat) (now : Nat → Int)

variable {images : List ContentPart} {content : MessageContent} {msg : AssistantMessage}
  {lastRole : Option LastRole}

/-- What was sent last: whether it is results, and whether they have images that are sent with
them. -/
structure Sent where
  results : Bool
  images : Bool

/-- A message that puts something of another role behind results. -/
def Sent.isInterrupted (s : Sent) : Message → Bool
  | .toolResult _ => false
  | .user content _ =>
    s.images || compat.requiresAssistantAfterToolResult || (userParam content).isSome
  | .assistant msg =>
    !msg.isDropped && (s.images || (assistantParam reasoning compat msg).isSome)

/-- What was sent last behind a message. A turn with calls will have results. -/
def Sent.after (s : Sent) : Message → Sent
  | .toolResult msg => ⟨true, s.images || resultImages model msg ≠ []⟩
  | .user content _ => if s.images || (userParam content).isSome then ⟨false, false⟩ else s
  | .assistant msg =>
    if msg.isDropped then s
    else if msg.toolCalls ≠ [] then ⟨true, false⟩
    else if s.images || (assistantParam reasoning compat msg).isSome then ⟨false, false⟩
    else s

def sentLast (history : List Message) : Sent :=
  history.foldl (Sent.after model reasoning compat) ⟨false, false⟩

/-- The ids of the results that are sent behind one another. -/
def blockIds : Sent → List Message → List JsString
  | _, [] => []
  | s, .toolResult msg :: rest =>
    msg.toolCallId :: blockIds (s.after model reasoning compat (.toolResult msg)) rest
  | s, .user content timestamp :: rest =>
    if s.isInterrupted reasoning compat (.user content timestamp) then []
    else blockIds (s.after model reasoning compat (.user content timestamp)) rest
  | s, .assistant msg :: rest =>
    if s.isInterrupted reasoning compat (.assistant msg) then []
    else blockIds (s.after model reasoning compat (.assistant msg)) rest

/-- The ids of the results directly behind a turn. -/
def earlyIds (rest : List Message) : List JsString :=
  (resultRun rest).1.map ToolResultMessage.toolCallId

/-- The results that are sent behind a turn are for its calls: each has its id directly behind
the turn, and stands for as many calls as there are results with the id. -/
def ResultsMatch (_ : List Message) (msg : Message) (rest : List Message) : Prop :=
  ∀ turn, msg = .assistant turn → turn.isDropped = false → turn.toolCalls ≠ [] →
    ∀ id ∈ blockIds model reasoning compat ⟨true, false⟩ rest,
      id ∈ earlyIds rest ∧
        (blockIds model reasoning compat ⟨true, false⟩ rest).count id =
          (turn.toolCalls.map ToolCall.id).count id

/-- A bridge is put before a message of the user is sent. -/
def bridgeDue : Sent → List Message → Bool
  | s, [] => s.images
  | s, .toolResult msg :: rest => bridgeDue (s.after model reasoning compat (.toolResult msg)) rest
  | s, .user content timestamp :: rest =>
    s.results || ((userParam content).isNone &&
      bridgeDue (s.after model reasoning compat (.user content timestamp)) rest)
  | s, .assistant msg :: rest =>
    (!msg.isDropped && s.images) || bridgeDue (s.after model reasoning compat (.assistant msg)) rest

/-- A message of the user without blocks behind results, which gets a bridge only, is followed by
no bridge before a message of the user is sent. -/
def EmptyUserAlone (before : List Message) (msg : Message) (rest : List Message) : Prop :=
  ∀ timestamp, msg = .user (.blocks []) timestamp →
    (sentLast model reasoning compat before).results = true →
    (sentLast model reasoning compat before).images = false →
      bridgeDue model reasoning compat ⟨true, false⟩ rest = false

def toolIds : List MessageParam → List JsString
  | .tool toolCallId _ _ :: rest => toolCallId :: toolIds rest
  | _ => []

/-- Directly behind a message with calls stand tool messages for exactly its calls. -/
def CallsAnswered (_ : List MessageParam) (param : MessageParam) (rest : List MessageParam) :
    Prop :=
  ∀ msg, param = .assistant msg → msg.toolCalls ≠ [] →
    (toolIds rest).Perm (msg.toolCalls.map FunctionParam.id)

/-- A message of the user does not stand directly behind a tool message. -/
def NoUserBehindTool (_ : List MessageParam) (param : MessageParam) (rest : List MessageParam) :
    Prop :=
  ∀ id content name, param = .tool id content name → ∀ message more, rest ≠ .user message :: more

/-- Between a bridge and the next one stands a message of the user. -/
def BridgedOnce (_ : List MessageParam) (param : MessageParam) (rest : List MessageParam) : Prop :=
  param = .bridge → ∀ between more, rest = between ++ .bridge :: more →
    ∃ message, .user message ∈ between

/-- What the providers want of the messages of a request. -/
structure IsGrammatical (params : List MessageParam) : Prop where
  answered : Each CallsAnswered [] params
  bridged : compat.requiresAssistantAfterToolResult = true →
    Each NoUserBehindTool [] params
  once : compat.requiresAssistantAfterToolResult = true → Each BridgedOnce [] params

theorem toolIds_append_toolParam (results : List ToolResultMessage) (params : List MessageParam) :
    toolIds (results.map (toolParam compat) ++ params) =
      results.map ToolResultMessage.toolCallId ++ toolIds params := by
  induction results with
  | nil => rfl
  | cons msg results ih =>
    rw [map_cons, cons_append, toolParam, toolIds, ih]
    rfl

theorem toolIds_flushParams (h : images ≠ []) (params : List MessageParam) :
    toolIds (flushParams compat images ++ params) = [] := by
  rw [flushParams, if_pos h, bridgeParams]
  split <;> rfl

theorem flushParams_nil : flushParams compat [] = [] := if_neg (not_not_intro rfl)

theorem eq_user_of_userParam {param : MessageParam} (h : userParam content = some param) :
    ∃ message, param = .user message := by
  fun_cases userParam content with
  | case1 content => exact ⟨_, (Option.some.inj h).symm⟩
  | case2 => contradiction
  | case3 content hne =>
    rw [userParam] at h
    · exact ⟨_, (Option.some.inj h).symm⟩
    · exact hne

theorem eq_nil_of_userParam (h : userParam content = none) : content = .blocks [] := by
  fun_cases userParam content with
  | case1 content => contradiction
  | case2 => rfl
  | case3 content hne =>
    rw [userParam] at h
    · contradiction
    · exact hne

theorem toolCalls_of_assistantParam_eq_none (h : assistantParam reasoning compat msg = none) :
    msg.toolCalls = [] := by
  rw [assistantParam] at h
  split at h
  · rename_i hempty
    exact hempty.2.1
  · contradiction

theorem toolCalls_of_assistantParam_eq_some {param : AssistantParam}
    (h : assistantParam reasoning compat msg = some param) :
    param.toolCalls = msg.toolCalls.map functionParam := by
  rw [assistantParam] at h
  split at h
  · contradiction
  · obtain rfl := Option.some.inj h
    rfl

theorem toolIds_emit_settled (images : List ContentPart) (existing : List JsString) (ticks : Nat)
    (rest : List Message) : toolIds (emit model reasoning compat (some .toolResult) images
        (replayFrom now [] existing ticks rest)) =
      blockIds model reasoning compat ⟨true, images ≠ []⟩ rest := by
  induction rest generalizing images existing ticks with
  | nil =>
    rw [replayFrom, missingResults, map_nil, emit, blockIds]
    by_cases himages : images = []
    · rw [himages, flushParams_nil, toolIds]
      exact fun _ _ _ _ h => by cases h
    · rw [← append_nil (flushParams compat images)]
      exact toolIds_flushParams compat himages []
  | cons msg rest ih =>
    cases msg with
    | toolResult msg =>
      have himages : decide (images ++ resultImages model msg ≠ []) =
          (decide (images ≠ []) || decide (resultImages model msg ≠ [])) := by
        rw [← Bool.decide_or]
        simp
      rw [replayFrom, emit, toolParam, toolIds, ih, blockIds, Sent.after, himages]
    | user content timestamp =>
      rw [replayFrom, missingResults, map_nil, nil_append, emit, blockIds,
        Sent.isInterrupted, Sent.after]
      by_cases himages : images = []
      · subst himages
        rw [flushParams_nil, flushedRole, if_neg (not_not_intro rfl), if_pos rfl, bridgeParams]
        by_cases hbridge : compat.requiresAssistantAfterToolResult = true
        · simp [hbridge, toolIds]
        · cases hparam : userParam content with
          | none => simpa [hbridge] using ih [] [] ticks
          | some param =>
            obtain ⟨message, rfl⟩ := eq_user_of_userParam hparam
            simp [hbridge, toolIds]
      · rw [toolIds_flushParams compat himages]
        simp [himages]
    | assistant msg =>
      rw [replayFrom, missingResults, map_nil, nil_append, blockIds, Sent.isInterrupted, Sent.after]
      by_cases hdropped : msg.isDropped = true
      · simpa [hdropped] using ih images [] ticks
      · rw [if_neg hdropped, emit]
        by_cases himages : images = []
        · subst himages
          rw [flushParams_nil, flushedRole, if_neg (not_not_intro rfl)]
          cases hparam : assistantParam reasoning compat msg with
          | none =>
            have hcalls := toolCalls_of_assistantParam_eq_none reasoning compat hparam
            rw [hcalls]
            simpa [hdropped] using ih [] [] ticks
          | some param => simp [hdropped, toolIds]
        · rw [toolIds_flushParams compat himages]
          simp [himages, hdropped]

section

variable {lastRole : Option LastRole} {pending : List ToolCall} {existing : List JsString}

theorem toolIds_emit_settle (h : lastRole = some .toolResult ∨ ∃ c ∈ pending, c.id ∉ existing)
    (images : List ContentPart) (ticks : Nat) {rest : List Message}
    (hrest : ∀ msg more, rest ≠ .toolResult msg :: more) :
    toolIds (emit model reasoning compat lastRole images
        (replayFrom now pending existing ticks rest)) =
      (pending.map ToolCall.id).filter (fun id => id ∉ existing) ++
        blockIds model reasoning compat ⟨true, images ≠ []⟩ rest := by
  have hlast : (if missingResults now existing ticks pending = [] then lastRole
      else some .toolResult) = some .toolResult := by
    split
    · rename_i hnil
      exact h.resolve_right fun hmissing => (missingResults_ne_nil now).mpr hmissing hnil
    · rfl
  rw [replayFrom_settle now pending existing ticks hrest, emit_missing, hlast,
    toolIds_append_toolParam, missingResults_ids, toolIds_emit_settled]

theorem count_toolIds_emit (h : lastRole = some .toolResult ∨ ∃ c ∈ pending, c.id ∉ existing)
    (images : List ContentPart) (ticks : Nat) (rest : List Message) (id : JsString) :
    (toolIds (emit model reasoning compat lastRole images
        (replayFrom now pending existing ticks rest))).count id =
      (blockIds model reasoning compat ⟨true, images ≠ []⟩ rest).count id +
        if id ∈ existing ∨ id ∈ earlyIds rest then 0
        else (pending.map ToolCall.id).count id := by
  fun_induction resultRun rest generalizing lastRole images existing with
  | case1 msg rest ih =>
    have himages : decide (images ++ resultImages model msg ≠ []) =
        (decide (images ≠ []) || decide (resultImages model msg ≠ [])) := by
      rw [← Bool.decide_or]
      simp
    have hearly : earlyIds (.toolResult msg :: rest) = msg.toolCallId :: earlyIds rest := rfl
    have hmem : (id ∈ msg.toolCallId :: existing ∨ id ∈ earlyIds rest) ↔
        (id ∈ existing ∨ id ∈ earlyIds (.toolResult msg :: rest)) := by
      rw [hearly, mem_cons, mem_cons]
      exact or_assoc.trans or_left_comm
    rw [replayFrom, emit, toolParam, toolIds, count_cons, ih (.inl rfl), blockIds,
      count_cons, Sent.after, himages, if_congr hmem rfl rfl]
    exact Nat.add_right_comm _ _ _
  | case2 rest hrest =>
    have hearly : earlyIds rest = [] := by
      rw [earlyIds, resultRun]
      · rfl
      · exact hrest
    rw [toolIds_emit_settle model reasoning compat now h images ticks hrest, count_append,
      hearly, Nat.add_comm]
    congr 1
    by_cases hmem : id ∈ existing
    · rw [if_pos (.inl hmem)]
      exact count_eq_zero.mpr (by simp [hmem])
    · rw [if_neg (by simp [hmem])]
      exact count_filter (by simpa using hmem)

end

theorem earlyIds_subset_blockIds (s : Sent) (rest : List Message) :
    earlyIds rest ⊆ blockIds model reasoning compat s rest := by
  intro id hid
  fun_induction resultRun rest generalizing s with
  | case1 msg rest ih =>
    rcases mem_cons.mp hid with rfl | hid
    · exact mem_cons_self
    · exact mem_cons_of_mem _ (ih _ hid)
  | case2 rest hrest =>
    rw [earlyIds, resultRun] at hid
    · contradiction
    · exact hrest

theorem callsAnswered_iff (hkept : msg.isDropped = false) (hcalls : msg.toolCalls ≠ [])
    (ticks : Nat) (rest : List Message) : (toolIds (emit model reasoning compat (some .assistant) []
        (replayFrom now msg.toolCalls [] ticks rest))).Perm (msg.toolCalls.map ToolCall.id) ↔
      ResultsMatch model reasoning compat [] (.assistant msg) rest := by
  have hsome : ∃ c ∈ msg.toolCalls, c.id ∉ ([] : List JsString) := by
    obtain ⟨c, hc⟩ := exists_mem_of_ne_nil _ hcalls
    exact ⟨c, hc, not_mem_nil⟩
  have hcount := @count_toolIds_emit model reasoning compat now (some .assistant) msg.toolCalls []
    (.inr hsome) [] ticks rest
  have hearly := earlyIds_subset_blockIds model reasoning compat ⟨true, false⟩ rest
  rw [show decide (([] : List ContentPart) ≠ []) = false from rfl] at hcount
  rw [perm_iff_count]
  constructor
  · intro h turn hturn _ _ id hid
    obtain rfl := Message.assistant.inj hturn
    have hpos := count_pos_iff.mpr hid
    have heq := h id
    rw [hcount] at heq
    by_cases hmem : id ∈ earlyIds rest
    · rw [if_pos (.inr hmem)] at heq
      exact ⟨hmem, heq⟩
    · rw [if_neg (by simp [hmem])] at heq
      omega
  · intro h id
    have hmatch := h msg rfl hkept hcalls id
    rw [hcount]
    by_cases hmem : id ∈ earlyIds rest
    · rw [if_pos (.inr hmem)]
      exact (hmatch (hearly hmem)).2
    · rw [if_neg (by simp [hmem])]
      have hnone : id ∉ blockIds model reasoning compat ⟨true, false⟩ rest :=
        fun hid => hmem (hmatch hid).1
      rw [count_eq_zero.mpr hnone, Nat.zero_add]

theorem not_assistant_of_mem_toolParam {results : List ToolResultMessage} :
    ∀ param ∈ results.map (toolParam compat), ∀ msg, param ≠ .assistant msg := by
  intro param hparam msg
  obtain ⟨result, -, rfl⟩ := mem_map.mp hparam
  exact fun h => nomatch h

theorem not_assistant_of_mem_bridgeParams :
    ∀ param ∈ bridgeParams compat, ∀ msg, param ≠ .assistant msg := by
  intro param hparam msg
  rw [bridgeParams] at hparam
  split at hparam
  · rw [mem_singleton.mp hparam]
    exact fun h => nomatch h
  · contradiction

theorem not_assistant_of_mem_flushParams {images : List ContentPart} :
    ∀ param ∈ flushParams compat images, ∀ msg, param ≠ .assistant msg := by
  intro param hparam msg
  rw [flushParams] at hparam
  split at hparam
  · rcases mem_append.mp hparam with hparam | hparam
    · exact not_assistant_of_mem_bridgeParams compat param hparam msg
    · rw [mem_singleton.mp hparam]
      exact fun h => by cases h
  · contradiction

theorem each_callsAnswered_iff (lastRole : Option LastRole) (images : List ContentPart)
    (pending : List ToolCall) (existing : List JsString) (ticks : Nat) (rest : List Message) :
    Each CallsAnswered [] (emit model reasoning compat lastRole images
        (replayFrom now pending existing ticks rest)) ↔
      Each (ResultsMatch model reasoning compat) [] rest := by
  have htools := @not_assistant_of_mem_toolParam compat
  have hflush := @not_assistant_of_mem_flushParams compat
  have hbridge : ∀ (b : Prop) [Decidable b], ∀ param ∈ (if b then bridgeParams compat else []),
      ∀ msg, param ≠ MessageParam.assistant msg := by
    intro b _ param hparam
    split at hparam
    · exact not_assistant_of_mem_bridgeParams compat param hparam
    · contradiction
  have hskip {params : List MessageParam} (h : ∀ param ∈ params, ∀ msg, param ≠ .assistant msg) :
      ∀ param ∈ params, ∀ before more, CallsAnswered before param more :=
    fun param hparam _ _ msg hmsg => absurd hmsg (h param hparam msg)
  induction rest generalizing lastRole images pending existing ticks with
  | nil =>
    refine iff_of_true ?_ each_nil
    rw [replayFrom, ← append_nil (map _ _), emit_missing,
      each_append_of_forall (hskip htools), emit, ← append_nil (flushParams _ _),
      each_append_of_forall (hskip hflush)]
    exact each_nil
  | cons msg rest ih =>
    rw [each_cons]
    cases msg with
    | toolResult msg =>
      have htool : CallsAnswered [] (toolParam compat msg) (emit model reasoning compat
          (some .toolResult) (images ++ resultImages model msg)
          (replayFrom now pending (msg.toolCallId :: existing) ticks rest)) :=
        fun turn h => by cases h
      have hmatch : ResultsMatch model reasoning compat [] (.toolResult msg) rest :=
        fun turn h => by cases h
      rw [replayFrom, emit, each_cons]
      exact (and_iff_right htool).trans ((ih _ _ _ _ _).trans (and_iff_right hmatch).symm)
    | user content timestamp =>
      have hmatch : ResultsMatch model reasoning compat [] (.user content timestamp) rest :=
        fun turn h => by cases h
      refine Iff.trans ?_ (and_iff_right hmatch).symm
      rw [replayFrom, emit_missing, each_append_of_forall (hskip htools), emit,
        each_append_of_forall (hskip hflush),
        each_append_of_forall (hskip (hbridge _))]
      cases hparam : userParam content with
      | none => exact ih _ _ _ _ _
      | some param =>
        obtain ⟨message, rfl⟩ := eq_user_of_userParam hparam
        refine each_cons.trans (Iff.trans (and_iff_right ?_) (ih _ _ _ _ _))
        exact fun turn h => by cases h
    | assistant msg =>
      rw [replayFrom, emit_missing, each_append_of_forall (hskip htools)]
      by_cases hdropped : msg.isDropped = true
      · rw [if_pos hdropped]
        refine (ih _ _ _ _ _).trans (and_iff_right ?_).symm
        intro turn hturn hkept
        rw [Message.assistant.inj hturn, hkept] at hdropped
        contradiction
      · rw [if_neg hdropped, emit, each_append_of_forall (hskip hflush)]
        cases hparam : assistantParam reasoning compat msg with
        | none =>
          refine (ih _ _ _ _ _).trans (and_iff_right ?_).symm
          intro turn hturn _ hcalls
          rw [← Message.assistant.inj hturn] at hcalls
          exact absurd (toolCalls_of_assistantParam_eq_none reasoning compat hparam) hcalls
        | some param =>
          refine each_cons.trans (and_congr ?_ (ih _ _ _ _ _))
          have hids : param.toolCalls.map FunctionParam.id = msg.toolCalls.map ToolCall.id := by
            rw [toolCalls_of_assistantParam_eq_some reasoning compat hparam, map_map]
            rfl
          by_cases hcalls : msg.toolCalls = []
          · refine iff_of_true ?_ ?_
            · intro turn hturn hne
              rw [← MessageParam.assistant.inj hturn] at hne
              rw [hcalls, map_nil, map_eq_nil_iff] at hids
              exact absurd hids hne
            · intro turn hturn _ hne
              rw [← Message.assistant.inj hturn] at hne
              exact absurd hcalls hne
          · rw [← callsAnswered_iff model reasoning compat now (Bool.eq_false_iff.mpr hdropped)
              hcalls, ← hids]
            constructor
            · intro h
              refine h param rfl fun hnil => hcalls ?_
              rw [hnil, map_nil] at hids
              exact map_eq_nil_iff.mp hids.symm
            · intro h turn hturn _
              rw [← MessageParam.assistant.inj hturn]
              exact h

theorem emit_ne_user (hbridge : compat.requiresAssistantAfterToolResult = true)
    (images : List ContentPart) (messages : List Message) (message : ParamContent)
    (more : List MessageParam) :
    emit model reasoning compat (some .toolResult) images messages ≠ .user message :: more := by
  have hflush (himages : images ≠ []) (rest : List MessageParam) :
      flushParams compat images ++ rest ≠ .user message :: more := by
    rw [flushParams, if_pos himages, bridgeParams, if_pos hbridge]
    exact fun h => by cases h
  induction messages generalizing images with
  | nil =>
    by_cases himages : images = []
    · rw [himages, emit, flushParams_nil]
      exact fun h => by cases h
    · rw [emit, ← append_nil (flushParams compat images)]
      exact hflush himages []
  | cons msg rest ih =>
    cases msg with
    | toolResult msg =>
      rw [emit, toolParam]
      exact fun h => by cases h
    | user content timestamp =>
      by_cases himages : images = []
      · rw [himages, emit, flushParams_nil, flushedRole, if_neg (not_not_intro rfl), if_pos rfl,
          bridgeParams, if_pos hbridge]
        exact fun h => by cases h
      · exact hflush himages _
    | assistant msg =>
      by_cases himages : images = []
      · rw [himages, emit, flushParams_nil, flushedRole, if_neg (not_not_intro rfl), nil_append]
        split
        · exact ih [] (fun h => absurd rfl h)
        · exact fun h => by cases h
      · exact hflush himages _

theorem each_noUserBehindTool (hbridge : compat.requiresAssistantAfterToolResult = true)
    (lastRole : Option LastRole) (images : List ContentPart) (messages : List Message) :
    Each NoUserBehindTool [] (emit model reasoning compat lastRole images messages) := by
  have hskip {params : List MessageParam}
      (h : ∀ param ∈ params, ∀ id content name, param ≠ .tool id content name) :
      ∀ param ∈ params, ∀ before more, NoUserBehindTool before param more :=
    fun param hparam _ _ id content name hmsg => absurd hmsg (h param hparam id content name)
  have hbridges : ∀ (b : Prop) [Decidable b], ∀ param ∈ (if b then bridgeParams compat else []),
      ∀ id content name, param ≠ MessageParam.tool id content name := by
    intro b _ param hparam id content name
    rw [bridgeParams, if_pos hbridge] at hparam
    split at hparam
    · rw [mem_singleton.mp hparam]
      exact fun h => by cases h
    · contradiction
  have hflush {images : List ContentPart} : ∀ param ∈ flushParams compat images,
      ∀ id content name, param ≠ MessageParam.tool id content name := by
    intro param hparam id content name
    rw [flushParams, bridgeParams, if_pos hbridge] at hparam
    split at hparam
    · rcases mem_append.mp hparam with hparam | hparam
      all_goals
        rw [mem_singleton.mp hparam]
        exact fun h => by cases h
    · contradiction
  induction messages generalizing lastRole images with
  | nil =>
    rw [emit, ← append_nil (flushParams _ _), each_append_of_forall (hskip hflush)]
    exact each_nil
  | cons msg rest ih =>
    cases msg with
    | toolResult msg =>
      rw [emit]
      refine each_cons.mpr ⟨?_, ih _ _⟩
      intro id content name _ message more
      exact emit_ne_user model reasoning compat hbridge _ rest message more
    | user content timestamp =>
      rw [emit, each_append_of_forall (hskip hflush), each_append_of_forall (hskip (hbridges _))]
      cases hparam : userParam content with
      | none => exact ih _ _
      | some param =>
        obtain ⟨message, rfl⟩ := eq_user_of_userParam hparam
        exact each_cons.mpr ⟨(fun _ _ _ h => by cases h), ih _ _⟩
    | assistant msg =>
      rw [emit, each_append_of_forall (hskip hflush)]
      cases hparam : assistantParam reasoning compat msg with
      | none => exact ih _ _
      | some param => exact each_cons.mpr ⟨(fun _ _ _ h => by cases h), ih _ _⟩

/-- A bridge comes before the next message of the user. -/
def bridgeFirst : List MessageParam → Bool
  | [] => false
  | .bridge :: _ => true
  | .user _ :: _ => false
  | .instructions _ _ :: rest | .assistant _ :: rest | .tool _ _ _ :: rest => bridgeFirst rest

theorem bridgedOnce_bridge_iff {before rest : List MessageParam} :
    BridgedOnce before .bridge rest ↔ bridgeFirst rest = false := by
  rw [BridgedOnce, forall_prop_of_true rfl]
  induction rest with
  | nil => exact iff_of_true (fun between more h => by cases between <;> cases h) rfl
  | cons param rest ih =>
    have hskip (hbridge : param ≠ .bridge) (huser : ∀ message, param ≠ .user message) :
        (∀ between more, param :: rest = between ++ .bridge :: more →
            ∃ message, .user message ∈ between) ↔
          ∀ between more, rest = between ++ .bridge :: more →
            ∃ message, .user message ∈ between := by
      constructor
      · intro h between more heq
        obtain ⟨message, hmem⟩ := h (param :: between) more (by rw [heq, cons_append])
        exact ⟨message, (mem_cons.mp hmem).resolve_left (huser message).symm⟩
      · intro h between more heq
        cases between with
        | nil => exact absurd (List.cons.inj heq).1 hbridge
        | cons first between =>
          obtain ⟨message, hmem⟩ := h between more (List.cons.inj heq).2
          exact ⟨message, mem_cons_of_mem _ hmem⟩
    cases param with
    | bridge =>
      refine iff_of_false (fun h => ?_) (fun h => nomatch h)
      obtain ⟨message, hmem⟩ := h [] rest rfl
      contradiction
    | user message =>
      refine iff_of_true (fun between more heq => ?_) rfl
      cases between with
      | nil => cases heq
      | cons first between =>
        rw [← (List.cons.inj heq).1]
        exact ⟨message, mem_cons_self⟩
    | instructions role content | assistant msg | tool id content name =>
      exact (hskip (fun h => nomatch h) (fun _ h => nomatch h)).trans ih

theorem bridgeFirst_append_toolParam (results : List ToolResultMessage)
    (params : List MessageParam) :
    bridgeFirst (results.map (toolParam compat) ++ params) = bridgeFirst params := by
  induction results with
  | nil => rfl
  | cons msg results ih => exact ih

/-- The variables of the loop and of the second pass, for what was sent last. -/
structure Sent.Tracks (s : Sent) (lastRole : Option LastRole) (images : List ContentPart)
    (pending : List ToolCall) (existing : List JsString) : Prop where
  results_iff : s.results = true ↔
    lastRole = some .toolResult ∨ ∃ c ∈ pending, c.id ∉ existing
  images_iff : s.images = true ↔ images ≠ []
  lastRole_eq : images ≠ [] → lastRole = some .toolResult

section Tracks

variable {s : Sent} {lastRole : Option LastRole} {images : List ContentPart}
  {pending : List ToolCall} {existing : List JsString}

theorem Sent.Tracks.settle (h : s.Tracks lastRole images pending existing) (ticks : Nat) : s.Tracks
      (if missingResults now existing ticks pending = [] then lastRole else some .toolResult)
      images [] [] where
  results_iff := by
    have hnone : ¬ ∃ c ∈ ([] : List ToolCall), c.id ∉ ([] : List JsString) := by simp
    rw [h.results_iff, or_iff_left hnone]
    by_cases hnil : missingResults now existing ticks pending = []
    · rw [if_pos hnil]
      exact or_iff_left fun hmissing => (missingResults_ne_nil now).mpr hmissing hnil
    · rw [if_neg hnil]
      exact iff_of_true (.inr ((missingResults_ne_nil now).mp hnil)) rfl
  images_iff := h.images_iff
  lastRole_eq himages := by
    rw [h.lastRole_eq himages]
    exact ite_self _

theorem Sent.Tracks.toolResult (h : s.Tracks lastRole images pending existing)
    (msg : ToolResultMessage) (existing' : List JsString) :
    (s.after model reasoning compat (.toolResult msg)).Tracks (some .toolResult)
      (images ++ resultImages model msg) pending existing' where
  results_iff := iff_of_true rfl (.inl rfl)
  images_iff := by
    rw [Sent.after, Bool.or_eq_true, h.images_iff, decide_eq_true_iff, ne_eq, ne_eq, ne_eq,
      append_eq_nil_iff, not_and_or]
  lastRole_eq _ := rfl

theorem Sent.Tracks.flush (h : s.Tracks lastRole images [] []) :
    (if s.images then ⟨false, false⟩ else s : Sent).Tracks (flushedRole lastRole images) [] []
      [] where
  results_iff := by
    have hnone : ¬ ∃ c ∈ ([] : List ToolCall), c.id ∉ ([] : List JsString) := by simp
    rw [or_iff_left hnone, flushedRole]
    by_cases himages : images = []
    · rw [if_neg (not_not_intro himages), if_neg fun hs => h.images_iff.mp hs himages,
        h.results_iff, or_iff_left hnone]
    · rw [if_pos himages, if_pos (h.images_iff.mpr himages)]
      simp
  images_iff := by
    by_cases himages : s.images = true
    · rw [if_pos himages]
      simp
    · rw [if_neg himages]
      simpa using himages
  lastRole_eq himages := absurd rfl himages

theorem Sent.tracks_sent (h : lastRole ≠ some .toolResult) :
    (⟨false, false⟩ : Sent).Tracks lastRole [] [] [] where
  results_iff := by simp [h]
  images_iff := by simp
  lastRole_eq himages := absurd rfl himages

theorem Sent.Tracks.user_none (h : s.Tracks lastRole images [] [])
    (hparam : userParam content = none) (timestamp : Date.Time) :
    (s.after model reasoning compat (.user content timestamp)).Tracks
      (flushedRole lastRole images) [] [] [] := by
  rw [Sent.after, hparam, Option.isSome_none, Bool.or_false]
  exact h.flush

theorem Sent.tracks_user_some {param : MessageParam} (hparam : userParam content = some param)
    (timestamp : Date.Time) :
    (s.after model reasoning compat (.user content timestamp)).Tracks (some .user) [] [] [] := by
  rw [Sent.after, hparam, Option.isSome_some, Bool.or_true, if_pos rfl]
  exact Sent.tracks_sent (by decide)

theorem Sent.Tracks.assistant_none (h : s.Tracks lastRole images [] [])
    (hkept : ¬ msg.isDropped = true) (hparam : assistantParam reasoning compat msg = none) :
    (s.after model reasoning compat (.assistant msg)).Tracks (flushedRole lastRole images) []
      msg.toolCalls [] := by
  have hcalls := toolCalls_of_assistantParam_eq_none reasoning compat hparam
  rw [Sent.after, if_neg hkept, if_neg (not_not_intro hcalls), hparam, Option.isSome_none,
    Bool.or_false, hcalls]
  exact h.flush

theorem Sent.tracks_assistant_some {param : AssistantParam} (hkept : ¬ msg.isDropped = true)
    (hparam : assistantParam reasoning compat msg = some param) :
    (s.after model reasoning compat (.assistant msg)).Tracks (some .assistant) [] msg.toolCalls
      [] := by
  rw [Sent.after, if_neg hkept]
  by_cases hcalls : msg.toolCalls = []
  · rw [if_neg (not_not_intro hcalls), hparam, Option.isSome_some, Bool.or_true, if_pos rfl, hcalls]
    exact Sent.tracks_sent (by decide)
  · rw [if_pos hcalls]
    obtain ⟨c, hc⟩ := exists_mem_of_ne_nil _ hcalls
    exact ⟨iff_of_true rfl (.inr ⟨c, hc, not_mem_nil⟩), by simp, fun h => absurd rfl h⟩

end Tracks

theorem flushedRole_nil (lastRole : Option LastRole) : flushedRole lastRole [] = lastRole :=
  if_neg (not_not_intro rfl)

theorem bridgeFirst_emit (hbridge : compat.requiresAssistantAfterToolResult = true) {s : Sent}
    {pending : List ToolCall} {existing : List JsString}
    (h : s.Tracks lastRole images pending existing) (ticks : Nat) (rest : List Message) :
    bridgeFirst (emit model reasoning compat lastRole images
        (replayFrom now pending existing ticks rest)) =
      bridgeDue model reasoning compat s rest := by
  have hflush {images : List ContentPart} (himages : images ≠ []) (params : List MessageParam) :
      bridgeFirst (flushParams compat images ++ params) = true := by
    rw [flushParams, if_pos himages, bridgeParams, if_pos hbridge]
    rfl
  have hnone : ¬ ∃ c ∈ ([] : List ToolCall), c.id ∉ ([] : List JsString) := by simp
  induction rest generalizing s lastRole images pending existing ticks with
  | nil =>
    rw [replayFrom, ← append_nil (map _ _), emit_missing, bridgeFirst_append_toolParam,
      emit, bridgeDue]
    by_cases himages : images = []
    · rw [himages, flushParams_nil]
      exact (Bool.eq_false_iff.mpr fun hs => h.images_iff.mp hs himages).symm
    · rw [← append_nil (flushParams compat images), hflush himages, h.images_iff.mpr himages]
  | cons msg rest ih =>
    cases msg with
    | toolResult msg =>
      rw [replayFrom, emit, bridgeDue]
      exact ih (h.toolResult model reasoning compat msg _) ticks
    | user content timestamp =>
      have hsettled := h.settle now ticks
      rw [replayFrom, emit_missing, bridgeFirst_append_toolParam, emit, bridgeDue]
      by_cases himages : images = []
      · subst himages
        rw [flushParams_nil, nil_append, flushedRole_nil]
        by_cases hresults : s.results = true
        · rw [if_pos ((hsettled.results_iff.mp hresults).resolve_right hnone), hresults,
            bridgeParams, if_pos hbridge]
          rfl
        · rw [if_neg fun hlast => hresults (hsettled.results_iff.mpr (.inl hlast)),
            Bool.eq_false_iff.mpr hresults, nil_append, Bool.false_or]
          cases hparam : userParam content with
          | none => exact ih (hsettled.user_none model reasoning compat hparam timestamp) _
          | some param =>
            obtain ⟨message, rfl⟩ := eq_user_of_userParam hparam
            rfl
      · rw [hflush himages, h.results_iff.mpr (.inl (h.lastRole_eq himages)), Bool.true_or]
    | assistant msg =>
      have hsettled := h.settle now ticks
      rw [replayFrom, emit_missing, bridgeFirst_append_toolParam, bridgeDue]
      by_cases hdropped : msg.isDropped = true
      · rw [if_pos hdropped, hdropped, Sent.after, if_pos hdropped]
        exact ih hsettled _
      · rw [if_neg hdropped, emit]
        by_cases himages : images = []
        · have hs : s.images = false := Bool.eq_false_iff.mpr fun hs => h.images_iff.mp hs himages
          subst himages
          rw [flushParams_nil, nil_append, hs, Bool.and_false, Bool.false_or]
          cases hparam : assistantParam reasoning compat msg with
          | none => exact ih (hsettled.assistant_none model reasoning compat hdropped hparam) _
          | some param =>
            exact ih (Sent.tracks_assistant_some model reasoning compat hdropped hparam) _
        · rw [hflush himages, h.images_iff.mpr himages]
          simp [hdropped]

theorem sentLast_concat (done : List Message) (msg : Message) :
    sentLast model reasoning compat (done ++ [msg]) =
      (sentLast model reasoning compat done).after model reasoning compat msg :=
  foldl_concat _ _ _ _

theorem eq_nil_of_flushedRole (h : flushedRole lastRole images = some .toolResult) :
    images = [] ∧ lastRole = some .toolResult := by
  rw [flushedRole] at h
  by_cases himages : images = []
  · rw [if_neg (not_not_intro himages)] at h
    exact ⟨himages, h⟩
  · rw [if_pos himages] at h
    contradiction

theorem each_bridgedOnce_iff (hbridge : compat.requiresAssistantAfterToolResult = true)
    {done : List Message} {pending : List ToolCall} {existing : List JsString}
    (h : (sentLast model reasoning compat done).Tracks lastRole images pending existing)
    (ticks : Nat) (rest : List Message) :
    Each BridgedOnce [] (emit model reasoning compat lastRole images
        (replayFrom now pending existing ticks rest)) ↔
      Each (EmptyUserAlone model reasoning compat) done rest := by
  have hskip {params : List MessageParam} (h : ∀ param ∈ params, param ≠ .bridge) :
      ∀ param ∈ params, ∀ before more, BridgedOnce before param more :=
    fun param hparam _ _ hmsg => absurd hmsg (h param hparam)
  have htools {results : List ToolResultMessage} :
      ∀ param ∈ results.map (toolParam compat), param ≠ .bridge := by
    intro param hparam
    obtain ⟨result, -, rfl⟩ := mem_map.mp hparam
    exact fun h => by cases h
  have hflush {images : List ContentPart} (params : List MessageParam) :
      Each BridgedOnce [] (flushParams compat images ++ params) ↔ Each BridgedOnce [] params := by
    rw [flushParams]
    split
    · rw [bridgeParams, if_pos hbridge]
      refine each_cons.trans ((and_iff_right (bridgedOnce_bridge_iff.mpr rfl)).trans ?_)
      exact each_cons.trans (and_iff_right fun h => by cases h)
    · exact Iff.rfl
  have hnone : ¬ ∃ c ∈ ([] : List ToolCall), c.id ∉ ([] : List JsString) := by simp
  induction rest generalizing done lastRole images pending existing ticks with
  | nil =>
    refine iff_of_true ?_ each_nil
    rw [replayFrom, ← append_nil (map _ _), emit_missing,
      each_append_of_forall (hskip htools), emit, ← append_nil (flushParams _ _)]
    exact (hflush []).mpr each_nil
  | cons msg rest ih =>
    have hconcat := sentLast_concat model reasoning compat done msg
    rw [each_cons (x := msg)]
    cases msg with
    | toolResult msg =>
      have hempty : EmptyUserAlone model reasoning compat done (.toolResult msg) rest :=
        fun _ hmsg => by cases hmsg
      rw [replayFrom, emit, and_iff_right hempty]
      refine each_cons.trans ((and_iff_right fun h => by cases h).trans ?_)
      exact ih (hconcat ▸ h.toolResult model reasoning compat msg _) ticks
    | user content timestamp =>
      have hsettled := h.settle now ticks
      have hnext (hparam : userParam content = none) :=
        hsettled.user_none model reasoning compat hparam timestamp
      rw [replayFrom, emit_missing, each_append_of_forall (hskip htools), emit]
      refine (hflush _).trans ?_
      by_cases hdue : flushedRole (if missingResults now existing ticks pending = [] then lastRole
          else some .toolResult) images = some .toolResult
      · obtain ⟨himages, hlast⟩ := eq_nil_of_flushedRole hdue
        have hresults := hsettled.results_iff.mpr (.inl hlast)
        have hs : (sentLast model reasoning compat done).images = false :=
          Bool.eq_false_iff.mpr fun hs => h.images_iff.mp hs himages
        rw [if_pos hdue, bridgeParams, if_pos hbridge, singleton_append]
        refine each_cons.trans (and_congr ?_ ?_)
        · rw [bridgedOnce_bridge_iff]
          cases hparam : userParam content with
          | none =>
            have hafter : (sentLast model reasoning compat done).after model reasoning compat
                (.user content timestamp) = ⟨true, false⟩ := by
              have hstate : sentLast model reasoning compat done = ⟨true, false⟩ := by
                rw [← hresults, ← hs]
              rw [Sent.after, hs, hparam]
              exact hstate
            obtain rfl := eq_nil_of_userParam hparam
            rw [bridgeFirst_emit model reasoning compat now hbridge (hafter ▸ hnext hparam)]
            exact ⟨fun hfirst _ _ _ _ => hfirst, fun hempty => hempty timestamp rfl hresults hs⟩
          | some param =>
            obtain ⟨message, rfl⟩ := eq_user_of_userParam hparam
            refine iff_of_true rfl ?_
            intro time hmsg
            obtain ⟨rfl, -⟩ := Message.user.inj hmsg
            contradiction
        · cases hparam : userParam content with
          | none => exact ih (hconcat ▸ hnext hparam) _
          | some param =>
            obtain ⟨message, rfl⟩ := eq_user_of_userParam hparam
            refine each_cons.trans ((and_iff_right fun h => by cases h).trans ?_)
            exact ih (hconcat ▸ Sent.tracks_user_some model reasoning compat hparam timestamp) _
      · have hempty : EmptyUserAlone model reasoning compat done (.user content timestamp)
            rest := by
          intro _ _ hresults hs
          have himages : images = [] := by
            by_contra himages
            rw [h.images_iff.mpr himages] at hs
            contradiction
          rw [himages, flushedRole_nil] at hdue
          exact absurd ((hsettled.results_iff.mp hresults).resolve_right hnone) hdue
        rw [if_neg hdue, nil_append, and_iff_right hempty]
        cases hparam : userParam content with
        | none => exact ih (hconcat ▸ hnext hparam) _
        | some param =>
          obtain ⟨message, rfl⟩ := eq_user_of_userParam hparam
          refine each_cons.trans ((and_iff_right fun h => by cases h).trans ?_)
          exact ih (hconcat ▸ Sent.tracks_user_some model reasoning compat hparam timestamp) _
    | assistant msg =>
      have hempty : EmptyUserAlone model reasoning compat done (.assistant msg) rest :=
        fun _ hmsg => by cases hmsg
      have hsettled := h.settle now ticks
      rw [replayFrom, emit_missing, each_append_of_forall (hskip htools), and_iff_right hempty]
      by_cases hdropped : msg.isDropped = true
      · rw [if_pos hdropped]
        have hsame : sentLast model reasoning compat (done ++ [.assistant msg]) =
            sentLast model reasoning compat done := by
          rw [hconcat, Sent.after, if_pos hdropped]
        exact ih (hsame ▸ hsettled) _
      · rw [if_neg hdropped, emit]
        refine (hflush _).trans ?_
        cases hparam : assistantParam reasoning compat msg with
        | none =>
          exact ih (hconcat ▸ hsettled.assistant_none model reasoning compat hdropped hparam) _
        | some param =>
          refine each_cons.trans ((and_iff_right fun h => by cases h).trans ?_)
          exact ih (hconcat ▸ Sent.tracks_assistant_some model reasoning compat hdropped hparam) _

theorem convertMessages_eq_emit (context : Responses.Context) :
    convertMessages model reasoning compat now context =
      instructionParams reasoning compat context.systemPrompt ++ emit model reasoning compat none []
          (replayFrom now [] [] 0 (renamedMessages model context)) := by
  rw [convertMessages, transformMessages, convertLoop_eq_emit, replayAll_eq_replayFrom]
  rfl

/-- A request is what the providers want exactly when the results of the history match and no
bridge is due behind an empty message of the user. -/
theorem convertMessages_isGrammatical_iff (context : Responses.Context) :
    IsGrammatical compat (convertMessages model reasoning compat now context) ↔
      Each (ResultsMatch model reasoning compat) [] (renamedMessages model context) ∧
        (compat.requiresAssistantAfterToolResult = true →
          Each (EmptyUserAlone model reasoning compat) [] (renamedMessages model context)) := by
  have hsent := convertMessages_eq_emit model reasoning compat now context
  have hinstructions : ∀ param ∈ instructionParams reasoning compat context.systemPrompt,
      ∃ role content, param = .instructions role content := by
    intro param hparam
    rw [instructionParams] at hparam
    split at hparam
    · contradiction
    · exact ⟨_, _, mem_singleton.mp hparam⟩
  have hskip {P : List MessageParam → MessageParam → List MessageParam → Prop}
      (hP : ∀ before role content more, P before (.instructions role content) more) :
      ∀ param ∈ instructionParams reasoning compat context.systemPrompt, ∀ before more,
        P before param more := by
    intro param hparam before more
    obtain ⟨role, content, rfl⟩ := hinstructions param hparam
    exact hP before role content more
  have hanswered : Each CallsAnswered [] (convertMessages model reasoning compat now context) ↔
        Each (ResultsMatch model reasoning compat) [] (renamedMessages model context) := by
    rw [hsent, each_append_of_forall (hskip fun _ _ _ _ _ h => nomatch h)]
    exact each_callsAnswered_iff model reasoning compat now none [] [] [] 0 _
  have honce (hbridge : compat.requiresAssistantAfterToolResult = true) :
      Each BridgedOnce [] (convertMessages model reasoning compat now context) ↔
        Each (EmptyUserAlone model reasoning compat) [] (renamedMessages model context) := by
    have hstart : (sentLast model reasoning compat []).Tracks none [] [] [] :=
      Sent.tracks_sent (by decide)
    rw [hsent, each_append_of_forall (hskip fun _ _ _ _ h => nomatch h)]
    exact each_bridgedOnce_iff model reasoning compat now hbridge hstart 0 _
  have hbridged (hbridge : compat.requiresAssistantAfterToolResult = true) :
      Each NoUserBehindTool [] (convertMessages model reasoning compat now context) := by
    rw [hsent, each_append_of_forall (hskip fun _ _ _ _ _ _ _ h => nomatch h)]
    exact each_noUserBehindTool model reasoning compat hbridge none [] _
  constructor
  · intro h
    exact ⟨hanswered.mp h.answered, fun hbridge => (honce hbridge).mp (h.once hbridge)⟩
  · rintro ⟨hmatch, hempty⟩
    exact ⟨hanswered.mpr hmatch, hbridged, fun hbridge => (honce hbridge).mpr (hempty hbridge)⟩

end Conversion

/-- A call with its result, a message of the user without blocks, and one with a text. -/
def emptyUserContext : Responses.Context :=
  ⟨none, [callingTurn (js "a") (js "x"), callResult (js "x"), .user (.blocks []) (some 0),
    .user (.string (js "b")) (some 0)]⟩

/-- The message without blocks is left out, its bridge is not. -/
theorem convertMessages_two_bridges :
    ¬ ∀ (model : Model) (reasoning : Bool) (compat : Compat) (now : Nat → Int)
      (context : Responses.Context),
      IsGrammatical compat (convertMessages model reasoning compat now context) := by
  intro h
  have hbridges := (h replayModel false { requiresAssistantAfterToolResult := true } (fun _ => 0)
    emptyUserContext).once rfl
  rw [convertMessages_eq_emit] at hbridges
  obtain ⟨message, hmem⟩ := hbridges [.assistant
        { content := some (.string []), reasoning := none,
          toolCalls := [⟨js "x", js "f", js "\x7b\x7d"⟩], reasoningDetails := [],
          reasoningContent := none },
      .tool (js "x") (js "r") none]
    .bridge [.bridge, .user (.string (js "b"))] (by decide) rfl [] [.user (.string (js "b"))] rfl
  contradiction

end Completions

end AcademicAgent
