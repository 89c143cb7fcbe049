import AcademicAgent.Ai.Providers.TransformIds

/-!
# Calls and their own results

The results behind a replayed call, under their replayed ids, are compared with the
results behind the call in the history.
-/

namespace AcademicAgent

open List Option

open Message (isReplayed)

variable {id : JsString} {rest messages : List Message}

section Transcript

variable (model : Model) (normalizeToolCallId : NormalizeToolCallId)

theorem answersIn_toolResult_iff {α : Type} {msg : ToolResultMessage} {history : List Message}
    {result : α} {results : List α} (idOf : α → JsString) (hresult : idOf result = msg.toolCallId)
    {n : Nat} (hrest : ∀ n, AnswersIn history id n ↔ ∃ p, results[n]? = some p ∧ idOf p = id) :
    AnswersIn (.toolResult msg :: history) id n ↔
      ∃ p, (result :: results)[n]? = some p ∧ idOf p = id := by
  cases n with
  | zero =>
    rw [answersIn_cons_zero, getElem?_cons_zero]
    constructor
    · exact fun h => ⟨_, rfl, hresult.trans (of_decide_eq_true h)⟩
    · rintro ⟨p, hp, rfl⟩
      cases hp
      exact decide_eq_true hresult.symm
  | succ n =>
    rw [answersIn_cons_succ, getElem?_cons_succ, ← hrest]
    exact ⟨fun h => h.2, fun h => ⟨rfl, h⟩⟩

section

variable (pairs : List (JsString × JsString)) (rest : List Message) (id : JsString) (n : Nat)

theorem answersIn_filter_iff : AnswersIn (rest.filter isReplayed) id n ↔
      ∃ p, (replayedResults model normalizeToolCallId pairs rest)[n]? = some p ∧ p.1 = id := by
  induction rest generalizing pairs n with
  | nil =>
    refine iff_of_false not_answersIn_nil ?_
    rintro ⟨p, hp, -⟩
    contradiction
  | cons msg rest ih =>
    cases msg with
    | toolResult msg =>
      rw [filter_cons_of_pos rfl, replayedResults]
      exact answersIn_toolResult_iff Prod.fst rfl (ih _)
    | user content timestamp =>
      rw [filter_cons_of_pos rfl, replayedResults]
      exact iff_of_false (not_answersIn_of_head rfl) (by rintro ⟨p, hp, -⟩; contradiction)
    | assistant msg =>
      rw [replayedResults]
      split
      · rename_i hdropped
        rw [filter_cons_of_neg (by simp only [isReplayed, hdropped]; decide)]
        exact ih _ n
      · rename_i hkept
        rw [filter_cons_of_pos (by simp only [isReplayed, hkept]; decide)]
        exact iff_of_false (not_answersIn_of_head rfl) (by rintro ⟨p, hp, -⟩; contradiction)

theorem answersIn_replayedFrom_iff :
    AnswersIn ((replayedFrom model normalizeToolCallId pairs rest).filter isReplayed) id n ↔
      ∃ p, (replayedResults model normalizeToolCallId pairs rest)[n]? = some p ∧ p.2 = id := by
  induction rest generalizing pairs n with
  | nil =>
    refine iff_of_false not_answersIn_nil ?_
    rintro ⟨p, hp, -⟩
    contradiction
  | cons msg rest ih =>
    rw [replayedFrom]
    cases msg with
    | toolResult msg =>
      obtain ⟨content, haware⟩ := awareMessage_toolResult model msg
      rw [haware, replayedAs, filter_cons_of_pos rfl, messageRenamings, append_nil, replayedResults]
      exact answersIn_toolResult_iff Prod.snd rfl (ih _)
    | user content timestamp =>
      have hnone : (replayedAs model normalizeToolCallId pairs
          (awareMessage model (.user content timestamp))).isToolResult = false := by
        unfold awareMessage
        split
        · rfl
        · cases content with
          | string s => rfl
          | blocks bs => rfl
      rw [filter_cons_of_pos (by rw [isReplayed_replayedAs]; rfl), replayedResults]
      exact iff_of_false (not_answersIn_of_head hnone) (by rintro ⟨p, hp, -⟩; contradiction)
    | assistant msg =>
      rw [replayedResults]
      split
      · rename_i hdropped
        rw [filter_cons_of_neg (by
          rw [isReplayed_replayedAs]
          simp only [isReplayed, hdropped]
          decide)]
        exact ih _ n
      · rename_i hkept
        rw [filter_cons_of_pos (by
          rw [isReplayed_replayedAs]
          simp only [isReplayed, hkept]
          decide)]
        rw [awareMessage_assistant, replayedAs]
        exact iff_of_false (not_answersIn_of_head rfl) (by rintro ⟨p, hp, -⟩; contradiction)

end

section

variable {pairs : List (JsString × JsString)} {rest : List Message} {n : Nat}

theorem replayedResults_of_results
    (h : ∀ msg ∈ rest.take (n + 1), msg.isToolResult = true) (id : JsString) : AnswersIn rest id n ↔
      (replayedResults model normalizeToolCallId pairs rest)[n]? = some (id, renamed pairs id) := by
  induction rest generalizing n with
  | nil =>
    refine iff_of_false not_answersIn_nil ?_
    intro hp
    contradiction
  | cons msg rest ih =>
    rw [take_succ_cons, forall_mem_cons] at h
    cases msg with
    | user content timestamp | assistant msg => exact nomatch h.1
    | toolResult msg =>
      cases n with
      | zero =>
        rw [answersIn_cons_zero, replayedResults, getElem?_cons_zero, some.injEq,
          Prod.mk.injEq]
        constructor
        · intro hid
          have hid : msg.toolCallId = id := of_decide_eq_true hid
          rw [hid]
          exact ⟨rfl, rfl⟩
        · exact fun hid => decide_eq_true hid.1
      | succ n =>
        rw [answersIn_cons_succ, replayedResults, getElem?_cons_succ, ← ih h.2]
        exact ⟨fun h => h.2, fun h => ⟨rfl, h⟩⟩

theorem replayedResults_snd
    (h : ∀ msg ∈ rest.take (n + 1), msg.isToolResult = true) {p : JsString × JsString}
    (hp : (replayedResults model normalizeToolCallId pairs rest)[n]? = some p) :
    p.2 = renamed pairs p.1 := by
  induction rest generalizing n with
  | nil => contradiction
  | cons msg rest ih =>
    rw [take_succ_cons, forall_mem_cons] at h
    cases msg with
    | user content timestamp | assistant msg => exact nomatch h.1
    | toolResult msg =>
      rw [replayedResults] at hp
      cases n with
      | zero =>
        cases hp
        rfl
      | succ n => exact ih h.2 hp

end

theorem AnswersIn.results {n : Nat} (h : AnswersIn rest id n) :
    ∀ msg ∈ rest.take (n + 1), msg.isToolResult = true := by
  obtain ⟨hbefore, msg, hmsg, hid⟩ := h
  intro x hx
  rw [take_add_one, hmsg] at hx
  rcases mem_append.mp hx with hx | hx
  · exact hbefore x hx
  · rw [mem_singleton.mp hx]
    exact Message.isToolResult_of_isResultOf hid

theorem ownResult_spec (pairs : List (JsString × JsString)) (h : ∃! n, AnswersIn rest id n) :
    ∃ n : Nat, (replayedResults model normalizeToolCallId pairs rest)[n]? =
        some (id, renamed pairs id) ∧
      ∀ j < n, ∀ q : JsString × JsString,
        (replayedResults model normalizeToolCallId pairs rest)[j]? = some q → q.1 ≠ id := by
  obtain ⟨n, hn, hunique⟩ := h
  have hresults := hn.results
  refine ⟨n, (replayedResults_of_results model normalizeToolCallId hresults id).mp hn, ?_⟩
  intro j hj q hq hid
  have hsub : ∀ msg ∈ rest.take (j + 1), msg.isToolResult = true := by
    intro msg hmsg
    apply hresults
    rw [show j + 1 = min (j + 1) (n + 1) by omega, ← take_take] at hmsg
    exact mem_of_mem_take hmsg
  have hq' : q = (id, renamed pairs id) := by
    refine Prod.ext hid ?_
    rw [replayedResults_snd model normalizeToolCallId hsub hq, hid]
  rw [hq'] at hq
  have hraw := (replayedResults_of_results model normalizeToolCallId hsub id).mpr hq
  have := hunique j hraw
  omega

section

variable {before : List Message} {assistantMsg : AssistantMessage} {toolCall : ToolCall}

theorem renamed_own_iff (hcall : toolCall ∈ assistantMsg.toolCalls) :
    renamed (renamings model normalizeToolCallId (before ++ [.assistant assistantMsg]))
        toolCall.id = normalizedId model normalizeToolCallId assistantMsg toolCall.id ↔
      (normalizedId model normalizeToolCallId assistantMsg toolCall.id = toolCall.id →
          renamed (renamings model normalizeToolCallId before) toolCall.id = toolCall.id) ∧
        (normalizedId model normalizeToolCallId assistantMsg toolCall.id ≠ toolCall.id →
          normalizedId model normalizeToolCallId assistantMsg toolCall.id ≠ []) := by
  rw [renamings_append, renamings_singleton, messageRenamings]
  by_cases hsame : normalizedId model normalizeToolCallId assistantMsg toolCall.id = toolCall.id
  · have hnone : latest (callRenamings model normalizeToolCallId assistantMsg
        assistantMsg.toolCalls) toolCall.id = none := by
      apply latest_eq_none
      intro p hp hid
      obtain ⟨hp, hne⟩ := mem_filter.mp hp
      obtain ⟨c, -, rfl⟩ := mem_map.mp hp
      have hid : c.id = toolCall.id := hid
      rw [hid] at hne
      exact of_decide_eq_true hne hsame
    rw [renamed, latest_append, hnone, none_or, hsame]
    exact ⟨fun h => ⟨fun _ => h, fun hne => absurd rfl hne⟩, fun h => h.1 rfl⟩
  · have hsome : latest (callRenamings model normalizeToolCallId assistantMsg
        assistantMsg.toolCalls) toolCall.id =
          some (normalizedId model normalizeToolCallId assistantMsg toolCall.id) := by
      apply latest_eq_some
      · exact mem_filter.mpr ⟨mem_map.mpr ⟨toolCall, hcall, rfl⟩, decide_eq_true hsame⟩
      · intro p hp hid
        obtain ⟨c, -, rfl⟩ := mem_map.mp (mem_filter.mp hp).1
        have hid : c.id = toolCall.id := hid
        exact congrArg (normalizedId model normalizeToolCallId assistantMsg) hid
    rw [renamed, latest_append, hsome, some_or, nonEmpty]
    by_cases hempty : normalizedId model normalizeToolCallId assistantMsg toolCall.id = []
    · rw [if_pos hempty]
      refine iff_of_false (fun h => hsame h.symm) (fun h => h.2 hsame hempty)
    · rw [if_neg hempty]
      exact iff_of_true rfl ⟨fun h => absurd h hsame, fun _ => hempty⟩

theorem answersIn_own_iff (hown : ∃! n, AnswersIn rest toolCall.id n) :
    (∀ n, AnswersIn ((replayedFrom model normalizeToolCallId
          (renamings model normalizeToolCallId (before ++ [.assistant assistantMsg])) rest).filter
            isReplayed) (normalizedId model normalizeToolCallId assistantMsg toolCall.id) n ↔
        AnswersIn (rest.filter isReplayed) toolCall.id n ∧
          ∀ j < n, ¬ AnswersIn (rest.filter isReplayed) toolCall.id j) ↔
      renamed (renamings model normalizeToolCallId (before ++ [.assistant assistantMsg]))
          toolCall.id = normalizedId model normalizeToolCallId assistantMsg toolCall.id ∧
        ∀ (n : Nat) (p : JsString × JsString), (replayedResults model normalizeToolCallId
            (renamings model normalizeToolCallId (before ++ [.assistant assistantMsg])) rest)[n]? =
              some p →
          p.2 = normalizedId model normalizeToolCallId assistantMsg toolCall.id →
            p.1 = toolCall.id ∧ ∀ j < n, ∀ q : JsString × JsString,
              (replayedResults model normalizeToolCallId (renamings model normalizeToolCallId
                (before ++ [.assistant assistantMsg])) rest)[j]? = some q → q.1 ≠ toolCall.id := by
  generalize hpairs : renamings model normalizeToolCallId (before ++ [.assistant assistantMsg]) =
    pairs
  obtain ⟨own, hat, hfirst⟩ := ownResult_spec model normalizeToolCallId pairs hown
  have hleft (n : Nat) : AnswersIn (rest.filter isReplayed) toolCall.id n ∧
      (∀ j < n, ¬ AnswersIn (rest.filter isReplayed) toolCall.id j) ↔ n = own := by
    simp only [answersIn_filter_iff model normalizeToolCallId pairs]
    constructor
    · rintro ⟨⟨p, hp, hid⟩, hbefore⟩
      rcases Nat.lt_trichotomy n own with hlt | heq | hgt
      · exact absurd hid (hfirst n hlt p hp)
      · exact heq
      · exact absurd ⟨_, hat, rfl⟩ (hbefore own hgt)
    · rintro rfl
      refine ⟨⟨_, hat, rfl⟩, ?_⟩
      rintro j hj ⟨q, hq, hid⟩
      exact hfirst j hj q hq hid
  simp only [hleft, answersIn_replayedFrom_iff]
  constructor
  · intro h
    refine ⟨?_, ?_⟩
    · obtain ⟨p, hp, hid⟩ := (h own).mpr rfl
      rw [hat, some.injEq] at hp
      rw [← hid, ← hp]
    · intro n p hp hid
      obtain rfl := (h n).mp ⟨p, hp, hid⟩
      rw [hat, some.injEq] at hp
      exact ⟨by rw [← hp], hfirst⟩
  · rintro ⟨hrenamed, hapart⟩ n
    constructor
    · rintro ⟨p, hp, hid⟩
      obtain ⟨hp1, hbefore⟩ := hapart n p hp hid
      rcases Nat.lt_trichotomy n own with hlt | heq | hgt
      · exact absurd hp1 (hfirst n hlt p hp)
      · exact heq
      · exact absurd rfl (hbefore own hgt _ hat)
    · rintro rfl
      exact ⟨_, hat, hrenamed⟩

end

theorem AnswersIn.replayedFrom {rest : List Message} {id : JsString} {n : Nat}
    (h : AnswersIn rest id n) (pairs : List (JsString × JsString)) :
    AnswersIn (replayedFrom model normalizeToolCallId pairs rest) (renamed pairs id) n := by
  induction rest generalizing n with
  | nil => exact absurd h not_answersIn_nil
  | cons msg rest ih =>
    have hresult : msg.isToolResult = true := h.results msg mem_cons_self
    cases msg with
    | user content timestamp | assistant msg => contradiction
    | toolResult msg =>
      obtain ⟨content, haware⟩ := awareMessage_toolResult model msg
      rw [AcademicAgent.replayedFrom, haware, replayedAs, messageRenamings, append_nil]
      cases n with
      | zero =>
        have hid : msg.toolCallId = id := of_decide_eq_true (answersIn_cons_zero.mp h)
        rw [answersIn_cons_zero, ← hid]
        exact decide_eq_true rfl
      | succ n => exact answersIn_cons_succ.mpr ⟨rfl, ih (answersIn_cons_succ.mp h).2⟩

theorem replayedAnswered_replayedFrom (hwell : WellAnswered messages)
    (h : ∀ before assistantMsg rest, messages = before ++ .assistant assistantMsg :: rest → assistantMsg.isDropped = false → ∀ toolCall ∈ assistantMsg.toolCalls, renamed (renamings model normalizeToolCallId (before ++ [.assistant assistantMsg])) toolCall.id = normalizedId model normalizeToolCallId assistantMsg toolCall.id)
    : ReplayedAnswered (replayedFrom model normalizeToolCallId [] messages) := by
  intro before' assistantMsg' rest' hsplit hkept' toolCall' hcall'
  obtain ⟨before, msg, rest, hmessages, hmsg, hrest⟩ :=
    replayedFrom_eq_append_cons model normalizeToolCallId hsplit
  rw [nil_append] at hmsg hrest
  cases msg with
  | user content timestamp =>
    unfold awareMessage at hmsg
    split at hmsg
    · contradiction
    · cases content with
      | string s => contradiction
      | blocks bs => contradiction
  | toolResult msg =>
    unfold awareMessage at hmsg
    split at hmsg
    · contradiction
    · contradiction
  | assistant assistantMsg =>
    rw [awareMessage_assistant, replayedAs, Message.assistant.injEq] at hmsg
    subst hmsg
    have hkept : assistantMsg.isDropped = false := hkept'
    rw [AssistantMessage.toolCalls, toolCalls_transformed] at hcall'
    obtain ⟨toolCall, hcall, rfl⟩ := mem_map.mp hcall'
    obtain ⟨n, hn, -⟩ := (hwell before assistantMsg rest hmessages).2 toolCall hcall
    refine ⟨n, ?_⟩
    rw [hrest]
    have hanswer := hn.replayedFrom model normalizeToolCallId
      (renamings model normalizeToolCallId (before ++ [.assistant assistantMsg]))
    rw [h before assistantMsg rest hmessages hkept toolCall hcall] at hanswer
    exact hanswer

theorem idsKeptApart_iff : IdsKeptApart model normalizeToolCallId messages ↔
      ∀ before assistantMsg rest, messages = before ++ .assistant assistantMsg :: rest →
        assistantMsg.isDropped = false → ∀ toolCall ∈ assistantMsg.toolCalls,
          renamed (renamings model normalizeToolCallId (before ++ [.assistant assistantMsg]))
              toolCall.id = normalizedId model normalizeToolCallId assistantMsg toolCall.id ∧
            ∀ (n : Nat) (p : JsString × JsString), (replayedResults model normalizeToolCallId
                (renamings model normalizeToolCallId (before ++ [.assistant assistantMsg]))
                  rest)[n]? = some p →
              p.2 = normalizedId model normalizeToolCallId assistantMsg toolCall.id →
                p.1 = toolCall.id ∧ ∀ j < n, ∀ q : JsString × JsString,
                  (replayedResults model normalizeToolCallId (renamings model normalizeToolCallId
                    (before ++ [.assistant assistantMsg])) rest)[j]? = some q →
                      q.1 ≠ toolCall.id := by
  constructor
  · intro h before assistantMsg rest hsplit hkept toolCall hcall
    refine ⟨?_, h.apart before assistantMsg rest hsplit hkept toolCall hcall⟩
    exact (renamed_own_iff model normalizeToolCallId hcall).mpr
      ⟨h.fresh before assistantMsg rest hsplit hkept toolCall hcall,
        h.named before assistantMsg rest hsplit hkept toolCall hcall⟩
  · intro h
    refine ⟨?_, ?_, ?_⟩
    · intro before assistantMsg rest hsplit hkept toolCall hcall
      exact ((renamed_own_iff model normalizeToolCallId hcall).mp
        (h before assistantMsg rest hsplit hkept toolCall hcall).1).1
    · intro before assistantMsg rest hsplit hkept toolCall hcall
      exact ((renamed_own_iff model normalizeToolCallId hcall).mp
        (h before assistantMsg rest hsplit hkept toolCall hcall).1).2
    · intro before assistantMsg rest hsplit hkept toolCall hcall
      exact (h before assistantMsg rest hsplit hkept toolCall hcall).2

section

variable {messages before rest : List Message} {assistantMsg : AssistantMessage}

theorem filter_isReplayed_split
    (h : messages.filter isReplayed = before ++ .assistant assistantMsg :: rest) :
    ∃ before₀ rest₀, messages = before₀ ++ .assistant assistantMsg :: rest₀ ∧
      assistantMsg.isDropped = false ∧ before₀.filter isReplayed = before ∧
        rest₀.filter isReplayed = rest := by
  obtain ⟨first, second, hmessages, hfirst, hsecond⟩ := filter_eq_append_iff.mp h
  obtain ⟨skipped, rest₀, hsecond, hskipped, hkept, hrest⟩ := filter_eq_cons_iff.mp hsecond
  refine ⟨first ++ skipped, rest₀, ?_, ?_, ?_, hrest⟩
  · rw [hmessages, hsecond, append_assoc]
  · rw [isReplayed, Bool.not_eq_true'] at hkept
    exact hkept
  · rw [filter_append, hfirst, filter_eq_nil_iff.mpr hskipped, append_nil]

theorem replayedFrom_split (hkept : assistantMsg.isDropped = false)
    (h : messages = before ++ .assistant assistantMsg :: rest) :
    (replayedFrom model normalizeToolCallId [] messages).filter isReplayed =
      (replayedFrom model normalizeToolCallId [] before).filter isReplayed ++ .assistant
          { assistantMsg with
            content := assistantMsg.content.flatMap
              (transformBlock model normalizeToolCallId assistantMsg) } ::
        (replayedFrom model normalizeToolCallId
          (renamings model normalizeToolCallId (before ++ [.assistant assistantMsg]))
            rest).filter isReplayed := by
  rw [h, replayedFrom_append, nil_append, filter_append, replayedFrom,
    awareMessage_assistant, replayedAs, filter_cons_of_pos, renamings_append,
    renamings_singleton]
  simp only [isReplayed, AssistantMessage.isDropped] at hkept ⊢
  rw [hkept]
  rfl

end

theorem length_filter_replayedFrom (pairs : List (JsString × JsString)) (messages : List Message) :
    ((replayedFrom model normalizeToolCallId pairs messages).filter isReplayed).length =
      (messages.filter isReplayed).length :=
  (forall₂_sameTurn model normalizeToolCallId pairs messages).length_eq.symm

theorem replays_filter_iff : Replays messages
        ((replayedFrom model normalizeToolCallId [] messages).filter isReplayed) ↔
      ∀ before assistantMsg rest, messages = before ++ .assistant assistantMsg :: rest →
        assistantMsg.isDropped = false → ∀ toolCall ∈ assistantMsg.toolCalls, ∀ n,
          AnswersIn ((replayedFrom model normalizeToolCallId
              (renamings model normalizeToolCallId (before ++ [.assistant assistantMsg]))
                rest).filter isReplayed)
              (normalizedId model normalizeToolCallId assistantMsg toolCall.id) n ↔
            AnswersIn (rest.filter isReplayed) toolCall.id n ∧
              ∀ j < n, ¬ AnswersIn (rest.filter isReplayed) toolCall.id j := by
  constructor
  · intro h before assistantMsg rest hsplit hkept toolCall hcall
    have hinput : messages.filter isReplayed =
        before.filter isReplayed ++ .assistant assistantMsg :: rest.filter isReplayed := by
      rw [hsplit, filter_append, filter_cons_of_pos]
      simp only [isReplayed, hkept]
      rfl
    obtain ⟨i, hi⟩ := mem_iff_getElem?.mp hcall
    refine h.answered _ _ _ _ _ _ hinput (replayedFrom_split model normalizeToolCallId hkept hsplit)
      (length_filter_replayedFrom model normalizeToolCallId [] before).symm i toolCall
      (normalizedToolCall model normalizeToolCallId assistantMsg toolCall) hi ?_
    rw [AssistantMessage.toolCalls, toolCalls_transformed, getElem?_map, hi]
    rfl
  · intro h
    refine ⟨forall₂_sameTurn model normalizeToolCallId [] messages, ?_⟩
    intro before assistantMsg rest before' assistantMsg' rest' hinput hout hlength i toolCall
      toolCall' hcall hcall'
    obtain ⟨before₀, rest₀, hsplit, hkept, rfl, rfl⟩ := filter_isReplayed_split hinput
    rw [replayedFrom_split model normalizeToolCallId hkept hsplit] at hout
    obtain ⟨-, htail⟩ := append_inj hout
      ((length_filter_replayedFrom model normalizeToolCallId [] before₀).trans hlength)
    obtain ⟨hmsg, rfl⟩ := List.cons.inj htail
    rw [Message.assistant.injEq] at hmsg
    subst hmsg
    rw [AssistantMessage.toolCalls, toolCalls_transformed, getElem?_map, hcall,
      map_some, some.injEq] at hcall'
    subst hcall'
    exact h before₀ assistantMsg rest₀ hsplit hkept toolCall (mem_of_getElem? hcall)

/-- A history is transformed to a replayable transcript exactly when it was not well
answered or its ids are kept apart. -/
theorem transformMessages_replayable_iff (now : Nat → Int) (messages : List Message) :
    IsReplayable messages (transformMessages now messages model normalizeToolCallId) ↔
      (WellAnswered messages → IdsKeptApart model normalizeToolCallId messages) := by
  have hfirst : transformMessages now messages model normalizeToolCallId =
      replayAll now (replayedFrom model normalizeToolCallId [] messages) := by
    have hempty : Records .empty [] := fun id => JsMap.get_empty id
    rw [transformMessages, transformAll_eq model normalizeToolCallId hempty]
  rw [hfirst]
  have hown (hwell : WellAnswered messages) : Replays messages
          ((replayedFrom model normalizeToolCallId [] messages).filter isReplayed) ↔
        IdsKeptApart model normalizeToolCallId messages := by
    rw [replays_filter_iff, idsKeptApart_iff]
    constructor
    · intro h before assistantMsg rest hsplit hkept toolCall hcall
      exact (answersIn_own_iff model normalizeToolCallId
        ((hwell before assistantMsg rest hsplit).2 toolCall hcall)).mp
          (h before assistantMsg rest hsplit hkept toolCall hcall)
    · intro h before assistantMsg rest hsplit hkept toolCall hcall
      exact (answersIn_own_iff model normalizeToolCallId
        ((hwell before assistantMsg rest hsplit).2 toolCall hcall)).mpr
          (h before assistantMsg rest hsplit hkept toolCall hcall)
  constructor
  · intro h hwell
    rw [← hown hwell]
    have hreplays := h.original hwell
    have hsub := filter_sublist_replayAll now (replayedFrom model normalizeToolCallId [] messages)
    have hsame := hsub.eq_of_length
      ((length_filter_replayedFrom model normalizeToolCallId [] messages).trans
        hreplays.aligned.length_eq)
    rw [hsame]
    exact hreplays
  · intro h
    refine ⟨replayAll_answered now _, ?_⟩
    intro hwell
    have hapart := h hwell
    rw [replayAll_eq now (replayedAnswered_replayedFrom model normalizeToolCallId hwell ?_)]
    · exact (hown hwell).mpr hapart
    · intro before assistantMsg rest hsplit hkept toolCall hcall
      exact ((idsKeptApart_iff model normalizeToolCallId).mp hapart before assistantMsg rest hsplit
        hkept toolCall hcall).1

end Transcript

/-- `normalizeToolCallId` of the Anthropic provider. -/
def normalizeAnthropicToolCallId (id : JsString) : JsString :=
  (id.map fun c =>
    if (0x61 ≤ c && c ≤ 0x7A) || (0x41 ≤ c && c ≤ 0x5A) || (0x30 ≤ c && c ≤ 0x39) || c == 0x5F ||
        c == 0x2D then c
    else 0x5F).take 64

def replayModel : Model := ⟨js "b", js "anthropic-messages", js "anthropic", [.text]⟩

def callingTurn (model id : JsString) : Message :=
  .assistant
    { content := [.toolCall { id, name := js "f", arguments := .emptyObject }]
      api := js "anthropic-messages"
      provider := js "anthropic"
      model
      usage := EMPTY_USAGE
      stopReason := .toolUse
      timestamp := 0 }

def callResult (id : JsString) : Message :=
  .toolResult ⟨id, js "f", [.text { text := js "r" }], none, false, 0⟩

/-- Two models call under the same id, and the second is replayed. -/
def reusedIdHistory : List Message :=
  [callingTurn (js "a") (js "x:1"), callResult (js "x:1"),
    callingTurn (js "b") (js "x:1"), callResult (js "x:1")]

/-- The result of the second call is renamed with the first, and another is made up. -/
theorem transformMessages_reused_id : WellAnswered reusedIdHistory ∧
      ¬ Replays reusedIdHistory (transformMessages (fun _ => 0) reusedIdHistory replayModel
        (some fun id _ _ => normalizeAnthropicToolCallId id)) := by
  have hown (id : JsString) (rest : List Message)
      (hrest : ∀ msg, rest.head? = some msg → msg.isToolResult = false) :
      ∃! n, AnswersIn (callResult id :: rest) id n := by
    refine ⟨0, answersIn_cons_zero.mpr (decide_eq_true rfl), ?_⟩
    intro n hn
    cases n with
    | zero => rfl
    | succ n =>
      have hnext := (answersIn_cons_succ.mp hn).2
      cases rest with
      | nil => exact absurd hnext not_answersIn_nil
      | cons msg rest =>
        have hresult := hnext.results msg mem_cons_self
        rw [hrest msg rfl] at hresult
        contradiction
  constructor
  · intro before assistantMsg rest hsplit
    rcases before with - | ⟨x, - | ⟨y, - | ⟨z, - | ⟨w, before⟩⟩⟩⟩
    · obtain ⟨hmsg, rfl⟩ := List.cons.inj hsplit
      cases hmsg
      refine ⟨nodup_singleton _, ?_⟩
      intro toolCall hcall
      rw [mem_singleton.mp hcall]
      exact hown (js "x:1") _ (fun msg hmsg => by cases hmsg; rfl)
    · cases (List.cons.inj (List.cons.inj hsplit).2).1
    · obtain ⟨hmsg, rfl⟩ := List.cons.inj (List.cons.inj (List.cons.inj hsplit).2).2
      cases hmsg
      refine ⟨nodup_singleton _, ?_⟩
      intro toolCall hcall
      rw [mem_singleton.mp hcall]
      exact hown (js "x:1") _ (fun msg hmsg => by cases hmsg)
    · cases (List.cons.inj (List.cons.inj (List.cons.inj (List.cons.inj hsplit).2).2).2).1
    · have hlength := congrArg length hsplit
      simp only [reusedIdHistory, length_append, length_cons, length_nil] at hlength
      omega
  · intro h
    have hlength := h.aligned.length_eq
    revert hlength
    decide

end AcademicAgent
