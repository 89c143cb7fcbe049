import AcademicAgent.AgentHost.Compaction.Partition

/-!
# What a cut keeps

Whether the kept part still has the calls of its tool results, and whether something is
left to summarize.
-/

namespace AcademicAgent

open List Option SessionEntry

def SessionEntry.toolResult? (e : SessionEntry) : Option ToolResultMessage :=
  match e.body with
  | .message (.toolResult m) => some m
  | _ => none

/-- An entry that stands for no message: a change of the model or of the thinking level,
a label, the name of the session, or the data of an extension. -/
def SessionEntry.isBookkeeping (e : SessionEntry) : Bool :=
  match e.body with
  | .thinkingLevelChange _ | .modelChange .. | .custom .. | .label .. | .sessionInfo _ => true
  | _ => false

section

variable {e : SessionEntry}

theorem SessionEntry.isCutPoint_of_toolResult
    (h : e.toolResult?.isSome = true) : e.isCutPoint = false := by
  obtain ⟨id, parentId, timestamp, body⟩ := e
  cases body with
  | message m => cases m <;> first | rfl | cases h
  | _ => cases h

theorem SessionEntry.isMessage_of_toolResult
    (h : e.toolResult?.isSome = true) : e.isMessage = true := by
  obtain ⟨id, parentId, timestamp, body⟩ := e
  cases body with
  | message m => rfl
  | _ => cases h

theorem SessionEntry.isCutPoint_of_bookkeeping (h : e.isBookkeeping = true) :
    e.isCutPoint = false := by
  obtain ⟨id, parentId, timestamp, body⟩ := e
  cases body <;> first | rfl | cases h

theorem SessionEntry.isCutPoint_of_turnStart (h : e.isTurnStart = true) : e.isCutPoint = true := by
  obtain ⟨id, parentId, timestamp, body⟩ := e
  cases body with
  | message m => cases m <;> first | rfl | cases h
  | _ => first | rfl | cases h

end

theorem entryIs_eq_true {entries : List SessionEntry} {p : SessionEntry → Bool} {i : Nat} :
    entryIs entries p i = true ↔ ∃ e, entries[i]? = some e ∧ p e = true :=
  any_eq_true _ _

variable {entries : List SessionEntry} {startIndex endIndex : Nat} {keepRecentTokens : Rat}

theorem findCutPoint_eq {first : Nat} {rest : List Nat}
    (hpoints : findValidCutPoints entries startIndex endIndex = first :: rest) :
    (findCutPoint entries startIndex endIndex keepRecentTokens).firstKeptEntryIndex =
      slideBack entries startIndex
        (((findBudgetIndex entries keepRecentTokens startIndex endIndex 0).bind fun i =>
          (first :: rest).find? fun cutPoint => decide (i ≤ cutPoint)).getD first) := by
  rw [findCutPoint, hpoints]

theorem findCutPoint_of_no_cutPoints (h : findValidCutPoints entries startIndex endIndex = []) :
    findCutPoint entries startIndex endIndex keepRecentTokens = ⟨startIndex, none, false⟩ := by
  rw [findCutPoint, h]

theorem slideBack_skips {n i : Nat} (hlow : slideBack entries startIndex n ≤ i) (hhigh : i < n) :
    entryIs entries (fun e => e.isCompaction || e.isMessage) i = false := by
  induction n with
  | zero => omega
  | succ n ih =>
    unfold slideBack at hlow
    split at hlow
    · omega
    · split at hlow
      · omega
      · rename_i hskipped
        rcases Nat.lt_succ_iff_lt_or_eq.mp hhigh with hlt | rfl
        · exact ih hlow hlt
        · exact Bool.eq_false_iff.mpr hskipped

theorem exists_cutPoint (h : findValidCutPoints entries startIndex endIndex ≠ []) :
    ∃ cutPoint ∈ findValidCutPoints entries startIndex endIndex,
      (findCutPoint entries startIndex endIndex keepRecentTokens).firstKeptEntryIndex =
        slideBack entries startIndex cutPoint := by
  cases hpoints : findValidCutPoints entries startIndex endIndex with
  | nil => exact absurd hpoints h
  | cons first rest =>
    refine ⟨_, ?_, findCutPoint_eq hpoints⟩
    cases hfound : (findBudgetIndex entries keepRecentTokens startIndex endIndex 0).bind fun i =>
        (first :: rest).find? fun cutPoint => decide (i ≤ cutPoint) with
    | none => exact mem_cons_self
    | some cutPoint =>
      obtain ⟨_, _, hfind⟩ := bind_eq_some_iff.mp hfound
      exact mem_of_find?_eq_some hfind

variable (entries) in
/-- The assistant message at `a` issued the call that the result at `j` answers, and only
tool results and bookkeeping stand between them. -/
structure AnswersCall (a j : Nat) (result : ToolResultMessage) : Prop where
  before : a < j
  issued : ∃ e m, entries[a]? = some e ∧ e.body = .message (.assistant m) ∧
    result.toolCallId ∈ m.toolCalls.map ToolCall.id
  between : ∀ i, a < i → i < j →
    entryIs entries (fun e => e.toolResult?.isSome || e.isBookkeeping) i = true

variable (entries) in
/-- Every tool result follows the message with its call. -/
def ResultsFollowCalls : Prop :=
  ∀ j e result, entries[j]? = some e → e.toolResult? = some result →
    ∃ a, AnswersCall entries a j result

variable (entries) in
/-- From an index on, every tool result has the message with its call. -/
def KeepsCalls (firstKept : Nat) : Prop :=
  ∀ j e result, firstKept ≤ j → entries[j]? = some e → e.toolResult? = some result →
    ∃ a, firstKept ≤ a ∧ AnswersCall entries a j result

theorem AnswersCall.le_of_cut {a j cutPoint : Nat} {result : ToolResultMessage}
    (h : AnswersCall entries a j result) {e : SessionEntry} (he : entries[j]? = some e)
    (hresult : e.toolResult? = some result) (hstart : startIndex ≤ cutPoint)
    (hcut : entryIs entries isCutPoint cutPoint = true)
    (hkept : slideBack entries startIndex cutPoint ≤ j) :
    slideBack entries startIndex cutPoint ≤ a := by
  have hsome : e.toolResult?.isSome = true := by rw [hresult]; rfl
  obtain ⟨cut, hget, hcut⟩ := entryIs_eq_true.mp hcut
  have hle : cutPoint ≤ j := by
    by_contra hlt
    have hskipped := slideBack_skips hkept (Nat.not_le.mp hlt)
    rw [entryIs, he, any_some, isMessage_of_toolResult hsome,
      Bool.or_true] at hskipped
    cases hskipped
  have hne : cutPoint ≠ j := by
    rintro rfl
    cases hget.symm.trans he
    rw [isCutPoint_of_toolResult hsome] at hcut
    cases hcut
  have hbefore : cutPoint ≤ a := by
    by_contra hlt
    obtain ⟨between, hat, hkind⟩ :=
      entryIs_eq_true.mp (h.between cutPoint (Nat.not_le.mp hlt) (by omega))
    cases hget.symm.trans hat
    rcases Bool.or_eq_true_iff.mp hkind with hother | hother
    · rw [isCutPoint_of_toolResult hother] at hcut
      cases hcut
    · rw [isCutPoint_of_bookkeeping hother] at hcut
      cases hcut
  exact (slideBack_bounds hstart).2.trans hbefore

/-- A cut at a valid cut point lies in the range and orphans no tool result; where there is
none, nothing is cut. -/
theorem findCutPoint_keeps_calls (hpath : ResultsFollowCalls entries) (startIndex endIndex : Nat)
    (keepRecentTokens : Rat) : (findValidCutPoints entries startIndex endIndex = [] →
      (findCutPoint entries startIndex endIndex keepRecentTokens).firstKeptEntryIndex =
        startIndex) ∧ (findValidCutPoints entries startIndex endIndex ≠ [] →
      startIndex ≤ (findCutPoint entries startIndex endIndex keepRecentTokens).firstKeptEntryIndex ∧
        (findCutPoint entries startIndex endIndex keepRecentTokens).firstKeptEntryIndex < endIndex ∧
        KeepsCalls entries
          (findCutPoint entries startIndex endIndex keepRecentTokens).firstKeptEntryIndex) := by
  constructor
  · intro hnone
    rw [findCutPoint_of_no_cutPoints hnone]
  · intro hpoints
    obtain ⟨cutPoint, hmem, hcut⟩ := @exists_cutPoint entries _ _ keepRecentTokens hpoints
    obtain ⟨hstart, hend, hkind⟩ := mem_findValidCutPoints.mp hmem
    obtain ⟨hlow, hhigh⟩ := @slideBack_bounds entries _ _ hstart
    rw [hcut]
    refine ⟨hlow, by omega, fun j e result hkept he hresult => ?_⟩
    obtain ⟨a, hanswers⟩ := hpath j e result he hresult
    exact ⟨a, hanswers.le_of_cut he hresult hstart hkind hkept, hanswers⟩

def calling (id : String) : EntryBody :=
  .message (.assistant ⟨[.toolCall { id := js id, name := js "ls", arguments := .emptyObject }],
    js "api", js "provider", js "model", none, none, none, EMPTY_USAGE, .toolUse, none, 0⟩)

def resultOf (id text : String) : EntryBody :=
  .message (.toolResult ⟨js id, js "ls", [.text { text := js text }], none, false, 0⟩)

/-- A prompt, a call, its result and another prompt. -/
def calledPath : List SessionEntry :=
  pathOf [prompt "aaaa", calling "1", resultOf "1" "bbbb", prompt "cccc"]

theorem calledPath_resultsFollowCalls : ResultsFollowCalls calledPath := by
  intro j e result he hresult
  match j with
  | 0 | 1 | 3 =>
    cases he
    cases hresult
  | 2 =>
    cases he
    cases hresult
    exact ⟨1, by decide, ⟨_, _, rfl, rfl, by decide⟩, fun i hlow hhigh => by omega⟩
  | n + 4 => cases he

/-- In a range that holds only the result there is nothing to cut at, and the result is
kept without its call. -/
theorem findCutPoint_orphans_result : ResultsFollowCalls calledPath ∧
    ¬ KeepsCalls calledPath (findCutPoint calledPath 2 3 1).firstKeptEntryIndex := by
  refine ⟨calledPath_resultsFollowCalls, fun h => ?_⟩
  have hcut : (findCutPoint calledPath 2 3 1).firstKeptEntryIndex = 2 := by decide
  rw [hcut] at h
  obtain ⟨a, hkept, hanswers⟩ := h 2 _ _ (le_refl 2) rfl rfl
  exact absurd hanswers.before (Nat.not_lt.mpr hkept)

/-- A cut of that path keeps the calls. -/
theorem findCutPoint_keeps_calls_called :
    (findCutPoint calledPath 0 4 2).firstKeptEntryIndex = 3 ∧ KeepsCalls calledPath 3 := by
  have hcut : (findCutPoint calledPath 0 4 2).firstKeptEntryIndex = 3 := by decide
  have hkeeps := (findCutPoint_keeps_calls calledPath_resultsFollowCalls 0 4 2).2 (by decide)
  rw [hcut] at hkeeps
  exact ⟨hcut, hkeeps.2.2⟩

/-- What a message counts; other entries count nothing. -/
def SessionEntry.tokens (e : SessionEntry) : Nat :=
  match e.body with
  | .message m => estimateTokens m
  | _ => 0

variable (entries) in
/-- The tokens from an index to the end of the range. -/
def tokensFrom (endIndex i : Nat) : Nat :=
  (((entries.take endIndex).drop i).map SessionEntry.tokens).sum

variable (entries) in
/-- Walking back from `n`, the message at which the tokens first reach the budget. -/
structure ReachesAt (startIndex n endIndex : Nat) (keepRecentTokens : Rat) (i : Nat) : Prop where
  start : startIndex ≤ i
  inRange : i < n
  message : entryIs entries SessionEntry.isMessage i = true
  reached : keepRecentTokens ≤ tokensFrom entries endIndex i
  first : ∀ j, i < j → j < n → entryIs entries SessionEntry.isMessage j = true →
    (tokensFrom entries endIndex j : Rat) < keepRecentTokens

theorem tokensFrom_of_le {n : Nat} (h : endIndex ≤ n) : tokensFrom entries endIndex n = 0 := by
  rw [tokensFrom, drop_eq_nil_of_le]
  · rfl
  · rw [length_take]
    omega

theorem tokensFrom_succ {n : Nat} (hlt : n < endIndex) : tokensFrom entries endIndex n =
      tokensFrom entries endIndex (n + 1) + (entries[n]?.map tokens).getD 0 := by
  cases hentry : entries[n]? with
  | none =>
    have hlength := List.getElem?_eq_none_iff.mp hentry
    rw [tokensFrom, tokensFrom, drop_eq_nil_of_le, drop_eq_nil_of_le]
    · rfl
    all_goals
      rw [length_take]
      omega
  | some e =>
    have hget : (entries.take endIndex)[n]? = some e := by
      rw [getElem?_take, if_pos hlt]
      exact hentry
    obtain ⟨hlength, hat⟩ := List.getElem?_eq_some_iff.mp hget
    rw [tokensFrom, tokensFrom, drop_eq_getElem_cons hlength, map_cons, sum_cons, hat, Nat.add_comm]
    rfl

theorem findBudgetIndex_skip {n tokens : Nat} (hstart : startIndex ≤ n)
    (h : entryIs entries SessionEntry.isMessage n = false) :
    findBudgetIndex entries keepRecentTokens startIndex (n + 1) tokens =
        findBudgetIndex entries keepRecentTokens startIndex n tokens ∧
      (entries[n]?.map SessionEntry.tokens).getD 0 = 0 := by
  rw [findBudgetIndex, if_neg (by omega)]
  rw [entryIs] at h
  cases hentry : entries[n]? with
  | none => exact ⟨rfl, rfl⟩
  | some e =>
    rw [hentry, any_some] at h
    rw [map_some, map_some, getD_some]
    cases hbody : e.body with
    | message m =>
      rw [SessionEntry.isMessage, hbody] at h
      cases h
    | _ => exact ⟨rfl, by rw [SessionEntry.tokens, hbody]⟩

theorem findBudgetIndex_message {n tokens : Nat} (hstart : startIndex ≤ n)
    (h : entryIs entries SessionEntry.isMessage n = true) :
    findBudgetIndex entries keepRecentTokens startIndex (n + 1) tokens =
      if keepRecentTokens ≤ ((tokens + (entries[n]?.map SessionEntry.tokens).getD 0 : Nat) : Rat)
      then some n
      else findBudgetIndex entries keepRecentTokens startIndex n
        (tokens + (entries[n]?.map SessionEntry.tokens).getD 0) := by
  obtain ⟨e, hentry, hmessage⟩ := entryIs_eq_true.mp h
  rw [findBudgetIndex, if_neg (by omega), hentry, map_some, map_some,
    getD_some]
  cases hbody : e.body with
  | message m =>
    have htokens : e.tokens = estimateTokens m := by rw [SessionEntry.tokens, hbody]
    rw [htokens]
  | _ =>
    rw [SessionEntry.isMessage, hbody] at hmessage
    cases hmessage

theorem reachesAt_succ_iff {n i : Nat} (h : entryIs entries isMessage n = true →
      (tokensFrom entries endIndex n : Rat) < keepRecentTokens) :
    ReachesAt entries startIndex (n + 1) endIndex keepRecentTokens i ↔
      ReachesAt entries startIndex n endIndex keepRecentTokens i := by
  constructor
  · intro hreaches
    refine ⟨hreaches.start, ?_, hreaches.message, hreaches.reached,
      fun j hj hlt => hreaches.first j hj (by omega)⟩
    rcases Nat.lt_succ_iff_lt_or_eq.mp hreaches.inRange with hbefore | rfl
    · exact hbefore
    · exact absurd hreaches.reached (not_le.mpr (h hreaches.message))
  · intro hreaches
    refine ⟨hreaches.start, Nat.lt_succ_of_lt hreaches.inRange, hreaches.message,
      hreaches.reached, fun j hj hlt hat => ?_⟩
    rcases Nat.lt_succ_iff_lt_or_eq.mp hlt with hbefore | rfl
    · exact hreaches.first j hj hbefore hat
    · exact h hat

theorem findBudgetIndex_eq_some_iff {n i : Nat} (hn : n ≤ endIndex) :
    findBudgetIndex entries keepRecentTokens startIndex n (tokensFrom entries endIndex n) = some i ↔
      ReachesAt entries startIndex n endIndex keepRecentTokens i := by
  induction n with
  | zero =>
    rw [findBudgetIndex]
    exact ⟨fun h => absurd h (by simp), fun h => absurd h.inRange (Nat.not_lt_zero i)⟩
  | succ n ih =>
    specialize ih (by omega)
    have hsum := @tokensFrom_succ entries endIndex n (by omega)
    rcases Nat.lt_or_ge n startIndex with hlow | hstart
    · rw [findBudgetIndex, if_pos hlow]
      refine ⟨fun h => absurd h (by simp), fun h => ?_⟩
      have hbounds := h.start.trans (Nat.le_of_lt_succ h.inRange)
      omega
    · cases hmessage : entryIs entries SessionEntry.isMessage n with
      | false =>
        obtain ⟨hskip, hzero⟩ := @findBudgetIndex_skip entries startIndex keepRecentTokens n
          (tokensFrom entries endIndex (n + 1)) hstart hmessage
        have hsame : tokensFrom entries endIndex (n + 1) = tokensFrom entries endIndex n := by
          omega
        rw [hskip, hsame, ih, reachesAt_succ_iff]
        intro hat
        rw [hmessage] at hat
        cases hat
      | true =>
        rw [findBudgetIndex_message hstart hmessage, ← hsum]
        split
        · rename_i hreached
          constructor
          · intro h
            cases h
            exact ⟨hstart, Nat.lt_succ_self _, hmessage, hreached, fun j hj hlt => by omega⟩
          · intro h
            rcases Nat.lt_succ_iff_lt_or_eq.mp h.inRange with hbefore | rfl
            · exact absurd hreached (not_le.mpr (h.first n hbefore (Nat.lt_succ_self n) hmessage))
            · rfl
        · rename_i hnot
          rw [ih, reachesAt_succ_iff]
          exact fun _ => not_le.mp hnot

variable (entries) in
/-- The message of a range at which the tokens behind it first reach the budget. -/
abbrev BudgetReachedAt (startIndex endIndex : Nat) (keepRecentTokens : Rat) (i : Nat) : Prop :=
  ReachesAt entries startIndex endIndex endIndex keepRecentTokens i

theorem findBudgetIndex_range_iff {i : Nat} :
    findBudgetIndex entries keepRecentTokens startIndex endIndex 0 = some i ↔
      BudgetReachedAt entries startIndex endIndex keepRecentTokens i := by
  have h := @findBudgetIndex_eq_some_iff entries startIndex endIndex keepRecentTokens _ i
    (le_refl endIndex)
  rw [tokensFrom_of_le (le_refl endIndex)] at h
  exact h

theorem slideBack_of_messages (hmessages : ∀ e ∈ entries, e.isMessage = true) {n : Nat}
    (hn : n ≤ entries.length) : slideBack entries startIndex n = n := by
  cases n with
  | zero => rfl
  | succ n =>
    have hentry : entryIs entries (fun e => e.isCompaction || e.isMessage) n = true :=
      entryIs_eq_true.mpr ⟨_, getElem?_eq_getElem hn, by
        rw [hmessages _ (getElem_mem hn), Bool.or_true]⟩
    rw [slideBack, if_pos hentry, ite_self]

/-- In a path of messages whose budget is reached behind the first of two valid cut points,
something is summarized exactly when a valid cut point stands where the budget is reached
or behind it. -/
theorem findCutPoint_progress_iff {first second i : Nat} {rest : List Nat}
    (hmessages : ∀ e ∈ entries, e.isMessage = true)
    (hpoints : findValidCutPoints entries startIndex endIndex = first :: second :: rest)
    (hreaches : BudgetReachedAt entries startIndex endIndex keepRecentTokens i)
    (hfirst : first < i) :
    first < (findCutPoint entries startIndex endIndex keepRecentTokens).firstKeptEntryIndex ↔
      ∃ cutPoint, i ≤ cutPoint ∧ cutPoint < endIndex ∧
        entryIs entries SessionEntry.isCutPoint cutPoint = true := by
  rw [findCutPoint_eq hpoints, findBudgetIndex_range_iff.mpr hreaches, Option.bind_some]
  have hinside : ∀ cutPoint ∈ first :: second :: rest, cutPoint ≤ entries.length := by
    intro cutPoint hmem
    rw [← hpoints] at hmem
    obtain ⟨e, he, -⟩ := entryIs_eq_true.mp (mem_findValidCutPoints.mp hmem).2.2
    exact (List.getElem?_eq_some_iff.mp he).1.le
  cases hfind : (first :: second :: rest).find? fun cutPoint => decide (i ≤ cutPoint) with
  | none =>
    rw [Option.getD_none, slideBack_of_messages hmessages (hinside _ mem_cons_self)]
    refine ⟨fun h => absurd h (Nat.lt_irrefl _), ?_⟩
    rintro ⟨cutPoint, hle, hlt, hkind⟩
    have hmem : cutPoint ∈ findValidCutPoints entries startIndex endIndex :=
      mem_findValidCutPoints.mpr ⟨hreaches.start.trans hle, hlt, hkind⟩
    rw [hpoints] at hmem
    have hnot := find?_eq_none.mp hfind cutPoint hmem
    exact absurd (decide_eq_true hle) hnot
  | some cutPoint =>
    have hmem := mem_of_find?_eq_some hfind
    have hle : i ≤ cutPoint := by simpa using find?_some hfind
    rw [Option.getD_some, slideBack_of_messages hmessages (hinside _ hmem)]
    rw [← hpoints] at hmem
    obtain ⟨-, hlt, hkind⟩ := mem_findValidCutPoints.mp hmem
    exact ⟨fun _ => ⟨cutPoint, hle, hlt, hkind⟩, fun _ => hfirst.trans_le hle⟩

def largeResultPath : List SessionEntry :=
  pathOf [prompt "aaaa", calling "1", resultOf "1" "bbbbbbbb"]

theorem largeResultPath_reached : BudgetReachedAt largeResultPath 0 3 2 2 := by
  refine ⟨by decide, by decide, by decide, ?_, fun j hj hlt => by omega⟩
  have htokens : tokensFrom largeResultPath 3 2 = 2 := by decide
  rw [htokens]
  decide

/-- The result alone reaches the budget, and the cut falls back to the first entry. -/
theorem findCutPoint_keeps_everything : findValidCutPoints largeResultPath 0 3 = [0, 1] ∧
      BudgetReachedAt largeResultPath 0 3 2 2 ∧
      ¬ 0 < (findCutPoint largeResultPath 0 3 2).firstKeptEntryIndex :=
  ⟨by decide, largeResultPath_reached, by decide⟩

/-- With a prompt behind the result something is summarized. -/
theorem findCutPoint_progress_iff_called :
    0 < (findCutPoint calledPath 0 4 1).firstKeptEntryIndex := by
  have hreached : BudgetReachedAt calledPath 0 4 1 3 := by
    refine ⟨by decide, by decide, by decide, ?_, fun j hj hlt => by omega⟩
    have htokens : tokensFrom calledPath 4 3 = 1 := by decide
    rw [htokens]
    decide
  exact (findCutPoint_progress_iff (by decide)
    (by decide : findValidCutPoints calledPath 0 4 = [0, 1, 3]) hreached (by decide)).mpr
    ⟨3, by decide, by decide, by decide⟩

end AcademicAgent
