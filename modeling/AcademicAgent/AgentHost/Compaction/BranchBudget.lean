import AcademicAgent.AgentHost.Compaction.Prepare
import Mathlib.Algebra.Order.Archimedean.Basic

/-!
# The budget of a branch summary

`prepareBranchEntries` walks back from the newest entry until the budget is used up.
-/

namespace AcademicAgent

open List Option

namespace BranchSummarization

/-- `getMessageFromEntry` of the branch summaries: without tool results. -/
def getMessageFromEntry (e : SessionEntry) : Option AgentMessage :=
  match e.body with
  | .message (.toolResult _) => none
  | .message m => some m
  | .customMessage customType content display details =>
    some (createCustomMessage customType content display details e.timestamp)
  | .branchSummary fromId summary _ _ =>
    some (createBranchSummaryMessage summary fromId e.timestamp)
  | .compaction summary _ tokensBefore _ _ _ =>
    some (createCompactionSummaryMessage summary tokensBefore e.timestamp)
  | _ => none

structure BranchPreparation where
  messages : List AgentMessage
  fileOps : FileOperations
  totalTokens : Nat
  deriving DecidableEq

/-- The first loop: the paths that an earlier branch summary recorded. -/
def addRecordedFileOps (fileOps : FileOperations) (e : SessionEntry) : FileOperations :=
  match e.body with
  | .branchSummary _ _ (some details) fromHook =>
    if fromHook = some true then fileOps
    else
      { fileOps with
        read := (detailPaths details (js "readFiles")).foldl addPath fileOps.read
        edited := (detailPaths details (js "modifiedFiles")).foldl addPath fileOps.edited }
  | _ => fileOps

/-- `entry.type === "compaction" || entry.type === "branch_summary"`. -/
def isSummaryEntry (e : SessionEntry) : Bool :=
  match e.body with
  | .compaction .. | .branchSummary .. => true
  | _ => false

/-- `messages.unshift(message); totalTokens += tokens`. -/
def BranchPreparation.unshift (p : BranchPreparation) (message : AgentMessage) :
    BranchPreparation :=
  { p with
    messages := message :: p.messages
    totalTokens := p.totalTokens + estimateTokens message }

/-- The second loop, over the entries from the newest one on. -/
def selectBack (tokenBudget : Rat) : List SessionEntry → BranchPreparation → BranchPreparation
  | [], p => p
  | entry :: older, p =>
    match getMessageFromEntry entry with
    | none => selectBack tokenBudget older p
    | some message =>
      let p := { p with fileOps := extractFileOpsFromMessage p.fileOps message }
      if 0 < tokenBudget ∧ tokenBudget < (p.totalTokens + estimateTokens message : Nat) then
        if isSummaryEntry entry ∧ (p.totalTokens : Rat) < tokenBudget * (9 / 10) then
          p.unshift message
        else p
      else selectBack tokenBudget older (p.unshift message)

section

variable (entries : List SessionEntry)

/-- `prepareBranchEntries(entries, tokenBudget)`. -/
def prepareBranchEntries (tokenBudget : Rat := 0) :
    BranchPreparation :=
  selectBack tokenBudget entries.reverse ⟨[], entries.foldl addRecordedFileOps createFileOps, 0⟩

section

variable (contextWindow : Rat) (reserveTokens : Option Rat)

/-- `contextWindow - reserveTokens`, with what stands for a missing window or reserve. -/
def branchTokenBudget : Rat :=
  (if contextWindow = 0 then 128000 else contextWindow) - reserveTokens.getD 16384

/-- What `generateBranchSummary` selects to be summarized. -/
def branchSelection : BranchPreparation :=
  prepareBranchEntries entries (branchTokenBudget contextWindow reserveTokens)

end

/-- The entries that can be summarized, with their messages. -/
def summarizable : List (SessionEntry × AgentMessage) :=
  entries.filterMap fun e => (getMessageFromEntry e).map fun m => (e, m)

end

def tokensOf (messages : List (SessionEntry × AgentMessage)) : Nat :=
  (messages.map fun m => estimateTokens m.2).sum

/-- The messages are a final part of all within the budget, and at most the summary before
it, when nine tenths of the budget were not used up. -/
def WithinBudget (all : List (SessionEntry × AgentMessage)) (tokenBudget : Rat)
    (messages : List AgentMessage) : Prop :=
  ∃ before kept, all = before ++ kept ∧ (kept = [] ∨ (tokensOf kept : Rat) ≤ tokenBudget) ∧
    (messages = kept.map Prod.snd ∨
      ∃ front summary, before = front ++ [summary] ∧ isSummaryEntry summary.1 = true ∧
        (tokensOf kept : Rat) < tokenBudget * (9 / 10) ∧
        messages = summary.2 :: kept.map Prod.snd)

variable {tokenBudget : Rat}

section

variable (entries : List SessionEntry)

theorem summarizable_concat (e : SessionEntry) : summarizable (entries ++ [e]) =
      summarizable entries ++ ((getMessageFromEntry e).map fun m => (e, m)).toList := by
  rw [summarizable, filterMap_append]
  cases hmessage : getMessageFromEntry e <;> simp [summarizable, hmessage]

theorem tokensOf_cons (m : SessionEntry × AgentMessage) (ms : List (SessionEntry × AgentMessage)) :
    tokensOf (m :: ms) = estimateTokens m.2 + tokensOf ms := by
  rw [tokensOf, map_cons, sum_cons]
  rfl

theorem selectBack_withinBudget (hpositive : 0 < tokenBudget) {newestFirst : List SessionEntry}
    {kept : List (SessionEntry × AgentMessage)} {p : BranchPreparation}
    (hmessages : p.messages = kept.map Prod.snd) (htokens : p.totalTokens = tokensOf kept)
    (hbudget : kept = [] ∨ (tokensOf kept : Rat) ≤ tokenBudget) :
    WithinBudget (summarizable newestFirst.reverse ++ kept) tokenBudget
      (selectBack tokenBudget newestFirst p).messages := by
  induction newestFirst generalizing kept p with
  | nil => exact ⟨[], kept, rfl, hbudget, .inl hmessages⟩
  | cons e older ih =>
    rw [reverse_cons, summarizable_concat]
    unfold selectBack
    cases hmessage : getMessageFromEntry e with
    | none =>
      rw [map_none, toList_none, append_nil]
      exact ih hmessages htokens hbudget
    | some message =>
      rw [map_some, toList_some, append_assoc]
      dsimp only
      split
      · rename_i hover
        split
        · rename_i hsummary
          refine ⟨summarizable older.reverse ++ [(e, message)], kept, (append_assoc ..).symm,
            hbudget, .inr ⟨_, (e, message), rfl, hsummary.1, ?_, ?_⟩⟩
          · rw [← htokens]
            exact hsummary.2
          · rw [← hmessages]
            rfl
        · exact ⟨summarizable older.reverse ++ [(e, message)], kept, (append_assoc ..).symm,
            hbudget, .inl hmessages⟩
      · rename_i hfits
        have hle : ((p.totalTokens + estimateTokens message : Nat) : Rat) ≤ tokenBudget :=
          not_lt.mp fun hlt => hfits ⟨hpositive, hlt⟩
        refine @ih ((e, message) :: kept) _ ?_ ?_ (.inr ?_)
        · rw [map_cons, ← hmessages]
          rfl
        · rw [tokensOf_cons, ← htokens, Nat.add_comm]
          rfl
        · rw [tokensOf_cons, ← htokens, Nat.add_comm]
          exact hle

theorem selectBack_unlimited (hnot : tokenBudget ≤ 0) (newestFirst : List SessionEntry)
    (p : BranchPreparation) : (selectBack tokenBudget newestFirst p).messages =
      (summarizable newestFirst.reverse).map Prod.snd ++ p.messages := by
  induction newestFirst generalizing p with
  | nil => rfl
  | cons e older ih =>
    rw [reverse_cons, summarizable_concat]
    unfold selectBack
    cases hmessage : getMessageFromEntry e with
    | none =>
      rw [map_none, toList_none, append_nil]
      exact ih p
    | some message =>
      dsimp only
      rw [if_neg fun h => absurd h.1 (not_lt.mpr hnot), ih, map_some, toList_some,
        map_append, append_assoc]
      rfl

theorem prepareBranchEntries_withinBudget
    (hpositive : 0 < tokenBudget) : WithinBudget (summarizable entries) tokenBudget
      (prepareBranchEntries entries tokenBudget).messages := by
  have h := @selectBack_withinBudget tokenBudget hpositive entries.reverse []
    ⟨[], entries.foldl addRecordedFileOps createFileOps, 0⟩ rfl rfl (.inl rfl)
  rw [reverse_reverse, append_nil] at h
  exact h

theorem prepareBranchEntries_unlimited (hnot : tokenBudget ≤ 0) :
    (prepareBranchEntries entries tokenBudget).messages = (summarizable entries).map Prod.snd := by
  rw [prepareBranchEntries, selectBack_unlimited hnot, reverse_reverse, append_nil]

end

theorem withinBudget_all_iff {all : List (SessionEntry × AgentMessage)} (hnot : tokenBudget ≤ 0) :
    WithinBudget all tokenBudget (all.map Prod.snd) ↔
      all = [] ∨ (tokenBudget = 0 ∧ tokensOf all = 0) := by
  constructor
  · rintro ⟨before, kept, rfl, hbudget, hmessages | ⟨front, summary, rfl, -, hninety, -⟩⟩
    · have hlength := congrArg length hmessages
      simp only [length_map, length_append] at hlength
      have hbefore : before = [] := eq_nil_of_length_eq_zero (by omega)
      subst hbefore
      rw [nil_append]
      refine hbudget.imp id fun hle => ?_
      have hzero : tokensOf kept = 0 := by
        exact_mod_cast le_antisymm (hle.trans hnot) (Nat.cast_nonneg _)
      rw [hzero] at hle
      exact ⟨le_antisymm hnot (by exact_mod_cast hle), hzero⟩
    · have hnonneg : (0 : Rat) ≤ tokensOf kept := Nat.cast_nonneg _
      linarith
  · rintro (rfl | ⟨rfl, hzero⟩)
    · exact ⟨[], [], rfl, .inl rfl, .inl rfl⟩
    · exact ⟨[], all, rfl, .inr (by rw [hzero]; exact le_rfl), .inl rfl⟩

def promptOfLength (n : Nat) : SessionEntry :=
  ⟨[], none, [], .message (.user ⟨.string (replicate n 0x61), 0⟩)⟩

theorem summarizable_promptOfLength (n : Nat) : summarizable [promptOfLength n] =
      [(promptOfLength n, .user ⟨.string (replicate n 0x61), 0⟩)] := rfl

theorem exists_not_selected (hpositive : 0 < tokenBudget) :
    ∃ entries, (prepareBranchEntries entries tokenBudget).messages ≠
      (summarizable entries).map Prod.snd := by
  obtain ⟨n, hn⟩ := exists_nat_gt tokenBudget
  refine ⟨[promptOfLength (4 * n)], fun hall => ?_⟩
  have htokens : estimateTokens (.user ⟨.string (replicate (4 * n) 0x61), 0⟩) = n := by
    rw [estimateTokens, MessageContent.chars, length_replicate, tokensOfChars]
    omega
  have hover : tokenBudget < ((0 + estimateTokens
      (.user ⟨.string (replicate (4 * n) 0x61), 0⟩) : Nat) : Rat) := by
    rw [htokens, Nat.zero_add]
    exact hn
  have hnone : (prepareBranchEntries [promptOfLength (4 * n)] tokenBudget).messages = [] := by
    rw [prepareBranchEntries, reverse_singleton, selectBack]
    change (if _ then _ else _ : BranchPreparation).messages = []
    rw [if_pos ⟨hpositive, hover⟩]
    rfl
  rw [hnone, summarizable_promptOfLength] at hall
  cases hall

/-- A selection is within its budget exactly when the budget is positive, or there is nothing
to select, or what there is counts nothing and the budget is zero; and the budget is no limit
exactly when it is not positive. -/
theorem branchSelection_within_iff (contextWindow : Rat) (reserveTokens : Option Rat) :
    (∀ entries, WithinBudget (summarizable entries) (branchTokenBudget contextWindow reserveTokens)
        (branchSelection entries contextWindow reserveTokens).messages ↔
      0 < branchTokenBudget contextWindow reserveTokens ∨ summarizable entries = [] ∨
        (branchTokenBudget contextWindow reserveTokens = 0 ∧ tokensOf (summarizable entries) = 0)) ∧
    ((∀ entries, (branchSelection entries contextWindow reserveTokens).messages =
        (summarizable entries).map Prod.snd) ↔
      branchTokenBudget contextWindow reserveTokens ≤ 0) := by
  generalize hbudget : branchTokenBudget contextWindow reserveTokens = tokenBudget
  constructor
  · intro entries
    rw [branchSelection, hbudget]
    rcases lt_or_ge 0 tokenBudget with hpositive | hnot
    · exact ⟨fun _ => .inl hpositive, fun _ => prepareBranchEntries_withinBudget _ hpositive⟩
    · rw [prepareBranchEntries_unlimited _ hnot, withinBudget_all_iff hnot,
        or_iff_right (not_lt.mpr hnot)]
  · simp only [branchSelection, hbudget]
    constructor
    · intro hall
      by_contra hnot
      obtain ⟨entries, hentries⟩ := exists_not_selected (not_le.mp hnot)
      exact hentries (hall entries)
    · exact fun hnot entries => prepareBranchEntries_unlimited entries hnot

/-- A window that the reserve uses up lets every message in. -/
theorem branchSelection_exceeds_small_window : branchTokenBudget 8192 none = -8192 ∧
      ¬ WithinBudget (summarizable [promptOfLength 4]) (branchTokenBudget 8192 none)
        (branchSelection [promptOfLength 4] 8192 none).messages := by
  have hbudget : branchTokenBudget 8192 none = -8192 := by
    rw [branchTokenBudget]
    norm_num
  refine ⟨hbudget, ?_⟩
  have hnot : branchTokenBudget 8192 none ≤ 0 := by
    rw [hbudget]
    norm_num
  rw [branchSelection, prepareBranchEntries_unlimited _ hnot, withinBudget_all_iff hnot]
  rintro (hnone | ⟨hzero, -⟩)
  · cases hnone
  · rw [hbudget] at hzero
    norm_num at hzero

end BranchSummarization

end AcademicAgent
