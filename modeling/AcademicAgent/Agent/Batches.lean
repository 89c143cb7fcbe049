import AcademicAgent.Agent.LoopSteps
import Mathlib.Data.List.Forall2

/-!
# Batches of tool calls

A batch looks at its calls in order, in either mode, and when it is finished it holds one
finalized call and one result message for each.
-/

namespace AcademicAgent

open List

section Forall₂

variable {α β γ : Type}

theorem forall₂_set {R : α → β → Prop} {as : List α} {bs : List β} {i : Nat} {b b' : β}
    (h : List.Forall₂ R as bs) (hb : bs[i]? = some b) (hR : ∀ a, R a b → R a b') :
    List.Forall₂ R as (bs.set i b') := by
  induction h generalizing i with
  | nil => exact absurd hb (by simp)
  | cons hab htail ih =>
    cases i with
    | zero =>
      obtain rfl := Option.some.inj hb
      exact .cons (hR _ hab) htail
    | succ i => exact .cons hab (ih hb)

theorem forall₂_mapM {R : α → β → Prop} {S : α → γ → Prop} {f : β → Option γ} {as : List α}
    {bs : List β} {cs : List γ} (h : List.Forall₂ R as bs) (hf : bs.mapM f = some cs)
    (hS : ∀ a b c, R a b → f b = some c → S a c) : List.Forall₂ S as cs := by
  induction h generalizing cs with
  | nil =>
    cases hf
    exact .nil
  | cons hab htail ih =>
    rw [mapM_cons] at hf
    obtain ⟨c, hc, hf⟩ := Option.bind_eq_some_iff.mp hf
    obtain ⟨cs', hcs, hf⟩ := Option.bind_eq_some_iff.mp hf
    cases hf
    exact .cons (hS _ _ _ hab hc) (ih hcs)

end Forall₂

/-- What is known of a call that is prepared, executed or finalized. -/
structure CallRules where
  prepared : ToolCall → Prop
  executed : ToolCall → ExecutedToolCallOutcome → Prop
  finalized : ToolCall → FinalizedToolCallOutcome → Prop

namespace CallRules

variable (rules : CallRules)

/-- An entry of a batch belongs to a call and keeps the rules. -/
def EntryOf (toolCall : ToolCall) : BatchEntry → Prop
  | .waiting waitingCall => waitingCall = toolCall ∧ rules.prepared toolCall
  | .settled finalized => rules.finalized toolCall finalized

/-- An entry of the pool belongs to a call and keeps the rules. -/
def PooledOf (toolCall : ToolCall) : Entry → Prop
  | .executing executingCall _ => executingCall = toolCall ∧ rules.prepared toolCall
  | .finalizing finalizingCall executed =>
    finalizingCall = toolCall ∧ rules.executed toolCall executed
  | .settled finalized => rules.finalized toolCall finalized
  | .rejected _ _ => True

/-- The outcome that an input brings keeps the rules. -/
def Allows {μ : Type} (config : LoopConfig) (s : LoopState μ) : LoopInput μ → Prop
  | .prepared args before => ∀ batch toolCall, s.pc = .preparing batch toolCall →
    match prepareToolCall config.tools toolCall args before with
    | .immediate result isError => rules.finalized toolCall ⟨toolCall, result, isError⟩
    | .prepared _ => rules.prepared toolCall
  | .executed result => ∀ batch toolCall execution, s.pc = .executing batch toolCall execution →
    rules.prepared toolCall → rules.executed toolCall (executePreparedToolCall result)
  | .finalized after => ∀ batch toolCall executed, s.pc = .finalizing batch toolCall executed →
    rules.executed toolCall executed →
      rules.finalized toolCall (finalizeExecutedToolCall toolCall executed after)
  | .entry index input => ∀ entry, s.pool[index]? = some entry →
    match entry, input with
    | .executing toolCall _, .executed result =>
      rules.prepared toolCall → rules.executed toolCall (executePreparedToolCall result)
    | .finalizing toolCall executed, .finalized after _ => rules.executed toolCall executed →
      rules.finalized toolCall (finalizeExecutedToolCall toolCall executed after)
    | _, _ => True
  | _ => True

end CallRules

/-- The result messages of finalized calls, whenever they were made. -/
def Reports (finalizedCalls : List FinalizedToolCallOutcome) (messages : List ToolResultMessage) :
    Prop :=
  List.Forall₂ (fun finalized message => ∃ now, message = createToolResultMessage finalized now)
    finalizedCalls messages

section Batches

variable {μ : Type} (rules : CallRules)

/-- A batch has looked at some calls: they are settled in a sequential one, and have
entries in a parallel one. -/
def Batch.LookedAt (batch : Batch) (toolCalls : List ToolCall) : Prop :=
  match batch.mode with
  | .sequential => List.Forall₂ rules.finalized toolCalls batch.finalizedCalls ∧
      Reports batch.finalizedCalls batch.messages
  | .parallel => List.Forall₂ rules.EntryOf toolCalls batch.entries ∧ batch.messages = []

/-- Where the loop stands in the batch of a message. -/
def BatchPoint (message : AssistantMessage) (pool : List Entry) : Pc → Prop
  | .nextCall batch => batch.message = message ∧
    ∃ looked, looked ++ batch.rest = message.toolCalls ∧ batch.LookedAt rules looked
  | .preparing batch toolCall => batch.message = message ∧
    ∃ looked, looked ++ toolCall :: batch.rest = message.toolCalls ∧ batch.LookedAt rules looked
  | .executing batch toolCall _ => batch.message = message ∧ batch.mode = .sequential ∧
    rules.prepared toolCall ∧
    ∃ looked, looked ++ toolCall :: batch.rest = message.toolCalls ∧ batch.LookedAt rules looked
  | .finalizing batch toolCall executed => batch.message = message ∧ batch.mode = .sequential ∧
    rules.executed toolCall executed ∧
    ∃ looked, looked ++ toolCall :: batch.rest = message.toolCalls ∧ batch.LookedAt rules looked
  | .awaitingPool batch => batch.message = message ∧ batch.mode = .parallel ∧ batch.rest = [] ∧
    batch.messages = [] ∧ List.Forall₂ rules.PooledOf message.toolCalls pool
  | .results batch finalizedCalls => batch.message = message ∧
    (batch.mode = .parallel → batch.rest = []) ∧
    ∃ looked, looked ++ batch.rest = message.toolCalls ∧
      List.Forall₂ rules.finalized looked batch.finalizedCalls ∧
      ∃ reported, reported ++ finalizedCalls = batch.finalizedCalls ∧
        Reports reported batch.messages
  | _ => False

/-- The loop executes the tool calls of a message. -/
structure InBatch (message : AssistantMessage) (s : LoopState μ) : Prop where
  point : BatchPoint rules message s.pool s.pc
  /-- Nothing is about to be appended. -/
  noPush : s.todo.filterMap Statement.pushed? = []

/-- A batch that is finished: each call has a finalized call and a result message. -/
structure Batch.Complete (batch : Batch) (message : AssistantMessage) : Prop where
  of_message : batch.message = message
  finalized : List.Forall₂ rules.finalized message.toolCalls batch.finalizedCalls
  reported : Reports batch.finalizedCalls batch.messages

variable {rules}

theorem forall₂_startEntries {toolCalls : List ToolCall} {entries : List BatchEntry}
    (h : List.Forall₂ rules.EntryOf toolCalls entries) (execution : Nat) :
    List.Forall₂ rules.PooledOf toolCalls (startEntries execution entries) := by
  induction h generalizing execution with
  | nil => exact .nil
  | @cons toolCall entry toolCalls entries hentry htail ih =>
    cases entry with
    | waiting waitingCall => exact .cons hentry (ih _)
    | settled finalized => exact .cons hentry (ih _)

theorem EntryStep.pooledOf {config : LoopConfig} {s : LoopState μ} {index : Nat}
    {entry entry' : Entry} {input : EntryInput} {events : List (AgentEvent μ)}
    (hallows : rules.Allows config s (.entry index input)) (hentry : s.pool[index]? = some entry)
    (hstep : EntryStep entry input entry' events) (toolCall : ToolCall)
    (hof : rules.PooledOf toolCall entry) : rules.PooledOf toolCall entry' := by
  have hallows := hallows entry hentry
  cases hstep with
  | executed =>
    obtain ⟨rfl, hprepared⟩ := hof
    exact ⟨rfl, hallows hprepared⟩
  | finalized =>
    obtain ⟨rfl, hexecuted⟩ := hof
    exact hallows hexecuted
  | updateNotReceived => trivial
  | endNotReceived => trivial

theorem InBatch.settle {message : AssistantMessage} {s : LoopState μ} {batch : Batch}
    {toolCall : ToolCall} {finalized : FinalizedToolCallOutcome} {looked : List ToolCall}
    (hmessage : batch.message = message)
    (hcalls : looked ++ toolCall :: batch.rest = message.toolCalls)
    (hlooked : batch.LookedAt rules looked) (hfinal : rules.finalized toolCall finalized) :
    InBatch rules message (s.settle batch finalized) := by
  refine ⟨?_, rfl⟩
  have hsnoc : (looked ++ [toolCall]) ++ batch.rest = message.toolCalls := by
    rw [append_assoc]
    exact hcalls
  cases hmode : batch.mode with
  | sequential =>
    simp only [Batch.LookedAt, hmode] at hlooked
    simp only [LoopState.settle, hmode, BatchPoint]
    refine ⟨hmessage, nofun, looked ++ [toolCall], hsnoc, ?_, batch.finalizedCalls, rfl, hlooked.2⟩
    exact rel_append hlooked.1 (.cons hfinal .nil)
  | parallel =>
    simp only [Batch.LookedAt, hmode] at hlooked
    simp only [LoopState.settle, hmode, BatchPoint]
    refine ⟨hmessage, looked ++ [toolCall], hsnoc, ?_⟩
    simp only [Batch.LookedAt]
    exact ⟨rel_append hlooked.1 (.cons hfinal .nil), hlooked.2⟩

variable [LlmMessage μ]

theorem InBatch.step {config : LoopConfig} {message : AssistantMessage} {s t : LoopState μ}
    {input : LoopInput μ} {events : List (AgentEvent μ)} (h : InBatch rules message s)
    (hallows : rules.Allows config s input) (hstep : LoopStep config s input t events) :
    (InBatch rules message t ∧ t.context = s.context ∧ t.newMessages = s.newMessages) ∨
      ((∃ error, t.pc = .thrown error) ∧ t.todo.filterMap Statement.pushed? = [] ∧
        t.context = s.context) ∨
      ∃ batch : Batch, batch.Complete rules message ∧ t = s.finishBatch batch := by
  obtain ⟨hpoint, hpush⟩ := h
  cases hstep with
  | updated => exact .inl ⟨⟨hpoint, hpush⟩, rfl, rfl⟩
  | @entry index input entry entry' events hentry hstep =>
    refine .inl ⟨⟨?_, hpush⟩, rfl, rfl⟩
    cases hpc : s.pc with
    | awaitingPool batch =>
      rw [hpc] at hpoint
      obtain ⟨hmessage, hmode, hrest, hmessages, hpool⟩ := hpoint
      exact ⟨hmessage, hmode, hrest, hmessages,
        forall₂_set hpool hentry fun c => hstep.pooledOf hallows hentry c⟩
    | _ =>
      rw [hpc] at hpoint
      exact hpoint
  | received htodo =>
    rw [htodo] at hpush
    exact .inl ⟨⟨hpoint, hpush⟩, rfl, rfl⟩
  | notReceived htodo => exact .inr (.inl ⟨⟨_, rfl⟩, rfl, rfl⟩)
  | pushed htodo =>
    rw [htodo] at hpush
    cases hpush
  | advanced htodo hadvance =>
    cases hadvance with
    | threw => exact .inr (.inl ⟨⟨_, rfl⟩, hpush, rfl⟩)
    | callStarted hpc hrest =>
      rw [hpc] at hpoint
      obtain ⟨hmessage, looked, hcalls, hlooked⟩ := hpoint
      rw [hrest] at hcalls
      exact .inl ⟨⟨⟨hmessage, looked, hcalls, hlooked⟩, rfl⟩, rfl, rfl⟩
    | settledAtOnce hpc hprepared =>
      have hfinal := hallows _ _ hpc
      rw [hprepared] at hfinal
      rw [hpc] at hpoint
      obtain ⟨hmessage, looked, hcalls, hlooked⟩ := hpoint
      exact .inl ⟨.settle hmessage hcalls hlooked hfinal, rfl, rfl⟩
    | executionStarted hpc hprepared hmode =>
      have hready := hallows _ _ hpc
      rw [hprepared] at hready
      rw [hpc] at hpoint
      obtain ⟨hmessage, hlooked⟩ := hpoint
      exact .inl ⟨⟨⟨hmessage, hmode, hready, hlooked⟩, hpush⟩, rfl, rfl⟩
    | entryAdded hpc hprepared hmode =>
      have hready := hallows _ _ hpc
      rw [hprepared] at hready
      rw [hpc] at hpoint
      obtain ⟨hmessage, looked, hcalls, hlooked⟩ := hpoint
      simp only [Batch.LookedAt, hmode] at hlooked
      refine .inl ⟨⟨⟨hmessage, looked ++ [_], by rw [append_assoc]; exact hcalls, ?_⟩,
        hpush⟩, rfl, rfl⟩
      simp only [Batch.LookedAt, hmode]
      exact ⟨rel_append hlooked.1 (.cons ⟨rfl, hready⟩ .nil), hlooked.2⟩
    | executed hpc =>
      rw [hpc] at hpoint
      obtain ⟨hmessage, hmode, hready, hlooked⟩ := hpoint
      exact .inl ⟨⟨⟨hmessage, hmode, hallows _ _ _ hpc hready, hlooked⟩, hpush⟩, rfl, rfl⟩
    | finalized hpc =>
      rw [hpc] at hpoint
      obtain ⟨hmessage, hmode, hexecuted, looked, hcalls, hlooked⟩ := hpoint
      exact .inl ⟨.settle hmessage hcalls hlooked (hallows _ _ _ hpc hexecuted), rfl, rfl⟩
    | poolStarted hpc hrest hmode =>
      rw [hpc] at hpoint
      obtain ⟨hmessage, looked, hcalls, hlooked⟩ := hpoint
      simp only [Batch.LookedAt, hmode] at hlooked
      rw [hrest, append_nil] at hcalls
      subst hcalls
      exact .inl ⟨⟨⟨hmessage, hmode, hrest, hlooked.2, forall₂_startEntries hlooked.1 _⟩, hpush⟩,
        rfl, rfl⟩
    | poolSettled hpc hpool =>
      rw [hpc] at hpoint
      obtain ⟨hmessage, hmode, hrest, hmessages, hpooled⟩ := hpoint
      refine .inl ⟨⟨⟨hmessage, fun _ => hrest, message.toolCalls, ?_, ?_, [], rfl, ?_⟩, hpush⟩,
        rfl, rfl⟩
      · simp only [hrest, append_nil]
      · refine forall₂_mapM hpooled hpool fun toolCall entry finalized hof hsettled => ?_
        cases entry with
        | settled finalized' =>
          cases hsettled
          exact hof
        | _ => cases hsettled
      · simp only [hmessages]
        exact .nil
    | @resultReported now batch finalized finalizedCalls hpc =>
      rw [hpc] at hpoint
      obtain ⟨hmessage, hrest, looked, hcalls, hfinal, reported, hreported, hreports⟩ := hpoint
      refine .inl ⟨⟨⟨hmessage, hrest, looked, hcalls, hfinal, reported ++ [finalized], ?_, ?_⟩, rfl⟩,
        rfl, rfl⟩
      · rw [append_assoc]
        exact hreported
      · exact rel_append hreports (.cons ⟨_, rfl⟩ .nil)
    | callDone hpc hmode =>
      rw [hpc] at hpoint
      obtain ⟨hmessage, -, looked, hcalls, hfinal, reported, hreported, hreports⟩ := hpoint
      rw [append_nil] at hreported
      subst hreported
      refine .inl ⟨⟨⟨hmessage, looked, hcalls, ?_⟩, hpush⟩, rfl, rfl⟩
      simp only [Batch.LookedAt, hmode]
      exact ⟨hfinal, hreports⟩
    | batchFinished hpc =>
      refine .inr (.inr ⟨_, ?_, rfl⟩)
      rcases hpc with ⟨hpc, hrest, hmode⟩ | ⟨hpc, hmode⟩
      · rw [hpc] at hpoint
        obtain ⟨hmessage, looked, hcalls, hlooked⟩ := hpoint
        simp only [Batch.LookedAt, hmode] at hlooked
        rw [hrest, append_nil] at hcalls
        subst hcalls
        exact ⟨hmessage, hlooked.1, hlooked.2⟩
      · rw [hpc] at hpoint
        obtain ⟨hmessage, hrest, looked, hcalls, hfinal, reported, hreported, hreports⟩ := hpoint
        rw [hrest hmode, append_nil] at hcalls
        rw [append_nil] at hreported
        subst hcalls hreported
        exact ⟨hmessage, hfinal, hreports⟩
    | _ hpc =>
      simp only [hpc, BatchPoint] at hpoint

end Batches

end AcademicAgent
