import AcademicAgent.Agent.ExecutionModes
import AcademicAgent.Agent.Pairing

/-!
# What the events of a run say

The events of a run are bracketed: the run, its turns and their messages begin and end in
order.
-/

namespace AcademicAgent

open List Bracket

open LlmMessage (assistant isAssistant toolResult)
open Statement (event? pushed?)

variable {config : LoopConfig}

inductive Bracket (μ : Type) where
  | before
  /-- In the run, between two turns. -/
  | between
  /-- In a turn, with the message that has started and not ended. -/
  | turn (opened : Option μ)
  | after
  deriving DecidableEq

def AgentEvent.isToolEvent {μ : Type} : AgentEvent μ → Bool
  | .toolExecutionStart .. | .toolExecutionUpdate .. | .toolExecutionEnd .. => true
  | _ => false

section Brackets

variable {μ : Type} [LlmMessage μ] [DecidableEq μ]

/-- The message that ends is the one that started; the assistant message that is
streamed has changed meanwhile. -/
def sameMessage (opened closed : μ) : Bool :=
  opened = closed || (isAssistant opened && isAssistant closed)

def Bracket.next (bracket : Bracket μ) (event : AgentEvent μ) : Option (Bracket μ) :=
  if event.isToolEvent then
    match bracket with
    | .before | .after => none
    | .between | .turn _ => some bracket
  else
    match bracket, event with
    | .before, .agentStart => some .between
    | .between, .turnStart => some (.turn none)
    | .between, .agentEnd _ => some .after
    | .turn none, .messageStart message => some (.turn (some message))
    | .turn none, .turnEnd _ _ => some .between
    | .turn (some opened), .messageUpdate message _ =>
      if isAssistant opened ∧ isAssistant message then
        some (.turn (some opened))
      else none
    | .turn (some opened), .messageEnd message =>
      if sameMessage opened message then some (.turn none) else none
    | _, _ => none

/-- The events of a whole run: it starts first and ends last and once, turns alternate,
every message ends before the next one starts, and only assistant messages are updated. -/
def WellBracketed (events : List (AgentEvent μ)) : Prop :=
  run Bracket.next .before events = some .after

theorem Bracket.next_toolEvent {bracket : Bracket μ} {event : AgentEvent μ}
    (hevent : event.isToolEvent = true) (hbefore : bracket ≠ .before) (hafter : bracket ≠ .after) :
    bracket.next event = some bracket := by
  cases bracket with
  | before => exact absurd rfl hbefore
  | after => exact absurd rfl hafter
  | between | turn opened => simp only [next, hevent, if_true]

theorem Bracket.next_ne_before {bracket bracket' : Bracket μ} {event : AgentEvent μ}
    (h : bracket.next event = some bracket') : bracket' ≠ .before := by
  rintro rfl
  unfold next at h
  split at h
  · split at h
    all_goals cases h
  · split at h <;> try cases h
    all_goals
      split at h <;> cases h

section

variable {events : List (AgentEvent μ)} {bracket : Bracket μ}

theorem Bracket.eq_nil_of_before
    (h : run next bracket events = some .before) : events = [] := by
  induction events generalizing bracket with
  | nil => rfl
  | cons event events ih =>
    obtain ⟨bracket', hnext, hrest⟩ := run_cons_eq_some.mp h
    rw [ih hrest] at hrest
    cases hrest
    exact absurd rfl (next_ne_before hnext)

theorem Bracket.eq_nil_of_after
    (h : run next .after events = some bracket) : events = [] := by
  cases events with
  | nil => rfl
  | cons event events =>
    obtain ⟨bracket', hnext, -⟩ := run_cons_eq_some.mp h
    cases event <;> cases hnext

end

theorem Bracket.run_messages (messages : List μ) :
    run next (.turn none) ((messages.flatMap messageEvents).filterMap event?) =
      some (.turn none) := by
  induction messages with
  | nil => rfl
  | cons message messages ih =>
    rw [flatMap_cons, filterMap_append, run_append]
    have hone : run next (.turn none)
        ((messageEvents message).filterMap event?) = some (.turn none) := by
      simp [run, next, messageEvents, event?, AgentEvent.isToolEvent, sameMessage]
    rw [hone, Option.bind_some]
    exact ih

end Brackets

section Script

variable {μ : Type} [LlmMessage μ]

omit [LlmMessage μ] in
theorem filterMap_ended_messages (messages : List μ) :
    ((messages.flatMap messageEvents).filterMap event?).filterMap AgentEvent.ended? = messages := by
  induction messages with
  | nil => rfl
  | cons message messages ih =>
    rw [flatMap_cons, filterMap_append, filterMap_append, ih]
    rfl

omit [LlmMessage μ] in
theorem filterMap_pushed_messages (messages : List μ) :
    (messages.flatMap messageEvents).filterMap pushed? = [] := by
  induction messages with
  | nil => rfl
  | cons message messages ih =>
    rw [flatMap_cons, filterMap_append, ih]
    rfl

omit [LlmMessage μ] in
theorem filterMap_event_injected (messages : List μ) :
    (messages.flatMap fun message => messageEvents message ++ [.push message]).filterMap event? =
      (messages.flatMap messageEvents).filterMap event? := by
  induction messages with
  | nil => rfl
  | cons message messages ih =>
    rw [flatMap_cons, flatMap_cons, filterMap_append, filterMap_append, ih]
    rfl

omit [LlmMessage μ] in
theorem filterMap_pushed_injected (messages : List μ) :
    (messages.flatMap fun message => messageEvents message ++ [.push message]).filterMap
        pushed? = messages := by
  induction messages with
  | nil => rfl
  | cons message messages ih =>
    rw [flatMap_cons, filterMap_append, ih]
    rfl

/-- The messages that have ended and are not among the new ones yet. -/
def Pc.unsaved : Pc → List μ
  | .responded message => [assistant message]
  | .nextCall batch | .preparing batch _ | .executing batch _ _ | .finalizing batch _ _
  | .awaitingPool batch | .results batch _ => batch.messages.map toolResult
  | _ => []

/-- The context has grown by the new messages, and by the assistant message of the turn
while it is not among them. -/
def LoopState.Extends (base : List μ) (s : LoopState μ) : Prop :=
  match s.pc with
  | .streaming true | .awaitingResult true =>
    ∃ partialMessage, s.context = base ++ s.newMessages ++ [assistant partialMessage]
  | .responded message => s.context = base ++ s.newMessages ++ [assistant message]
  | _ => s.context = base ++ s.newMessages

/-- Where the events stand once the statements before the next `await` are done. -/
def LoopState.At (s : LoopState μ) (bracket : Bracket μ) : Prop :=
  match s.pc with
  | .pollSteering =>
    (s.firstTurn = true ∧ s.hasMoreToolCalls = true ∧ bracket = .turn none) ∨
      (s.firstTurn = false ∧ bracket = .between)
  | .pollFollowUp | .turnEnded _ _ => s.firstTurn = false ∧ bracket = .between
  | .streaming true | .awaitingResult true =>
    s.firstTurn = false ∧ ∃ partialMessage,
      bracket = .turn (some (assistant partialMessage))
  | .awaitingPool _ => s.firstTurn = false ∧ bracket = .turn none ∧ s.todo = []
  | .returned => bracket = .after
  | .thrown _ => False
  | _ => s.firstTurn = false ∧ bracket = .turn none

theorem LoopState.At.ne_before {s : LoopState μ} {bracket : Bracket μ} (h : s.At bracket) :
    bracket ≠ .before := by
  rintro rfl
  unfold LoopState.At at h
  split at h
  · rcases h with ⟨-, -, h⟩ | ⟨-, h⟩ <;> cases h
  · cases h.2
  · cases h.2
  · obtain ⟨-, _, h⟩ := h
    cases h
  · obtain ⟨-, _, h⟩ := h
    cases h
  · cases h.2.1
  · cases h
  · exact h
  · cases h.2

theorem LoopState.At.returned {s : LoopState μ} (h : s.At .after) : s.pc = .returned := by
  unfold LoopState.At at h
  split at h
  · rcases h with ⟨-, -, h⟩ | ⟨-, h⟩ <;> cases h
  · cases h.2
  · cases h.2
  · obtain ⟨-, _, h⟩ := h
    cases h
  · obtain ⟨-, _, h⟩ := h
    cases h
  · cases h.2.1
  · assumption
  · exact h.elim
  · cases h.2

end Script

section Runs

variable {μ : Type} [LlmMessage μ] [DecidableEq μ]

variable {state : LoopState μ} {base : List μ} {s : Traced μ}

/-- The events of a run so far, and those about to be emitted, are bracketed and say
what the new messages are and how the context has grown. -/
structure EventsTrack (base : List μ) (s : Traced μ) : Prop where
  bracket : ∃ now later, run Bracket.next .before s.trace = some now ∧
    run Bracket.next now (s.state.todo.filterMap event?) = some later ∧
    s.state.At later
  ended : s.trace.filterMap AgentEvent.ended? ++
      (s.state.todo.filterMap event?).filterMap AgentEvent.ended? =
    s.state.newMessages ++ s.state.todo.filterMap pushed? ++ s.state.pc.unsaved
  context : s.state.Extends base
  /-- Only the start of a turn appends messages as it goes. -/
  pushes : s.state.pc ≠ .callModel → s.state.todo.filterMap pushed? = []
  /-- Nothing is executed before the first event. -/
  begun : s.trace = [] → s.state.executions = []

namespace EventsTrack

variable {base : List μ} {s : Traced μ}

section

variable (h : EventsTrack base s) (htodo : s.state.todo = [])
include h htodo

theorem at_of_todo : ∃ now, run Bracket.next .before s.trace = some now ∧ s.state.At now := by
  obtain ⟨now, later, htrace, hlater, hat⟩ := h.bracket
  rw [htodo] at hlater
  cases hlater
  exact ⟨now, htrace, hat⟩

theorem of_advance
    (hbracket : ∀ now, s.state.At now → ∃ later, run Bracket.next now (state.todo.filterMap event?) = some later ∧ state.At later)
    (hended : s.state.newMessages ++ s.state.pc.unsaved ++ (state.todo.filterMap event?).filterMap AgentEvent.ended? = state.newMessages ++ state.todo.filterMap pushed? ++ state.pc.unsaved)
    (hcontext : s.state.Extends base → state.Extends base)
    (hpushes : state.pc ≠ .callModel → state.todo.filterMap pushed? = []) :
    EventsTrack base { state, trace := s.trace } := by
  obtain ⟨now, htrace, hat⟩ := h.at_of_todo htodo
  obtain ⟨later, hlater, hat'⟩ := hbracket now hat
  refine ⟨⟨now, later, htrace, hlater, hat'⟩, ?_, hcontext h.context, hpushes, fun hnil => ?_⟩
  · have hbefore := h.ended
    rw [htodo] at hbefore
    simp only [filterMap_nil, append_nil] at hbefore
    rw [hbefore]
    exact hended
  · dsimp only at hnil
    rw [hnil] at htrace
    cases htrace
    exact absurd rfl hat.ne_before

theorem of_silent (hnothing : state.todo = []) (hat : ∀ now, s.state.At now → state.At now)
    (hended : s.state.newMessages ++ s.state.pc.unsaved = state.newMessages ++ state.pc.unsaved)
    (hcontext : s.state.Extends base → state.Extends base) :
    EventsTrack base { state, trace := s.trace } := by
  refine h.of_advance htodo (fun now hnow => ⟨now, ?_, hat now hnow⟩) ?_ hcontext fun _ => ?_
  · rw [hnothing]
    rfl
  · rw [hnothing]
    simpa only [filterMap_nil, append_nil] using hended
  · rw [hnothing]
    rfl

end

section

variable (h : EventsTrack base s) (htodo : s.state.todo = [])
include h htodo

theorem settle {batch : Batch}
    (hat : ∀ now, s.state.At now → s.state.firstTurn = false ∧ now = .turn none)
    (hunsaved : (s.state.pc.unsaved : List μ) = batch.messages.map toolResult)
    (hcontext : s.state.Extends base → s.state.context = base ++ s.state.newMessages)
    (finalized : FinalizedToolCallOutcome) :
    EventsTrack base { state := s.state.settle batch finalized, trace := s.trace } := by
  refine h.of_advance htodo (fun now hnow => ⟨.turn none, ?_, ?_⟩) ?_ (fun hbefore => ?_)
    fun _ => rfl
  · rw [(hat now hnow).2]
    rfl
  · cases hmode : batch.mode <;>
      simp only [LoopState.At, LoopState.settle, hmode, and_true] <;>
      exact (hat now hnow).1
  · rw [hunsaved]
    cases hmode : batch.mode <;>
      simp only [LoopState.settle, hmode, Pc.unsaved, filterMap_cons, filterMap_nil,
        event?, pushed?, toolExecutionEnd, AgentEvent.ended?, append_nil]
  · cases hmode : batch.mode <;>
      simp only [LoopState.Extends, LoopState.settle, hmode] <;>
      exact hcontext hbefore

theorem enterTurn {hasMoreToolCalls : Bool}
    (hat : ∀ now, s.state.At now → (s.state.firstTurn = true ∧ now = .turn none) ∨
      (s.state.firstTurn = false ∧ now = .between)) (hunsaved : (s.state.pc.unsaved : List μ) = [])
    (hcontext : s.state.Extends base → s.state.context = base ++ s.state.newMessages)
    (messages : List μ) : EventsTrack base
      { state := { s.state with hasMoreToolCalls }.enterTurn messages, trace := s.trace } := by
  have hinjected := Bracket.run_messages messages
  refine h.of_advance htodo (fun now hnow => ⟨.turn none, ?_, rfl, rfl⟩) ?_ hcontext
    fun hne => absurd rfl hne
  · rcases hat now hnow with ⟨hfirst, rfl⟩ | ⟨hfirst, rfl⟩
    · simp only [LoopState.enterTurn, hfirst, if_true, nil_append, filterMap_event_injected]
      exact hinjected
    · simp only [LoopState.enterTurn, hfirst, filterMap_append, filterMap_event_injected]
      exact hinjected
  · rw [hunsaved]
    cases hfirst : s.state.firstTurn <;>
      simp only [LoopState.enterTurn, hfirst, filterMap_append, filterMap_event_injected,
        filterMap_ended_messages, filterMap_pushed_injected, Pc.unsaved, append_nil] <;>
      rfl

theorem endRun
    (hat : ∀ now, s.state.At now → now = .between) (hunsaved : (s.state.pc.unsaved : List μ) = [])
    (hcontext : s.state.Extends base → s.state.context = base ++ s.state.newMessages) :
    EventsTrack base { state := s.state.endRun [], trace := s.trace } := by
  refine h.of_advance htodo (fun now hnow => ⟨.after, ?_, rfl⟩) ?_ hcontext fun _ => rfl
  · rw [hat now hnow]
    rfl
  · rw [hunsaved]
    rfl

theorem responded {addedPartial : Bool}
    (hpc : s.state.pc = .awaitingResult addedPartial) (message : AssistantMessage) :
    EventsTrack base
      { state := { s.state with
          context := s.state.putAssistant addedPartial message
          todo := (if addedPartial then [] else
              [.emit (.messageStart (assistant message))]) ++
            [.emit (.messageEnd (assistant message))]
          pc := .responded message }
        trace := s.trace } := by
  cases addedPartial with
  | true =>
    refine h.of_advance htodo (fun now hnow => ⟨.turn none, ?_, ?_⟩) ?_ (fun hcontext => ?_)
      fun _ => rfl
    · simp only [LoopState.At, hpc] at hnow
      obtain ⟨-, opened, rfl⟩ := hnow
      simp [run, Bracket.next, event?, AgentEvent.isToolEvent, sameMessage,
        LlmMessage.isAssistant_assistant]
    · simp only [LoopState.At, hpc] at hnow
      exact ⟨hnow.1, rfl⟩
    · rw [hpc]
      simp [Pc.unsaved, event?, pushed?, AgentEvent.ended?]
    · simp only [LoopState.Extends, hpc] at hcontext ⊢
      obtain ⟨opened, hcontext⟩ := hcontext
      simp only [LoopState.putAssistant, if_true, hcontext, dropLast_concat]
  | false =>
    refine h.of_advance htodo (fun now hnow => ⟨.turn none, ?_, ?_⟩) ?_ (fun hcontext => ?_)
      fun _ => rfl
    · simp only [LoopState.At, hpc] at hnow
      rw [hnow.2]
      simp [run, Bracket.next, event?, AgentEvent.isToolEvent, sameMessage]
    · simp only [LoopState.At, hpc] at hnow
      exact ⟨hnow.1, rfl⟩
    · rw [hpc]
      simp only [Pc.unsaved, append_nil, append_assoc]
      rfl
    · simp only [LoopState.Extends, hpc] at hcontext ⊢
      simp [LoopState.putAssistant, hcontext]

theorem finishBatch {batch : Batch}
    (hpc : s.state.pc = .nextCall batch ∨ s.state.pc = .results batch []) :
    EventsTrack base { state := s.state.finishBatch batch, trace := s.trace } := by
  have hat : ∀ now, s.state.At now → s.state.firstTurn = false ∧ now = .turn none := by
    intro now hnow
    rcases hpc with hpc | hpc <;> simpa only [LoopState.At, hpc] using hnow
  have hunsaved : (s.state.pc.unsaved : List μ) = batch.messages.map toolResult := by
    rcases hpc with hpc | hpc <;> rw [hpc] <;> rfl
  have hcontext : s.state.Extends base → s.state.context = base ++ s.state.newMessages := by
    rcases hpc with hpc | hpc <;> simp only [LoopState.Extends, hpc, imp_self]
  refine h.of_advance htodo (fun now hnow => ⟨.between, ?_, (hat now hnow).1, rfl⟩) ?_
    (fun hbefore => ?_) fun _ => rfl
  · rw [(hat now hnow).2]
    rfl
  · rw [hunsaved]
    simp only [LoopState.finishBatch, Pc.unsaved, append_nil, append_assoc]
    rfl
  · simp only [LoopState.Extends, LoopState.finishBatch, hcontext hbefore, append_assoc]

end

end EventsTrack

/-- No second message starts in one stream, and no tool reports an update when the run
has ended. -/
def Traced.Permits (s : Traced μ) : LoopInput μ → Prop
  | .streamEvent (.start _) => s.state.pc ≠ .streaming true
  | .toolUpdate .. => s.state.pc = .returned → s.state.todo ≠ []
  | _ => True

theorem EventsTrack.advance {input : LoopInput μ} (h : EventsTrack base s)
    (hpermits : s.Permits input) (htodo : s.state.todo = [])
    (hadvance : Advance config s.state input state) :
    (∃ error, state.pc = .thrown error) ∨ EventsTrack base { state, trace := s.trace } := by
  cases hadvance with
  | threw => exact .inl ⟨_, rfl⟩
  | turnEntered hpc hmore =>
    refine .inr (h.enterTurn htodo (fun now hnow => ?_) (by rw [hpc]; rfl) ?_ _)
    · simp only [LoopState.At, hpc] at hnow
      rcases hnow with ⟨hfirst, -, hnow⟩ | hnow
      · exact .inl ⟨hfirst, hnow⟩
      · exact .inr hnow
    · simp only [LoopState.Extends, hpc, imp_self]
  | nothingSteered hpc hmore =>
    refine .inr (h.of_silent htodo htodo (fun now hnow => ?_) (by rw [hpc]; rfl) ?_)
    · simp only [LoopState.At, hpc] at hnow
      rcases hnow with ⟨-, hmore', -⟩ | hnow
      · rw [hmore] at hmore'
        cases hmore'
      · exact hnow
    · simp only [LoopState.Extends, hpc, imp_self]
  | followedUp hpc hne =>
    refine .inr (h.enterTurn htodo (fun now hnow => ?_) (by rw [hpc]; rfl) ?_ _)
    · simp only [LoopState.At, hpc] at hnow
      exact .inr hnow
    · simp only [LoopState.Extends, hpc, imp_self]
  | nothingFollowed hpc | stopped hpc =>
    refine .inr (h.endRun htodo (fun now hnow => ?_) (by rw [hpc]; rfl) ?_)
    · simp only [LoopState.At, hpc] at hnow
      exact hnow.2
    · simp only [LoopState.Extends, hpc, imp_self]
  | called hpc | executionStarted hpc hprepared hmode | entryAdded hpc hprepared hmode
  | executed hpc | callDone hpc hmode =>
    refine .inr (h.of_silent htodo htodo (fun now hnow => ?_) (by rw [hpc]; rfl) ?_)
    · simpa only [LoopState.At, hpc] using hnow
    · simp only [LoopState.Extends, hpc, imp_self]
  | @streamStarted addedPartial partialMessage hpc =>
    cases addedPartial with
    | true => exact absurd hpc hpermits
    | false =>
      refine .inr (h.of_advance htodo (fun now hnow =>
        ⟨.turn (some (assistant partialMessage)), ?_, ?_⟩) ?_ (fun hcontext => ?_)
        fun _ => rfl)
      · simp only [LoopState.At, hpc] at hnow
        rw [hnow.2]
        rfl
      · simp only [LoopState.At, hpc] at hnow
        exact ⟨hnow.1, _, rfl⟩
      · rw [hpc]
        rfl
      · simp only [LoopState.Extends, hpc] at hcontext
        exact ⟨partialMessage, by rw [hcontext]⟩
  | @streamUpdated kind index partialMessage hpc =>
    refine .inr (h.of_advance htodo (fun now hnow => ?_) ?_ (fun hcontext => ?_) fun _ => rfl)
    · simp only [LoopState.At, hpc] at hnow
      obtain ⟨hfirst, opened, rfl⟩ := hnow
      refine ⟨.turn (some (assistant opened)), ?_, ?_⟩
      · simp [run, Bracket.next, event?, AgentEvent.isToolEvent, LlmMessage.isAssistant_assistant]
      · simp only [LoopState.At, hpc]
        exact ⟨hfirst, opened, rfl⟩
    · simp only [hpc]
      rfl
    · simp only [LoopState.Extends, hpc] at hcontext ⊢
      obtain ⟨opened, hcontext⟩ := hcontext
      refine ⟨partialMessage, ?_⟩
      simp only [LoopState.putAssistant, if_true, hcontext, dropLast_concat]
  | updateIgnored hpc => exact .inr h
  | @streamClosed input addedPartial hpc hinput =>
    cases addedPartial with
    | true | false =>
      refine .inr (h.of_silent htodo htodo (fun now hnow => ?_) (by rw [hpc]; rfl) ?_)
      · simpa only [LoopState.At, hpc] using hnow
      · simp only [LoopState.Extends, hpc, imp_self]
  | @responded addedPartial message hpc => exact .inr (h.responded htodo hpc message)
  | turnFailed hpc hstop =>
    refine .inr (h.of_advance htodo (fun now hnow => ⟨.after, ?_, rfl⟩) ?_ (fun hcontext => ?_)
      fun _ => rfl)
    · simp only [LoopState.At, hpc] at hnow
      rw [hnow.2]
      rfl
    · rw [hpc]
      simp only [LoopState.endRun, Pc.unsaved, append_nil, append_assoc]
      rfl
    · simp only [LoopState.Extends, hpc] at hcontext
      simp only [LoopState.Extends, LoopState.endRun, hcontext, append_assoc]
  | turnWithoutCalls hpc hnone =>
    refine .inr (h.of_advance htodo (fun now hnow => ⟨.between, ?_, ?_⟩) ?_ (fun hcontext => ?_)
      fun _ => rfl)
    · simp only [LoopState.At, hpc] at hnow
      rw [hnow.2]
      rfl
    · simp only [LoopState.At, hpc] at hnow
      exact ⟨hnow.1, rfl⟩
    · rw [hpc]
      simp only [Pc.unsaved, append_nil, append_assoc]
      rfl
    · simp only [LoopState.Extends, hpc] at hcontext
      simp only [LoopState.Extends, hcontext, append_assoc]
  | batchStarted hpc hstop =>
    refine .inr (h.of_silent htodo htodo (fun now hnow => ?_) ?_ fun hcontext => ?_)
    · simpa only [LoopState.At, hpc] using hnow
    · rw [hpc]
      exact (append_nil _).symm
    · simp only [LoopState.Extends, hpc] at hcontext
      simp only [LoopState.Extends, hcontext, append_assoc]
  | callStarted hpc hrest =>
    refine .inr (h.of_advance htodo (fun now hnow => ⟨.turn none, ?_, ?_⟩) ?_ ?_ fun _ => rfl)
    · simp only [LoopState.At, hpc] at hnow
      rw [hnow.2]
      rfl
    · simp only [LoopState.At, hpc] at hnow
      exact ⟨hnow.1, rfl⟩
    · rw [hpc]
      simp only [Pc.unsaved, filterMap_cons, filterMap_nil, event?,
        pushed?, toolExecutionStart, AgentEvent.ended?, append_nil]
    · simp only [LoopState.Extends, hpc, imp_self]
  | settledAtOnce hpc hprepared | finalized hpc =>
    refine .inr (h.settle htodo (fun now hnow => ?_) (by rw [hpc]; rfl) ?_ _)
    · simpa only [LoopState.At, hpc] using hnow
    · simp only [LoopState.Extends, hpc, imp_self]
  | poolStarted hpc hrest hmode =>
    refine .inr (h.of_silent htodo htodo (fun now hnow => ?_) (by rw [hpc]; rfl) ?_)
    · simp only [LoopState.At, hpc] at hnow
      exact ⟨hnow.1, hnow.2, htodo⟩
    · simp only [LoopState.Extends, hpc, imp_self]
  | poolSettled hpc hpool =>
    refine .inr (h.of_silent htodo htodo (fun now hnow => ?_) (by rw [hpc]; rfl) ?_)
    · simp only [LoopState.At, hpc] at hnow
      exact ⟨hnow.1, hnow.2.1⟩
    · simp only [LoopState.Extends, hpc, imp_self]
  | @resultReported now' batch finalized finalizedCalls hpc =>
    refine .inr (h.of_advance htodo (fun now hnow => ⟨.turn none, ?_, ?_⟩) ?_ ?_ fun _ => rfl)
    · simp only [LoopState.At, hpc] at hnow
      rw [hnow.2]
      have hone := Bracket.run_messages [(toolResult (createToolResultMessage finalized now') : μ)]
      simpa only [flatMap_cons, flatMap_nil, append_nil] using hone
    · simp only [LoopState.At, hpc] at hnow
      exact ⟨hnow.1, rfl⟩
    · rw [hpc]
      simp only [Pc.unsaved, messageEvents, map_append, map_cons, map_nil,
        filterMap_cons, filterMap_nil, event?, pushed?,
        AgentEvent.ended?, append_nil, append_assoc]
    · simp only [LoopState.Extends, hpc, imp_self]
  | @batchFinished _ batch hpc =>
    have hbatch : s.state.pc = .nextCall batch ∨ s.state.pc = .results batch [] := by
      rcases hpc with ⟨hpc, -⟩ | ⟨hpc, -⟩
      · exact .inl hpc
      · exact .inr hpc
    exact .inr (h.finishBatch htodo hbatch)
  | goesOn hpc =>
    refine .inr (h.of_silent htodo htodo (fun now hnow => ?_) (by rw [hpc]; rfl) ?_)
    · simp only [LoopState.At, hpc] at hnow
      exact .inr hnow
    · simp only [LoopState.Extends, hpc, imp_self]

omit [DecidableEq μ] in
theorem LoopState.At.received {s : LoopState μ} {bracket : Bracket μ} {event : AgentEvent μ}
    {todo : List (Statement μ)} (h : s.At bracket) (htodo : s.todo = .emit event :: todo) :
    LoopState.At { s with todo } bracket := by
  unfold LoopState.At at h ⊢
  cases hpc : s.pc with
  | awaitingPool batch =>
    simp only [hpc] at h
    rw [htodo] at h
    cases h.2.2
  | streaming addedPartial | awaitingResult addedPartial
    => cases addedPartial <;> simpa only [hpc] using h
  | thrown error => simp only [hpc] at h
  | _ => simpa only [hpc] using h

omit [DecidableEq μ] in
theorem executions_ne_nil {t : Traced μ} {index : Nat} {partialResult : AgentToolResult}
    {sink : Outcome Unit} (h : stepTraced config s (.toolUpdate index partialResult sink) = some t)
    : s.state.executions ≠ [] := by
  intro hnil
  simp [stepTraced, stepLoop, hnil] at h

theorem EventsTrack.toolEvents (h : EventsTrack base s) {events : List (AgentEvent μ)}
    (hevents : ∀ event ∈ events, event.isToolEvent = true)
    (hnow : ∀ now, run Bracket.next .before s.trace = some now → (∃ later, run Bracket.next now (s.state.todo.filterMap event?) = some later ∧ s.state.At later) → events ≠ [] → now ≠ .before ∧ now ≠ .after)
    (hsame : ∀ bracket, s.state.At bracket → state.At bracket) (htodo : state.todo = s.state.todo)
    (hpc : state.pc = s.state.pc) (hmessages : state.newMessages = s.state.newMessages)
    (hcontext : s.state.Extends base → state.Extends base)
    (hbegun : s.trace ++ events = [] → state.executions = []) :
    EventsTrack base { state, trace := s.trace ++ events } := by
  obtain ⟨now, later, htrace, hlater, hat⟩ := h.bracket
  have hstays : ∀ {bracket : Bracket μ}, bracket ≠ .before → bracket ≠ .after →
      run Bracket.next bracket events = some bracket := by
    intro bracket hbefore hafter
    clear hnow hbegun
    induction events with
    | nil => rfl
    | cons event events ih =>
      obtain ⟨hevent, hrest⟩ := forall_mem_cons.mp hevents
      exact run_cons_eq_some.mpr ⟨bracket, Bracket.next_toolEvent hevent hbefore hafter, ih hrest⟩
  have hrun : run Bracket.next .before (s.trace ++ events) = some now := by
    rw [run_append, htrace, Option.bind_some]
    by_cases hnil : events = []
    · rw [hnil]
      rfl
    · obtain ⟨hbefore, hafter⟩ := hnow now htrace ⟨later, hlater, hat⟩ hnil
      exact hstays hbefore hafter
  have hnone : events.filterMap AgentEvent.ended? = [] := by
    refine filterMap_eq_nil_iff.mpr fun event hmem => ?_
    have hevent := hevents event hmem
    cases event <;> first | rfl | cases hevent
  refine ⟨⟨now, later, hrun, ?_, hsame later hat⟩, ?_, hcontext h.context, ?_, hbegun⟩
  · rw [htodo]
    exact hlater
  · rw [htodo, hpc, hmessages, filterMap_append, hnone, append_nil]
    exact h.ended
  · rw [htodo, hpc]
    exact h.pushes

theorem EventsTrack.step {t : Traced μ} {input : LoopInput μ} (h : EventsTrack base s)
    (hpool : PoolSettled s) (hpermits : s.Permits input)
    (hstep : stepTraced config s input = some t) :
    (∃ error, t.state.pc = .thrown error) ∨ EventsTrack base t := by
  obtain ⟨events, hloop, htrace⟩ := LoopStep.of_stepTraced hstep
  have hexecutes : ∀ index partialResult sink, input = .toolUpdate index partialResult sink →
      s.state.executions ≠ [] := fun _ _ _ hinput => executions_ne_nil (hinput ▸ hstep)
  obtain ⟨state, trace⟩ := t
  subst htrace
  clear hstep
  cases hloop with
  | @updated index partialResult sink execution executions =>
    have hbegan : s.trace ≠ [] := fun hnil =>
      hexecutes index partialResult sink rfl (h.begun hnil)
    refine .inr (h.toolEvents ?_ ?_ (fun _ hat => hat) rfl rfl rfl id fun hnil => ?_)
    · intro event hevent
      rw [mem_singleton.mp hevent]
      rfl
    · rintro now hnow ⟨later, hlater, hat⟩ -
      constructor
      · rintro rfl
        exact hbegan (Bracket.eq_nil_of_before hnow)
      · rintro rfl
        have hnone := Bracket.eq_nil_of_after hlater
        rw [hnone] at hlater
        cases hlater
        have hreturned := hat.returned
        have hpushes := h.pushes (by rw [hreturned]; nofun)
        have hopen := hpermits hreturned
        cases htodo : s.state.todo with
        | nil => exact hopen htodo
        | cons statement todo =>
          rw [htodo] at hnone hpushes
          cases statement with
          | emit event => cases hnone
          | push message => cases hpushes
    · exact absurd (append_eq_nil_iff.mp hnil).1 hbegan
  | @entry index input entry entry' events hentry hentryStep =>
    have hnone : entry.finalized? = none := by cases hentryStep <;> rfl
    obtain ⟨now, later, htrace, hlater, hat⟩ := h.bracket
    rcases hpool with ⟨batch, hpc⟩ | ⟨error, hpc⟩ | hquiet
    · have hwaits := hat
      simp only [LoopState.At, hpc] at hwaits
      obtain ⟨-, rfl, htodo⟩ := hwaits
      rw [htodo] at hlater
      cases hlater
      refine .inr (h.toolEvents ?_ ?_ (fun _ hat => hat) rfl rfl rfl id fun hnil => ?_)
      · intro event hevent
        cases hentryStep with
        | executed | updateNotReceived => cases hevent
        | finalized | endNotReceived =>
          rw [mem_singleton.mp hevent]
          rfl
      · rintro now' hnow' - -
        cases htrace.symm.trans hnow'
        exact ⟨nofun, nofun⟩
      · rw [(append_eq_nil_iff.mp hnil).1] at htrace
        cases htrace
    · simp only [LoopState.At, hpc] at hat
    · have hsettled := hquiet entry (mem_of_getElem? hentry)
      rw [hnone] at hsettled
      cases hsettled
  | @received event todo htodo =>
    obtain ⟨now, later, htrace, hlater, hat⟩ := h.bracket
    rw [htodo] at hlater
    obtain ⟨then', hnext, hrest⟩ := run_cons_eq_some.mp hlater
    refine .inr ⟨⟨then', later, ?_, hrest, hat.received htodo⟩, ?_, h.context, fun hne => ?_,
      fun hnil => ?_⟩
    · rw [run_append, htrace, Option.bind_some]
      exact run_cons_eq_some.mpr ⟨then', hnext, rfl⟩
    · have hended := h.ended
      rw [htodo] at hended
      rw [filterMap_append, append_assoc, ← filterMap_append]
      exact hended
    · have hpushes := h.pushes hne
      rw [htodo] at hpushes
      exact hpushes
    · cases (append_eq_nil_iff.mp hnil).2
  | notReceived htodo => exact .inl ⟨_, rfl⟩
  | @pushed now' message todo htodo =>
    have hpc : s.state.pc = .callModel := by
      by_contra hne
      have hpushes := h.pushes hne
      rw [htodo] at hpushes
      cases hpushes
    obtain ⟨now, later, htrace, hlater, hat⟩ := h.bracket
    rw [htodo] at hlater
    rw [append_nil]
    refine .inr ⟨⟨now, later, htrace, hlater, ?_⟩, ?_, ?_, fun hne => absurd hpc hne, h.begun⟩
    · simpa only [LoopState.At, hpc] using hat
    · have hended := h.ended
      rw [htodo] at hended
      rw [append_assoc s.state.newMessages [message]]
      exact hended
    · have hcontext := h.context
      simp only [LoopState.Extends, hpc] at hcontext ⊢
      rw [hcontext, append_assoc]
  | advanced htodo hadvance =>
    rw [append_nil]
    exact h.advance hpermits htodo hadvance

/-- `runAgentLoop` or `runAgentLoopContinue` with the messages of a context. -/
def StartsRun (base : List μ) (start : LoopState μ) : Prop :=
  (∃ prompts, start = runAgentLoop prompts base) ∨ runAgentLoopContinue base = .ok start

def LoopState.Returned (s : LoopState μ) : Prop := s.pc = .returned ∧ s.todo = []

omit [DecidableEq μ] in
theorem StartsRun.fresh {start : LoopState μ} (h : StartsRun base start) :
    ∃ prompts, start.newMessages = prompts ∧ start.context = base ++ prompts ∧
      start.todo = [.emit .agentStart, .emit .turnStart] ++ prompts.flatMap messageEvents ∧
      start.pc = .pollSteering ∧ start.firstTurn = true ∧ start.hasMoreToolCalls = true ∧
      start.executions = [] ∧ start.pool = [] := by
  rcases h with ⟨prompts, rfl⟩ | hcontinue
  · exact ⟨prompts, rfl, rfl, rfl, rfl, rfl, rfl, rfl, rfl⟩
  · unfold runAgentLoopContinue at hcontinue
    split at hcontinue
    · cases hcontinue
    · split at hcontinue
      · cases hcontinue
      · cases hcontinue
        exact ⟨[], rfl, (append_nil _).symm, rfl, rfl, rfl, rfl, rfl, rfl⟩

theorem StartsRun.tracks {start : LoopState μ} (h : StartsRun base start) :
    EventsTrack base { state := start } := by
  obtain ⟨prompts, hnew, hcontext, htodo, hpc, hfirst, hmore, hexecutions, -⟩ := h.fresh
  refine ⟨⟨.before, .turn none, rfl, ?_, ?_⟩, ?_, ?_, fun _ => ?_, fun _ => hexecutions⟩
  · rw [htodo, filterMap_append, run_append]
    exact Bracket.run_messages prompts
  · simp only [LoopState.At, hpc]
    exact .inl ⟨hfirst, hmore, trivial⟩
  · rw [htodo, hpc, hnew, filterMap_append, filterMap_append, filterMap_append,
      filterMap_ended_messages, filterMap_pushed_messages]
    exact (append_nil _).symm.trans (append_nil _).symm
  · simp only [LoopState.Extends, hpc, hcontext, hnew]
  · rw [htodo, filterMap_append, filterMap_pushed_messages]
    rfl

/-- In every run in which no stream starts a second message and no tool reports an
update after the end, the events are bracketed, and when the loop returns the messages
that ended are the new ones and those that the context has grown by. -/
theorem event_trace_determines_transcript {config : LoopConfig} {base : List μ}
    {start : LoopState μ} {inputs : List (LoopInput μ)} {t : Traced μ}
    (hstart : StartsRun base start)
    (hpermits : Along (stepTraced config) Traced.Permits { state := start } inputs)
    (hrun : run (stepTraced config) { state := start } inputs = some t) :
    (∃ error, t.state.pc = .thrown error) ∨ (run Bracket.next .before t.trace).isSome = true ∧
        (t.state.Returned → WellBracketed t.trace ∧
          t.trace.filterMap AgentEvent.ended? = t.state.newMessages ∧
          t.state.context = base ++ t.state.newMessages) := by
  have hpool : PoolSettled { state := start : Traced μ } := by
    obtain ⟨-, -, -, -, -, -, -, -, hpool⟩ := hstart.fresh
    refine .inr (.inr ?_)
    dsimp only
    rw [hpool]
    nofun
  have hinv : ∀ (s : Traced μ) input u,
      (PoolSettled s ∧ ((∃ error, s.state.pc = .thrown error) ∨ EventsTrack base s)) →
      s.Permits input → stepTraced config s input = some u →
      PoolSettled u ∧ ((∃ error, u.state.pc = .thrown error) ∨ EventsTrack base u) := by
    rintro s input u ⟨hsettled, hthrown | htracks⟩ hinput hstep
    · refine ⟨hsettled.step hstep, ?_⟩
      obtain ⟨events, hloop, -⟩ := LoopStep.of_stepTraced hstep
      exact .inl (hloop.thrown hthrown)
    · exact ⟨hsettled.step hstep, htracks.step hsettled hinput hstep⟩
  obtain ⟨-, hthrown | htracks⟩ := run_invariant hinv ⟨hpool, .inr hstart.tracks⟩ hpermits hrun
  · exact .inl hthrown
  obtain ⟨now, later, htrace, hlater, hat⟩ := htracks.bracket
  refine .inr ⟨by rw [htrace]; rfl, ?_⟩
  rintro ⟨hpc, htodo⟩
  rw [htodo] at hlater
  cases hlater
  simp only [LoopState.At, hpc] at hat
  have hended := htracks.ended
  have hcontext := htracks.context
  rw [htodo, hpc] at hended
  rw [hat] at htrace
  simp only [LoopState.Extends, hpc] at hcontext
  refine ⟨htrace, ?_, hcontext⟩
  simpa only [Pc.unsaved, filterMap_nil, append_nil] using hended

end Runs

def listingMessage : AssistantMessage :=
  { content := [.toolCall listingCall], api := [], provider := [], model := [],
    usage := EMPTY_USAGE, stopReason := .toolUse, timestamp := 0 }

/-- A run with a prompt and a tool call, stopped after its turn. -/
def listingInputs : List (LoopInput Message) :=
  [.received (.ok ()), .received (.ok ()), .received (.ok ()), .received (.ok ()), .polled [],
    .called, .streamEvent (.start listingMessage), .received (.ok ()), .streamEnded,
    .streamResult listingMessage, .received (.ok ()), .resumed 0, .resumed 0, .received (.ok ()),
    .prepared (.ok .emptyObject) (.ok none), .resumed 0,
    .entry 0 (.executed (.ok ⟨[], none, none⟩)), .entry 0 (.finalized (.ok none) (.ok ())),
    .resumed 0, .resumed 0, .received (.ok ()), .received (.ok ()), .resumed 0,
    .received (.ok ()), .shouldStop true, .received (.ok ())]

/-- The tool reports an update when the run has ended. -/
def lateInputs : List (LoopInput Message) :=
  listingInputs ++ [.toolUpdate 0 ⟨[], none, none⟩ (.ok ())]

def listingStart : Traced Message := { state := runAgentLoop [helloMessage] [] }

/-- An update after the end of the run is the last event, instead of the end. -/
theorem event_trace_late_update :
    ∃ t, run (stepTraced listingConfig) listingStart lateInputs = some t ∧
      t.state.pc = .returned ∧ t.state.todo = [] ∧ ¬ WellBracketed t.trace := by
  have hlate : (run (stepTraced listingConfig) listingStart lateInputs).any (fun t =>
      t.state.pc = .returned ∧ t.state.todo = [] ∧
        run Bracket.next .before t.trace ≠ some .after) = true := by decide
  obtain ⟨t, hrun, ht⟩ := (Option.any_eq_true _ _).mp hlate
  have hwrong := of_decide_eq_true ht
  exact ⟨t, hrun, hwrong⟩

/-- Without that update the run is as it should be. -/
theorem event_trace_determines_transcript_listing :
    ∃ t, run (stepTraced listingConfig) listingStart listingInputs = some t ∧
      WellBracketed t.trace ∧ t.trace.filterMap AgentEvent.ended? = t.state.newMessages ∧
      t.state.context = t.state.newMessages := by
  have hreturns : (run (stepTraced listingConfig) listingStart listingInputs).any (fun t =>
      t.state.pc = .returned ∧ t.state.todo = []) = true := by decide
  have hpermits : Along (stepTraced listingConfig) Traced.Permits listingStart listingInputs := by
    repeat refine .cons rfl (by first | exact trivial | exact nofun) ?_
    exact trivial
  obtain ⟨t, hrun, ht⟩ := (Option.any_eq_true _ _).mp hreturns
  have hreturned := of_decide_eq_true ht
  have hstart : StartsRun [] (runAgentLoop [helloMessage] []) := .inl ⟨[helloMessage], rfl⟩
  rcases event_trace_determines_transcript hstart hpermits hrun with ⟨error, hthrown⟩ | ⟨-, hafter⟩
  · cases hreturned.1.symm.trans hthrown
  · exact ⟨t, hrun, hafter hreturned⟩

end AcademicAgent
