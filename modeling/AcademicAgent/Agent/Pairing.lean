import AcademicAgent.Agent.Batches

/-!
# Tool calls and their results

Once an assistant message has ended, the context goes on with the results of its
tool calls, one for each and in their order, before anything else is appended.
-/

namespace AcademicAgent

open List

variable {μ : Type}

variable {message : AssistantMessage} {config : LoopConfig} {s : LoopState μ} {input : LoopInput μ}
  {events : List (AgentEvent μ)}

variable {t : LoopState μ}

/-- The call that a result answers, by its id and name. -/
def ToolResultMessage.key (m : ToolResultMessage) : JsString × JsString := (m.toolCallId, m.toolName)

def ToolCall.key (c : ToolCall) : JsString × JsString := (c.id, c.name)

/-- The message whose turn is still open: its calls have not all been answered. -/
def Pc.openTurn? : Pc → Option AssistantMessage
  | .responded message => some message
  | .nextCall batch | .preparing batch _ | .executing batch _ _ | .finalizing batch _ _
  | .awaitingPool batch | .results batch _ => some batch.message
  | _ => none

/-- The last message of the context is one that is still streamed. -/
def Pc.holdsPartial : Pc → Bool
  | .streaming addedPartial | .awaitingResult addedPartial => addedPartial
  | _ => false

def ownOutcome : CallRules where
  prepared := fun _ => True
  executed := fun _ _ => True
  finalized := fun toolCall finalized => finalized.toolCall = toolCall

theorem ownOutcome_allows (config : LoopConfig) (s : LoopState μ) (input : LoopInput μ) :
    ownOutcome.Allows config s input := by
  cases input with
  | prepared args before =>
    intro batch toolCall _
    split
    · rfl
    · trivial
  | executed result => exact fun _ _ _ _ _ => trivial
  | finalized after => exact fun _ _ _ _ _ => finalizeExecutedToolCall_toolCall _ _ _
  | entry index input =>
    intro entry _
    split
    · exact fun _ => trivial
    · exact fun _ => finalizeExecutedToolCall_toolCall _ _ _
    · trivial
  | _ => trivial

theorem Batch.Complete.keys {batch : Batch} (h : batch.Complete ownOutcome message) :
    batch.messages.map ToolResultMessage.key = message.toolCalls.map ToolCall.key := by
  have hmessages : ∀ {fs ms}, Reports fs ms →
      ms.map ToolResultMessage.key = fs.map fun f => f.toolCall.key := by
    intro fs ms hreports
    induction hreports with
    | nil => rfl
    | cons hreport _ ih =>
      obtain ⟨now, rfl⟩ := hreport
      rw [map_cons, map_cons, ih]
      rfl
  have hcalls : ∀ {cs fs}, Forall₂ ownOutcome.finalized cs fs →
      (fs.map fun f => f.toolCall.key) = cs.map ToolCall.key := by
    intro cs fs hfinal
    induction hfinal with
    | nil => rfl
    | cons hown _ ih =>
      rw [map_cons, map_cons, ih, show _ = _ from hown]
  rw [hmessages h.reported, hcalls h.finalized]

section Growth

variable [LlmMessage μ]

theorem LoopStep.context (h : LoopStep config s input t events) :
    (∃ added, t.context = s.context ++ added ∧
      (t.pc.holdsPartial = true → s.pc.holdsPartial = true ∨ added ≠ [])) ∨
      (s.pc.holdsPartial = true ∧ ∃ message, t.context = s.context.dropLast ++ [message]) := by
  have hsame : ∀ {u : LoopState μ}, u.context = s.context →
      (u.pc.holdsPartial = true → s.pc.holdsPartial = true) →
      ∃ added, u.context = s.context ++ added ∧
        (u.pc.holdsPartial = true → s.pc.holdsPartial = true ∨ added ≠ []) :=
    fun hcontext hstreaming => ⟨[], by rw [hcontext, append_nil], fun h => .inl (hstreaming h)⟩
  cases h with
  | updated | entry | received => exact .inl (hsame rfl id)
  | notReceived => exact .inl (hsame rfl (by rintro ⟨⟩))
  | pushed => exact .inl ⟨[_], rfl, fun _ => .inr (by simp)⟩
  | advanced htodo hadvance =>
    cases hadvance with
    | streamStarted => exact .inl ⟨[_], rfl, fun _ => .inr (by simp)⟩
    | streamUpdated hpc => exact .inr ⟨by rw [hpc]; rfl, _, rfl⟩
    | updateIgnored hpc => exact .inl (hsame rfl id)
    | streamClosed hpc _ => exact .inl (hsame rfl fun h => by rw [hpc]; exact h)
    | @responded addedPartial message hpc =>
      cases addedPartial with
      | true => exact .inr ⟨by rw [hpc]; rfl, _, rfl⟩
      | false => exact .inl ⟨[_], rfl, by rintro ⟨⟩⟩
    | batchFinished => exact .inl ⟨_, rfl, by rintro ⟨⟩⟩
    | @settledAtOnce _ _ batch _ _ _ _ | @finalized _ batch _ _ _ =>
      refine .inl (hsame rfl fun h => ?_)
      cases hmode : batch.mode <;> simp only [LoopState.settle, hmode] at h <;> cases h
    | _ => exact .inl (hsame rfl (by rintro ⟨⟩))

/-- The context goes on behind `base`. -/
def ContinuesFrom (base : List μ) (s : LoopState μ) : Prop :=
  ∃ rest, s.context = base ++ rest ∧ (s.pc.holdsPartial = true → rest ≠ [])

theorem ContinuesFrom.step {base : List μ} (h : ContinuesFrom base s)
    (hstep : LoopStep config s input t events) : ContinuesFrom base t := by
  obtain ⟨rest, hcontext, hrest⟩ := h
  rcases hstep.context with ⟨added, hadded, hstreaming⟩ | ⟨hstreaming, message, hreplaced⟩
  · refine ⟨rest ++ added, by rw [hadded, hcontext, append_assoc], fun h => ?_⟩
    rcases hstreaming h with h | h
    · exact append_ne_nil_of_left_ne_nil (hrest h) _
    · exact append_ne_nil_of_right_ne_nil _ h
  · refine ⟨rest.dropLast ++ [message], ?_, fun _ => by simp⟩
    rw [hreplaced, hcontext, dropLast_append_of_ne_nil (hrest hstreaming), append_assoc]

/-- The turn of a message is open and nothing is appended, or the loop has failed in it. -/
def TurnOpen (message : AssistantMessage) (s : LoopState μ) : Prop :=
  (s.pc = .responded message ∧ s.todo.filterMap Statement.pushed? = []) ∨
    InBatch ownOutcome message s ∨
    ((∃ error, s.pc = .thrown error) ∧ s.todo.filterMap Statement.pushed? = [])

/-- Either nothing is appended to `base` and the turn is open, or the results of the
calls are. -/
def Answered (message : AssistantMessage) (base : List μ) (s : LoopState μ) : Prop :=
  (s.context = base ∧ TurnOpen message s) ∨
    ∃ results : List ToolResultMessage,
      results.map ToolResultMessage.key = message.toolCalls.map ToolCall.key ∧
        ContinuesFrom (base ++ results.map LlmMessage.toolResult) s

theorem Answered.step {base : List μ}
    (hstop : ¬ (message.stopReason = .error ∨ message.stopReason = .aborted))
    (h : Answered message base s) (hstep : LoopStep config s input t events) :
    Answered message base t := by
  rcases h with ⟨rfl, hopen⟩ | ⟨results, hkeys, hcontinues⟩
  · rcases hopen with ⟨hpc, hpush⟩ | hbatch | ⟨⟨error, hpc⟩, hpush⟩
    · cases hstep with
      | updated | entry => exact .inl ⟨rfl, .inl ⟨hpc, hpush⟩⟩
      | received htodo =>
        rw [htodo] at hpush
        exact .inl ⟨rfl, .inl ⟨hpc, hpush⟩⟩
      | notReceived => exact .inl ⟨rfl, .inr (.inr ⟨⟨_, rfl⟩, rfl⟩)⟩
      | pushed htodo =>
        rw [htodo] at hpush
        cases hpush
      | advanced htodo hadvance =>
        cases hadvance with
        | turnFailed hpc' hfailed =>
          cases hpc.symm.trans hpc'
          exact absurd hfailed hstop
        | turnWithoutCalls hpc' hnone =>
          cases hpc.symm.trans hpc'
          refine .inr ⟨[], by rw [hnone]; rfl, [], ?_, by rintro ⟨⟩⟩
          simp only [map_nil, append_nil]
        | batchStarted hpc' _ =>
          cases hpc.symm.trans hpc'
          refine .inl ⟨rfl, .inr (.inl ⟨⟨rfl, [], rfl, ?_⟩, hpush⟩)⟩
          cases hmode : executionMode config message.toolCalls with
          | sequential =>
            simp only [Batch.LookedAt]
            exact ⟨.nil, .nil⟩
          | parallel =>
            simp only [Batch.LookedAt]
            exact ⟨.nil, trivial⟩
        | threw => exact .inl ⟨rfl, .inr (.inr ⟨⟨_, rfl⟩, hpush⟩)⟩
        | batchFinished hpc' =>
          rcases hpc' with ⟨hpc', _⟩ | ⟨hpc', _⟩ <;> cases hpc.symm.trans hpc'
        | _ hpc' => cases hpc.symm.trans hpc'
    · rcases hbatch.step (ownOutcome_allows config s input) hstep with
        ⟨hbatch, hcontext, -⟩ | ⟨hthrown, hpush, hcontext⟩ | ⟨batch, hcomplete, rfl⟩
      · exact .inl ⟨hcontext, .inr (.inl hbatch)⟩
      · exact .inl ⟨hcontext, .inr (.inr ⟨hthrown, hpush⟩)⟩
      · refine .inr ⟨batch.messages, hcomplete.keys, [], ?_, by rintro ⟨⟩⟩
        rw [append_nil]
        rfl
    · cases hstep with
      | updated | entry => exact .inl ⟨rfl, .inr (.inr ⟨⟨_, hpc⟩, hpush⟩)⟩
      | received htodo =>
        rw [htodo] at hpush
        exact .inl ⟨rfl, .inr (.inr ⟨⟨_, hpc⟩, hpush⟩)⟩
      | notReceived => exact .inl ⟨rfl, .inr (.inr ⟨⟨_, rfl⟩, rfl⟩)⟩
      | pushed htodo =>
        rw [htodo] at hpush
        cases hpush
      | advanced htodo hadvance =>
        cases hadvance with
        | threw => exact .inl ⟨rfl, .inr (.inr ⟨⟨_, rfl⟩, hpush⟩)⟩
        | batchFinished hpc' =>
          rcases hpc' with ⟨hpc', _⟩ | ⟨hpc', _⟩ <;> cases hpc.symm.trans hpc'
        | _ hpc' => cases hpc.symm.trans hpc'
  · exact .inr ⟨results, hkeys, hcontinues.step hstep⟩

theorem Answered.of_ended {s' : LoopState μ}
    (h : LoopStep config s (.streamResult message) s' events) : Answered message s'.context s' := by
  cases h with
  | advanced htodo hadvance =>
    cases hadvance with
    | @responded addedPartial message hpc =>
      exact .inl ⟨rfl, .inl ⟨rfl, by cases addedPartial <;> rfl⟩⟩
    | streamClosed hpc hinput | threw hinput => exact hinput.elim

omit [LlmMessage μ] in
theorem TurnOpen.openTurn? (h : TurnOpen message s) :
    s.pc.openTurn? = some message ∨ ∃ error, s.pc = .thrown error := by
  rcases h with ⟨hpc, -⟩ | ⟨hpoint, -⟩ | ⟨hthrown, -⟩
  · exact .inl (by rw [hpc]; rfl)
  · refine .inl ?_
    cases hpc : s.pc with
    | nextCall batch | preparing batch _ | executing batch _ _ | finalizing batch _ _
    | awaitingPool batch | results batch _ =>
      rw [hpc] at hpoint
      exact congrArg some hpoint.1
    | _ =>
      rw [hpc] at hpoint
      exact hpoint.elim
  · exact .inr hthrown

/-- Whatever the stream, the tools, the hooks and the listeners do, a run only appends to the
context, of which a partial message is not a part. -/
theorem context_continues {config : LoopConfig} {s t : Traced μ}
    (hclosed : s.state.pc.holdsPartial = false) (h : Reachable (stepTraced config) s t) :
    s.state.context <+: t.state.context := by
  have hfrom : ContinuesFrom s.state.context t.state := by
    refine @Reachable.invariant _ _ _ (fun u => ContinuesFrom s.state.context u.state) ?_ _ _
      ⟨[], (append_nil _).symm, fun hholds => ?_⟩ h
    · intro u input v hu huv
      obtain ⟨events, hstep, -⟩ := LoopStep.of_stepTraced huv
      exact hu.step hstep
    · rw [hclosed] at hholds
      cases hholds
  obtain ⟨rest, hcontext, -⟩ := hfrom
  exact ⟨rest, hcontext.symm⟩

end Growth

def unknownToolCall : ToolCall := { id := js "1", name := js "none", arguments := .emptyObject }

def callingMessage : AssistantMessage :=
  { content := [.toolCall unknownToolCall], api := [], provider := [], model := [],
    usage := EMPTY_USAGE, stopReason := .toolUse, timestamp := 0 }

def helloMessage : Message := .user (.string (js "hello")) (some 0)

/-- The loop with a prompt, where the stream has ended and its result is awaited. -/
def awaitingCall : Option (Traced Message) :=
  run (stepTraced { tools := [] }) ⟨runAgentLoop [helloMessage] [], []⟩
    [.received (.ok ()), .received (.ok ()), .received (.ok ()), .received (.ok ()), .polled [],
      .called, .streamEnded]

def endedCall : Option (Traced Message) :=
  awaitingCall.bind fun s => stepTraced { tools := [] } s (.streamResult callingMessage)

def answeringInputs : List (LoopInput Message) :=
  [.received (.ok ()), .received (.ok ()), .resumed 0, .resumed 0, .received (.ok ()),
    .prepared (.ok .emptyObject) (.ok none), .received (.ok ()), .resumed 0, .resumed 0,
    .resumed 0, .received (.ok ()), .received (.ok ()), .resumed 0]

def answeredCall : Option (Traced Message) :=
  endedCall.bind fun s => run (stepTraced { tools := [] }) s answeringInputs

theorem context_continues_answered : ∃ s t, endedCall = some s ∧ answeredCall = some t ∧
    s.state.context <+: t.state.context :=
  ⟨endedCall.get (by decide), answeredCall.get (by decide), by decide, by decide,
    @context_continues _ _ { tools := [] } _ _ (by decide) ⟨answeringInputs, by decide⟩⟩

end AcademicAgent
