import AcademicAgent.Agent.Batches

/-!
# The starts and ends of tool calls

While a batch is executed the calls that were started are the ones looked at, the
calls that were ended are the settled ones, and no call ends before it starts.
-/

namespace AcademicAgent

open List AgentEvent FinalizedToolCallOutcome

variable {μ : Type}

variable {pool : List Entry} {batch : Batch} {message : AssistantMessage} {index : Nat}
  {s : Traced μ} {state : LoopState μ} {config : LoopConfig} {input : LoopInput μ}

namespace AgentEvent

/-- A `tool_execution_start` event. -/
def isToolStart : AgentEvent μ → Bool
  | .toolExecutionStart .. => true
  | _ => false

/-- A `tool_execution_end` event. -/
def isToolEnd : AgentEvent μ → Bool
  | .toolExecutionEnd .. => true
  | _ => false

def isMark (event : AgentEvent μ) : Bool := event.isToolStart || event.isToolEnd

def starts (id : JsString) : AgentEvent μ → Bool
  | .toolExecutionStart toolCallId _ _ => toolCallId == id
  | _ => false

def ends (id : JsString) : AgentEvent μ → Bool
  | .toolExecutionEnd toolCallId _ _ _ => toolCallId == id
  | _ => false

end AgentEvent

/-- At no time have more calls with one id ended than started. -/
def EndsFollowStarts (events : List (AgentEvent μ)) : Prop :=
  ∀ past, past <+: events → ∀ id, past.countP (AgentEvent.ends id) ≤
    past.countP (AgentEvent.starts id)

/-- The events that are starts or ends, emitted or about to be. -/
def Traced.marks (s : Traced μ) : List (AgentEvent μ) :=
  (s.trace ++ s.state.todo.filterMap Statement.event?).filter AgentEvent.isMark

def BatchEntry.finalized? : BatchEntry → Option FinalizedToolCallOutcome
  | .waiting _ => none
  | .settled finalized => some finalized

/-- The settled calls of a batch that still looks at calls. -/
def Batch.closed (batch : Batch) : List FinalizedToolCallOutcome :=
  match batch.mode with
  | .sequential => batch.finalizedCalls
  | .parallel => batch.entries.filterMap BatchEntry.finalized?

/-- The settled calls of the batch the loop is in. -/
def Pc.closed (pool : List Entry) : Pc → List FinalizedToolCallOutcome
  | .nextCall batch | .preparing batch _ | .executing batch _ _ | .finalizing batch _ _ =>
    batch.closed
  | .awaitingPool _ => pool.filterMap Entry.finalized?
  | .results batch _ => batch.finalizedCalls
  | _ => []

def Pc.upcoming : Pc → List ToolCall
  | .nextCall batch | .preparing batch _ | .executing batch _ _ | .finalizing batch _ _
  | .results batch _ => batch.rest
  | _ => []

theorem countP_starts {opened : List ToolCall} {events : List (AgentEvent μ)}
    (h : events.filter isToolStart = opened.map toolExecutionStart) (id : JsString) :
    events.countP (starts id) = (opened.map ToolCall.id).count id := by
  have hsub : ∀ event : AgentEvent μ, (event.starts id && event.isToolStart) = event.starts id := by
    intro event
    cases event <;> simp [starts, isToolStart]
  have hfilter := countP_filter (p := starts id) (q := isToolStart)
    (l := events)
  simp only [hsub] at hfilter
  rw [← hfilter, h, countP_map, count, countP_map]
  rfl

theorem countP_ends {closed : List FinalizedToolCallOutcome} {events : List (AgentEvent μ)}
    (h : (events.filter isToolEnd).Perm (closed.map toolExecutionEnd)) (id : JsString) :
    events.countP (ends id) =
      ((closed.map toolCall).map ToolCall.id).count id := by
  have hsub : ∀ event : AgentEvent μ, (event.ends id && event.isToolEnd) = event.ends id := by
    intro event
    cases event <;> simp [ends, isToolEnd]
  have hfilter := countP_filter (p := ends id) (q := isToolEnd) (l := events)
  simp only [hsub] at hfilter
  rw [← hfilter, h.countP_eq, countP_map, map_map, count, countP_map]
  rfl

/-- The starts and ends of a list of events: they are those of the calls, and at no
time have more ended than started. -/
structure Marks (opened : List ToolCall) (closed : List FinalizedToolCallOutcome)
    (events : List (AgentEvent μ)) : Prop where
  starts : events.filter AgentEvent.isToolStart = opened.map toolExecutionStart
  ends : (events.filter AgentEvent.isToolEnd).Perm (closed.map toolExecutionEnd)
  ordered : EndsFollowStarts events

namespace Marks

variable {opened : List ToolCall} {closed : List FinalizedToolCallOutcome}
  {events : List (AgentEvent μ)}

theorem nil : Marks [] [] ([] : List (AgentEvent μ)) where
  starts := rfl
  ends := .nil
  ordered := fun past hpast id => by
    rw [prefix_nil.mp hpast]
    exact Nat.le_refl _

theorem start (h : Marks opened closed events) (toolCall : ToolCall) :
    Marks (opened ++ [toolCall]) closed (events ++ [toolExecutionStart toolCall]) where
  starts := by rw [filter_append, h.starts, map_append]; rfl
  ends := by
    rw [filter_append]
    exact (append_nil _).symm ▸ h.ends
  ordered := fun past hpast id => by
    rcases prefix_concat_iff.mp hpast with rfl | hpast
    · have hbefore := h.ordered events (prefix_refl _) id
      rw [countP_append, countP_append]
      exact Nat.add_le_add hbefore (Nat.zero_le _)
    · exact h.ordered past hpast id

theorem finish {closed' : List FinalizedToolCallOutcome} {finalized : FinalizedToolCallOutcome}
    (h : Marks opened closed events) (hclosed : (closed ++ [finalized]).Perm closed')
    (hsub : (closed'.map toolCall).Sublist opened) :
    Marks opened closed' (events ++ [toolExecutionEnd finalized]) := by
  have hstarts : (events ++ [toolExecutionEnd finalized]).filter isToolStart =
      opened.map toolExecutionStart := by
    rw [filter_append, h.starts]
    exact append_nil _
  have hends : ((events ++ [toolExecutionEnd finalized]).filter isToolEnd).Perm
      (closed'.map toolExecutionEnd) := by
    rw [filter_append]
    have hmap := hclosed.map (toolExecutionEnd (μ := μ))
    rw [map_append] at hmap
    exact (h.ends.append_right _).trans hmap
  refine ⟨hstarts, hends, fun past hpast id => ?_⟩
  rcases prefix_concat_iff.mp hpast with rfl | hpast
  · rw [countP_starts hstarts, countP_ends hends]
    exact (hsub.map ToolCall.id).count_le id
  · exact h.ordered past hpast id

end Marks

section Invariant

variable {rules : CallRules} [LlmMessage μ]

/-- The rules say of a finalized call whose it is. -/
def CallRules.Own (rules : CallRules) : Prop :=
  ∀ toolCall finalized, rules.finalized toolCall finalized → finalized.toolCall = toolCall

omit [LlmMessage μ] in
section

variable (hown : rules.Own) {toolCalls : List ToolCall}
include hown

theorem map_toolCall_of_forall₂ {finalizedCalls : List FinalizedToolCallOutcome}
    (h : Forall₂ rules.finalized toolCalls finalizedCalls) :
    finalizedCalls.map toolCall = toolCalls := by
  induction h with
  | nil => rfl
  | cons hfinal _ ih => rw [map_cons, ih, hown _ _ hfinal]

theorem sublist_entries {entries : List BatchEntry} (h : Forall₂ rules.EntryOf toolCalls entries) :
    ((entries.filterMap BatchEntry.finalized?).map toolCall).Sublist
      toolCalls := by
  induction h with
  | nil => exact .slnil
  | @cons toolCall entry toolCalls entries hentry htail ih =>
    cases entry with
    | waiting waitingCall => exact ih.cons _
    | settled finalized =>
      have hcons : (BatchEntry.settled finalized :: entries).filterMap BatchEntry.finalized? =
          finalized :: entries.filterMap BatchEntry.finalized? := rfl
      rw [hcons, map_cons, hown _ _ hentry]
      exact ih.cons_cons _

theorem sublist_pool (h : Forall₂ rules.PooledOf toolCalls pool) :
    ((pool.filterMap Entry.finalized?).map toolCall).Sublist
      toolCalls := by
  induction h with
  | nil => exact .slnil
  | @cons toolCall entry toolCalls pool hentry htail ih =>
    cases entry with
    | settled finalized =>
      have hcons : (Entry.settled finalized :: pool).filterMap Entry.finalized? =
          finalized :: pool.filterMap Entry.finalized? := rfl
      rw [hcons, map_cons, hown _ _ hentry]
      exact ih.cons_cons _
    | _ => exact ih.cons _

end

section

variable (hown : rules.Own)
include hown

theorem Batch.LookedAt.sublist {looked : List ToolCall}
    (h : batch.LookedAt rules looked) :
    (batch.closed.map toolCall).Sublist looked := by
  rw [Batch.LookedAt] at h
  rw [Batch.closed]
  cases hmode : batch.mode with
  | sequential =>
    simp only [hmode] at h ⊢
    rw [map_toolCall_of_forall₂ hown h.1]
  | parallel =>
    simp only [hmode] at h ⊢
    exact sublist_entries hown h.1

theorem sublist_current {toolCall : ToolCall}
    {calls opened looked : List ToolCall} (hopened : opened ++ batch.rest = calls)
    (hcalls : looked ++ toolCall :: batch.rest = calls) (hlooked : batch.LookedAt rules looked) :
    (batch.closed.map FinalizedToolCallOutcome.toolCall).Sublist opened := by
  have hsplit : looked ++ [toolCall] ++ batch.rest = calls := by
    rw [append_assoc]
    exact hcalls
  rw [append_cancel_right (hopened.trans hsplit.symm)]
  exact (hlooked.sublist hown).trans (sublist_append_left _ _)

theorem BatchPoint.sublist {pc : Pc} (h : BatchPoint rules message pool pc)
    {opened : List ToolCall} (hopened : opened ++ pc.upcoming = message.toolCalls) :
    ((pc.closed pool).map FinalizedToolCallOutcome.toolCall).Sublist opened := by
  cases pc with
  | nextCall batch =>
    obtain ⟨-, looked, hcalls, hlooked⟩ := h
    rw [append_cancel_right (hopened.trans hcalls.symm)]
    exact hlooked.sublist hown
  | preparing batch toolCall =>
    obtain ⟨-, looked, hcalls, hlooked⟩ := h
    exact sublist_current hown hopened hcalls hlooked
  | executing batch toolCall execution | finalizing batch toolCall executed =>
    obtain ⟨-, -, -, looked, hcalls, hlooked⟩ := h
    exact sublist_current hown hopened hcalls hlooked
  | awaitingPool batch =>
    obtain ⟨-, -, -, -, hpool⟩ := h
    have hall : opened = message.toolCalls := by
      rw [← hopened]
      exact (append_nil _).symm
    rw [hall]
    exact sublist_pool hown hpool
  | results batch finalizedCalls =>
    obtain ⟨-, -, looked, hcalls, hfinal, -⟩ := h
    rw [append_cancel_right (hopened.trans hcalls.symm)]
    have hsame := map_toolCall_of_forall₂ hown hfinal
    exact hsame ▸ List.Sublist.refl _
  | _ => exact h.elim

end

/-- The calls of a batch are all settled and reported: `executeToolCalls` returns. -/
def LoopState.BatchDone (batch : Batch) (s : LoopState μ) : Prop :=
  s.todo = [] ∧ ((s.pc = .nextCall batch ∧ batch.rest = [] ∧ batch.mode = .sequential) ∨
    (s.pc = .results batch [] ∧ batch.mode = .parallel))

def PoolQuiet (pool : List Entry) : Prop := ∀ entry ∈ pool, entry.finalized?.isSome = true

variable (rules) in
/-- The loop executes the tool calls of a message, whose starts and ends are those of the
calls looked at and settled. -/
structure Working (message : AssistantMessage) (s : Traced μ) : Prop where
  inBatch : InBatch rules message s.state
  quiet : (∀ batch, s.state.pc ≠ .awaitingPool batch) → PoolQuiet s.state.pool
  waiting : ∀ batch, s.state.pc = .awaitingPool batch → s.state.todo = []
  marks : ∃ opened, opened ++ s.state.pc.upcoming = message.toolCalls ∧
    Marks opened (s.state.pc.closed s.state.pool) s.marks

/-- The loop has thrown, or waits for a pool in which an entry was rejected. -/
def Failed (s : Traced μ) : Prop :=
  (∃ error, s.state.pc = .thrown error) ∨ ∃ batch, s.state.pc = .awaitingPool batch ∧
    ∃ toolCall error, Entry.rejected toolCall error ∈ s.state.pool

theorem filterMap_startEntries (execution : Nat) (entries : List BatchEntry) :
    (startEntries execution entries).filterMap Entry.finalized? =
      entries.filterMap BatchEntry.finalized? := by
  induction entries generalizing execution with
  | nil => rfl
  | cons entry entries ih =>
    cases entry with
    | waiting waitingCall => exact ih _
    | settled finalized => exact congrArg (finalized :: ·) (ih _)

theorem filterMap_of_mapM {finalizedCalls : List FinalizedToolCallOutcome}
    (h : pool.mapM Entry.finalized? = some finalizedCalls) :
    pool.filterMap Entry.finalized? = finalizedCalls ∧ PoolQuiet pool := by
  induction pool generalizing finalizedCalls with
  | nil =>
    cases h
    exact ⟨rfl, nofun⟩
  | cons entry pool ih =>
    rw [mapM_cons] at h
    obtain ⟨finalized, hentry, h⟩ := Option.bind_eq_some_iff.mp h
    obtain ⟨rest, hrest, h⟩ := Option.bind_eq_some_iff.mp h
    cases h
    obtain ⟨hmap, hquiet⟩ := ih hrest
    refine ⟨by rw [filterMap_cons_some hentry, hmap], ?_⟩
    exact forall_mem_cons.mpr ⟨by rw [hentry]; rfl, hquiet⟩

theorem filterMap_set_settled {entry : Entry} {finalized : FinalizedToolCallOutcome}
    (hentry : pool[index]? = some entry) (hnone : entry.finalized? = none) :
    (pool.filterMap Entry.finalized? ++ [finalized]).Perm
      ((pool.set index (.settled finalized)).filterMap Entry.finalized?) := by
  induction pool generalizing index with
  | nil => cases hentry
  | cons first pool ih =>
    cases index with
    | zero =>
      cases hentry
      rw [filterMap_cons_none hnone]
      exact perm_append_singleton finalized _
    | succ index =>
      have hrest := ih hentry
      rw [set_cons_succ]
      cases hfirst : first.finalized? with
      | none =>
        rw [filterMap_cons_none hfirst, filterMap_cons_none hfirst]
        exact hrest
      | some settled =>
        rw [filterMap_cons_some hfirst, filterMap_cons_some hfirst]
        exact hrest.cons settled

theorem filterMap_set_pending {entry entry' : Entry} (hentry : pool[index]? = some entry)
    (hnone : entry.finalized? = none) (hnone' : entry'.finalized? = none) :
    (pool.set index entry').filterMap Entry.finalized? = pool.filterMap Entry.finalized? := by
  induction pool generalizing index with
  | nil => rfl
  | cons first pool ih =>
    cases index with
    | zero =>
      cases hentry
      rw [set_cons_zero, filterMap_cons_none hnone, filterMap_cons_none hnone']
    | succ index =>
      rw [set_cons_succ, filterMap_cons, filterMap_cons, ih hentry]

omit [LlmMessage μ] in
theorem filter_isMark_insert {past more rest : List (AgentEvent μ)}
    (h : ∀ event ∈ more, event.isMark = false) :
    (past ++ more ++ rest).filter isMark = (past ++ rest).filter isMark := by
  have hmore : more.filter isMark = [] :=
    filter_eq_nil_iff.mpr fun event hevent => by simp [h event hevent]
  rw [filter_append, filter_append, hmore, append_nil, ← filter_append]

omit [LlmMessage μ] in
theorem Traced.marks_of_todo (h : s.state.todo = []) :
    s.marks = s.trace.filter isMark := by
  rw [Traced.marks, h, filterMap_nil, append_nil]

omit [LlmMessage μ] in
theorem Working.settle (hown : rules.Own) (h : Working rules message s) (htodo : s.state.todo = [])
    (hclosed : s.state.pc.closed s.state.pool = batch.closed)
    (hupcoming : s.state.pc.upcoming = batch.rest) (hquiet : PoolQuiet s.state.pool)
    {finalized : FinalizedToolCallOutcome}
    (hin : InBatch rules message (s.state.settle batch finalized)) :
    Working rules message { state := s.state.settle batch finalized, trace := s.trace } := by
  obtain ⟨opened, hopened, hmarks⟩ := h.marks
  rw [hupcoming] at hopened
  rw [hclosed] at hmarks
  have hafter : ((s.state.settle batch finalized).pc.closed s.state.pool) =
        batch.closed ++ [finalized] ∧
      (s.state.settle batch finalized).pc.upcoming = batch.rest ∧
      ∀ other, (s.state.settle batch finalized).pc ≠ .awaitingPool other := by
    cases hmode : batch.mode with
    | sequential =>
      refine ⟨?_, ?_, fun other hother => ?_⟩
      · simp only [LoopState.settle, hmode, Pc.closed, Batch.closed]
      · simp only [LoopState.settle, hmode, Pc.upcoming]
      · simp only [LoopState.settle, hmode, reduceCtorEq] at hother
    | parallel =>
      refine ⟨?_, ?_, fun other hother => ?_⟩
      · simp only [LoopState.settle, hmode, Pc.closed, Batch.closed, filterMap_append]
        rfl
      · simp only [LoopState.settle, hmode, Pc.upcoming]
      · simp only [LoopState.settle, hmode, reduceCtorEq] at hother
  obtain ⟨hclosed', hupcoming', hpc⟩ := hafter
  have hopened' : opened ++ (s.state.settle batch finalized).pc.upcoming = message.toolCalls := by
    rw [hupcoming']
    exact hopened
  refine ⟨hin, fun _ => hquiet, fun other hother => absurd hother (hpc other), opened, hopened', ?_⟩
  have hsub := hin.point.sublist hown hopened'
  have hend : Traced.marks { state := s.state.settle batch finalized, trace := s.trace } =
      s.marks ++ [toolExecutionEnd finalized] := by
    rw [Traced.marks_of_todo htodo, Traced.marks, filter_append]
    rfl
  rw [hend]
  exact hmarks.finish (hclosed' ▸ List.Perm.refl _) hsub

omit [LlmMessage μ] in
theorem Working.same (h : Working rules message s) (htodo : s.state.todo = [])
    (hin : InBatch rules message state)
    (hevents : ∀ event ∈ state.todo.filterMap Statement.event?, event.isMark = false)
    (hclosed : state.pc.closed state.pool = s.state.pc.closed s.state.pool)
    (hupcoming : state.pc.upcoming = s.state.pc.upcoming)
    (hquiet : (∀ batch, state.pc ≠ .awaitingPool batch) → PoolQuiet state.pool)
    (hwaiting : ∀ batch, state.pc = .awaitingPool batch → state.todo = []) :
    Working rules message { state, trace := s.trace } := by
  obtain ⟨opened, hopened, hmarks⟩ := h.marks
  have hsame : Traced.marks { state, trace := s.trace } = s.marks := by
    have hinsert : (s.trace ++ state.todo.filterMap Statement.event? ++ []).filter
        isMark = (s.trace ++ []).filter isMark :=
      filter_isMark_insert hevents
    rw [append_nil, append_nil] at hinsert
    rw [Traced.marks_of_todo htodo, Traced.marks, hinsert]
  refine ⟨hin, hquiet, hwaiting, opened, ?_, ?_⟩
  · rw [hupcoming]
    exact hopened
  · rw [hsame, hclosed]
    exact hmarks

omit [LlmMessage μ] in
theorem Working.awaiting (h : Working rules message s) {entry : Entry}
    (hentry : s.state.pool[index]? = some entry) (hnone : entry.finalized? = none) :
    ∃ batch, s.state.pc = .awaitingPool batch := by
  by_contra hnot
  have hquiet := h.quiet (fun batch hpc => hnot ⟨batch, hpc⟩) entry (mem_of_getElem? hentry)
  rw [hnone] at hquiet
  cases hquiet

omit [LlmMessage μ] in
theorem Working.entry (hown : rules.Own) {message : AssistantMessage} {s : Traced μ}
    (h : Working rules message s) {index : Nat} {input : EntryInput} {entry entry' : Entry}
    {events : List (AgentEvent μ)}
    (hin : InBatch rules message { s.state with pool := s.state.pool.set index entry' })
    (hentry : s.state.pool[index]? = some entry) (hstep : EntryStep entry input entry' events) :
    Working rules message
        { state := { s.state with pool := s.state.pool.set index entry' }
          trace := s.trace ++ events } ∨
      Failed ({ state := { s.state with pool := s.state.pool.set index entry' }
                trace := s.trace ++ events } : Traced μ) := by
  have hnone : entry.finalized? = none := by cases hstep <;> rfl
  obtain ⟨batch, hpc⟩ := h.awaiting hentry hnone
  have htodo := h.waiting batch hpc
  have hset : ∀ entry', entry' ∈ s.state.pool.set index entry' := fun entry' =>
    mem_set (List.getElem?_eq_some_iff.mp hentry).1 entry'
  obtain ⟨opened, hopened, hmarks⟩ := h.marks
  have hstays : Marks opened ((s.state.pool.set index entry').filterMap Entry.finalized?)
        ((s.trace ++ events).filter isMark) →
      Working rules message
        { state := { s.state with pool := s.state.pool.set index entry' }
          trace := s.trace ++ events } := by
    intro hafter
    have hthere : Traced.marks { state := { s.state with pool := s.state.pool.set index entry' }
                                 trace := s.trace ++ events } =
        (s.trace ++ events).filter isMark := Traced.marks_of_todo htodo
    have hclosed : s.state.pc.closed (s.state.pool.set index entry') =
        (s.state.pool.set index entry').filterMap Entry.finalized? := by rw [hpc]; rfl
    refine ⟨hin, fun hother => absurd hpc (hother batch), fun _ _ => htodo, opened, hopened, ?_⟩
    rw [hthere, hclosed]
    exact hafter
  rw [Traced.marks_of_todo htodo, hpc] at hmarks
  cases hstep with
  | executed =>
    refine .inl (hstays ?_)
    rw [append_nil, filterMap_set_pending hentry rfl rfl]
    exact hmarks
  | updateNotReceived | endNotReceived => exact .inr (.inr ⟨batch, hpc, _, _, hset _⟩)
  | finalized =>
    have hsub := hin.point.sublist hown hopened
    rw [hpc] at hsub
    refine .inl (hstays ?_)
    rw [filter_append]
    exact hmarks.finish (filterMap_set_settled hentry rfl) hsub

theorem InBatch.done_of_finished {s t : LoopState μ} {events : List (AgentEvent μ)}
    {finished : Batch} (h : InBatch rules message s) (hstep : LoopStep config s input t events)
    (hfinish : t = s.finishBatch finished) : ∃ batch, s.BatchDone batch := by
  have hpoint := h.point
  have hturn : t.pc = .turnEnded finished.message finished.messages := by rw [hfinish]; rfl
  have hnotin : s.pc ≠ .turnEnded finished.message finished.messages := by
    intro hpc
    rw [hpc] at hpoint
    exact hpoint
  cases hstep with
  | updated | entry | received | pushed => exact absurd hturn hnotin
  | notReceived => cases hturn
  | advanced htodo hadvance =>
    cases hadvance with
    | batchFinished hpc => exact ⟨_, htodo, hpc⟩
    | @settledAtOnce args before batch toolCall result isError | @finalized after batch =>
      simp only [LoopState.settle] at hturn
      split at hturn <;> cases hturn
    | streamUpdated | updateIgnored => exact absurd hturn hnotin
    | turnWithoutCalls hpc =>
      rw [hpc] at hpoint
      exact hpoint.elim
    | _ => cases hturn

omit [LlmMessage μ] in
theorem Working.callStarted (h : Working rules message s) {toolCall : ToolCall}
    {rest : List ToolCall} (htodo : s.state.todo = []) (hpc : s.state.pc = .nextCall batch)
    (hrest : batch.rest = toolCall :: rest) (hstate : state = { s.state with
      todo := [.emit (toolExecutionStart toolCall)]
      pc := .preparing { batch with rest } toolCall })
    (hin : InBatch rules message state) :
    Working rules message { state, trace := s.trace } := by
  obtain ⟨opened, hopened, hmarks⟩ := h.marks
  rw [hpc] at hopened hmarks
  simp only [Pc.upcoming, hrest] at hopened
  have hquiet : PoolQuiet s.state.pool := h.quiet fun other hother => by
    rw [hpc] at hother
    cases hother
  have hstart : Traced.marks { state, trace := s.trace } =
      s.marks ++ [toolExecutionStart toolCall] := by
    rw [Traced.marks_of_todo htodo, Traced.marks, hstate, filter_append]
    rfl
  refine ⟨hin, fun _ => ?_, fun other hother => ?_, opened ++ [toolCall], ?_, ?_⟩
  · rw [hstate]
    exact hquiet
  · rw [hstate] at hother
    cases hother
  · rw [hstate, append_assoc]
    exact hopened
  · rw [hstart, hstate]
    exact hmarks.start toolCall

theorem Working.advance (hown : rules.Own) (h : Working rules message s) (htodo : s.state.todo = [])
    (hadvance : Advance config s.state input state) (hin : InBatch rules message state) :
    Working rules message { state, trace := s.trace } := by
  have hpoint := h.inBatch.point
  have hquiet : ∀ pc, s.state.pc = pc → (∀ batch, pc ≠ .awaitingPool batch) →
      PoolQuiet s.state.pool := fun pc hpc hne => h.quiet (hpc ▸ hne)
  have hnothing : ∀ event ∈ s.state.todo.filterMap Statement.event?, event.isMark = false := by
    rw [htodo]
    intro event hevent
    cases hevent
  cases hadvance with
  | threw | batchFinished hpc => exact hin.point.elim
  | callStarted hpc hrest => exact h.callStarted htodo hpc hrest rfl hin
  | settledAtOnce hpc | finalized hpc =>
    refine h.settle hown htodo ?_ ?_ (hquiet _ hpc fun _ => nofun) hin <;> rw [hpc] <;> rfl
  | executionStarted hpc | executed hpc =>
    refine h.same htodo hin hnothing ?_ ?_ (fun _ => hquiet _ hpc fun _ => nofun) fun _ => nofun
    · rw [hpc]
      rfl
    · rw [hpc]
      rfl
  | entryAdded hpc hprepared hmode =>
    refine h.same htodo hin hnothing ?_ ?_ (fun _ => hquiet _ hpc fun _ => nofun) fun _ => nofun
    · rw [hpc]
      simp only [Pc.closed, Batch.closed, hmode, filterMap_append]
      exact append_nil _
    · rw [hpc]
      rfl
  | @poolStarted now batch hpc hrest hmode =>
    refine h.same htodo hin hnothing ?_ ?_ (fun hother => absurd rfl (hother batch))
      fun _ _ => htodo
    · rw [hpc]
      simp only [Pc.closed, Batch.closed, hmode, filterMap_startEntries]
    · rw [hpc]
      exact hrest.symm
  | poolSettled hpc hpool =>
    obtain ⟨hmap, hsettled⟩ := filterMap_of_mapM hpool
    rw [hpc] at hpoint
    refine h.same htodo hin hnothing ?_ ?_ (fun _ => hsettled) fun _ => nofun
    · rw [hpc]
      exact hmap.symm
    · rw [hpc]
      exact hpoint.2.2.1
  | resultReported hpc =>
    refine h.same htodo hin ?_ ?_ ?_ (fun _ => hquiet _ hpc fun _ => nofun) fun _ => nofun
    · intro event hevent
      rcases mem_cons.mp hevent with rfl | hevent
      · rfl
      · rw [mem_singleton.mp hevent]
        rfl
    · rw [hpc]
      rfl
    · rw [hpc]
      rfl
  | callDone hpc hmode =>
    refine h.same htodo hin hnothing ?_ ?_ (fun _ => hquiet _ hpc fun _ => nofun) fun _ => nofun
    · rw [hpc]
      simp only [Pc.closed, Batch.closed, hmode]
    · rw [hpc]
      rfl
  | _ hpc =>
    simp only [hpc, BatchPoint] at hpoint

theorem Working.step (hown : rules.Own) {t : Traced μ} (h : Working rules message s)
    (hdone : ¬ ∃ batch, s.state.BatchDone batch) (hallows : rules.Allows config s.state input)
    (hstep : stepTraced config s input = some t) : Working rules message t ∨ Failed t := by
  obtain ⟨events, hloop, htrace⟩ := LoopStep.of_stepTraced hstep
  obtain ⟨state, trace⟩ := t
  subst htrace
  rcases h.inBatch.step hallows hloop with ⟨hin, -⟩ | ⟨hthrown, -⟩ | ⟨batch, -, hfinish⟩
  · cases hloop with
    | updated =>
      obtain ⟨opened, hopened, hmarks⟩ := h.marks
      refine .inl ⟨hin, h.quiet, h.waiting, opened, hopened, ?_⟩
      rw [Traced.marks, filter_isMark_insert]
      · exact hmarks
      · intro event hevent
        rw [mem_singleton.mp hevent]
        rfl
    | entry hentry hstep => exact h.entry hown hin hentry hstep
    | @received event todo htodo =>
      obtain ⟨opened, hopened, hmarks⟩ := h.marks
      refine .inl ⟨hin, h.quiet, fun batch hbatch => ?_, opened, hopened, ?_⟩
      · have hnil := h.waiting batch hbatch
        rw [htodo] at hnil
        cases hnil
      · have hsame : Traced.marks { state := { s.state with todo }, trace := s.trace ++ [event] } =
            s.marks := by
          rw [Traced.marks, Traced.marks, htodo, append_assoc]
          rfl
        rw [hsame]
        exact hmarks
    | notReceived htodo => exact hin.point.elim
    | pushed htodo =>
      have hpush := h.inBatch.noPush
      rw [htodo] at hpush
      cases hpush
    | advanced htodo hadvance =>
      rw [append_nil]
      exact .inl (h.advance hown htodo hadvance hin)
  · exact .inr (.inl hthrown)
  · exact absurd (h.inBatch.done_of_finished hloop hfinish) hdone

theorem LoopStep.thrown {s t : LoopState μ} {events : List (AgentEvent μ)}
    (hstep : LoopStep config s input t events) (h : ∃ error, s.pc = .thrown error) :
    ∃ error, t.pc = .thrown error := by
  obtain ⟨error, hpc⟩ := h
  cases hstep with
  | updated | entry | received | pushed => exact ⟨error, hpc⟩
  | notReceived => exact ⟨_, rfl⟩
  | advanced htodo hadvance =>
    cases hadvance with
    | threw => exact ⟨_, rfl⟩
    | batchFinished hpc' =>
      rcases hpc' with ⟨hpc', -⟩ | ⟨hpc', -⟩ <;> cases hpc.symm.trans hpc'
    | _ hpc' => cases hpc.symm.trans hpc'

theorem Failed.step {t : Traced μ} (h : Failed s) (hstep : stepTraced config s input = some t) :
    Failed t := by
  obtain ⟨events, hloop, -⟩ := LoopStep.of_stepTraced hstep
  obtain ⟨state, trace⟩ := t
  rcases h with hthrown | ⟨batch, hpc, toolCall, error, hrejected⟩
  · exact .inl (hloop.thrown hthrown)
  · cases hloop with
    | updated | received | pushed => exact .inr ⟨batch, hpc, toolCall, error, hrejected⟩
    | @entry index input entry entry' events hentry hentryStep =>
      refine .inr ⟨batch, hpc, toolCall, error, ?_⟩
      obtain ⟨place, hplace⟩ := mem_iff_getElem?.mp hrejected
      refine mem_iff_getElem?.mpr ⟨place, ?_⟩
      rw [getElem?_set_ne, hplace]
      rintro rfl
      cases hentry.symm.trans hplace
      cases hentryStep
    | notReceived => exact .inl ⟨_, rfl⟩
    | advanced htodo hadvance =>
      cases hadvance with
      | threw => exact .inl ⟨_, rfl⟩
      | poolSettled _ hpool =>
        have hsettled := (filterMap_of_mapM hpool).2 _ hrejected
        cases hsettled
      | batchFinished hpc' =>
        rcases hpc' with ⟨hpc', -⟩ | ⟨hpc', -⟩ <;> cases hpc.symm.trans hpc'
      | _ hpc' => cases hpc.symm.trans hpc'

omit [LlmMessage μ] in
theorem Failed.not_done (h : Failed s) : ¬ s.state.BatchDone batch := by
  rintro ⟨-, ⟨hpc, -⟩ | ⟨hpc, -⟩⟩ <;> rcases h with ⟨_, hpc'⟩ | ⟨_, hpc', -⟩ <;>
    cases hpc.symm.trans hpc'

omit [LlmMessage μ] in
theorem Working.complete (h : Working rules message s) (hdone : s.state.BatchDone batch) :
    batch.Complete rules message ∧
      Marks message.toolCalls batch.finalizedCalls (s.trace.filter isMark) := by
  obtain ⟨htodo, hpc⟩ := hdone
  have hpoint := h.inBatch.point
  obtain ⟨opened, hopened, hmarks⟩ := h.marks
  rw [Traced.marks_of_todo htodo] at hmarks
  rcases hpc with ⟨hpc, hrest, hmode⟩ | ⟨hpc, hmode⟩
  · rw [hpc] at hpoint hopened hmarks
    simp only [Pc.upcoming, hrest, append_nil] at hopened
    subst hopened
    obtain ⟨hmessage, looked, hcalls, hlooked⟩ := hpoint
    simp only [Batch.LookedAt, hmode] at hlooked
    rw [hrest, append_nil] at hcalls
    subst hcalls
    simp only [Pc.closed, Batch.closed, hmode] at hmarks
    exact ⟨⟨hmessage, hlooked.1, hlooked.2⟩, hmarks⟩
  · rw [hpc] at hpoint hopened hmarks
    obtain ⟨hmessage, hrest, looked, hcalls, hfinal, reported, hreported, hreports⟩ := hpoint
    simp only [Pc.upcoming, hrest hmode, append_nil] at hopened
    subst hopened
    rw [hrest hmode, append_nil] at hcalls
    rw [append_nil] at hreported
    subst hcalls hreported
    exact ⟨⟨hmessage, hfinal, hreports⟩, hmarks⟩

end Invariant

end AcademicAgent
