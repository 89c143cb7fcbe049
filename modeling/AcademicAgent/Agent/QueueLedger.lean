import AcademicAgent.Agent.Agent
import AcademicAgent.Agent.EventTrace

/-!
# What a run puts into the transcript

The agent puts a message into the transcript when it has ended.
-/

namespace AcademicAgent

open List

open AgentEvent (ended?)

def AgentMessage.isOwn : AgentMessage → Bool
  | .assistant _ | .toolResult _ => true
  | _ => false

namespace LoopState

/-- The messages that a loop is about to put into the transcript. -/
def toEnd (s : LoopState AgentMessage) : List AgentMessage :=
  (s.todo.filterMap Statement.event?).filterMap ended?

/-- The message that the next event of a loop puts into the transcript, if it does. -/
def nextEnd (s : LoopState AgentMessage) : List AgentMessage :=
  ((s.todo.take 1).filterMap Statement.event?).filterMap ended?

variable {s t : LoopState AgentMessage}

theorem toEnd_of_todo (h : s.todo = []) : s.toEnd = [] := by
  rw [toEnd, h]
  rfl

theorem toEnd_eq_nextEnd_append (s : LoopState AgentMessage) :
    ∃ rest, s.toEnd = s.nextEnd ++ rest := by
  refine ⟨((s.todo.drop 1).filterMap Statement.event?).filterMap ended?, ?_⟩
  rw [toEnd, nextEnd, ← filterMap_append, ← filterMap_append, take_append_drop]

theorem toEnd_enterTurn (s : LoopState AgentMessage) (messages : List AgentMessage) :
    (s.enterTurn messages).toEnd = messages := by
  have hstart : ((if s.firstTurn then [] else [Statement.emit AgentEvent.turnStart] :
      List (Statement AgentMessage)).filterMap Statement.event?).filterMap ended? = [] := by
    cases s.firstTurn <;> rfl
  rw [toEnd, enterTurn, filterMap_append, filterMap_event_injected, filterMap_append,
    filterMap_ended_messages, hstart, nil_append]

theorem toEnd_runAgentLoop (prompts context : List AgentMessage) :
    (runAgentLoop prompts context).toEnd = prompts := by
  rw [toEnd, runAgentLoop, filterMap_append, filterMap_append, filterMap_ended_messages]
  rfl

/-- What a step of a loop puts into the transcript, and what it is then about to put there. -/
inductive Ends (s t : LoopState AgentMessage) :
    LoopInput AgentMessage → List AgentMessage → Prop
  | refused {error : JsString} (ht : t.toEnd = []) : Ends s t (.received (.error error)) s.nextEnd
  | polled {messages : List AgentMessage} (hs : s.toEnd = []) (ht : t.toEnd = messages) :
      Ends s t (.polled messages) []
  | moved {input : LoopInput AgentMessage} {ended : List AgentMessage}
      (hinput : ∀ error, input ≠ .received (.error error)) (hpolled : input.isPolled = false)
      (hs : s.toEnd = ended ++ t.toEnd) : Ends s t input ended
  | made {input : LoopInput AgentMessage} (hinput : ∀ error, input ≠ .received (.error error))
      (hpolled : input.isPolled = false) (hs : s.toEnd = [])
      (hown : ∀ m ∈ t.toEnd, m.isOwn = true) : Ends s t input []

section

variable {config : LoopConfig} {input : LoopInput AgentMessage}

theorem Ends.of_advance (hs : s.todo = []) (h : Advance config s input t) : Ends s t input [] := by
  have hnone := toEnd_of_todo hs
  have hsilent : ∀ {input : LoopInput AgentMessage}, (∀ error, input ≠ .received (.error error)) →
      input.isPolled = false → t.toEnd = [] → Ends s t input [] := by
    intro input hinput hpolled ht
    refine .made hinput hpolled hnone fun m hm => ?_
    rw [ht] at hm
    cases hm
  cases h with
  | turnEntered hpc hmore | followedUp hpc hne => exact .polled hnone (toEnd_enterTurn _ _)
  | nothingSteered hpc hmore => exact .polled hnone hnone
  | nothingFollowed hpc => exact .polled hnone rfl
  | @responded addedPartial message hpc =>
    refine .made nofun rfl hnone fun m hm => ?_
    have hends : m ∈ [AgentMessage.assistant message] := by
      cases addedPartial <;> exact hm
    rw [mem_singleton.mp hends]
    rfl
  | resultReported hpc =>
    refine .made nofun rfl hnone fun m hm => ?_
    rw [mem_singleton.mp hm]
    rfl
  | streamClosed hpc hinput | threw hinput =>
    cases input <;> first | exact hinput.elim | exact hsilent nofun rfl hnone
  | streamStarted | streamUpdated | turnFailed | turnWithoutCalls | callStarted | settledAtOnce
  | finalized | batchFinished | stopped => exact hsilent nofun rfl rfl
  | called | updateIgnored | batchStarted | executionStarted | entryAdded | executed
  | poolStarted | poolSettled | callDone | goesOn => exact hsilent nofun rfl hnone

theorem Ends.of_step
    {events : List (AgentEvent AgentMessage)} (h : stepLoop config s input = some (t, events)) :
    Ends s t input (events.filterMap ended?) := by
  cases LoopStep.of_stepLoop h with
  | updated => exact .moved nofun rfl rfl
  | entry hentry hstep =>
    cases hstep with
    | executed => exact .moved nofun rfl rfl
    | updateNotReceived | finalized | endNotReceived => exact .moved nofun rfl rfl
  | @received event todo htodo =>
    refine .moved nofun rfl ?_
    rw [toEnd, toEnd, htodo, ← filterMap_append]
    rfl
  | @notReceived event todo error htodo =>
    have hnext : [event].filterMap ended? = s.nextEnd := by
      rw [nextEnd, htodo]
      rfl
    rw [hnext]
    exact .refused rfl
  | pushed htodo =>
    refine .moved nofun rfl ?_
    rw [toEnd, toEnd, htodo]
    rfl
  | advanced htodo hadvance => exact .of_advance htodo hadvance

end

end LoopState

namespace Agent

theorem messages_foldl_reduce (agent : Agent) (events : List (AgentEvent AgentMessage)) :
    (events.foldl reduce agent).messages = agent.messages ++ events.filterMap ended? := by
  induction events generalizing agent with
  | nil => exact (append_nil _).symm
  | cons event events ih =>
    rw [foldl_cons, ih]
    cases event with
    | messageEnd message =>
      rw [reduce, filterMap_cons]
      exact append_assoc _ _ _
    | _ => rfl

end Agent

/-!
# Queued messages and the transcript

A ledger of what an agent was ever given, what a run has taken and not yet put into the
transcript, and where the messages of the transcript come from.
-/

inductive MessageOrigin where
  | prompt
  | steering
  | followUp
  /-- The run itself: an answer, a tool result or the message of its failure. -/
  | turn
  deriving DecidableEq

variable {input : AgentInput} {origin : MessageOrigin} {appended : List AgentMessage}
  {t : AgentWorld}

def fromOrigin (origin : MessageOrigin) (messages : List (MessageOrigin × AgentMessage)) :
    List AgentMessage :=
  (messages.filter fun p => p.1 = origin).map Prod.snd

/-- The messages that wait in the queue of an origin. -/
def Agent.waiting (agent : Agent) : MessageOrigin → List AgentMessage
  | .steering => agent.steeringQueue.messages
  | .followUp => agent.followUpQueue.messages
  | .prompt | .turn => []

def AgentInput.gives (w : AgentWorld) : AgentInput → MessageOrigin → List AgentMessage
  | .steer message, .steering => [message]
  | .followUp message, .followUp => [message]
  | .prompt messages, .prompt => if w.agent.activeRun.isSome then [] else messages
  | _, _ => []

def AgentInput.isRefusal : AgentInput → Bool
  | .loop _ (.received (.error _)) => true
  | _ => false

theorem AgentInput.exists_of_isRefusal (h : input.isRefusal = true) :
    ∃ index error, input = .loop index (.received (.error error)) := by
  unfold AgentInput.isRefusal at h
  split at h
  · exact ⟨_, _, rfl⟩
  · cases h

/-- The messages that have left the queue of an origin. -/
def Agent.left (agent after : Agent) (origin : MessageOrigin) : List AgentMessage :=
  (agent.waiting origin).take ((agent.waiting origin).length - (after.waiting origin).length)

def AgentWorld.handed (w : AgentWorld) (input : AgentInput) (after : AgentWorld) :
    List (MessageOrigin × AgentMessage) :=
  (input.gives w .prompt).map (fun m => (.prompt, m)) ++
    ((w.agent.left after.agent .steering).map (fun m => (.steering, m)) ++
      (w.agent.left after.agent .followUp).map fun m => (.followUp, m))

/-- New messages of the transcript with their origins: first those on the way. -/
def originsOf : List (MessageOrigin × AgentMessage) → List AgentMessage →
    List (MessageOrigin × AgentMessage)
  | _, [] => []
  | [], m :: ms => (.turn, m) :: originsOf [] ms
  | (origin, _) :: inFlight, m :: ms => (origin, m) :: originsOf inFlight ms

/-- An agent at work, with what it was given and what became of it. -/
structure QueueLedger where
  world : AgentWorld
  given : MessageOrigin → List AgentMessage
  /-- What the run has taken and not put into the transcript. -/
  inFlight : List (MessageOrigin × AgentMessage) := []
  /-- What was put into the transcript. -/
  entered : List (MessageOrigin × AgentMessage) := []

namespace QueueLedger

variable (l : QueueLedger)

def record (input : AgentInput) (world : AgentWorld) : QueueLedger :=
  let appended := world.agent.messages.drop l.world.agent.messages.length
  { world
    given := fun origin => l.given origin ++ input.gives l.world origin
    inFlight := (if input.isRefusal then [] else l.inFlight.drop appended.length) ++
      l.world.handed input world
    entered := l.entered ++ originsOf l.inFlight appended }

def step (input : AgentInput) : Option QueueLedger :=
  (l.world.step input).map (l.record input)

def start (agent : Agent) : QueueLedger where
  world := { agent }
  given := agent.waiting

/-- The messages of an origin that the runs have taken. -/
def taken (origin : MessageOrigin) : List AgentMessage :=
  fromOrigin origin (l.entered ++ l.inFlight)

/-- A listener throws only when no queued message is left to put into the transcript. -/
def Keeps (l : QueueLedger) : AgentInput → Prop
  | .loop index (.received (.error _)) =>
    ∀ run, l.world.runs[index]? = some run →
      ∀ p ∈ l.inFlight.drop run.loop.nextEnd.length, p.1 = .prompt
  | _ => True

/-- The transcript is what was there before and what entered, and without a run every message
that was queued either waits or has entered once, in the order of its queue. -/
structure Conserved (before : List AgentMessage) : Prop where
  transcript : l.world.agent.messages = before ++ l.entered.map Prod.snd
  own : ∀ p ∈ l.entered, p.1 = .turn → p.2.isOwn = true
  steering : l.world.runs = [] →
    l.given .steering = fromOrigin .steering l.entered ++ l.world.agent.steeringQueue.messages
  followUp : l.world.runs = [] →
    l.given .followUp = fromOrigin .followUp l.entered ++ l.world.agent.followUpQueue.messages

end QueueLedger

theorem fromOrigin_append (origin : MessageOrigin) (ps qs : List (MessageOrigin × AgentMessage)) :
    fromOrigin origin (ps ++ qs) = fromOrigin origin ps ++ fromOrigin origin qs := by
  rw [fromOrigin, filter_append, map_append]
  rfl

theorem fromOrigin_map_self (origin : MessageOrigin) (ms : List AgentMessage) :
    fromOrigin origin (ms.map fun m => (origin, m)) = ms := by
  rw [fromOrigin, filter_eq_self.mpr]
  · rw [map_map]
    exact map_id ms
  · intro p hp
    obtain ⟨m, -, rfl⟩ := mem_map.mp hp
    exact decide_eq_true rfl

theorem fromOrigin_map_of_ne {other : MessageOrigin} (h : other ≠ origin) (ms : List AgentMessage) :
    fromOrigin origin (ms.map fun m => (other, m)) = [] := by
  rw [fromOrigin, filter_eq_nil_iff.mpr]
  · rfl
  · intro p hp
    obtain ⟨m, -, rfl⟩ := mem_map.mp hp
    simpa using h

theorem fromOrigin_eq_nil {ps : List (MessageOrigin × AgentMessage)} (h : ∀ p ∈ ps, p.1 ≠ origin) :
    fromOrigin origin ps = [] := by
  rw [fromOrigin, filter_eq_nil_iff.mpr]
  · rfl
  · intro p hp
    simpa using h p hp

theorem originsOf_inFlight {inFlight : List (MessageOrigin × AgentMessage)}
    {rest : List AgentMessage} (h : inFlight.map Prod.snd = appended ++ rest) :
    originsOf inFlight appended = inFlight.take appended.length := by
  induction appended generalizing inFlight with
  | nil => cases inFlight <;> rfl
  | cons m ms ih =>
    cases inFlight with
    | nil => cases h
    | cons p inFlight =>
      obtain ⟨origin, m'⟩ := p
      rw [map_cons, cons_append, List.cons.injEq] at h
      obtain ⟨rfl, h⟩ := h
      rw [originsOf, ih h]
      rfl

theorem originsOf_nil (ms : List AgentMessage) : originsOf [] ms = ms.map fun m => (.turn, m) := by
  induction ms with
  | nil => rfl
  | cons m ms ih => rw [originsOf, ih, map_cons]

theorem map_snd_originsOf (inFlight : List (MessageOrigin × AgentMessage))
    (ms : List AgentMessage) : (originsOf inFlight ms).map Prod.snd = ms := by
  induction ms generalizing inFlight with
  | nil => cases inFlight <;> rfl
  | cons m ms ih =>
    cases inFlight with
    | nil => rw [originsOf, map_cons, ih]
    | cons p inFlight => rw [originsOf, map_cons, ih]

theorem Agent.waiting_foldl_reduce (agent : Agent) (events : List (AgentEvent AgentMessage)) :
    (events.foldl Agent.reduce agent).waiting = agent.waiting := by
  induction events generalizing agent with
  | nil => rfl
  | cons event events ih =>
    rw [foldl_cons, ih]
    funext origin
    cases event <;> cases origin <;> rfl

theorem Agent.left_of_append {agent after : Agent} {drained : List AgentMessage}
    (h : agent.waiting origin = drained ++ after.waiting origin) :
    agent.left after origin = drained := by
  rw [Agent.left, h, length_append, Nat.add_sub_cancel, take_left']
  rfl

theorem Agent.left_of_le {agent after : Agent}
    (h : (agent.waiting origin).length ≤ (after.waiting origin).length) :
    agent.left after origin = [] := by
  rw [Agent.left, Nat.sub_eq_zero_of_le h, take_zero]

namespace QueueLedger

variable {l : QueueLedger} {before : List AgentMessage}

/-- What is on the way is what the loop is about to put into the transcript, unless that is
its own. -/
def OnTheWay (inFlight : List (MessageOrigin × AgentMessage)) (loop : LoopState AgentMessage) :
    Prop :=
  inFlight.map Prod.snd = loop.toEnd ∨ inFlight = [] ∧ ∀ m ∈ loop.toEnd, m.isOwn = true

/-- The ledger is right about the transcript and about what is on the way. -/
structure Tracks (before : List AgentMessage) (l : QueueLedger) : Prop where
  sound : l.world.Sound
  transcript : l.world.agent.messages = before ++ l.entered.map Prod.snd
  idle : l.world.runs = [] → l.inFlight = []
  run : ∀ run ∈ l.world.runs, OnTheWay l.inFlight run.loop
  own : ∀ p ∈ l.entered, p.1 = .turn → p.2.isOwn = true
  foreign : ∀ p ∈ l.inFlight, p.1 ≠ .turn

/-- What a step of the agent does to the transcript, the queues and what is on the way. -/
structure Grows (l : QueueLedger) (input : AgentInput) (t : AgentWorld)
    (appended : List AgentMessage) : Prop where
  messages : t.agent.messages = l.world.agent.messages ++ appended
  flight : (∃ rest, l.inFlight.map Prod.snd = appended ++ rest) ∨
    l.inFlight = [] ∧ ∀ m ∈ appended, m.isOwn = true
  waiting : ∀ origin, l.world.agent.left t.agent origin ++ t.agent.waiting origin =
    l.world.agent.waiting origin ++ if origin = .prompt then [] else input.gives l.world origin
  refused : ∀ index error, input = .loop index (.received (.error error)) →
    ∃ run, l.world.runs[index]? = some run ∧ appended = run.loop.nextEnd
  idle : t.runs = [] → (l.record input t).inFlight = []
  run : ∀ run ∈ t.runs, OnTheWay (l.record input t).inFlight run.loop

section

variable {input : AgentInput} {t : AgentWorld} {appended : List AgentMessage}

theorem record_inFlight (hmessages : t.agent.messages = l.world.agent.messages ++ appended) :
    (l.record input t).inFlight =
      (if input.isRefusal then [] else l.inFlight.drop appended.length) ++
        l.world.handed input t := by
  rw [record]
  rw [hmessages, drop_left]

theorem record_entered (hmessages : t.agent.messages = l.world.agent.messages ++ appended) :
    (l.record input t).entered = l.entered ++ originsOf l.inFlight appended := by
  rw [record]
  rw [hmessages, drop_left]

end

section

variable (w : AgentWorld) (input : AgentInput) (t : AgentWorld)

theorem fromOrigin_handed (horigin : origin ≠ .turn) : fromOrigin origin (w.handed input t) =
      (if origin = .prompt then input.gives w .prompt else w.agent.left t.agent origin) := by
  rw [AgentWorld.handed, fromOrigin_append, fromOrigin_append]
  cases origin with
  | prompt | steering =>
    rw [fromOrigin_map_self, fromOrigin_map_of_ne (by decide), fromOrigin_map_of_ne (by decide)]
    exact append_nil _
  | followUp =>
    rw [fromOrigin_map_self, fromOrigin_map_of_ne (by decide), fromOrigin_map_of_ne (by decide)]
    rfl
  | turn => exact absurd rfl horigin

theorem handed_ne_turn : ∀ p ∈ w.handed input t, p.1 ≠ .turn := by
  intro p hp
  rcases mem_append.mp hp with hp | hp
  · obtain ⟨m, -, rfl⟩ := mem_map.mp hp
    exact nofun
  · rcases mem_append.mp hp with hp | hp
    all_goals
      obtain ⟨m, -, rfl⟩ := mem_map.mp hp
      exact nofun

end

theorem Grows.attributed (hgrows : l.Grows input t appended) :
    originsOf l.inFlight appended = l.inFlight.take appended.length ∨
      l.inFlight = [] ∧ originsOf l.inFlight appended = appended.map (fun m => (.turn, m)) ∧
        ∀ m ∈ appended, m.isOwn = true := by
  rcases hgrows.flight with ⟨rest, hrest⟩ | ⟨hnil, hown⟩
  · exact .inl (originsOf_inFlight hrest)
  · rw [hnil]
    exact .inr ⟨rfl, originsOf_nil appended, hown⟩

theorem Tracks.record (h : l.Tracks before) (hsound : t.Sound) (hgrows : l.Grows input t appended) :
    (l.record input t).Tracks before where
  sound := hsound
  transcript := by
    rw [record_entered hgrows.messages, map_append, map_snd_originsOf, ← append_assoc,
      ← h.transcript]
    exact hgrows.messages
  idle := hgrows.idle
  run := hgrows.run
  own := by
    rw [record_entered hgrows.messages]
    intro p hp hturn
    rcases mem_append.mp hp with hp | hp
    · exact h.own p hp hturn
    · rcases hgrows.attributed with htake | ⟨-, hmap, hown⟩
      · rw [htake] at hp
        exact absurd hturn (h.foreign p (mem_of_mem_take hp))
      · rw [hmap] at hp
        obtain ⟨m, hm, rfl⟩ := mem_map.mp hp
        exact hown m hm
  foreign := by
    rw [record_inFlight hgrows.messages]
    intro p hp
    rcases mem_append.mp hp with hp | hp
    · split at hp
      · cases hp
      · exact h.foreign p (mem_of_mem_drop hp)
    · exact handed_ne_turn _ _ _ p hp

theorem Grows.balance (hgrows : l.Grows input t appended) (horigin : origin ≠ .turn) :
    ∃ kept, kept.Sublist (l.taken origin) ∧
      ((input.isRefusal = true → fromOrigin origin (l.inFlight.drop appended.length) = []) →
        kept = l.taken origin) ∧
      (l.record input t).taken origin ++ t.agent.waiting origin =
        kept ++ (l.world.agent.waiting origin ++ input.gives l.world origin) := by
  have hqueues : fromOrigin origin (l.world.handed input t) ++ t.agent.waiting origin =
      l.world.agent.waiting origin ++ input.gives l.world origin := by
    have hwaiting := hgrows.waiting origin
    rw [fromOrigin_handed _ _ _ horigin]
    by_cases hprompt : origin = .prompt
    · subst hprompt
      exact append_nil _
    · rw [if_neg hprompt] at hwaiting ⊢
      exact hwaiting
  have hsplit : fromOrigin origin (l.inFlight.take appended.length) ++
      fromOrigin origin (l.inFlight.drop appended.length) = fromOrigin origin l.inFlight := by
    rw [← fromOrigin_append, take_append_drop]
  have hattributed : fromOrigin origin (originsOf l.inFlight appended) =
      fromOrigin origin (l.inFlight.take appended.length) := by
    rcases hgrows.attributed with htake | ⟨hnil, hmap, -⟩
    · rw [htake]
    · rw [hmap, hnil, take_nil, fromOrigin_map_of_ne (Ne.symm horigin)]
      rfl
  have htaken : (l.record input t).taken origin ++ t.agent.waiting origin =
      (fromOrigin origin l.entered ++ (fromOrigin origin (l.inFlight.take appended.length) ++
        fromOrigin origin (if input.isRefusal then [] else l.inFlight.drop appended.length))) ++
      (l.world.agent.waiting origin ++ input.gives l.world origin) := by
    rw [taken, record_entered hgrows.messages, record_inFlight hgrows.messages,
      fromOrigin_append, fromOrigin_append, fromOrigin_append, hattributed, ← hqueues]
    simp only [append_assoc]
  refine ⟨_, ?_, ?_, htaken⟩
  · rw [taken, fromOrigin_append, ← hsplit]
    refine (List.Sublist.refl _).append ((List.Sublist.refl _).append ?_)
    split
    · exact nil_sublist _
    · exact List.Sublist.refl _
  · intro hlost
    rw [taken, fromOrigin_append, ← hsplit]
    split
    · rename_i hrefusal
      rw [hlost hrefusal]
      rfl
    · rfl

end QueueLedger

end AcademicAgent
