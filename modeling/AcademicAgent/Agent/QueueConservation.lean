import AcademicAgent.Agent.QueueLedger

/-!
# Conservation of queued messages

Every step of the agent keeps the ledger right.
-/

namespace AcademicAgent

open List

open AgentWorld (handed runPromptMessages)
open Agent (left_of_le reduce)
open AgentEvent (ended?)

theorem AgentWorld.Sound.runs_eq {w : AgentWorld} (h : w.Sound) {index : Nat} {run : AgentRun}
    (hrun : w.runs[index]? = some run) : w.runs = [run] ∧ index = 0 := by
  have hone := h.one_run
  match hruns : w.runs with
  | [] =>
    rw [hruns] at hrun
    cases hrun
  | [only] =>
    rw [hruns] at hrun
    cases index with
    | zero =>
      cases hrun
      exact ⟨rfl, rfl⟩
    | succ index => cases hrun
  | _ :: _ :: _ =>
    rw [hruns, length_cons, length_cons] at hone
    omega

namespace QueueLedger

variable {l t : QueueLedger} {before : List AgentMessage}

section

variable {w t : AgentWorld} {input : AgentInput} {drained : List AgentMessage}

theorem handed_steering (hgives : input.gives w .prompt = [])
    (hsteering : w.agent.waiting .steering = drained ++ t.agent.waiting .steering)
    (hfollowUp : t.agent.waiting .followUp = w.agent.waiting .followUp) :
    w.handed input t = drained.map fun m => (.steering, m) := by
  rw [handed, hgives, Agent.left_of_append hsteering, left_of_le (by rw [hfollowUp])]
  exact append_nil _

theorem handed_followUp (hgives : input.gives w .prompt = [])
    (hsteering : t.agent.waiting .steering = w.agent.waiting .steering)
    (hfollowUp : w.agent.waiting .followUp = drained ++ t.agent.waiting .followUp) :
    w.handed input t = drained.map fun m => (.followUp, m) := by
  rw [handed, hgives, Agent.left_of_append hfollowUp, left_of_le (by rw [hsteering])]
  rfl

end

section

variable {input : AgentInput} {t : AgentWorld}

theorem Grows.of_quiet (hmessages : t.agent.messages = l.world.agent.messages)
    (hwaiting : ∀ origin, t.agent.waiting origin = l.world.agent.waiting origin ++
      if origin = .prompt then [] else input.gives l.world origin)
    (hgives : input.gives l.world .prompt = []) (hinput : input.isRefusal = false)
    (hidle : t.runs = [] → l.inFlight = [])
    (hrun : ∀ run ∈ t.runs, OnTheWay l.inFlight run.loop) : l.Grows input t [] := by
  have hleft : ∀ origin, l.world.agent.left t.agent origin = [] := fun origin =>
    left_of_le (by rw [hwaiting, length_append]; exact Nat.le_add_right _ _)
  have hgrown : t.agent.messages = l.world.agent.messages ++ [] := by
    rw [hmessages, append_nil]
  have hflight : (l.record input t).inFlight = l.inFlight := by
    rw [record_inFlight hgrown, hinput, handed, hgives, hleft, hleft]
    exact append_nil _
  refine ⟨hgrown, .inl ⟨_, rfl⟩, fun origin => ?_, ?_, ?_, ?_⟩
  · rw [hleft, hwaiting, nil_append]
  · rintro index error rfl
    cases hinput
  · rw [hflight]
    exact hidle
  · rw [hflight]
    exact hrun

theorem Grows.of_handed
    (hnone : l.inFlight = []) (hmessages : t.agent.messages = l.world.agent.messages)
    (hwaiting : ∀ origin, l.world.agent.left t.agent origin ++ t.agent.waiting origin =
      l.world.agent.waiting origin ++ if origin = .prompt then [] else input.gives l.world origin)
    (hinput : input.isRefusal = false) {run : AgentRun} (hruns : t.runs = [run])
    (hloop : (l.world.handed input t).map Prod.snd = run.loop.toEnd) : l.Grows input t [] := by
  have hgrown : t.agent.messages = l.world.agent.messages ++ [] := by
    rw [hmessages, append_nil]
  have hflight : (l.record input t).inFlight = l.world.handed input t := by
    rw [record_inFlight hgrown, hinput, hnone]
    rfl
  refine ⟨hgrown, .inl ⟨_, rfl⟩, hwaiting, ?_, ?_, ?_⟩
  · rintro index error rfl
    cases hinput
  · intro hnil
    rw [hruns] at hnil
    cases hnil
  · rw [hruns, hflight]
    intro r hr
    rw [mem_singleton.mp hr]
    exact .inl hloop

theorem Grows.of_drained {origin : MessageOrigin}
    {drained : List AgentMessage} (hnone : l.inFlight = [])
    (hmessages : t.agent.messages = l.world.agent.messages)
    (hgives : ∀ other, input.gives l.world other = []) (hinput : input.isRefusal = false)
    (horigin : origin = .steering ∨ origin = .followUp)
    (hdrained : l.world.agent.waiting origin = drained ++ t.agent.waiting origin)
    (hothers : ∀ other, other ≠ origin → t.agent.waiting other = l.world.agent.waiting other)
    {run : AgentRun} (hruns : t.runs = [run]) (hloop : run.loop.toEnd = drained) :
    l.Grows input t [] := by
  refine .of_handed hnone hmessages (fun other => ?_) hinput hruns ?_
  · rw [hgives, ite_self, append_nil]
    by_cases hother : other = origin
    · subst hother
      rw [Agent.left_of_append hdrained, hdrained]
    · rw [left_of_le (by rw [hothers other hother]), hothers other hother, nil_append]
  · rw [hloop]
    rcases horigin with rfl | rfl
    · rw [handed_steering (hgives _) hdrained (hothers _ (by decide)), map_map]
      exact map_id _
    · rw [handed_followUp (hgives _) (hothers _ (by decide)) hdrained, map_map]
      exact map_id _

end

theorem OnTheWay.inFlight_eq_nil {inFlight : List (MessageOrigin × AgentMessage)}
    {loop : LoopState AgentMessage} (h : OnTheWay inFlight loop) (hloop : loop.toEnd = []) :
    inFlight = [] := by
  rcases h with hmap | ⟨hnil, -⟩
  · rw [hloop] at hmap
    exact map_eq_nil_iff.mp hmap
  · exact hnil

theorem Tracks.grows_prompt (h : l.Tracks before) (messages : List AgentMessage) :
    l.Grows (.prompt messages) (l.world.prompt messages) [] := by
  unfold AgentWorld.prompt
  by_cases hactive : l.world.agent.activeRun.isSome = true
  · rw [if_pos hactive]
    have hgives : (AgentInput.prompt messages).gives l.world .prompt = [] := if_pos hactive
    refine .of_quiet rfl (fun origin => ?_) hgives rfl h.idle h.run
    cases origin <;> exact (append_nil _).symm
  · rw [if_neg hactive]
    have hruns := h.sound.runs_eq_nil hactive
    have hgives : (AgentInput.prompt messages).gives l.world .prompt = messages := if_neg hactive
    have hleft : ∀ origin, l.world.agent.left l.world.agent.beginRun origin = [] := fun origin =>
      left_of_le (by cases origin <;> exact le_refl _)
    refine .of_handed (h.idle hruns) rfl (fun origin => ?_) rfl
      (by rw [runPromptMessages, AgentWorld.runWithLifecycle, hruns]; rfl) ?_
    · rw [show ((l.world.runPromptMessages messages false).agent) = l.world.agent.beginRun from rfl,
        hleft]
      cases origin <;> exact (append_nil _).symm
    · rw [handed, hgives,
        show ((l.world.runPromptMessages messages false).agent) = l.world.agent.beginRun from rfl,
        hleft, hleft, LoopState.toEnd_runAgentLoop]
      simp

theorem waiting_drain_steering (agent : Agent) :
    agent.waiting .steering = agent.steeringQueue.drain.1 ++
      ({ agent with steeringQueue := agent.steeringQueue.drain.2 } : Agent).waiting .steering :=
  agent.steeringQueue.drain_append.symm

theorem waiting_drain_followUp (agent : Agent) :
    agent.waiting .followUp = agent.followUpQueue.drain.1 ++
      ({ agent with followUpQueue := agent.followUpQueue.drain.2 } : Agent).waiting .followUp :=
  agent.followUpQueue.drain_append.symm

section

variable (h : l.Tracks before)
include h

theorem Tracks.grows_unchanged : l.Grows .continueRun l.world [] :=
  .of_quiet rfl (fun origin => by cases origin <;> exact (append_nil _).symm) rfl rfl h.idle
    h.run

theorem Tracks.grows_drained (hruns : l.world.runs = [])
    {agent : Agent} {origin : MessageOrigin} {drained : List AgentMessage} {skip : Bool}
    (hmessages : agent.messages = l.world.agent.messages)
    (hdrained : l.world.agent.waiting origin = drained ++ agent.waiting origin)
    (hothers : ∀ other, other ≠ origin → agent.waiting other = l.world.agent.waiting other)
    (horigin : origin = .steering ∨ origin = .followUp) : l.Grows .continueRun
      (runPromptMessages { l.world with agent } drained skip) [] := by
  have hqueues : (runPromptMessages { l.world with agent } drained skip).agent.waiting =
      agent.waiting := by
    funext other
    cases other <;> rfl
  refine .of_drained (h.idle hruns) hmessages (fun other => by cases other <;> rfl) rfl horigin
    (by rw [hqueues]; exact hdrained) (by rw [hqueues]; exact hothers)
    (by rw [runPromptMessages, AgentWorld.runWithLifecycle, hruns]; rfl)
    (LoopState.toEnd_runAgentLoop _ _)

theorem Tracks.grows_runContinuation (hruns : l.world.runs = []) :
    l.Grows .continueRun l.world.runContinuation [] := by
  have hstart : ∀ {loop : LoopState AgentMessage}, loop.toEnd = [] →
      l.Grows .continueRun (l.world.runWithLifecycle loop false) [] := by
    intro loop hloop
    have hqueues : (l.world.runWithLifecycle loop false).agent.waiting = l.world.agent.waiting := by
      funext origin
      cases origin <;> rfl
    refine .of_quiet rfl (fun origin => ?_) rfl rfl (fun _ => h.idle hruns) fun run hrun => ?_
    · rw [hqueues]
      cases origin <;> exact (append_nil _).symm
    · rw [AgentWorld.runWithLifecycle, hruns] at hrun
      rw [mem_singleton.mp hrun, h.idle hruns]
      exact .inl hloop.symm
  unfold AgentWorld.runContinuation
  split
  · rename_i loop hloop
    unfold runAgentLoopContinue at hloop
    split at hloop
    · cases hloop
    · split at hloop
      · cases hloop
      · cases hloop
        exact hstart rfl
  · exact hstart rfl

theorem Tracks.grows_continueRun : l.Grows .continueRun l.world.continueRun [] := by
  unfold AgentWorld.continueRun
  split
  · exact h.grows_unchanged
  rename_i hnone
  have hruns := h.sound.runs_eq_nil hnone
  split
  · exact h.grows_unchanged
  · split
    · unfold AgentWorld.continueQueued
      dsimp only
      split
      · exact h.grows_drained hruns rfl (waiting_drain_steering _)
          (fun other hother => by cases other <;> first | rfl | exact absurd rfl hother)
          (.inl rfl)
      · rename_i hsteered
        obtain ⟨-, hsame⟩ := PendingMessageQueue.drain_eq_nil (not_ne_iff.mp hsteered)
        rw [hsame]
        split
        · exact h.grows_drained hruns rfl (waiting_drain_followUp _)
            (fun other hother => by cases other <;> first | rfl | exact absurd rfl hother)
            (.inr rfl)
        · rename_i hfollowed
          obtain ⟨-, hsame'⟩ := PendingMessageQueue.drain_eq_nil (not_ne_iff.mp hfollowed)
          rw [hsame']
          exact h.grows_unchanged
    · exact h.grows_runContinuation hruns

section

variable {index : Nat}

theorem Tracks.grows_loop {run : AgentRun}
    (hrun : l.world.runs[index]? = some run) {input : LoopInput AgentMessage}
    (hpolled : input.isPolled = false) {t : AgentWorld}
    (hstep : l.world.advance index l.world.agent run input = some t) :
    ∃ appended, l.Grows (.loop index input) t appended := by
  obtain ⟨⟨loop, events⟩, hloop, ht⟩ := Option.map_eq_some_iff.mp hstep
  obtain ⟨hruns, rfl⟩ := h.sound.runs_eq hrun
  cases ht
  have hmessages := l.world.agent.messages_foldl_reduce events
  have hqueues := l.world.agent.waiting_foldl_reduce events
  have hway := h.run run (mem_of_getElem? hrun)
  have hleft : ∀ origin, l.world.agent.left (events.foldl reduce l.world.agent) origin =
      [] := fun origin => left_of_le (by rw [hqueues])
  have hwaiting : ∀ origin, l.world.agent.left (events.foldl reduce l.world.agent) origin ++
      (events.foldl reduce l.world.agent).waiting origin =
        l.world.agent.waiting origin ++ if origin = .prompt then [] else
          (AgentInput.loop 0 input).gives l.world origin := by
    intro origin
    rw [hleft, hqueues]
    cases origin <;> exact (append_nil _).symm
  have hflight : (l.record (.loop 0 input) { l.world with
      agent := events.foldl reduce l.world.agent
      runs := l.world.runs.set 0 { run with loop } }).inFlight =
      if (AgentInput.loop 0 input).isRefusal then [] else
        l.inFlight.drop (events.filterMap ended?).length := by
    rw [record_inFlight hmessages, handed, hleft, hleft]
    exact append_nil _
  have hnonempty : l.world.runs.set 0 { run with loop } ≠ [] := by
    rw [hruns]
    exact cons_ne_nil _ _
  have hgrows : ∀ {ended : List AgentMessage}, events.filterMap ended? = ended →
      ((∃ rest, l.inFlight.map Prod.snd = ended ++ rest) ∨
        l.inFlight = [] ∧ ∀ m ∈ ended, m.isOwn = true) →
      (∀ error, input = .received (.error error) → ended = run.loop.nextEnd) →
      OnTheWay (if (AgentInput.loop 0 input).isRefusal then [] else l.inFlight.drop ended.length)
        loop → ∃ appended, l.Grows (.loop 0 input) { l.world with
          agent := events.foldl reduce l.world.agent
          runs := l.world.runs.set 0 { run with loop } } appended := by
    rintro _ rfl hended hrefused hon
    refine ⟨_, hmessages, hended, hwaiting, ?_, fun hnil => absurd hnil hnonempty, ?_⟩
    · intro index error hinput
      cases hinput
      exact ⟨run, hrun, hrefused error rfl⟩
    · rw [hflight, hruns]
      intro r hr
      rw [mem_singleton.mp hr]
      exact hon
  generalize hended : events.filterMap ended? = ended at *
  have hends := LoopState.Ends.of_step hloop
  rw [hended] at hends
  have hrefusal : (∀ error, input ≠ .received (.error error)) →
      (AgentInput.loop 0 input).isRefusal = false := by
    intro hinput
    cases input with
    | received sink =>
      cases sink with
      | ok _ => rfl
      | error error => exact absurd rfl (hinput error)
    | _ => rfl
  cases hends with
  | refused ht =>
    refine hgrows rfl ?_ (fun _ _ => rfl) (.inl ht.symm)
    obtain ⟨rest, hrest⟩ := run.loop.toEnd_eq_nextEnd_append
    rcases hway with hmap | ⟨hnil, hown⟩
    · exact .inl ⟨rest, hmap.trans hrest⟩
    · refine .inr ⟨hnil, fun m hm => hown m ?_⟩
      rw [hrest]
      exact mem_append_left _ hm
  | polled => cases hpolled
  | moved hinput _ hs =>
    refine hgrows rfl ?_ (fun error herror => absurd herror (hinput error)) ?_
    · rcases hway with hmap | ⟨hnil, hown⟩
      · exact .inl ⟨_, hmap.trans hs⟩
      · refine .inr ⟨hnil, fun m hm => hown m ?_⟩
        rw [hs]
        exact mem_append_left _ hm
    · rw [hrefusal hinput, if_neg Bool.false_ne_true]
      rcases hway with hmap | ⟨hnil, hown⟩
      · refine .inl ?_
        rw [map_drop, hmap, hs, drop_left]
      · refine .inr ⟨by rw [hnil, drop_nil], fun m hm => hown m ?_⟩
        rw [hs]
        exact mem_append_right _ hm
  | made hinput _ hs hown =>
    have hnil := hway.inFlight_eq_nil hs
    refine hgrows rfl (.inl ⟨_, rfl⟩) (fun error herror => absurd herror (hinput error)) ?_
    rw [hrefusal hinput, if_neg Bool.false_ne_true]
    exact .inr ⟨hnil, hown⟩

theorem Tracks.grows_poll {run run' : AgentRun}
    (hrun : l.world.runs[index]? = some run) {messages : List AgentMessage} {agent : Agent}
    (hpoll : l.world.poll run = some (messages, agent, run')) {t : AgentWorld}
    (hstep : l.world.advance index agent run' (.polled messages) = some t) :
    l.Grows (.poll index) t [] := by
  obtain ⟨⟨loop, events⟩, hloop, ht⟩ := Option.map_eq_some_iff.mp hstep
  obtain ⟨hruns, rfl⟩ := h.sound.runs_eq hrun
  cases ht
  have hpolled : run'.loop = run.loop ∧ agent.messages = l.world.agent.messages ∧
      (∃ origin, (origin = .steering ∨ origin = .followUp) ∧
        l.world.agent.waiting origin = messages ++ agent.waiting origin ∧
        ∀ other, other ≠ origin → agent.waiting other = l.world.agent.waiting other) := by
    unfold AgentWorld.poll at hpoll
    split at hpoll
    · split at hpoll
      · cases hpoll
        exact ⟨rfl, rfl, .steering, .inl rfl, rfl, fun _ _ => rfl⟩
      · cases hpoll
        exact ⟨rfl, rfl, .steering, .inl rfl, waiting_drain_steering _,
          fun other hother => by cases other <;> first | rfl | exact absurd rfl hother⟩
    · cases hpoll
      exact ⟨rfl, rfl, .followUp, .inr rfl, waiting_drain_followUp _,
        fun other hother => by cases other <;> first | rfl | exact absurd rfl hother⟩
    · cases hpoll
  obtain ⟨hsame, hmessages, origin, horigin, hdrained, hothers⟩ := hpolled
  rw [hsame] at hloop
  have hends := LoopState.Ends.of_step hloop
  generalize hended : events.filterMap ended? = ended at hends
  cases hends with
  | moved _ hnot => cases hnot
  | made _ hnot => cases hnot
  | polled hs hloopEnds =>
    have hnone := (h.run run (mem_of_getElem? hrun)).inFlight_eq_nil hs
    have hqueues := agent.waiting_foldl_reduce events
    have hkept : (events.foldl reduce agent).messages = l.world.agent.messages := by
      rw [Agent.messages_foldl_reduce, hended, append_nil, hmessages]
    exact .of_drained hnone hkept (fun other => by cases other <;> rfl) rfl horigin
      (by rw [hqueues]; exact hdrained) (by rw [hqueues]; exact hothers) (by rw [hruns]; rfl)
      hloopEnds

theorem Tracks.grows_fail {run : AgentRun} {now : Int}
    (hrun : l.world.runs[index]? = some run) {t : AgentWorld}
    (hstep : l.world.fail index run now = some t) :
    ∃ appended, l.Grows (.failed index now) t appended := by
  obtain ⟨hruns, rfl⟩ := h.sound.runs_eq hrun
  unfold AgentWorld.fail at hstep
  split at hstep
  · rename_i error hfailing htodo hpc
    cases hstep
    have hnone : l.inFlight = [] :=
      (h.run run (mem_of_getElem? hrun)).inFlight_eq_nil (LoopState.toEnd_of_todo htodo)
    generalize l.world.agent.activeRun.any (·.aborted) = aborted
    have hleft : ∀ origin, l.world.agent.left
        (l.world.agent.handleRunFailure error aborted now) origin = [] := fun origin =>
      left_of_le (by cases origin <;> exact le_refl _)
    have hmessages : ∃ m : AssistantMessage,
        (l.world.agent.handleRunFailure error aborted now).messages =
          l.world.agent.messages ++ [.assistant m] := ⟨_, rfl⟩
    obtain ⟨m, hmessages⟩ := hmessages
    have hflight : (l.record (.failed 0 now) { l.world with
        agent := l.world.agent.handleRunFailure error aborted now
        runs := l.world.runs.set 0 { run with failing := true } }).inFlight = [] := by
      rw [record_inFlight hmessages, hnone, handed, hleft, hleft]
      rfl
    refine ⟨[.assistant m], hmessages, .inr ⟨hnone, fun m' hm' => ?_⟩, fun origin => ?_,
      (fun _ _ hinput => by cases hinput), fun _ => hflight, ?_⟩
    · rw [mem_singleton.mp hm']
      rfl
    · rw [hleft]
      cases origin <;> exact (append_nil _).symm
    · rw [hflight, hruns]
      intro r hr
      rw [mem_singleton.mp hr]
      exact .inl (LoopState.toEnd_of_todo htodo).symm
  · cases hstep

theorem Tracks.grows_finish {run : AgentRun}
    (hrun : l.world.runs[index]? = some run) {t : AgentWorld}
    (hstep : l.world.finish index run = some t) : l.Grows (.finished index) t [] := by
  obtain ⟨hruns, rfl⟩ := h.sound.runs_eq hrun
  have hmem := mem_of_getElem? hrun
  unfold AgentWorld.finish at hstep
  split at hstep
  · rename_i hover
    cases hstep
    have htodo : run.loop.todo = [] := by
      rcases hover with hfailing | ⟨-, htodo⟩
      · exact (h.sound.failing run hmem hfailing).1
      · exact htodo
    have hnone := (h.run run hmem).inFlight_eq_nil (LoopState.toEnd_of_todo htodo)
    refine .of_quiet rfl (fun origin => ?_) rfl rfl (fun _ => hnone) fun r hr => ?_
    · cases origin <;> exact (append_nil _).symm
    · rw [hruns] at hr
      cases hr
  · cases hstep

theorem Tracks.grows_progress {loop : LoopState AgentMessage} {input : LoopInput AgentMessage}
    (hloop : l.world.loops[index]? = some loop) {t : AgentWorld}
    (hstep : l.world.progress index loop input = some t) : l.Grows (.late index input) t [] := by
  obtain ⟨⟨loop', events⟩, hadvance, ht⟩ := Option.map_eq_some_iff.mp hstep
  cases ht
  obtain ⟨-, hlate⟩ := (h.sound.ended loop (mem_of_getElem? hloop)).step hadvance
  have hnone : events.filterMap ended? = [] := by
    rw [filterMap_eq_nil_iff]
    intro event hevent
    have hkind := hlate event hevent
    cases event with
    | messageEnd message => cases hkind
    | _ => rfl
  refine .of_quiet ?_ (fun origin => ?_) rfl rfl h.idle h.run
  · dsimp only
    rw [Agent.messages_foldl_reduce, hnone, append_nil]
  · dsimp only
    rw [Agent.waiting_foldl_reduce]
    cases origin <;> exact (append_nil _).symm

end

theorem Tracks.grows {input : AgentInput} {t : AgentWorld}
    (hstep : l.world.step input = some t) : ∃ appended, l.Grows input t appended := by
  cases input with
  | prompt messages =>
    cases hstep
    exact ⟨_, h.grows_prompt messages⟩
  | continueRun =>
    cases hstep
    exact ⟨_, h.grows_continueRun⟩
  | abort =>
    cases hstep
    exact ⟨_, .of_quiet rfl (fun origin => by cases origin <;> exact (append_nil _).symm) rfl
      rfl h.idle h.run⟩
  | steer message | followUp message =>
    cases hstep
    exact ⟨_, .of_quiet rfl
      (fun origin => by cases origin <;> first | rfl | exact (append_nil _).symm) rfl rfl
      h.idle h.run⟩
  | loop index input =>
    obtain ⟨run, hrun, hstep⟩ := Option.bind_eq_some_iff.mp hstep
    obtain ⟨hrun, hpermits⟩ := Option.filter_eq_some_iff.mp hrun
    have hpolled : input.isPolled = false := by
      rw [Agent.permits, Bool.and_eq_true, Bool.not_eq_true'] at hpermits
      exact hpermits.1
    exact h.grows_loop hrun hpolled hstep
  | poll index =>
    obtain ⟨run, hrun, hstep⟩ := Option.bind_eq_some_iff.mp hstep
    obtain ⟨⟨messages, agent, run'⟩, hpoll, hstep⟩ := Option.bind_eq_some_iff.mp hstep
    exact ⟨_, h.grows_poll hrun hpoll hstep⟩
  | failed index now =>
    obtain ⟨run, hrun, hstep⟩ := Option.bind_eq_some_iff.mp hstep
    exact h.grows_fail hrun hstep
  | finished index =>
    obtain ⟨run, hrun, hstep⟩ := Option.bind_eq_some_iff.mp hstep
    exact ⟨_, h.grows_finish hrun hstep⟩
  | late index input =>
    obtain ⟨loop, hloop, hstep⟩ := Option.bind_eq_some_iff.mp hstep
    obtain ⟨hloop, -⟩ := Option.filter_eq_some_iff.mp hloop
    exact ⟨_, h.grows_progress hloop hstep⟩

end

theorem Tracks.step (h : l.Tracks before) {input : AgentInput} (hstep : l.step input = some t) :
    t.Tracks before ∧ ∀ origin, origin ≠ .turn → ∃ kept, kept.Sublist (l.taken origin) ∧
        (l.Keeps input → origin ≠ .prompt → kept = l.taken origin) ∧
        t.taken origin ++ t.world.agent.waiting origin =
          kept ++ (l.world.agent.waiting origin ++ input.gives l.world origin) ∧
        t.given origin = l.given origin ++ input.gives l.world origin := by
  obtain ⟨world, hworld, rfl⟩ := Option.map_eq_some_iff.mp hstep
  obtain ⟨appended, hgrows⟩ := h.grows hworld
  refine ⟨h.record (h.sound.step hworld) hgrows, fun origin horigin => ?_⟩
  obtain ⟨kept, hsublist, hkept, hbalance⟩ := hgrows.balance horigin
  refine ⟨kept, hsublist, fun hkeeps hprompt => hkept fun hrefusal => ?_, hbalance, rfl⟩
  obtain ⟨index, error, rfl⟩ := AgentInput.exists_of_isRefusal hrefusal
  obtain ⟨run, hrun, rfl⟩ := hgrows.refused index error rfl
  refine fromOrigin_eq_nil fun p hp heq => hprompt ?_
  rw [← heq]
  exact hkeeps run hrun p hp

theorem tracks_start {agent : Agent} (hidle : agent.Idle) :
    (start agent).Tracks agent.messages where
  sound := by
    refine ⟨Nat.zero_le _, ⟨fun hsome => ?_, fun hne => absurd rfl hne⟩, fun _ => hidle, ?_, ?_,
      ?_, ?_⟩
    · rw [start] at hsome
      dsimp only at hsome
      rw [hidle.activeRun] at hsome
      cases hsome
    · exact fun run hrun => nomatch hrun
    · exact fun run hrun => nomatch hrun
    · exact fun loop hloop => nomatch hloop
    · exact fun run hrun => nomatch hrun
  transcript := (append_nil _).symm
  idle _ := rfl
  run _ hrun := nomatch hrun
  own _ hp := nomatch hp
  foreign _ hp := nomatch hp

/-- In every run in which a listener throws only when no queued message is left to put into the
transcript, no queued message is lost. -/
theorem queues_conserved {agent : Agent} (hidle : agent.Idle) {inputs : List AgentInput}
    {l : QueueLedger} (hkeeps : Along step Keeps (start agent) inputs)
    (hrun : run step (start agent) inputs = some l) : l.Conserved agent.messages := by
  have hinv : ∀ s input t, (Tracks agent.messages s ∧ ∀ origin, origin ≠ .turn →
      origin ≠ .prompt → s.taken origin ++ s.world.agent.waiting origin = s.given origin) →
      Keeps s input → step s input = some t → Tracks agent.messages t ∧ ∀ origin,
        origin ≠ .turn → origin ≠ .prompt →
          t.taken origin ++ t.world.agent.waiting origin = t.given origin := by
    intro s input t hs hkeeps hstep
    obtain ⟨htracks, hbalanced⟩ := hs
    obtain ⟨htracks', hbalance⟩ := htracks.step hstep
    refine ⟨htracks', fun origin horigin hprompt => ?_⟩
    obtain ⟨kept, -, hkept, htaken, hgiven⟩ := hbalance origin horigin
    rw [htaken, hgiven, hkept hkeeps hprompt, ← append_assoc, hbalanced origin horigin hprompt]
  obtain ⟨htracks, hbalanced⟩ :=
    run_invariant hinv ⟨tracks_start hidle, fun _ _ _ => rfl⟩ hkeeps hrun
  have hentered : l.world.runs = [] → ∀ origin, l.taken origin = fromOrigin origin l.entered := by
    intro hnone origin
    rw [taken, htracks.idle hnone, append_nil]
  refine ⟨htracks.transcript, htracks.own, fun hnone => ?_, fun hnone => ?_⟩
  · rw [← hentered hnone]
    exact (hbalanced .steering (by decide) (by decide)).symm
  · rw [← hentered hnone]
    exact (hbalanced .followUp (by decide) (by decide)).symm

/-- However a run fails, the transcript goes on with what entered it, and of every origin what was
taken and what waits are among the given messages, none twice and none out of order. -/
theorem queued_in_order {agent : Agent} (hidle : agent.Idle) {l : QueueLedger}
    (h : Reachable step (start agent) l) :
    l.world.agent.messages = agent.messages ++ l.entered.map Prod.snd ∧ ∀ origin,
      origin ≠ .turn →
        (l.taken origin ++ l.world.agent.waiting origin).Sublist (l.given origin) := by
  have hinv := @Reachable.invariant _ _ step (fun s => Tracks agent.messages s ∧ ∀ origin,
    origin ≠ .turn → (s.taken origin ++ s.world.agent.waiting origin).Sublist (s.given origin))
    (fun s input t hs hstep => by
      obtain ⟨htracks, hbalance⟩ := hs.1.step hstep
      refine ⟨htracks, fun origin horigin => ?_⟩
      obtain ⟨kept, hkept, -, htaken, hgiven⟩ := hbalance origin horigin
      rw [htaken, hgiven, ← append_assoc]
      exact ((hkept.append_right _).trans (hs.2 origin horigin)).append_right _)
    _ _ ⟨tracks_start hidle, fun _ _ => .refl _⟩ h
  exact ⟨hinv.1.transcript, hinv.2⟩

end QueueLedger

/-- An agent whose last message is of the assistant. -/
def answeredAgent : Agent :=
  { toollessAgent with
    messages := [.assistant ⟨[], js "api", js "provider", js "model", none, none, none, EMPTY_USAGE,
      .stop, none, 0⟩] }

/-- A message is steered and the agent continues with it, and a listener throws after some
events. -/
def refusedAfter (events : Nat) : List AgentInput :=
  [.steer (.user ⟨.string (js "hi"), 0⟩), .continueRun] ++
    replicate events (.loop 0 (.received (.ok ()))) ++
      [.loop 0 (.received (.error (js "refused"))), .failed 0 1, .finished 0]

/-- A listener that throws at the first event loses the message: it neither waits nor is in the
transcript. -/
theorem continueRun_loses_steered : ∃ l,
    run QueueLedger.step (.start answeredAgent) (refusedAfter 0) = some l ∧
      l.world.runs = [] ∧ l.given .steering = [.user ⟨.string (js "hi"), 0⟩] ∧
      l.world.agent.steeringQueue.messages = [] ∧
      AgentMessage.user ⟨.string (js "hi"), 0⟩ ∉ l.world.agent.messages ∧
      ¬ l.Conserved answeredAgent.messages := by
  refine ⟨_, rfl, rfl, rfl, rfl, by decide, fun h => ?_⟩
  have hlost := h.steering rfl
  cases hlost

theorem queued_in_order_refused : ∃ l,
    run QueueLedger.step (.start answeredAgent) (refusedAfter 0) = some l ∧
      (l.taken .steering ++ l.world.agent.waiting .steering).Sublist (l.given .steering) :=
  ⟨_, rfl, (@QueueLedger.queued_in_order answeredAgent ⟨rfl, rfl, rfl, rfl⟩ _
    ⟨refusedAfter 0, rfl⟩).2 _ (by decide)⟩

/-- One that throws when the message has ended does not. -/
theorem queues_conserved_refused : ∃ l,
    run QueueLedger.step (.start answeredAgent) (refusedAfter 3) = some l ∧
      l.world.runs = [] ∧ l.given .steering = [.user ⟨.string (js "hi"), 0⟩] ∧
      l.Conserved answeredAgent.messages := by
  have hkeeps : Along QueueLedger.step QueueLedger.Keeps (.start answeredAgent)
      (refusedAfter 3) := by
    refine ⟨trivial, fun _ h₁ => ?_⟩
    cases h₁
    refine ⟨trivial, fun _ h₂ => ?_⟩
    cases h₂
    refine ⟨trivial, fun _ h₃ => ?_⟩
    cases h₃
    refine ⟨trivial, fun _ h₄ => ?_⟩
    cases h₄
    refine ⟨trivial, fun _ h₅ => ?_⟩
    cases h₅
    refine ⟨fun run hrun p hp => ?_, fun _ h₆ => ?_⟩
    · cases hrun
      cases hp
    cases h₆
    refine ⟨trivial, fun _ h₇ => ?_⟩
    cases h₇
    exact ⟨trivial, fun _ _ => trivial⟩
  exact ⟨_, rfl, rfl, rfl, QueueLedger.queues_conserved ⟨rfl, rfl, rfl, rfl⟩ hkeeps rfl⟩

end AcademicAgent
