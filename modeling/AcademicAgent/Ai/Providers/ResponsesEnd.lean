import AcademicAgent.Ai.Providers.OpenAICodexResponses

/-!
# The end of a Responses stream

A terminal event reports a response with its status and its usage, or a failure.
-/

namespace AcademicAgent

open List Option

namespace Responses

inductive Report where
  | response (status : Option JsString) (usage : Option ResponseUsage)
  | failure
  deriving DecidableEq

def SuccessfulStatus (status : Option JsString) : Prop :=
  status = some (js "completed") ∨ status = some (js "incomplete")

instance (status : Option JsString) : Decidable (SuccessfulStatus status) :=
  inferInstanceAs (Decidable (_ ∨ _))

namespace Report

def status : Report → Option JsString
  | response status _ => status
  | failure => none

def usage : Report → Option ResponseUsage
  | response _ usage => usage
  | failure => none

def Successful (r : Report) : Prop := SuccessfulStatus r.status

instance (r : Report) : Decidable r.Successful := inferInstanceAs (Decidable (SuccessfulStatus _))

theorem not_successful_failure : ¬ failure.Successful := by decide

end Report

def StreamUsage.counts (usage : StreamUsage) : StreamUsage :=
  { usage with cost := EMPTY_USAGE.cost }

/-- The stream ends in the state that the server reported: `done` for a completed or
incomplete response unless the signal is aborted, with the stop reason and the usage of
that response, and `error` otherwise. -/
structure EndsAsReported (aborted : Bool) (report : Option Report) (result : StreamResult) :
    Prop where
  done_iff : result.done = true ↔ aborted = false ∧ ∃ r, report = some r ∧ r.Successful
  length_iff : ∀ r, result.done = true → report = some r →
    (result.message.stopReason = .length ↔ r.status = some (js "incomplete"))
  usage : ∀ (r : Report) (usage : ResponseUsage), result.done = true → report = some r →
    r.usage = some usage → result.message.usage.counts = reportedCounts usage

theorem endsAsReported_error_iff {aborted : Bool} {report : Option Report} {result : StreamResult}
    (hdone : result.done = false) : EndsAsReported aborted report result ↔
      (aborted = false → ∀ r, report = some r → ¬ r.Successful) := by
  have hfalse : ¬ result.done = true := by
    rw [hdone]
    exact Bool.false_ne_true
  constructor
  · intro h haborted r hr hsuccessful
    exact hfalse (h.done_iff.mpr ⟨haborted, r, hr, hsuccessful⟩)
  · intro h
    refine ⟨⟨fun hd => absurd hd hfalse, ?_⟩, fun r hd => absurd hd hfalse,
      fun r usage hd => absurd hd hfalse⟩
    rintro ⟨haborted, r, hr, hsuccessful⟩
    exact absurd hsuccessful (h haborted r hr)

def throws : ResponseStreamEvent → Bool
  | .content _ | .incomplete _ => false
  | .completed response =>
    match mapStopReason response.status with
    | .ok _ => false
    | .error _ => true
  | .failed _ _ | .error _ _ => true

/-- The response of a `response.completed` event. -/
def completed? : ResponseStreamEvent → Option ResponseObject
  | .completed response => some response
  | _ => none

def lastResponse (events : List ResponseStreamEvent) : Option ResponseObject :=
  (events.filterMap completed?).getLast?

/-- The last usage that came with a completed response. -/
def lastUsage (events : List ResponseStreamEvent) : Option ResponseUsage :=
  ((events.filterMap completed?).filterMap ResponseObject.usage).getLast?

/-- A stop reason for a status; a message with calls stops to use them. -/
def StopsFor (status : Option JsString) (reason : StopReason) : Prop :=
  ∃ mapped, mapStopReason status = .ok mapped ∧
    (reason = mapped ∨ mapped = .stop ∧ reason = .toolUse)

theorem stopsFor_ite {status : Option JsString} {mapped : StopReason} {p : Prop} [Decidable p]
    (hmap : mapStopReason status = .ok mapped) :
    StopsFor status (if p ∧ mapped = .stop then .toolUse else mapped) := by
  refine ⟨mapped, hmap, ?_⟩
  split
  · rename_i h
    exact .inr ⟨h.2, rfl⟩
  · exact .inl rfl

section Reducer

variable (settings : StreamSettings)

theorem contentEvent_frame (s : StreamState) (event : ContentEvent) :
    (contentEvent settings s event).usage = s.usage ∧
      (contentEvent settings s event).stopReason = s.stopReason := by
  have hthinking (delta : JsString) : (appendThinking s delta).usage = s.usage ∧
      (appendThinking s delta).stopReason = s.stopReason := by
    unfold appendThinking
    split <;> exact ⟨rfl, rfl⟩
  have htext (kind : PartKind) (delta : JsString) : (appendText s kind delta).usage = s.usage ∧
      (appendText s kind delta).stopReason = s.stopReason := by
    unfold appendText
    split
    · split <;> exact ⟨rfl, rfl⟩
    · exact ⟨rfl, rfl⟩
  cases event with
  | created id | other => exact ⟨rfl, rfl⟩
  | outputItemAdded item => cases item <;> exact ⟨rfl, rfl⟩
  | reasoningSummaryPartAdded | functionCallArgumentsDelta delta
  | functionCallArgumentsDone arguments =>
    rw [contentEvent]
    split <;> exact ⟨rfl, rfl⟩
  | reasoningSummaryTextDelta delta | reasoningTextDelta delta =>
    rw [contentEvent]
    split
    · exact hthinking delta
    · exact ⟨rfl, rfl⟩
  | reasoningSummaryPartDone =>
    rw [contentEvent]
    split
    · exact hthinking _
    · exact ⟨rfl, rfl⟩
  | contentPartAdded part =>
    rw [contentEvent]
    split
    · split <;> exact ⟨rfl, rfl⟩
    · exact ⟨rfl, rfl⟩
  | outputTextDelta delta | refusalDelta delta => exact htext _ delta
  | outputItemDone item =>
    rw [contentEvent]
    cases item with
    | reasoning item | message item | functionCall item =>
      rw [outputItemDone]
      split <;> exact ⟨rfl, rfl⟩
    | other => exact ⟨rfl, rfl⟩

theorem completeResponse_spec (s : StreamState) {response : ResponseObject}
    (h : throws (.completed response) = false) : (completeResponse settings s response).2 = none ∧
      (completeResponse settings s response).1.usage.counts =
        (response.usage.map reportedCounts).getD s.usage.counts ∧
      StopsFor response.status (completeResponse settings s response).1.stopReason := by
  rw [throws] at h
  unfold completeResponse
  cases hmap : mapStopReason response.status with
  | error error =>
    rw [hmap] at h
    contradiction
  | ok mapped =>
    refine ⟨rfl, ?_, stopsFor_ite hmap⟩
    cases response.usage with
    | none => rfl
    | some usage => rfl

section

variable (s : StreamState) {events : List ResponseStreamEvent}

theorem processResponsesStream_spec (h : ∀ event ∈ events, throws event = false) :
    (processResponsesStream settings s events).2 = none ∧
      (processResponsesStream settings s events).1.usage.counts =
        ((lastUsage events).map reportedCounts).getD s.usage.counts ∧
      (match lastResponse events with
        | none => (processResponsesStream settings s events).1.stopReason = s.stopReason
        | some response => StopsFor response.status
            (processResponsesStream settings s events).1.stopReason) := by
  induction events generalizing s with
  | nil => exact ⟨rfl, rfl, rfl⟩
  | cons event events ih =>
    obtain ⟨hevent, hevents⟩ := forall_mem_cons.mp h
    cases event with
    | content event =>
      obtain ⟨hnone, husage, hstop⟩ := ih (contentEvent settings s event) hevents
      rw [(contentEvent_frame settings s event).1] at husage
      rw [(contentEvent_frame settings s event).2] at hstop
      exact ⟨hnone, husage, hstop⟩
    | incomplete usage => exact ih s hevents
    | failed error incompleteReason | error code message => contradiction
    | completed response =>
      obtain ⟨hnone, husage, hstop⟩ := completeResponse_spec settings s hevent
      have hstep : processResponsesStream settings s (.completed response :: events) =
          processResponsesStream settings (completeResponse settings s response).1 events := by
        rw [processResponsesStream, streamEvent]
        generalize completeResponse settings s response = p at hnone
        obtain ⟨t, error⟩ := p
        have hnone : error = none := hnone
        rw [hnone]
      rw [hstep]
      obtain ⟨hnone', husage', hstop'⟩ := ih (completeResponse settings s response).1 hevents
      refine ⟨hnone', ?_, ?_⟩
      · rw [husage', husage, lastUsage, lastUsage, filterMap_cons]
        dsimp only [completed?]
        rw [filterMap_cons]
        cases response.usage with
        | none => rfl
        | some usage =>
          rw [getLast?_cons]
          cases ((events.filterMap completed?).filterMap ResponseObject.usage).getLast? with
          | none => rfl
          | some last => rfl
      · rw [lastResponse, filterMap_cons]
        dsimp only [completed?]
        rw [getLast?_cons]
        rw [lastResponse] at hstop'
        cases hlast : (events.filterMap completed?).getLast? with
        | none =>
          rw [hlast] at hstop'
          have hstop' : (processResponsesStream settings _ events).1.stopReason = _ := hstop'
          rw [getD_none]
          rw [hstop']
          exact hstop
        | some last =>
          rw [hlast] at hstop'
          exact hstop'

theorem processResponsesStream_throws (h : ∃ event ∈ events, throws event = true) :
    ∃ error, (processResponsesStream settings s events).2 = some error := by
  induction events generalizing s with
  | nil =>
    obtain ⟨event, hevent, -⟩ := h
    contradiction
  | cons event events ih =>
    rw [processResponsesStream]
    cases hstep : streamEvent settings s event with
    | mk t error =>
      cases error with
      | some error => exact ⟨error, rfl⟩
      | none =>
        apply ih
        obtain ⟨other, hother, hthrows⟩ := h
        rcases mem_cons.mp hother with rfl | hother
        · exfalso
          cases other with
          | content event | incomplete usage => contradiction
          | failed error incompleteReason | error code message =>
            rw [streamEvent] at hstep
            exact nomatch congrArg Prod.snd hstep
          | completed response =>
            rw [throws] at hthrows
            rw [streamEvent, completeResponse] at hstep
            cases hmap : mapStopReason response.status with
            | ok mapped =>
              rw [hmap] at hthrows
              contradiction
            | error error =>
              rw [hmap] at hstep
              exact nomatch congrArg Prod.snd hstep
        · exact ⟨other, hother, hthrows⟩

end

end Reducer

/-- A status for which the reducer decides that the response ended. -/
def DecidedStatus (status : Option JsString) : Prop :=
  SuccessfulStatus status ∨ status = some (js "failed") ∨ status = some (js "cancelled")

theorem mapStopReason_cases (status : Option JsString) :
    (status = some (js "completed") ∧ mapStopReason status = .ok .stop) ∨
      (status = some (js "incomplete") ∧ mapStopReason status = .ok .length) ∨
      ((status = some (js "failed") ∨ status = some (js "cancelled")) ∧
        mapStopReason status = .ok .error) ∨
      (¬ DecidedStatus status ∧
        (mapStopReason status = .ok .stop ∨ ∃ error, mapStopReason status = .error error)) := by
  by_cases hcompleted : status = some (js "completed")
  · subst hcompleted
    exact .inl ⟨rfl, by decide⟩
  by_cases hincomplete : status = some (js "incomplete")
  · subst hincomplete
    exact .inr (.inl ⟨rfl, by decide⟩)
  by_cases hfailed : status = some (js "failed")
  · subst hfailed
    exact .inr (.inr (.inl ⟨.inl rfl, by decide⟩))
  by_cases hcancelled : status = some (js "cancelled")
  · subst hcancelled
    exact .inr (.inr (.inl ⟨.inr rfl, by decide⟩))
  refine .inr (.inr (.inr ⟨?_, ?_⟩))
  · rintro ((h | h) | h | h)
    · exact hcompleted h
    · exact hincomplete h
    · exact hfailed h
    · exact hcancelled h
  · cases status with
    | none => exact .inl rfl
    | some status =>
      rw [some.injEq] at hcompleted hincomplete hfailed hcancelled
      rw [mapStopReason, nonEmpty]
      by_cases hnil : status = []
      · rw [if_pos hnil]
        exact .inl rfl
      · rw [if_neg hnil]
        dsimp only
        rw [if_neg hcompleted, if_neg hincomplete, if_neg (not_or.mpr ⟨hfailed, hcancelled⟩)]
        split
        · exact .inl rfl
        · exact .inr ⟨_, rfl⟩

def reportOf : ResponseStreamEvent → Option Report
  | .content _ => none
  | .completed response => some (.response response.status response.usage)
  | .incomplete usage => some (.response (some (js "incomplete")) usage)
  | .failed _ _ | .error _ _ => some .failure

/-- The events that are read: those up to the first one that throws. -/
def received : List ResponseStreamEvent → List ResponseStreamEvent
  | [] => []
  | event :: events => if throws event = true then [event] else event :: received events

/-- What the last terminal event that is read reports. -/
def lastReport (events : List ResponseStreamEvent) : Option Report :=
  ((received events).filterMap reportOf).getLast?

/-- The last completed response has a decided status, and the last terminal event reports
the same state and usage. -/
structure ReportsAgree (events : List ResponseStreamEvent) (r : Report)
    (response : ResponseObject) : Prop where
  decided : DecidedStatus response.status
  successful_iff : r.Successful ↔ SuccessfulStatus response.status
  incomplete_iff : r.Successful →
    (r.status = some (js "incomplete") ↔ response.status = some (js "incomplete"))
  usage : ∀ usage : ResponseUsage, r.Successful → r.usage = some usage →
    reportedCounts usage = ((lastUsage events).map reportedCounts).getD EMPTY_STREAM_USAGE

/-- When the Responses provider ends as reported: the signal is aborted, an event throws,
the connection breaks while no response is successful, or the last completed response
agrees with the last terminal event. -/
def ReportDecides (aborted : Bool) (events : List ResponseStreamEvent)
    (error : Option JsString) : Prop :=
  aborted = true ∨ (∃ event ∈ events, throws event = true) ∨
    ((∃ message, error = some message) ∧ ∀ r, lastReport events = some r → ¬ r.Successful) ∨
    (error = none ∧ ∃ r response, lastReport events = some r ∧
      lastResponse events = some response ∧ ReportsAgree events r response)

section

variable {events : List ResponseStreamEvent}

theorem received_eq_self
    (h : ∀ event ∈ events, throws event = false) : received events = events := by
  induction events with
  | nil => rfl
  | cons event events ih =>
    obtain ⟨hevent, hevents⟩ := forall_mem_cons.mp h
    rw [received, if_neg (by rw [hevent]; exact Bool.false_ne_true), ih hevents]

theorem lastReport_throws (h : ∃ event ∈ events, throws event = true) :
    ∀ r, lastReport events = some r → ¬ r.Successful := by
  have hlast : ∃ before event, received events = before ++ [event] ∧ throws event = true := by
    induction events with
    | nil =>
      obtain ⟨event, hevent, -⟩ := h
      contradiction
    | cons event events ih =>
      rw [received]
      by_cases hthrows : throws event = true
      · rw [if_pos hthrows]
        exact ⟨[], event, rfl, hthrows⟩
      · rw [if_neg hthrows]
        obtain ⟨other, hother, hother'⟩ := h
        rcases mem_cons.mp hother with rfl | hother
        · exact absurd hother' hthrows
        · obtain ⟨before, last, heq, hlast⟩ := ih ⟨other, hother, hother'⟩
          exact ⟨event :: before, last, by rw [heq, cons_append], hlast⟩
  obtain ⟨before, event, heq, hthrows⟩ := hlast
  have hfailure : ∃ r, reportOf event = some r ∧ ¬ r.Successful := by
    cases event with
    | content event | incomplete usage => contradiction
    | failed error incompleteReason | error code message
      => exact ⟨.failure, rfl, Report.not_successful_failure⟩
    | completed response =>
      refine ⟨_, rfl, ?_⟩
      rw [throws] at hthrows
      intro hsuccessful
      have hsuccessful : SuccessfulStatus response.status := hsuccessful
      rcases hsuccessful with h | h
      all_goals
        rw [h] at hthrows
        revert hthrows
        decide
  obtain ⟨last, hlast, hnot⟩ := hfailure
  intro r hr
  rw [lastReport, heq, filterMap_append, filterMap_cons_some hlast, filterMap_nil,
    getLast?_concat] at hr
  cases hr
  exact hnot

theorem lastReport_cases (h : ∀ event ∈ events, throws event = false) :
    (lastReport events = none ∧ lastResponse events = none) ∨
      (∃ response, lastReport events = some (.response response.status response.usage) ∧
        lastResponse events = some response ∧
          ∀ usage, response.usage = some usage → lastUsage events = some usage) ∨
      ∃ usage, lastReport events = some (.response (some (js "incomplete")) usage) := by
  rw [lastReport, received_eq_self h, lastResponse, lastUsage]
  induction events using reverseRecOn with
  | nil => exact .inl ⟨rfl, rfl⟩
  | append_singleton events event ih =>
    have hevent := h event (mem_append_right _ (mem_singleton_self _))
    rw [filterMap_append, filterMap_append]
    cases event with
    | content event =>
      rw [filterMap_cons_none rfl, filterMap_cons_none rfl, filterMap_nil,
        filterMap_nil, append_nil, append_nil]
      exact ih fun event hmem => h event (mem_append_left _ hmem)
    | incomplete usage =>
      refine .inr (.inr ⟨usage, ?_⟩)
      rw [filterMap_cons_some (by rw [reportOf]), filterMap_nil, getLast?_concat]
    | completed response =>
      refine .inr (.inl ⟨response, ?_, ?_, ?_⟩)
      · rw [filterMap_cons_some (by rw [reportOf]), filterMap_nil, getLast?_concat]
      · rw [filterMap_cons_some (by rw [completed?]), filterMap_nil, getLast?_concat]
      · intro usage husage
        rw [filterMap_cons_some (by rw [completed?]), filterMap_nil,
          filterMap_append, filterMap_cons_some husage, filterMap_nil,
          getLast?_concat]
    | failed error incompleteReason | error code message => contradiction

end

theorem StopsFor.length_iff {status : Option JsString} {reason : StopReason}
    (h : StopsFor status reason) : reason = .length ↔ status = some (js "incomplete") := by
  obtain ⟨mapped, hmap, hreason⟩ := h
  rcases mapStopReason_cases status with ⟨rfl, h⟩ | ⟨rfl, h⟩ | ⟨h', h⟩ | ⟨h', h | ⟨error, h⟩⟩
  · rw [h] at hmap
    cases hmap
    rcases hreason with rfl | ⟨-, rfl⟩ <;> decide
  · rw [h] at hmap
    cases hmap
    rcases hreason with rfl | ⟨hstop, -⟩
    · exact iff_of_true rfl rfl
    · contradiction
  · rw [h] at hmap
    cases hmap
    rcases hreason with rfl | ⟨hstop, -⟩
    · rcases h' with rfl | rfl <;> decide
    · contradiction
  · rw [h] at hmap
    cases hmap
    have hne : status ≠ some (js "incomplete") := fun heq => h' (.inl (.inr heq))
    rcases hreason with rfl | ⟨-, rfl⟩
    all_goals exact iff_of_false (by decide) hne
  · rw [h] at hmap
    contradiction

theorem StopsFor.error_iff {status : Option JsString} {reason : StopReason}
    (h : StopsFor status reason) :
    (reason = .aborted ∨ reason = .error) ↔ DecidedStatus status ∧ ¬ SuccessfulStatus status := by
  obtain ⟨mapped, hmap, hreason⟩ := h
  rcases mapStopReason_cases status with ⟨rfl, h⟩ | ⟨rfl, h⟩ | ⟨h', h⟩ | ⟨h', h | ⟨error, h⟩⟩
  · rw [h] at hmap
    cases hmap
    rcases hreason with rfl | ⟨-, rfl⟩
    all_goals exact iff_of_false (by decide) (fun hstatus => hstatus.2 (.inl rfl))
  · rw [h] at hmap
    cases hmap
    rcases hreason with rfl | ⟨hstop, -⟩
    · exact iff_of_false (by decide) (fun hstatus => hstatus.2 (.inr rfl))
    · contradiction
  · rw [h] at hmap
    cases hmap
    rcases hreason with rfl | ⟨hstop, -⟩
    · refine iff_of_true (.inr rfl) ⟨.inr h', ?_⟩
      rcases h' with rfl | rfl <;> decide
    · contradiction
  · rw [h] at hmap
    cases hmap
    rcases hreason with rfl | ⟨-, rfl⟩
    all_goals exact iff_of_false (by decide) (fun hstatus => h' hstatus.1)
  · rw [h] at hmap
    contradiction

section Provider

variable (settings : StreamSettings)

theorem endsAsReported_responses_iff (aborted : Bool) (events : List ResponseStreamEvent)
    (error : Option JsString) : EndsAsReported aborted (lastReport events)
        (streamOpenAIResponses settings aborted (events, error)) ↔
      ReportDecides aborted events error := by
  by_cases haborted : aborted = true
  · refine iff_of_true ?_ (.inl haborted)
    have hdone : (streamOpenAIResponses settings aborted (events, error)).done = false := by
      rw [haborted]
      unfold streamOpenAIResponses
      dsimp only
      split
      · rfl
      · rfl
    rw [endsAsReported_error_iff hdone, haborted]
    exact nofun
  by_cases hthrows : ∃ event ∈ events, throws event = true
  · refine iff_of_true ?_ (.inr (.inl hthrows))
    obtain ⟨thrown, hthrown⟩ := processResponsesStream_throws settings .initial hthrows
    have hdone : (streamOpenAIResponses settings aborted (events, error)).done = false := by
      unfold streamOpenAIResponses
      dsimp only
      rw [hthrown]
      rfl
    rw [endsAsReported_error_iff hdone]
    exact fun _ => lastReport_throws hthrows
  have hquiet : ∀ event ∈ events, throws event = false := by
    intro event hevent
    rw [← Bool.not_eq_true]
    exact fun h => hthrows ⟨event, hevent, h⟩
  obtain ⟨hnone, husage, hstop⟩ := processResponsesStream_spec settings .initial hquiet
  have hfalse : aborted = false := Bool.eq_false_iff.mpr haborted
  cases error with
  | some message =>
    have hdone : (streamOpenAIResponses settings aborted (events, some message)).done = false := by
      unfold streamOpenAIResponses
      dsimp only
      rw [hnone]
      rfl
    rw [endsAsReported_error_iff hdone]
    constructor
    · exact fun h => .inr (.inr (.inl ⟨⟨message, rfl⟩, h hfalse⟩))
    · rintro (h | h | ⟨-, h⟩ | ⟨h, -⟩)
      · exact absurd h haborted
      · exact absurd h hthrows
      · exact fun _ => h
      · contradiction
  | none =>
    have hresult : streamOpenAIResponses settings aborted (events, none) =
        if (processResponsesStream settings .initial events).1.stopReason = .aborted ∨
            (processResponsesStream settings .initial events).1.stopReason = .error then
          failStream aborted (processResponsesStream settings .initial events).1
            (js "An unknown error occurred")
        else finishStream (processResponsesStream settings .initial events).1 := by
      unfold streamOpenAIResponses
      dsimp only
      rw [hnone, hfalse]
      rfl
    rw [hresult]
    generalize (processResponsesStream settings .initial events).1 = s at husage hstop
    have husage : s.usage.counts =
      ((lastUsage events).map reportedCounts).getD EMPTY_STREAM_USAGE := husage
    constructor
    · intro h
      refine .inr (.inr (.inr ⟨rfl, ?_⟩))
      rcases lastReport_cases hquiet with ⟨hreport, hlast⟩ | ⟨response, hreport, hlast, hsame⟩ |
        ⟨usage, hreport⟩
      · rw [hlast] at hstop
        have hstop : s.stopReason = .stop := hstop
        rw [hstop, if_neg (by decide), hreport] at h
        obtain ⟨-, r, hr, -⟩ := h.done_iff.mp rfl
        contradiction
      · rw [hlast] at hstop
        have hstop : StopsFor response.status s.stopReason := hstop
        refine ⟨_, response, hreport, hlast, ?_, Iff.rfl, fun _ => Iff.rfl, ?_⟩
        · by_contra hundecided
          rw [if_neg (fun herror => hundecided (hstop.error_iff.mp herror).1), hreport] at h
          obtain ⟨-, r, hr, hsuccessful⟩ := h.done_iff.mp rfl
          cases hr
          exact hundecided (.inl hsuccessful)
        · intro usage _ hu
          rw [hsame usage hu]
          rfl
      · have hdone := h.done_iff.mpr ⟨hfalse, _, hreport, .inr rfl⟩
        by_cases herror : s.stopReason = .aborted ∨ s.stopReason = .error
        · rw [if_pos herror] at hdone
          contradiction
        rw [if_neg herror] at h
        have hlength : s.stopReason = .length := (h.length_iff _ rfl hreport).mpr rfl
        cases hlast : lastResponse events with
        | none =>
          rw [hlast] at hstop
          have hstop : s.stopReason = .stop := hstop
          rw [hstop] at hlength
          contradiction
        | some response =>
          rw [hlast] at hstop
          have hstop : StopsFor response.status s.stopReason := hstop
          have hstatus := hstop.length_iff.mp hlength
          refine ⟨_, response, hreport, rfl, .inl (.inr hstatus), ?_, ?_, ?_⟩
          · exact iff_of_true (.inr rfl) (.inr hstatus)
          · exact fun _ => iff_of_true rfl hstatus
          · intro usage _ hu
            rw [← husage]
            exact (h.usage _ usage rfl hreport hu).symm
    · rintro (h | h | ⟨⟨message, h⟩, -⟩ | ⟨-, r, response, hreport, hlast, hagree⟩)
      · exact absurd h haborted
      · exact absurd h hthrows
      · contradiction
      · rw [hlast] at hstop
        have hstop : StopsFor response.status s.stopReason := hstop
        by_cases hsuccessful : SuccessfulStatus response.status
        · rw [if_neg (fun herror => (hstop.error_iff.mp herror).2 hsuccessful)]
          have hr := hagree.successful_iff.mpr hsuccessful
          refine ⟨iff_of_true rfl ⟨hfalse, r, hreport, hr⟩, ?_, ?_⟩
          · intro r' _ hr'
            rw [hreport, some.injEq] at hr'
            rw [← hr', hagree.incomplete_iff hr]
            exact hstop.length_iff
          · intro r' usage _ hr' hu
            rw [hreport, some.injEq] at hr'
            rw [← hr'] at hu
            rw [hagree.usage usage hr hu]
            exact husage
        · rw [if_pos (hstop.error_iff.mpr ⟨hagree.decided, hsuccessful⟩),
            endsAsReported_error_iff rfl]
          intro _ r' hr' hsuccessful'
          rw [hreport, some.injEq] at hr'
          rw [← hr', hagree.successful_iff] at hsuccessful'
          exact hsuccessful hsuccessful'

end Provider

end Responses

end AcademicAgent
