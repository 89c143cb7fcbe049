import AcademicAgent.Ai.Providers.ResponsesEnd

/-!
# The end of a Codex stream

The first terminal event that a transport delivers is the last one that is read, and it decides
how the stream ends.
-/

namespace AcademicAgent

open List

namespace Responses

namespace Codex

def reportOf (event : Json) : Option Report :=
  match eventType event with
  | none => none
  | some type =>
    if type = js "error" ∨ type = js "response.failed" then some .failure
    else if type ∈ COMPLETION_TYPES then
      some (.response (readResponse event).status (readResponse event).usage)
    else none

variable {events : List Json} {status : Option JsString} {steps : List SocketStep} {aborted : Bool}

def firstReport (events : List Json) : Option Report := events.findSome? reportOf

section Codex

variable (settings : CodexSettings)

theorem mapCodexEvents_none (ending : StreamEnd) (h : firstReport events = none) :
    ∃ contents : List ContentEvent,
      mapCodexEvents settings events ending = (contents.map .content, ending) := by
  induction events with
  | nil => exact ⟨[], rfl⟩
  | cons event events ih =>
    rw [firstReport, findSome?_cons] at h
    cases hreport : reportOf event with
    | some r =>
      rw [hreport] at h
      contradiction
    | none =>
      rw [hreport] at h
      obtain ⟨contents, hcontents⟩ := ih h
      rw [mapCodexEvents]
      rw [reportOf] at hreport
      cases htype : eventType event with
      | none => exact ⟨contents, hcontents⟩
      | some type =>
        rw [htype] at hreport
        dsimp only at hreport ⊢
        by_cases hfailure : type = js "error" ∨ type = js "response.failed"
        · rw [if_pos hfailure] at hreport
          contradiction
        rw [if_neg hfailure] at hreport
        by_cases hcompletion : type ∈ COMPLETION_TYPES
        · rw [if_pos hcompletion] at hreport
          contradiction
        rw [not_or] at hfailure
        rw [if_neg hfailure.1, if_neg hfailure.2, if_neg hcompletion, hcontents]
        exact ⟨settings.readContent event :: contents, rfl⟩

/-- Mapped events end with what was reported: a failure is thrown, and a response is the
last event. -/
def MappedTo : Report → List ResponseStreamEvent × StreamEnd → Prop
  | .failure, mapped => ∃ (contents : List ContentEvent) (error : StreamError),
      error.isCodexNonTransportError = true ∧ mapped = (contents.map .content, .failed error)
  | .response status usage, mapped => ∃ (contents : List ContentEvent) (response : ResponseObject),
      response.status = normalizeCodexStatus status ∧ response.usage = usage ∧
        mapped = (contents.map .content ++ [.completed response], .finished)

theorem MappedTo.cons {r : Report} {mapped : List ResponseStreamEvent × StreamEnd}
    (h : MappedTo r mapped) (event : ContentEvent) :
    MappedTo r (.content event :: mapped.1, mapped.2) := by
  cases r with
  | failure =>
    obtain ⟨contents, error, herror, rfl⟩ := h
    exact ⟨event :: contents, error, herror, rfl⟩
  | response status usage =>
    obtain ⟨contents, response, hstatus, husage, rfl⟩ := h
    exact ⟨event :: contents, response, hstatus, husage, rfl⟩

theorem mapCodexEvents_some (ending : StreamEnd) {r : Report} (h : firstReport events = some r) :
    MappedTo r (mapCodexEvents settings events ending) := by
  induction events with
  | nil => contradiction
  | cons event events ih =>
    rw [firstReport, findSome?_cons, reportOf] at h
    rw [mapCodexEvents]
    cases htype : eventType event with
    | none =>
      rw [htype] at h
      exact ih h
    | some type =>
      rw [htype] at h
      dsimp only at h ⊢
      by_cases herror : type = js "error"
      · rw [if_pos (.inl herror)] at h
        cases h
        rw [if_pos herror]
        exact ⟨[], codexError event, rfl, rfl⟩
      by_cases hfailed : type = js "response.failed"
      · rw [if_pos (.inr hfailed)] at h
        cases h
        rw [if_neg herror, if_pos hfailed]
        exact ⟨[], codexFailed event, rfl, rfl⟩
      rw [if_neg (not_or.mpr ⟨herror, hfailed⟩)] at h
      rw [if_neg herror, if_neg hfailed]
      by_cases hcompletion : type ∈ COMPLETION_TYPES
      · rw [if_pos hcompletion] at h
        cases h
        rw [if_pos hcompletion]
        refine ⟨[], { readResponse event with
          status := normalizeCodexStatus (readResponse event).status }, rfl, rfl, rfl⟩
      · rw [if_neg hcompletion] at h
        rw [if_neg hcompletion]
        exact (ih h).cons (settings.readContent event)

theorem processMapped_contents (contents : List ContentEvent) (ending : StreamEnd) :
    (processMapped settings (contents.map .content, ending)).2 = ending := by
  have hquiet : ∀ event ∈ contents.map ResponseStreamEvent.content, throws event = false := by
    intro event hevent
    obtain ⟨content, -, rfl⟩ := mem_map.mp hevent
    rfl
  rw [processMapped]
  rw [(processResponsesStream_spec _ _ hquiet).1]

theorem throws_normalized {response : ResponseObject}
    (h : response.status = normalizeCodexStatus status) : throws (.completed response) = false := by
  rw [throws, h, normalizeCodexStatus]
  cases status with
  | none => rfl
  | some status =>
    have hknown : (CODEX_RESPONSE_STATUSES.all fun status =>
        !throws (.completed ⟨none, some status, none, none⟩)) = true := by decide
    by_cases hmem : status ∈ CODEX_RESPONSE_STATUSES
    · rw [Option.filter_some, if_pos (decide_eq_true hmem)]
      have hstatus := all_eq_true.mp hknown status hmem
      rw [Bool.not_eq_true', throws] at hstatus
      exact hstatus
    · rw [Option.filter_some, if_neg (by rw [decide_eq_true_eq]; exact hmem)]
      rfl

theorem processMapped_response (contents : List ContentEvent) {response : ResponseObject}
    (hstatus : response.status = normalizeCodexStatus status) : ∃ s : StreamState,
      processMapped settings (contents.map .content ++ [.completed response], .finished) =
        (s, .finished) ∧
      StopsFor (normalizeCodexStatus status) s.stopReason ∧
        ∀ usage, response.usage = some usage → s.usage.counts = reportedCounts usage := by
  have hquiet : ∀ event ∈ contents.map ResponseStreamEvent.content ++ [.completed response],
      throws event = false := by
    intro event hevent
    rcases mem_append.mp hevent with hevent | hevent
    · obtain ⟨content, -, rfl⟩ := mem_map.mp hevent
      rfl
    · rw [mem_singleton.mp hevent]
      exact throws_normalized hstatus
  obtain ⟨hnone, husage, hstop⟩ := processResponsesStream_spec settings.reducer .initial hquiet
  have hresponses : (contents.map ResponseStreamEvent.content ++
      [ResponseStreamEvent.completed response]).filterMap completed? = [response] := by
    rw [filterMap_append, filterMap_map]
    have hcontents : contents.filterMap (completed? ∘ ResponseStreamEvent.content) = [] :=
      filterMap_eq_nil_iff.mpr fun _ _ => rfl
    rw [hcontents]
    rfl
  rw [lastResponse, hresponses] at hstop
  rw [lastUsage, hresponses] at husage
  rw [processMapped]
  rw [hnone]
  refine ⟨_, rfl, ?_, ?_⟩
  · rw [← hstatus]
    exact hstop
  · intro usage hu
    rw [husage, filterMap_cons_some hu]
    rfl

theorem parseWebSocket_finished {s : SocketState}
    (hfinished : (parseWebSocket settings s steps).2 = .finished)
    (hqueue : s.sawCompletion = true → ∃ event ∈ s.queue, isCompletion event = true) :
    ∃ event ∈ (parseWebSocket settings s steps).1, isCompletion event = true := by
  induction steps generalizing s with
  | nil => contradiction
  | cons step steps ih =>
    cases step with
    | message text =>
      apply ih hfinished
      unfold onMessage
      split
      · exact hqueue
      · split
        · exact hqueue
        · rename_i event hparse
          intro hsaw
          rw [Bool.or_eq_true] at hsaw
          rcases hsaw with hsaw | hsaw
          · obtain ⟨other, hother, hcompletion⟩ := hqueue hsaw
            exact ⟨other, mem_append_left _ hother, hcompletion⟩
          · exact ⟨event, mem_append_right _ (mem_singleton_self _), hsaw⟩
    | error message | close message | abort => exact ih hfinished hqueue
    | resume =>
      rw [parseWebSocket] at hfinished ⊢
      by_cases haborted : s.aborted = true
      · rw [if_pos haborted] at hfinished
        contradiction
      rw [if_neg haborted] at hfinished ⊢
      cases hevents : s.queue with
      | nil =>
        rw [hevents] at hfinished hqueue
        dsimp only at hfinished ⊢
        by_cases hdone : s.done = true
        · rw [if_pos hdone, socketEnd] at hfinished
          split at hfinished
          · contradiction
          · split at hfinished
            · rename_i hsaw
              obtain ⟨event, hevent, -⟩ := hqueue hsaw
              contradiction
            · contradiction
        · rw [if_neg hdone] at hfinished ⊢
          exact ih hfinished (by rw [hevents]; exact hqueue)
      | cons event queue =>
        rw [hevents] at hfinished hqueue
        by_cases hcompletion : isCompletion event = true
        · exact ⟨event, mem_cons_self, hcompletion⟩
        · obtain ⟨other, hother, hother'⟩ := ih (s := { s with queue }) hfinished (by
            intro hsaw
            obtain ⟨other, hother, hother'⟩ := hqueue hsaw
            rcases mem_cons.mp hother with rfl | hother
            · exact absurd hother' hcompletion
            · exact ⟨other, hother, hother'⟩)
          exact ⟨other, mem_cons_of_mem _ hother, hother'⟩

theorem reportOf_isCompletion {event : Json} (h : isCompletion event = true) :
    reportOf event ≠ none := by
  rw [isCompletion] at h
  rw [reportOf, eventType]
  cases htype : stringMember (js "type") event.tree with
  | none =>
    rw [htype] at h
    contradiction
  | some type =>
    rw [htype] at h
    have hmem : type ∈ COMPLETION_TYPES := of_decide_eq_true h
    have hne : type ≠ [] := by
      rintro rfl
      revert hmem
      decide
    rw [nonEmpty, if_neg hne]
    dsimp only
    by_cases hfailure : type = js "error" ∨ type = js "response.failed"
    · rw [if_pos hfailure]
      rintro ⟨⟩
    · rw [if_neg hfailure, if_pos hmem]
      rintro ⟨⟩

theorem firstReport_ne_none_of_finished (steps : List SocketStep)
    (h : (parseWebSocket settings .initial steps).2 = .finished) :
    firstReport (parseWebSocket settings .initial steps).1 ≠ none := by
  obtain ⟨event, hevent, hcompletion⟩ := parseWebSocket_finished settings h nofun
  intro hnone
  rw [firstReport, findSome?_eq_none_iff] at hnone
  exact reportOf_isCompletion hcompletion (hnone event hevent)

/-- The events of the body of a request for server-sent events. -/
def bodyEvents (sse : Except JsString ResponseBody) : List Json × StreamEnd :=
  match sse with
  | .error error => ([], .failed ⟨error, false⟩)
  | .ok body => parseSSE settings body

section

variable (run : CodexRun)

def CodexRun.socketEvents : List Json :=
  match run.websocket with
  | some (.ok steps) => (parseWebSocket settings .initial steps).1
  | _ => []

/-- The run asks for server-sent events: no socket is tried, or its connection fails, or it
fails before an event with a type, and the signal is not aborted meanwhile. -/
def CodexRun.usesSse : Bool :=
  match run.websocket with
  | none => true
  | some (.error _) => !run.signalAborted
  | some (.ok steps) =>
    let events := parseWebSocket settings .initial steps
    match events.2 with
    | .failed error =>
      !(run.signalAborted || error.isCodexNonTransportError ||
        events.1.any fun event => (eventType event).isSome)
    | .finished | .waiting => false

/-- The events that the transports deliver, in order. -/
def CodexRun.received : List Json :=
  run.socketEvents settings ++ if run.usesSse settings = true then (bodyEvents settings run.sse).1 else []

/-- When the Codex provider ends as reported: the signal is aborted, the first terminal
event is a failure or a successful response, or there is none and no body ends well. -/
def ReportDecides : Prop :=
  run.signalAborted = true ∨
    (∃ r, firstReport (run.received settings) = some r ∧ (r = .failure ∨ r.Successful)) ∨
    (firstReport (run.received settings) = none ∧
      (run.usesSse settings = true → ∃ error, (bodyEvents settings run.sse).2 = .failed error))

end

theorem endStream_response_iff {s : StreamState} {usage : Option ResponseUsage}
    (hstop : StopsFor (normalizeCodexStatus status) s.stopReason)
    (husage : ∀ counts, usage = some counts → s.usage.counts = reportedCounts counts) :
    EndsAsReported aborted (some (.response status usage)) (endStream aborted s) ↔
      aborted = true ∨ SuccessfulStatus status := by
  cases aborted with
  | true => exact iff_of_true ((endsAsReported_error_iff rfl).mpr nofun) (.inl rfl)
  | false =>
    constructor
    · intro h
      obtain ⟨-, r, hr, hsuccessful⟩ := h.done_iff.mp rfl
      cases hr
      exact .inr hsuccessful
    · rintro (h | hsuccessful)
      · contradiction
      have hnormal : normalizeCodexStatus status = status := by
        rcases hsuccessful with rfl | rfl <;> decide
      rw [hnormal] at hstop
      refine ⟨iff_of_true rfl ⟨rfl, _, rfl, hsuccessful⟩, ?_, ?_⟩
      · intro r _ hr
        cases hr
        exact hstop.length_iff
      · intro r counts _ hr hcounts
        cases hr
        exact husage counts hcounts

theorem streamSse_endsAsReported_iff (aborted : Bool) (sse : Except JsString ResponseBody) :
    EndsAsReported aborted (firstReport (bodyEvents settings sse).1)
        (streamSse settings aborted sse) ↔
      aborted = true ∨
        (∃ r, firstReport (bodyEvents settings sse).1 = some r ∧ (r = .failure ∨ r.Successful)) ∨
        (firstReport (bodyEvents settings sse).1 = none ∧
          ∃ error, (bodyEvents settings sse).2 = .failed error) := by
  cases sse with
  | error error =>
    exact iff_of_true ((endsAsReported_error_iff rfl).mpr (fun _ _ hreport => by cases hreport))
      (.inr (.inr ⟨rfl, _, rfl⟩))
  | ok body =>
    rw [bodyEvents, streamSse]
    generalize parseSSE settings body = events
    cases hreport : firstReport events.1 with
    | none =>
      obtain ⟨contents, hmapped⟩ := mapCodexEvents_none settings events.2 hreport
      rw [hmapped]
      have hending := processMapped_contents settings contents events.2
      generalize processMapped settings (contents.map .content, events.2) = processed at hending
      obtain ⟨s, ending⟩ := processed
      have hending : ending = events.2 := hending
      rw [hending]
      have hdone : EndsAsReported aborted none (endStream aborted s) ↔ aborted = true := by
        cases aborted with
        | true => exact iff_of_true ((endsAsReported_error_iff rfl).mpr (by rintro ⟨⟩)) rfl
        | false =>
          refine iff_of_false (fun h => ?_) Bool.false_ne_true
          obtain ⟨-, r, hr, -⟩ := h.done_iff.mp rfl
          contradiction
      cases events.2 with
      | failed error =>
        exact iff_of_true ((endsAsReported_error_iff rfl).mpr (fun _ _ hreport => by cases hreport))
          (.inr (.inr ⟨rfl, error, rfl⟩))
      | finished | waiting =>
        refine hdone.trans ⟨.inl, ?_⟩
        rintro (h | ⟨r, hr, -⟩ | ⟨-, error, herror⟩)
        · exact h
        · contradiction
        · contradiction
    | some r =>
      have hmapped := mapCodexEvents_some settings events.2 hreport
      cases r with
      | failure =>
        obtain ⟨contents, error, -, hmapped⟩ := hmapped
        rw [hmapped]
        have hending := processMapped_contents settings contents (.failed error)
        generalize processMapped settings (contents.map .content, .failed error) = processed
          at hending
        obtain ⟨s, ending⟩ := processed
        have hending : ending = .failed error := hending
        rw [hending]
        refine iff_of_true ((endsAsReported_error_iff rfl).mpr ?_)
          (.inr (.inl ⟨_, rfl, .inl rfl⟩))
        intro _ r hr
        cases hr
        exact Report.not_successful_failure
      | response status usage =>
        obtain ⟨contents, response, hstatus, husage, hmapped⟩ := hmapped
        obtain ⟨s, hprocessed, hstop, hcounts⟩ :=
          processMapped_response settings contents hstatus
        rw [hmapped, hprocessed]
        rw [husage] at hcounts
        rw [endStream_response_iff hstop hcounts]
        constructor
        · rintro (h | h)
          · exact .inl h
          · exact .inr (.inl ⟨_, rfl, .inr h⟩)
        · rintro (h | ⟨r, hr, h⟩ | ⟨h, -⟩)
          · exact .inl h
          · cases hr
            rcases h with h | h
            · contradiction
            · exact .inr h
          · contradiction

theorem streamWebSocket_ended (aborted : Bool) {r : Report}
    (hreport : firstReport (parseWebSocket settings .initial steps).1 = some r) :
    ∃ result, streamWebSocket settings aborted (.ok steps) = .ended result := by
  rw [streamWebSocket]
  generalize parseWebSocket settings .initial steps = events at hreport
  have hmapped := mapCodexEvents_some settings events.2 hreport
  cases r with
  | failure =>
    obtain ⟨contents, error, herror, hmapped⟩ := hmapped
    rw [hmapped]
    have hending := processMapped_contents settings contents (.failed error)
    generalize processMapped settings (contents.map .content, .failed error) = processed at hending
    obtain ⟨s, ending⟩ := processed
    have hending : ending = .failed error := hending
    rw [hending]
    dsimp only
    rw [herror, Bool.or_true, Bool.true_or, if_pos rfl]
    exact ⟨_, rfl⟩
  | response status usage =>
    obtain ⟨contents, response, hstatus, -, hmapped⟩ := hmapped
    obtain ⟨s, hprocessed, -, -⟩ := processMapped_response settings contents hstatus
    rw [hmapped, hprocessed]
    exact ⟨_, rfl⟩

theorem firstReport_eq_none
    (h : ∀ result, streamWebSocket settings aborted (.ok steps) ≠ .ended result) :
    firstReport (parseWebSocket settings .initial steps).1 = none := by
  cases hreport : firstReport (parseWebSocket settings .initial steps).1 with
  | none => rfl
  | some r =>
    obtain ⟨result, hresult⟩ := streamWebSocket_ended settings aborted hreport
    exact absurd hresult (h result)

theorem mapCodexEvents_isEmpty (ending : StreamEnd) (h : firstReport events = none) :
    (!(mapCodexEvents settings events ending).1.isEmpty) =
      events.any fun event => (eventType event).isSome := by
  induction events with
  | nil => rfl
  | cons event events ih =>
    rw [firstReport, findSome?_cons, reportOf] at h
    rw [mapCodexEvents, any_cons]
    cases htype : eventType event with
    | none =>
      rw [htype] at h
      rw [← ih h]
      rfl
    | some type =>
      rw [htype] at h
      dsimp only at h ⊢
      rw [Option.isSome_some, Bool.true_or]
      by_cases hfailure : type = js "error" ∨ type = js "response.failed"
      · rw [if_pos hfailure] at h
        contradiction
      rw [if_neg hfailure] at h
      by_cases hcompletion : type ∈ COMPLETION_TYPES
      · rw [if_pos hcompletion] at h
        contradiction
      rw [not_or] at hfailure
      rw [if_neg hfailure.1, if_neg hfailure.2, if_neg hcompletion]
      rfl

theorem usesSse_iff {run : CodexRun} (hsocket : run.websocket = some (.ok steps)) :
    run.usesSse settings = true ↔
      streamWebSocket settings run.signalAborted (.ok steps) = .fallback := by
  rw [CodexRun.usesSse, hsocket]
  dsimp only
  cases hreport : firstReport (parseWebSocket settings .initial steps).1 with
  | some r =>
    obtain ⟨result, hresult⟩ :=
      streamWebSocket_ended settings run.signalAborted hreport
    rw [hresult]
    have htyped : ((parseWebSocket settings .initial steps).1.any
        fun event => (eventType event).isSome) = true := by
      obtain ⟨event, hevent, hr⟩ := exists_of_findSome?_eq_some hreport
      rw [any_eq_true]
      refine ⟨event, hevent, ?_⟩
      rw [reportOf] at hr
      cases htype : eventType event with
      | none =>
        rw [htype] at hr
        contradiction
      | some type => rfl
    rw [htyped]
    refine iff_of_false ?_ nofun
    split
    · rw [Bool.or_true]
      exact Bool.false_ne_true
    all_goals exact Bool.false_ne_true
  | none =>
    have hempty := mapCodexEvents_isEmpty settings
      (parseWebSocket settings .initial steps).2 hreport
    obtain ⟨contents, hmapped⟩ := mapCodexEvents_none settings
      (parseWebSocket settings .initial steps).2 hreport
    have hending := processMapped_contents settings contents
      (parseWebSocket settings .initial steps).2
    rw [streamWebSocket, ← hempty]
    rw [← hmapped] at hending
    generalize mapCodexEvents settings (parseWebSocket settings .initial steps).1
      (parseWebSocket settings .initial steps).2 = mapped at hending
    generalize processMapped settings mapped = processed at hending
    obtain ⟨s, ending⟩ := processed
    have hending : ending = (parseWebSocket settings .initial steps).2 := hending
    rw [← hending]
    cases ending with
    | finished | waiting => exact iff_of_false Bool.false_ne_true nofun
    | failed error =>
      dsimp only
      cases run.signalAborted || error.isCodexNonTransportError || !mapped.1.isEmpty with
      | true => exact iff_of_false Bool.false_ne_true nofun
      | false => exact iff_of_true rfl rfl

theorem streamWebSocket_endsAsReported_iff {result : StreamResult}
    (h : streamWebSocket settings aborted (.ok steps) = .ended result) :
    EndsAsReported aborted (firstReport (parseWebSocket settings .initial steps).1) result ↔
      aborted = true ∨ (∃ r, firstReport (parseWebSocket settings .initial steps).1 = some r ∧
          (r = .failure ∨ r.Successful)) ∨
        firstReport (parseWebSocket settings .initial steps).1 = none := by
  have hterminal := firstReport_ne_none_of_finished settings steps
  rw [streamWebSocket] at h
  generalize parseWebSocket settings .initial steps = events at h hterminal
  cases hreport : firstReport events.1 with
  | none =>
    refine iff_of_true ?_ (.inr (.inr rfl))
    obtain ⟨contents, hmapped⟩ := mapCodexEvents_none settings events.2 hreport
    rw [hmapped] at h
    have hending := processMapped_contents settings contents events.2
    generalize processMapped settings (contents.map .content, events.2) = processed at h hending
    obtain ⟨s, ending⟩ := processed
    have hending : ending = events.2 := hending
    rw [hending] at h
    cases hevents : events.2 with
    | finished => exact absurd hreport (hterminal hevents)
    | waiting =>
      rw [hevents] at h
      contradiction
    | failed error =>
      rw [hevents] at h
      dsimp only at h
      split at h
      · cases h
        exact (endsAsReported_error_iff rfl).mpr (fun _ => nofun)
      · contradiction
  | some r =>
    have hmapped := mapCodexEvents_some settings events.2 hreport
    cases r with
    | failure =>
      obtain ⟨contents, error, herror, hmapped⟩ := hmapped
      rw [hmapped] at h
      have hending := processMapped_contents settings contents (.failed error)
      generalize processMapped settings (contents.map .content, .failed error) = processed
        at h hending
      obtain ⟨s, ending⟩ := processed
      have hending : ending = .failed error := hending
      rw [hending] at h
      dsimp only at h
      rw [herror, Bool.or_true, Bool.true_or, if_pos rfl] at h
      cases h
      refine iff_of_true ((endsAsReported_error_iff rfl).mpr ?_)
        (.inr (.inl ⟨_, rfl, .inl rfl⟩))
      intro _ r hr
      cases hr
      exact Report.not_successful_failure
    | response status usage =>
      obtain ⟨contents, response, hstatus, husage, hmapped⟩ := hmapped
      obtain ⟨s, hprocessed, hstop, hcounts⟩ := processMapped_response settings contents hstatus
      rw [hmapped, hprocessed] at h
      cases h
      rw [husage] at hcounts
      rw [endStream_response_iff hstop hcounts]
      constructor
      · rintro (h | h)
        · exact .inl h
        · exact .inr (.inl ⟨_, rfl, .inr h⟩)
      · rintro (h | ⟨r, hr, h⟩ | h)
        · exact .inl h
        · cases hr
          rcases h with h | h
          · contradiction
          · exact .inr h
        · contradiction

theorem endsAsReported_codex_iff (run : CodexRun) :
    (∀ result, streamOpenAICodexResponses settings run = some result →
        EndsAsReported run.signalAborted (firstReport (run.received settings)) result) ↔
      ReportDecides settings run := by
  rw [ReportDecides, CodexRun.received, streamOpenAICodexResponses]
  -- A socket that gave way delivered nothing terminal, so the body decides.
  have hbody (huses : run.usesSse settings = true)
      (hnone : firstReport (run.socketEvents settings) = none) :
      (∀ result, some (streamSse settings run.signalAborted run.sse) = some result →
          EndsAsReported run.signalAborted
            (firstReport (run.socketEvents settings ++ (bodyEvents settings run.sse).1)) result) ↔
        run.signalAborted = true ∨
          (∃ r, firstReport (run.socketEvents settings ++ (bodyEvents settings run.sse).1) = some r ∧
            (r = .failure ∨ r.Successful)) ∨
          (firstReport (run.socketEvents settings ++ (bodyEvents settings run.sse).1) = none ∧
            (run.usesSse settings = true →
              ∃ error, (bodyEvents settings run.sse).2 = .failed error)) := by
    have happend : firstReport (run.socketEvents settings ++ (bodyEvents settings run.sse).1) =
        firstReport (bodyEvents settings run.sse).1 := by
      rw [firstReport, findSome?_append, ← firstReport, hnone, Option.none_or, firstReport]
    rw [happend, forall_prop_of_true huses, ← streamSse_endsAsReported_iff]
    constructor
    · exact fun h => h _ rfl
    · rintro h result ⟨⟩
      exact h
  rcases hsocket : run.websocket with - | error | steps
  · have huses : run.usesSse settings = true := by rw [CodexRun.usesSse, hsocket]
    rw [if_pos huses]
    exact hbody huses (by rw [CodexRun.socketEvents, hsocket]; rfl)
  · dsimp only
    cases haborted : run.signalAborted with
    | true =>
      refine iff_of_true ?_ (.inl rfl)
      rintro result ⟨⟩
      exact (endsAsReported_error_iff rfl).mpr nofun
    | false =>
      have huses : run.usesSse settings = true := by
        rw [CodexRun.usesSse, hsocket, haborted]
        rfl
      rw [if_pos huses]
      rw [haborted] at hbody
      exact hbody huses (by rw [CodexRun.socketEvents, hsocket]; rfl)
  · have hevents : run.socketEvents settings = (parseWebSocket settings .initial steps).1 := by
      rw [CodexRun.socketEvents, hsocket]
    have hnone (h : ∀ result,
        streamWebSocket settings run.signalAborted (.ok steps) ≠ .ended result) :
        firstReport (run.socketEvents settings) = none := by
      rw [hevents]
      exact firstReport_eq_none settings h
    dsimp only
    cases hstream : streamWebSocket settings run.signalAborted (.ok steps) with
    | fallback =>
      have huses := (usesSse_iff settings hsocket).mpr hstream
      rw [if_pos huses]
      refine hbody huses (hnone fun result hresult => ?_)
      rw [hstream] at hresult
      contradiction
    | waiting =>
      have huses : run.usesSse settings = false := by
        rw [Bool.eq_false_iff, ne_eq, usesSse_iff settings hsocket, hstream]
        exact nofun
      rw [huses, if_neg Bool.false_ne_true, append_nil]
      constructor
      · refine fun _ => .inr (.inr ⟨hnone fun result hresult => ?_, fun h => ?_⟩)
        · rw [hstream] at hresult
          contradiction
        · contradiction
      · intro _ result hresult
        contradiction
    | ended result =>
      have huses : run.usesSse settings = false := by
        rw [Bool.eq_false_iff, ne_eq, usesSse_iff settings hsocket, hstream]
        exact nofun
      have hended := streamWebSocket_endsAsReported_iff settings hstream
      rw [huses, if_neg Bool.false_ne_true, append_nil, hevents]
      constructor
      · intro h
        rcases hended.mp (h result rfl) with h | h | h
        · exact .inl h
        · exact .inr (.inl h)
        · exact .inr (.inr ⟨h, fun h => absurd h Bool.false_ne_true⟩)
      · rintro h result ⟨⟩
        apply hended.mpr
        rcases h with h | h | ⟨h, -⟩
        · exact .inl h
        · exact .inr (.inl h)
        · exact .inr (.inr h)

/-- Both providers end in the state the server reported exactly when the reports decide: the
Responses provider on its events, and the Codex provider over either transport. -/
theorem responses_endAsReported_iff (settings : StreamSettings) (aborted : Bool)
    (events : List ResponseStreamEvent) (error : Option JsString)
    (codexSettings : CodexSettings) (run : CodexRun) : (EndsAsReported aborted (lastReport events)
        (streamOpenAIResponses settings aborted (events, error)) ↔
      Responses.ReportDecides aborted events error) ∧
      ((∀ result, streamOpenAICodexResponses codexSettings run = some result →
          EndsAsReported run.signalAborted (firstReport (run.received codexSettings)) result) ↔
        ReportDecides codexSettings run) :=
  ⟨endsAsReported_responses_iff settings aborted events error,
    endsAsReported_codex_iff codexSettings run⟩

end Codex

def freeSettings : StreamSettings :=
  ⟨fun _ => EMPTY_USAGE.cost, fun cost _ => cost, fun _ tier => tier, none, fun _ => none⟩

/-- Without a terminal event the Responses provider is done, and so is the Codex provider
over server-sent events. -/
theorem responses_end_without_terminal :
    ¬ EndsAsReported false (lastReport []) (streamOpenAIResponses freeSettings false ([], none)) ∧
      ¬ ∀ result, streamOpenAICodexResponses ⟨freeSettings, fun _ => .other, id⟩
            ⟨false, none, .ok ⟨[], none⟩⟩ = some result →
          EndsAsReported false (firstReport []) result := by
  constructor
  · intro h
    obtain ⟨-, r, hr, -⟩ := h.done_iff.mp (by decide)
    contradiction
  · intro h
    obtain ⟨-, r, hr, -⟩ := (h _ rfl).done_iff.mp (by decide)
    contradiction

end Codex

end Responses

end AcademicAgent
