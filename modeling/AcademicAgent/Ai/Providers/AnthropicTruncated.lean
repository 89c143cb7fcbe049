import AcademicAgent.Ai.Providers.AnthropicStream
import AcademicAgent.Ai.Providers.SseTruncated
import AcademicAgent.Ai.Utils.JsonTruncated
import AcademicAgent.Core.JsMap

/-!
# The events of an Anthropic response

Messages with a known name are read as JSON, the others are skipped.
-/

namespace AcademicAgent

namespace Anthropic

def ANTHROPIC_MESSAGE_EVENTS : List JsString :=
  [js "message_start", js "message_delta", js "message_stop", js "content_block_start",
    js "content_block_delta", js "content_block_stop"]

/-- `event.type`, when the value has one that is a string. -/
def eventType (event : Json) : Option JsString :=
  match event.tree with
  | .obj members =>
    match assocGet (js "type") members with
    | some (.str type) => some type
    | _ => none
  | _ => none

/-- What the stream of a response depends on: the settings of its assembly, how the loop
sees an event, and the texts of syntax errors. The loop sees nothing of an event whose type
it does not know, and throws where a field that it reads is missing. -/
structure AnthropicSettings where
  stream : StreamSettings
  view : Json → Except JsString (Option RawMessageStreamEvent)
  syntaxError : JsString → JsString

section Events

variable (settings : AnthropicSettings)

def couldNotParse (sse : ServerSentEvent) (message : JsString) : JsString :=
  js "Could not parse Anthropic SSE event " ++ sse.event.getD (js "null") ++ js ": " ++ message ++
    js "; data=" ++ sse.data ++ js "; raw=" ++ (js "\\n").intercalate sse.raw

/-- Reads the data of a message. Reading the type of `null` throws too. -/
def parseEvent (sse : ServerSentEvent) : Except JsString Json :=
  match parseJsonWithRepair settings.syntaxError sse.data with
  | .error message => .error (couldNotParse sse message)
  | .ok event =>
    if event.tree = .null then
      .error (couldNotParse sse (js "Cannot read properties of null (reading 'type')"))
    else .ok event

/-- The loop over the messages with its two flags, for a body that ends with an error or
without. Gives what the consumer sees, and the error that is thrown behind it. -/
def readEvents (bodyError : Option JsString) (sawMessageStart sawMessageEnd : Bool) :
    List ServerSentEvent → List RawMessageStreamEvent × Option JsString
  | [] =>
    ([], bodyError.or
      (if sawMessageStart && !sawMessageEnd then
        some (js "Anthropic stream ended before message_stop")
      else none))
  | sse :: messages =>
    if sse.event = some (js "error") then ([], some sse.data)
    else if sse.event.getD [] ∉ ANTHROPIC_MESSAGE_EVENTS then
      readEvents bodyError sawMessageStart sawMessageEnd messages
    else
      match parseEvent settings sse with
      | .error error => ([], some error)
      | .ok event =>
        match settings.view event with
        | .error error => ([], some error)
        | .ok seen =>
          let (events, error) :=
            readEvents bodyError
              (sawMessageStart || decide (eventType event = some (js "message_start")))
              (sawMessageEnd || decide (eventType event = some (js "message_stop"))) messages
          (seen.toList ++ events, error)

/-- The events of a response and the error that is thrown behind them. -/
def iterateAnthropicEvents (abortedAt : Nat → Bool) (body : Option ResponseBody) :
    List RawMessageStreamEvent × Option JsString :=
  match body with
  | none => ([], some (js "Attempted to iterate over an Anthropic response with no body"))
  | some body =>
    let (messages, bodyError) := iterateSseMessages abortedAt body
    readEvents settings bodyError false false messages

/-- The stream over a response. The signal is looked at before each read of the body, and
when the events have ended. -/
def streamResponse (abortedAt : Nat → Bool) (aborted : Bool) (body : Option ResponseBody) :
    StreamResult :=
  streamAnthropic settings.stream aborted (iterateAnthropicEvents settings abortedAt body)

end Events

end Anthropic

end AcademicAgent

/-!
# Anthropic responses that are cut short

A well-formed response is cut before the data of its `message_stop` event end.
-/

namespace AcademicAgent

open List PendingEvent TextDecoder

variable {ks : List LineKind} {s : PendingEvent} {started : Bool}

namespace Anthropic

/-- The name of a message that the loop over the messages does not skip. -/
def IsNamed (event : Option JsString) : Prop :=
  event = some (js "error") ∨ event.getD [] ∈ ANTHROPIC_MESSAGE_EVENTS

instance (event : Option JsString) : Decidable (IsNamed event) :=
  inferInstanceAs (Decidable (_ ∨ _))

theorem nil_notMem_events : ([] : JsString) ∉ ANTHROPIC_MESSAGE_EVENTS := by decide

theorem not_isNamed_of_nonEmpty {event : Option JsString} (h : nonEmpty event = none) :
    ¬ IsNamed event := by
  cases event with
  | none => exact not_or.mpr ⟨nofun, nil_notMem_events⟩
  | some name =>
    rw [nonEmpty] at h
    split at h
    · rename_i hname
      subst hname
      exact not_or.mpr ⟨by decide, nil_notMem_events⟩
    · contradiction

/-- What is pending is an event: the JSON text of an object with its name as type. -/
def IsEvent (s : PendingEvent) : Prop :=
  (Json.parse s.message.2).bind eventType = s.event ∧
    s.message.2.getLast?.all (fun c => !Json.isJsonWhitespace c) = true

instance (s : PendingEvent) : Decidable (IsEvent s) := inferInstanceAs (Decidable (_ ∧ _))

/-- The lines up to the end of the data of `message_stop`: each message has its name before
its data and once, each one with a known name is an event, and the first of these is
`message_start`. -/
def WellFormedFrom (started : Bool) (s : PendingEvent) : List LineKind → Prop
  | [] => s.event = some (js "message_stop") ∧ IsEvent s ∧ started = true
  | .blank :: ks =>
    (s.event.getD [] ∈ ANTHROPIC_MESSAGE_EVENTS →
      IsEvent s ∧ s.event ≠ some (js "message_stop") ∧
        (started = true ∨ s.event = some (js "message_start"))) ∧
      WellFormedFrom (started || decide (s.event = some (js "message_start"))) .initial ks
  | .event name :: ks => s = .initial ∧ WellFormedFrom started ⟨some name, []⟩ ks
  | .data value :: ks => WellFormedFrom started ⟨s.event, s.data ++ [value]⟩ ks
  | .other :: ks => WellFormedFrom started s ks

instance decidableWellFormedFrom : (started : Bool) → (s : PendingEvent) →
    (ks : List LineKind) → Decidable (WellFormedFrom started s ks)
  | _, _, [] => inferInstanceAs (Decidable (_ ∧ _))
  | started, s, .blank :: ks =>
    have := decidableWellFormedFrom
      (started || decide (s.event = some (js "message_start"))) .initial ks
    inferInstanceAs (Decidable (_ ∧ _))
  | started, _, .event name :: ks =>
    have := decidableWellFormedFrom started ⟨some name, []⟩ ks
    inferInstanceAs (Decidable (_ ∧ _))
  | started, s, .data value :: ks =>
    decidableWellFormedFrom started ⟨s.event, s.data ++ [value]⟩ ks
  | started, s, .other :: ks => decidableWellFormedFrom started s ks

def EndsInData (ks : List LineKind) : Prop :=
  ∃ value, value ≠ [] ∧ ks.getLast? = some (.data value)

/-- A complete response, with its text up to the end of the data of `message_stop`. -/
structure WellFormedResponse (bytes : List UInt8) (upToStop : JsString) : Prop where
  text : ∃ rest, TextDecoder.decode bytes = upToStop ++ rest ∧
    (rest = [] ∨ rest.head? = some cr ∨ rest.head? = some lf)
  fields : ∀ line ∈ closedLines [] (pieces upToStop), FieldsWhole line
  ends : EndsInData (textKinds upToStop)
  events : WellFormedFrom false .initial (textKinds upToStop)

theorem EndsInData.tail {k : LineKind} (h : EndsInData (k :: ks)) (hks : ks ≠ []) :
    EndsInData ks := by
  obtain ⟨value, hvalue, hlast⟩ := h
  refine ⟨value, hvalue, ?_⟩
  obtain ⟨l, ls, rfl⟩ := exists_cons_of_ne_nil hks
  rwa [getLast?_cons_cons] at hlast

theorem intercalate_concat_append (xs : List JsString) (x y : JsString) :
    [lf].intercalate (xs ++ [x ++ y]) = [lf].intercalate (xs ++ [x]) ++ y := by
  induction xs with
  | nil => simp
  | cons z xs ih =>
    have hne (w : JsString) : xs ++ [w] ≠ [] :=
      append_ne_nil_of_right_ne_nil xs (cons_ne_nil w [])
    rw [cons_append, cons_append, intercalate_cons_of_ne_nil (hne _),
      intercalate_cons_of_ne_nil (hne _), ih]
    simp only [append_assoc]

theorem intercalate_concat (xs : List JsString) (x : JsString) :
    ∃ more, [lf].intercalate (xs ++ [x]) = [lf].intercalate xs ++ more ∧ (x ≠ [] → more ≠ []) := by
  induction xs with
  | nil => exact ⟨x, by simp, id⟩
  | cons z xs ih =>
    have hne : xs ++ [x] ≠ [] := append_ne_nil_of_right_ne_nil xs (cons_ne_nil x [])
    rw [cons_append, intercalate_cons_of_ne_nil hne]
    cases xs with
    | nil => exact ⟨lf :: x, by simp, fun _ => cons_ne_nil lf x⟩
    | cons y xs =>
      obtain ⟨more, hmore, hx⟩ := ih
      refine ⟨more, ?_, hx⟩
      rw [hmore, intercalate_cons_cons]
      simp only [append_assoc]

theorem IsEvent.parse (h : IsEvent s) (hnamed : s.event.getD [] ∈ ANTHROPIC_MESSAGE_EVENTS) :
    ∃ value, Json.parse s.message.2 = some value ∧ eventType value = s.event ∧
      ∀ c, s.message.2.getLast? = some c → Json.isJsonWhitespace c = false := by
  obtain ⟨htype, hlast⟩ := h
  cases hevent : s.event with
  | none =>
    rw [hevent] at hnamed
    exact absurd hnamed (by decide)
  | some name =>
    rw [hevent] at htype
    obtain ⟨value, hvalue, htype⟩ := Option.bind_eq_some_iff.mp htype
    refine ⟨value, hvalue, htype, fun c hc => ?_⟩
    rw [hc] at hlast
    simpa using hlast

theorem WellFormedFrom.frame (h : WellFormedFrom started s ks)
    (hnamed : s.event.getD [] ∈ ANTHROPIC_MESSAGE_EVENTS) :
    ∃ more value, Json.parse (s.message.2 ++ more) = some value ∧ eventType value = s.event ∧
      (∀ c, (s.message.2 ++ more).getLast? = some c → Json.isJsonWhitespace c = false) ∧
      (started = true ∨ s.event = some (js "message_start")) ∧
      (s.event = some (js "message_stop") → EndsInData ks → more ≠ []) := by
  induction ks generalizing s with
  | nil =>
    obtain ⟨-, hevent, hstarted⟩ := h
    obtain ⟨value, hvalue, htype, hlast⟩ := hevent.parse hnamed
    refine ⟨[], value, ?_, htype, ?_, .inl hstarted, ?_⟩
    · rwa [append_nil]
    · rwa [append_nil]
    · rintro - ⟨data, -, hdata⟩
      contradiction
  | cons k ks ih =>
    cases k with
    | blank =>
      obtain ⟨hevent, hstop, hstart⟩ := h.1 hnamed
      obtain ⟨value, hvalue, htype, hlast⟩ := hevent.parse hnamed
      refine ⟨[], value, ?_, htype, ?_, hstart, fun h => absurd h hstop⟩
      · rwa [append_nil]
      · rwa [append_nil]
    | event name =>
      obtain ⟨rfl, -⟩ := h
      exact absurd hnamed (by decide)
    | data line =>
      obtain ⟨more, value, hvalue, htype, hlast, hstart, hmore⟩ := ih h hnamed
      obtain ⟨behind, hbehind, hne⟩ := intercalate_concat s.data line
      have hdata : (mk s.event (s.data ++ [line])).message.2 ++ more =
          s.message.2 ++ (behind ++ more) := by
        rw [← append_assoc]
        exact congrArg (· ++ more) hbehind
      rw [hdata] at hvalue hlast
      refine ⟨behind ++ more, value, hvalue, htype, hlast, hstart, fun hstop hends => ?_⟩
      cases ks with
      | nil =>
        obtain ⟨data, hdata, hline⟩ := hends
        cases hline
        exact append_ne_nil_of_left_ne_nil (hne hdata) more
      | cons l ls =>
        exact append_ne_nil_of_right_ne_nil behind (hmore hstop (hends.tail (cons_ne_nil l ls)))
    | other =>
      obtain ⟨more, value, hvalue, htype, hlast, hstart, hmore⟩ := ih h hnamed
      refine ⟨more, value, hvalue, htype, hlast, hstart, fun hstop hends => ?_⟩
      cases ks with
      | nil =>
        obtain ⟨data, -, hline⟩ := hends
        cases hline
      | cons l ls => exact hmore hstop (hends.tail (cons_ne_nil l ls))

/-- A message that is dispatched too early or in time: with a known name, its data are no
whole value, or they are an event other than `message_stop`. -/
def Sound (started : Bool) (m : SseMessage) : Prop :=
  m.1.getD [] ∈ ANTHROPIC_MESSAGE_EVENTS →
    ¬ (Json.scan .start m.2).Whole ∨
      ∃ value, Json.parse m.2 = some value ∧ eventType value = m.1 ∧
        m.1 ≠ some (js "message_stop") ∧ (started = true ∨ m.1 = some (js "message_start"))

/-- The messages make the loop throw: one that cannot be read or that is an error, or the end
of the body behind `message_start`. -/
inductive Fails : Bool → List SseMessage → Prop where
  | ended : Fails true []
  | error {started : Bool} {m : SseMessage} (ms : List SseMessage)
      (h : m.1 = some (js "error")) : Fails started (m :: ms)
  | unread {started : Bool} {m : SseMessage} (ms : List SseMessage)
      (hname : m.1.getD [] ∈ ANTHROPIC_MESSAGE_EVENTS)
      (h : ¬ (Json.scan .start m.2).Whole) : Fails started (m :: ms)
  | read {started : Bool} {m : SseMessage} {ms : List SseMessage} {value : Json}
      (hname : m.1.getD [] ∈ ANTHROPIC_MESSAGE_EVENTS) (hvalue : Json.parse m.2 = some value)
      (htype : eventType value = m.1) (hstop : m.1 ≠ some (js "message_stop"))
      (h : Fails (started || decide (m.1 = some (js "message_start"))) ms) :
      Fails started (m :: ms)
  | skip {started : Bool} {m : SseMessage} {ms : List SseMessage} (hname : ¬ IsNamed m.1)
      (h : Fails started ms) : Fails started (m :: ms)

theorem fails_of_sound {m : SseMessage} {ms : List SseMessage} (hsound : Sound started m)
    (hnamed : IsNamed m.1 → Fails true ms) (hskip : ¬ IsNamed m.1 → Fails started ms) :
    Fails started (m :: ms) := by
  by_cases hname : IsNamed m.1
  · rcases hname with herror | hknown
    · exact .error ms herror
    · rcases hsound hknown with hopen | ⟨value, hvalue, htype, hstop, hstart⟩
      · exact .unread ms hknown hopen
      · refine .read hknown hvalue htype hstop ?_
        have hstarted : (started || decide (m.1 = some (js "message_start"))) = true := by
          simpa using hstart
        rw [hstarted]
        exact hnamed (.inr hknown)
  · exact .skip hname (hskip hname)

theorem eventType_object {value : Json} {type : JsString} (h : eventType value = some type) :
    ∃ members, value.tree = .obj members := by
  unfold eventType at h
  split at h
  · rename_i members htree
    exact ⟨members, htree⟩
  · contradiction

theorem sound_of_cut {event : Option JsString} {cut more tail : JsString} {value : Json}
    (hvalue : Json.parse (cut ++ more) = some value) (htype : eventType value = event)
    (hlast : ∀ c, (cut ++ more).getLast? = some c → Json.isJsonWhitespace c = false)
    (hstart : started = true ∨ event = some (js "message_start"))
    (htail : tail = [] ∧ (event = some (js "message_stop") → more ≠ []) ∨ tail = [REPLACEMENT]) :
    Sound started (event, cut ++ tail) := by
  intro hname
  have hfinished : Json.scan .start (cut ++ more) = .finished := by
    cases event with
    | none => exact absurd hname nil_notMem_events
    | some name =>
      obtain ⟨members, hmembers⟩ := eventType_object htype
      exact Json.finished_of_parse hvalue hmembers
  rcases htail with ⟨rfl, hstop⟩ | rfl
  · rw [append_nil]
    by_cases hmore : more = []
    · subst hmore
      rw [append_nil] at hvalue
      exact .inr ⟨value, hvalue, htype, fun h => hstop h rfl, hstart⟩
    · exact .inl (Json.not_whole_of_cut hfinished hlast (.inl ⟨rfl, hmore⟩))
  · exact .inl (Json.not_whole_of_cut hfinished hlast (.inr rfl))

/-- Some line to come gives a name that the loop does not skip. -/
def Ahead (ks : List LineKind) : Prop := ∃ name, .event name ∈ ks ∧ IsNamed (some name)

theorem not_ahead_nil : ¬ Ahead [] := by
  rintro ⟨name, hname, -⟩
  contradiction

theorem Ahead.of_cons {k : LineKind} (h : Ahead (k :: ks))
    (hk : ∀ name, k = .event name → ¬ IsNamed (some name)) : Ahead ks := by
  obtain ⟨name, hmem, hname⟩ := h
  rcases mem_cons.mp hmem with heq | hmem
  · exact absurd hname (hk name heq.symm)
  · exact ⟨name, hmem, hname⟩

/-- The pending event of the loop is the one of the whole response, or one without a name
that an added empty line left behind. -/
def Tracks (started : Bool) (s whole : PendingEvent) : Prop :=
  s = whole ∨ nonEmpty s.event = none ∧ (whole = .initial → s.data = []) ∧
    (whole.event = some (js "message_start") → started = true)

section Reading

variable {started wholeStarted : Bool} {s whole : PendingEvent} {ks cut : List LineKind}

theorem Tracks.sound (h : Tracks started s whole) (hwf : WellFormedFrom wholeStarted whole ks)
    (hends : EndsInData ks) (hstarted : wholeStarted = true → started = true) :
    Sound started s.message := by
  intro hname
  rcases h with rfl | ⟨hevent, -⟩
  · obtain ⟨more, value, hvalue, htype, hlast, hstart, hmore⟩ := hwf.frame hname
    have hsound : Sound started (s.event, s.message.2 ++ []) :=
      sound_of_cut hvalue htype hlast (hstart.imp_left hstarted)
        (.inl ⟨rfl, fun hstop => hmore hstop hends⟩)
    rw [append_nil] at hsound
    exact hsound hname
  · exact absurd (.inr hname) (not_isNamed_of_nonEmpty hevent)

theorem fails_blank (hsound : Sound started s.message)
    (hnamed : started = true ∨ IsNamed s.event ∨ Ahead (.blank :: cut))
    (hnothing : s.Nothing → started = true ∨ Ahead cut → Fails started (s.messages cut))
    (hdispatch : ∀ b, (started = true → b = true) → (IsNamed s.event → b = true) →
      b = true ∨ Ahead cut → Fails b (initial.messages cut)) :
    Fails started (s.messages (.blank :: cut)) := by
  have hahead (h : Ahead (.blank :: cut)) : Ahead cut := h.of_cons fun name => nofun
  by_cases hs : s.Nothing
  · rw [messages_blank_of_nothing hs]
    refine hnothing hs ?_
    rcases hnamed with h | h | h
    · exact .inl h
    · exact absurd h (not_isNamed_of_nonEmpty hs.1)
    · exact .inr (hahead h)
  · rw [messages_blank_of_not_nothing hs]
    refine fails_of_sound hsound (fun h => ?_) (fun h => ?_)
    · exact hdispatch true (fun _ => rfl) (fun _ => rfl) (.inl rfl)
    · refine hdispatch started id (fun h' => absurd h' h) ?_
      exact hnamed.imp_right fun h' => hahead (h'.resolve_left h)

theorem fails_end (hsound : Sound started s.message)
    (hnamed : started = true ∨ IsNamed s.event) : Fails started (s.messages [.blank]) := by
  have hended (b : Bool) (h : b = true ∨ Ahead []) : Fails b [] := by
    rw [h.resolve_right not_ahead_nil]
    exact .ended
  refine fails_blank hsound (hnamed.imp_right .inl) (fun _ h => hended started h) ?_
  exact fun b _ _ h => hended b h

theorem sound_of_no_data (started : Bool) (event : Option JsString) :
    Sound started (event, []) := by
  have hopen : ¬ (Json.scan .start []).Whole := by decide
  exact fun _ => .inl hopen

theorem Tracks.of_initial (h : Tracks started s .initial) : s.Nothing := by
  rcases h with rfl | ⟨hevent, hdata, -⟩
  · exact ⟨rfl, rfl⟩
  · exact ⟨hevent, hdata rfl⟩

theorem Tracks.started_of_start (h : Tracks started s whole) {b : Bool}
    (hstart : whole.event = some (js "message_start")) (hb : started = true → b = true)
    (hs : IsNamed s.event → b = true) : b = true := by
  rcases h with rfl | ⟨-, -, htracks⟩
  · refine hs (.inr ?_)
    rw [hstart]
    decide
  · exact hb (htracks hstart)

theorem fails_cut_line {k last : LineKind} (h : CutKind k last)
    (hwf : WellFormedFrom wholeStarted whole (k :: ks)) (hends : EndsInData (k :: ks))
    (htracks : Tracks started s whole) (hstarted : wholeStarted = true → started = true)
    (hnamed : started = true ∨ IsNamed s.event ∨ Ahead [last, .blank]) :
    Fails started (s.messages [last, .blank]) := by
  have hahead (h : Ahead [last, .blank]) (hlast : ∀ name, last ≠ .event name) : False :=
    not_ahead_nil ((h.of_cons fun name hname => absurd hname (hlast name)).of_cons
      fun name => by rintro ⟨⟩)
  cases h with
  | other =>
    refine fails_end (htracks.sound hwf hends hstarted) (hnamed.imp_right fun h => ?_)
    exact h.resolve_right fun h => hahead h fun name => by rintro ⟨⟩
  | event value name =>
    obtain ⟨rfl, -⟩ := hwf
    obtain ⟨hevent, hdata⟩ := htracks.of_initial
    have hread : s.messages [.event name, .blank] =
        (mk (some name) []).messages [.blank] := by
      have hfirst : s.messages [.event name, .blank] =
          (mk (some name) s.data).messages [.blank] := rfl
      rw [hfirst, hdata]
    rw [hread]
    refine fails_end (sound_of_no_data started (some name)) (hnamed.imp_right fun h => ?_)
    obtain ⟨other, hmem, hother⟩ := h.resolve_left (not_isNamed_of_nonEmpty hevent)
    rcases mem_cons.mp hmem with heq | hmem
    · cases heq
      exact hother
    · simp at hmem
  | @data value more tail htail =>
    have hread : s.messages [.data (value ++ tail), .blank] =
        (mk s.event (s.data ++ [value ++ tail])).messages [.blank] := rfl
    rw [hread]
    refine fails_end ?_ (hnamed.imp_right fun h => ?_)
    · intro hname
      rcases htracks with rfl | ⟨hevent, -⟩
      · have hrest : WellFormedFrom wholeStarted ⟨s.event, s.data ++ [value ++ more]⟩ ks := hwf
        obtain ⟨behind, event, hevent, htype, hlast, hstart, hstop⟩ := hrest.frame hname
        have hwhole : [lf].intercalate (s.data ++ [value ++ more]) ++ behind =
            [lf].intercalate (s.data ++ [value]) ++ (more ++ behind) := by
          rw [intercalate_concat_append, append_assoc]
        rw [message, hwhole] at hevent hlast
        have hsound : Sound started (s.event, [lf].intercalate (s.data ++ [value]) ++ tail) := by
          refine sound_of_cut hevent htype hlast (hstart.imp_left hstarted) ?_
          refine htail.imp_left fun h => ⟨h.1, fun hevent => ?_⟩
          cases ks with
          | nil =>
            obtain ⟨line, hline, hdata⟩ := hends
            cases hdata
            exact append_ne_nil_of_left_ne_nil (h.2 hline) behind
          | cons l ls =>
            exact append_ne_nil_of_right_ne_nil more (hstop hevent (hends.tail (cons_ne_nil l ls)))
        rw [← intercalate_concat_append] at hsound
        exact hsound hname
      · exact absurd (.inr hname) (not_isNamed_of_nonEmpty hevent)
    · exact h.resolve_right fun h => hahead h fun name => by rintro ⟨⟩

theorem fails_of_truncated (h : Truncated ks cut)
    (hwf : WellFormedFrom wholeStarted whole ks) (hends : EndsInData ks)
    (htracks : Tracks started s whole) (hstarted : wholeStarted = true → started = true)
    (hnamed : started = true ∨ IsNamed s.event ∨ Ahead cut) : Fails started (s.messages cut) := by
  induction h generalizing wholeStarted whole started s with
  | stop h =>
    refine fails_end (htracks.sound hwf hends hstarted) (hnamed.imp_right fun h => ?_)
    exact h.resolve_right fun h => not_ahead_nil (h.of_cons fun name => nofun)
  | line ks h => exact fails_cut_line h hwf hends htracks hstarted hnamed
  | @keep ks cut k h ih =>
    have hends' : EndsInData ks := hends.tail h.ne_nil
    cases k with
    | blank =>
      have hstarted' (b : Bool) (hb : started = true → b = true) (hs : IsNamed s.event → b = true) :
          (wholeStarted || decide (whole.event = some (js "message_start"))) = true → b = true := by
        intro hstart
        rcases Bool.or_eq_true_iff.mp hstart with h | h
        · exact hb (hstarted h)
        · exact htracks.started_of_start (of_decide_eq_true h) hb hs
      refine fails_blank (htracks.sound hwf hends hstarted) hnamed (fun hs hahead => ?_)
        (fun b hb hs hahead => ?_)
      · refine ih hwf.2 hends' (.inr ⟨hs.1, fun _ => hs.2, nofun⟩) ?_ (hahead.imp_right .inr)
        exact hstarted' started id fun h => absurd h (not_isNamed_of_nonEmpty hs.1)
      · exact ih hwf.2 hends' (.inl rfl) (hstarted' b hb hs) (hahead.imp_right .inr)
    | event name =>
      obtain ⟨rfl, hwf⟩ := hwf
      obtain ⟨hevent, hdata⟩ := htracks.of_initial
      have hread : s.messages (.event name :: cut) =
          (mk (some name) []).messages cut := by
        have hfirst : s.messages (.event name :: cut) =
            (mk (some name) s.data).messages cut := rfl
        rw [hfirst, hdata]
      rw [hread]
      refine ih hwf hends' (.inl rfl) hstarted (hnamed.imp_right fun h => ?_)
      obtain ⟨other, hmem, hother⟩ := h.resolve_left (not_isNamed_of_nonEmpty hevent)
      rcases mem_cons.mp hmem with heq | hmem
      · cases heq
        exact .inl hother
      · exact .inr ⟨other, hmem, hother⟩
    | data value =>
      refine ih hwf hends' ?_ hstarted
        (hnamed.imp_right (Or.imp_right fun h => h.of_cons fun name => nofun))
      rcases htracks with rfl | ⟨hevent, -, hstart⟩
      · exact .inl rfl
      · refine .inr ⟨hevent, fun hinitial => ?_, hstart⟩
        have hdata := congrArg data hinitial
        exact absurd hdata (append_ne_nil_of_right_ne_nil _ (cons_ne_nil _ _))
    | other =>
      exact ih hwf hends' htracks hstarted
        (hnamed.imp_right (Or.imp_right fun h => h.of_cons fun name => nofun))
  | add h ih =>
    refine fails_blank (htracks.sound hwf hends hstarted) hnamed (fun hs hahead => ?_)
      (fun b hb hs hahead => ?_)
    · exact ih hwf hends htracks hstarted (hahead.imp_right .inr)
    · refine ih hwf hends (.inr ⟨rfl, fun _ => rfl, fun hstart => ?_⟩)
        (fun h => hb (hstarted h)) (hahead.imp_right .inr)
      rcases htracks with rfl | ⟨-, -, htracks⟩
      · refine hs (.inr ?_)
        rw [hstart]
        decide
      · exact hb (htracks hstart)

end Reading

section Stream

variable (settings : AnthropicSettings)

theorem readEvents_of_fails {sawMessageStart : Bool} {messages : List ServerSentEvent}
    (h : Fails sawMessageStart (messages.map ServerSentEvent.message)) :
    ∃ error, (readEvents settings none sawMessageStart false messages).2 = some error := by
  induction messages generalizing sawMessageStart with
  | nil =>
    cases h
    exact ⟨_, rfl⟩
  | cons sse messages ih =>
    rw [readEvents]
    by_cases herror : sse.event = some (js "error")
    · rw [if_pos herror]
      exact ⟨_, rfl⟩
    rw [if_neg herror]
    by_cases hname : sse.event.getD [] ∈ ANTHROPIC_MESSAGE_EVENTS
    · rw [if_neg (not_not.mpr hname)]
      cases h with
      | error _ h => exact absurd h herror
      | skip hskip _ => exact absurd (.inr hname) hskip
      | unread _ _ hopen =>
        obtain ⟨error, hparse⟩ := parseJsonWithRepair_eq_error settings.syntaxError hopen
        have hevent : parseEvent settings sse = .error (couldNotParse sse error) := by
          have hdata : parseJsonWithRepair settings.syntaxError sse.data = .error error := hparse
          rw [parseEvent, hdata]
        rw [hevent]
        exact ⟨_, rfl⟩
      | @read _ _ _ value _ hvalue htype hstop hrest =>
        have hevent : parseEvent settings sse = .ok value := by
          have hdata : parseJsonWithRepair settings.syntaxError sse.data = .ok value := by
            have hjson : Json.parse sse.data = some value := hvalue
            rw [parseJsonWithRepair, hjson]
          have hobject : value.tree ≠ .null := by
            intro hnull
            have htype' : eventType value = sse.event := htype
            rw [← htype', eventType, hnull] at hname
            exact nil_notMem_events hname
          rw [parseEvent, hdata]
          exact if_neg hobject
        have hstart : eventType value = sse.event := htype
        have hnot : decide (sse.event = some (js "message_stop")) = false := decide_eq_false hstop
        obtain ⟨error, hthrown⟩ := ih hrest
        rw [hevent]
        dsimp only
        cases settings.view value with
        | error error => exact ⟨_, rfl⟩
        | ok seen =>
          rw [hstart, hnot]
          exact ⟨error, hthrown⟩
    · rw [if_pos hname]
      cases h with
      | error _ h => exact absurd h herror
      | unread _ hknown _ | read hknown _ _ _ _ => exact absurd hknown hname
      | skip _ hrest => exact ih hrest

theorem readEvents_of_bodyError (bodyError : JsString) (sawMessageStart sawMessageEnd : Bool)
    (messages : List ServerSentEvent) :
    ∃ error, (readEvents settings (some bodyError) sawMessageStart sawMessageEnd messages).2 =
      some error := by
  induction messages generalizing sawMessageStart sawMessageEnd with
  | nil => exact ⟨bodyError, rfl⟩
  | cons sse messages ih =>
    rw [readEvents]
    split
    · exact ⟨_, rfl⟩
    · split
      · exact ih _ _
      · split
        · exact ⟨_, rfl⟩
        · split
          · exact ⟨_, rfl⟩
          · exact ih _ _

theorem readEvents_of_not_isNamed {messages : List ServerSentEvent}
    (h : ∀ sse ∈ messages, ¬ IsNamed sse.event) :
    readEvents settings none false false messages = ([], none) := by
  induction messages with
  | nil => rfl
  | cons sse messages ih =>
    have hname := h sse mem_cons_self
    rw [readEvents, if_neg fun herror => hname (.inl herror),
      if_pos fun hknown => hname (.inr hknown)]
    exact ih fun other hother => h other (mem_cons_of_mem sse hother)

def EndsInError (aborted : Bool) (result : StreamResult) : Prop :=
  result.done = false ∧ result.message.stopReason = if aborted then .aborted else .error

theorem endsInError_failStream (aborted : Bool) (s : StreamState) (error : JsString) :
    EndsInError aborted (failStream aborted s error) := ⟨rfl, rfl⟩

section

variable (settings : StreamSettings)

theorem endsInError_of_error (aborted : Bool)
    {events : List RawMessageStreamEvent × Option JsString} {error : JsString}
    (h : events.2 = some error) : EndsInError aborted (streamAnthropic settings aborted events) := by
  rw [streamAnthropic, h]
  cases (consumeEvents settings .initial events.1).2 with
  | none => exact endsInError_failStream _ _ _
  | some thrown => exact endsInError_failStream _ _ _

theorem endsInError_of_aborted (events : List RawMessageStreamEvent × Option JsString) :
    EndsInError true (streamAnthropic settings true events) := by
  rw [streamAnthropic]
  split
  all_goals exact endsInError_failStream _ _ _

theorem not_endsInError_nil : ¬ EndsInError false (streamAnthropic settings false ([], none)) := by
  rintro ⟨hdone, -⟩
  contradiction

end

end Stream

section Body

variable {abortedAt : Nat → Bool} {readError : Option JsString}

theorem readChunks_error_eq_none_iff (i : Nat) (decoder : TextDecoder) (buffer : JsString)
    (state : SseDecoderState) (chunks : List (List UInt8)) :
    (readChunks abortedAt readError i decoder buffer state chunks).2 = none ↔
      readError = none ∧ ∀ j ≤ chunks.length, abortedAt (i + j) = false := by
  induction chunks generalizing i decoder buffer state with
  | nil =>
    have hindex : (∀ j ≤ ([] : List (List UInt8)).length, abortedAt (i + j) = false) ↔
        abortedAt i = false := by
      constructor
      · exact fun h => h 0 (Nat.le_refl 0)
      · intro h j hj
        rw [Nat.le_zero.mp hj]
        exact h
    unfold readChunks
    rw [hindex]
    cases habort : abortedAt i with
    | true => simp
    | false => cases readError <;> simp
  | cons chunk chunks ih =>
    have hindex : (∀ j ≤ (chunk :: chunks).length, abortedAt (i + j) = false) ↔
        abortedAt i = false ∧ ∀ j ≤ chunks.length, abortedAt (i + 1 + j) = false := by
      constructor
      · intro h
        refine ⟨h 0 (Nat.zero_le _), fun j hj => ?_⟩
        have hnext := h (j + 1) (Nat.succ_le_succ hj)
        rwa [show i + (j + 1) = i + 1 + j by omega] at hnext
      · rintro ⟨hfirst, hrest⟩ j hj
        cases j with
        | zero => exact hfirst
        | succ j =>
          rw [show i + (j + 1) = i + 1 + j by omega]
          exact hrest j (Nat.le_of_succ_le_succ hj)
    rw [readChunks, hindex]
    cases habort : abortedAt i with
    | true => simp
    | false =>
      rw [if_neg Bool.false_ne_true]
      rw [ih]
      simp

theorem readChunks_of_error_eq_none {i : Nat} {decoder : TextDecoder} {buffer : JsString}
    {state : SseDecoderState} {chunks : List (List UInt8)}
    (h : (readChunks abortedAt readError i decoder buffer state chunks).2 = none) :
    readChunks abortedAt readError i decoder buffer state chunks =
      readChunks (fun _ => false) none i decoder buffer state chunks := by
  induction chunks generalizing i decoder buffer state with
  | nil =>
    obtain ⟨rfl, habort⟩ := (readChunks_error_eq_none_iff i decoder buffer state []).mp h
    rw [readChunks, readChunks, show abortedAt i = false from habort 0 (Nat.le_refl 0)]
  | cons chunk chunks ih =>
    obtain ⟨-, habort⟩ := (readChunks_error_eq_none_iff i decoder buffer state _).mp h
    have hfirst : abortedAt i = false := habort 0 (Nat.zero_le _)
    rw [readChunks, hfirst, if_neg Bool.false_ne_true] at h
    rw [readChunks, readChunks, hfirst, if_neg Bool.false_ne_true, if_neg Bool.false_ne_true]
    dsimp only
    rw [ih h]

end Body

theorem mem_messages_event {m : SseMessage} (h : m ∈ s.messages ks) (hname : IsNamed m.1) :
    IsNamed s.event ∨ Ahead ks := by
  induction ks generalizing s with
  | nil => contradiction
  | cons k ks ih =>
    have hahead (h : Ahead ks) : Ahead (k :: ks) := by
      obtain ⟨name, hmem, hname⟩ := h
      exact ⟨name, mem_cons_of_mem k hmem, hname⟩
    cases k with
    | blank =>
      by_cases hs : s.Nothing
      · rw [messages_blank_of_nothing hs] at h
        exact (ih h).imp_right hahead
      · rw [messages_blank_of_not_nothing hs] at h
        rcases mem_cons.mp h with rfl | h
        · exact .inl hname
        · rcases ih h with hinitial | h
          · exact absurd hinitial (not_isNamed_of_nonEmpty rfl)
          · exact .inr (hahead h)
    | event name =>
      rcases ih h with hevent | h
      · exact .inr ⟨name, mem_cons_self, hevent⟩
      · exact .inr (hahead h)
    | data value | other => exact (ih h).imp_right hahead

theorem ahead_added {ms : List (LineKind × Bool)} (h : Added .blank ms ks) :
    Ahead ks ↔ Ahead (ms.map Prod.fst) := by
  have hcons (k : LineKind) (ks : List LineKind) :
      Ahead (k :: ks) ↔ (∃ name, k = .event name ∧ IsNamed (some name)) ∨ Ahead ks := by
    simp only [Ahead, mem_cons]
    constructor
    · rintro ⟨name, rfl | hmem, hname⟩
      · exact .inl ⟨name, rfl, hname⟩
      · exact .inr ⟨name, hmem, hname⟩
    · rintro (⟨name, rfl, hname⟩ | ⟨name, hmem, hname⟩)
      · exact ⟨name, .inl rfl, hname⟩
      · exact ⟨name, .inr hmem, hname⟩
  induction h with
  | nil => rfl
  | keep k mark _ ih =>
    rw [map_cons, hcons, hcons]
    exact or_congr_right ih
  | add k _ ih =>
    rw [map_cons, hcons, hcons .blank, hcons]
    refine or_congr_right (Iff.trans (or_iff_right ?_) ih)
    rintro ⟨name, hname, -⟩
    cases hname

/-- Some line of a text names an event that the loop does not skip. -/
def NamesEvent (text : JsString) : Prop := Ahead ((bodyLines [] (pieces text)).map lineKind)

theorem ahead_chunkKinds (chunks : List (List UInt8)) :
    Ahead (chunkKinds chunks) ↔ NamesEvent (decode chunks.flatten) := by
  have hadded := ((cuts_flatten (decodeChunks chunks)).added []).map lineKind
  rw [flatten_decodeChunks] at hadded
  rw [chunkKinds, ahead_added hadded, NamesEvent, ← map_fst_markedLines, map_map, map_map]
  rfl

theorem WellFormedResponse.getLast?_ne {bytes : List UInt8} {upToStop : JsString}
    (h : WellFormedResponse bytes upToStop) :
    (closedLines [] (pieces upToStop)).getLast? ≠ some [] := by
  obtain ⟨value, -, hlast⟩ := h.ends
  intro hblank
  rw [textKinds, getLast?_map, hblank] at hlast
  cases hlast

theorem WellFormedResponse.cut {bytes : List UInt8} {upToStop : JsString}
    (h : WellFormedResponse bytes upToStop) {cutBytes : List UInt8} (hcut : cutBytes <+: bytes)
    (hstop : ¬ upToStop <+: decode cutBytes) :
    ∃ cut more tail, upToStop = cut ++ more ∧ more ≠ [] ∧
      (tail = [] ∨ tail = [REPLACEMENT]) ∧ decode cutBytes = cut ++ tail := by
  obtain ⟨rest, hrest⟩ := hcut
  obtain ⟨behind, hbehind, -⟩ := h.text
  have hflush (d : TextDecoder) : d.flush = [] ∨ d.flush = [REPLACEMENT] := by
    have hunits : codeUnits replacement = [REPLACEMENT] := by decide
    rw [flush, hunits]
    split
    · exact .inr rfl
    · exact .inl rfl
  have hwhole : (transducer.feed .new cutBytes).2 <+: upToStop ++ behind := by
    rw [← hbehind, decode, ← hrest, Transducer.feed_append]
    dsimp only
    rw [append_assoc]
    exact prefix_append _ _
  have hnot : ¬ upToStop <+: (transducer.feed .new cutBytes).2 :=
    fun hstarts => hstop (hstarts.trans (prefix_append _ _))
  obtain ⟨more, hmore⟩ :=
    ( prefix_or_prefix_of_prefix hwhole (prefix_append upToStop behind)).resolve_right hnot
  refine ⟨_, more, _, hmore.symm, ?_, hflush _, rfl⟩
  rintro rfl
  rw [append_nil] at hmore
  exact hnot (hmore ▸ prefix_rfl)

/-- A response that is cut before the data of `message_stop` end makes the stream end with an
error exactly when the signal is aborted, a read fails, or a line names an event. -/
theorem streamResponse_truncated_iff (settings : AnthropicSettings) (abortedAt : Nat → Bool)
    (aborted : Bool) {bytes : List UInt8} {upToStop : JsString}
    (hresponse : WellFormedResponse bytes upToStop) (body : ResponseBody)
    (hcut : body.chunks.flatten <+: bytes)
    (hstop : ¬ upToStop <+: TextDecoder.decode body.chunks.flatten) :
    EndsInError aborted (streamResponse settings abortedAt aborted (some body)) ↔
      aborted = true ∨ (∃ i ≤ body.chunks.length, abortedAt i = true) ∨ body.readError ≠ none ∨
        NamesEvent (TextDecoder.decode body.chunks.flatten) := by
  obtain ⟨chunks, readError⟩ := body
  dsimp only at hcut hstop ⊢
  by_cases haborted : aborted = true
  · subst haborted
    exact iff_of_true (endsInError_of_aborted _ _) (Or.inl rfl)
  cases hbody : (iterateSseMessages abortedAt ⟨chunks, readError⟩).2 with
  | some bodyError =>
    obtain ⟨error, herror⟩ := readEvents_of_bodyError settings bodyError false false
      (iterateSseMessages abortedAt ⟨chunks, readError⟩).1
    have hevents : (iterateAnthropicEvents settings abortedAt (some ⟨chunks, readError⟩)).2 =
        some error := by
      rw [iterateAnthropicEvents]
      dsimp only
      rw [hbody, herror]
    refine iff_of_true (endsInError_of_error settings.stream aborted hevents) (Or.inr ?_)
    by_contra hno
    simp only [not_or, not_exists, not_and, Bool.not_eq_true, not_not] at hno
    have hnone : (iterateSseMessages abortedAt ⟨chunks, readError⟩).2 = none := by
      refine (readChunks_error_eq_none_iff 0 _ _ _ _).mpr ⟨hno.2.1, fun j hj => ?_⟩
      rw [Nat.zero_add]
      exact hno.1 j hj
    rw [hnone] at hbody
    contradiction
  | none =>
    have hread : iterateSseMessages abortedAt ⟨chunks, readError⟩ =
        iterateSseMessages (fun _ => false) ⟨chunks, none⟩ := readChunks_of_error_eq_none hbody
    obtain ⟨hnoError, habort⟩ := (readChunks_error_eq_none_iff 0 _ _ _ _).mp hbody
    have hevents : iterateAnthropicEvents settings abortedAt (some ⟨chunks, readError⟩) =
        readEvents settings none false false
          (iterateSseMessages (fun _ => false) ⟨chunks, none⟩).1 := by
      rw [iterateAnthropicEvents, ← hread]
      dsimp only
      rw [hbody]
    have hmessages : (iterateSseMessages (fun _ => false) ⟨chunks, none⟩).1.map
        ServerSentEvent.message = PendingEvent.initial.messages (chunkKinds chunks) :=
      sseMessages_eq chunks
    have hnamed : (aborted = true ∨ (∃ i ≤ chunks.length, abortedAt i = true) ∨
        readError ≠ none ∨ NamesEvent (TextDecoder.decode chunks.flatten)) ↔
          Ahead (chunkKinds chunks) := by
      rw [ahead_chunkKinds]
      constructor
      · rintro (h | ⟨i, hi, h⟩ | h | h)
        · exact absurd h haborted
        · have hfalse := habort i hi
          rw [Nat.zero_add, h] at hfalse
          contradiction
        · exact absurd hnoError h
        · exact h
      · exact fun h => Or.inr (Or.inr (Or.inr h))
    rw [hnamed, streamResponse, hevents]
    constructor
    · intro herror
      by_contra hno
      have hskipped : ∀ sse ∈ (iterateSseMessages (fun _ => false) ⟨chunks, none⟩).1,
          ¬ IsNamed sse.event := by
        intro sse hsse hname
        have hmem := mem_map_of_mem (f := ServerSentEvent.message) hsse
        rw [hmessages] at hmem
        rcases mem_messages_event hmem hname with hinitial | hahead
        · exact not_isNamed_of_nonEmpty rfl hinitial
        · exact hno hahead
      rw [readEvents_of_not_isNamed settings hskipped, Bool.eq_false_iff.mpr haborted] at herror
      exact not_endsInError_nil settings.stream herror
    · intro hahead
      obtain ⟨cut, more, tail, rfl, hmore, htail, htext⟩ := hresponse.cut hcut hstop
      have htruncated : Truncated (textKinds (cut ++ more)) (chunkKinds chunks) :=
        truncated_chunkKinds hmore hresponse.getLast?_ne hresponse.fields htail htext
      have hfails : Fails false (PendingEvent.initial.messages (chunkKinds chunks)) :=
        fails_of_truncated htruncated hresponse.events hresponse.ends (Or.inl rfl) id
          (Or.inr (Or.inr hahead))
      rw [← hmessages] at hfails
      obtain ⟨error, herror⟩ := readEvents_of_fails settings hfails
      exact endsInError_of_error settings.stream aborted herror

/-- A short response, up to the end of the data of `message_stop`. -/
def shortResponse : JsString :=
  js "event: message_start\ndata: \x7b\"type\":\"message_start\"\x7d\n\n" ++
    js "event: message_stop\ndata: \x7b\"type\":\"message_stop\"\x7d"

def shortBytes : List UInt8 := (shortResponse ++ [lf, lf]).map UInt16.toUInt8

def plainAnthropicSettings : AnthropicSettings :=
  ⟨⟨id, fun _ => EMPTY_USAGE.cost, fun _ => none⟩, fun _ => .ok none, id⟩

theorem wellFormed_shortResponse : WellFormedResponse shortBytes shortResponse where
  text := ⟨[lf, lf], by decide, .inr (.inr rfl)⟩
  fields := by
    have hall : (closedLines [] (pieces shortResponse)).all
        (fun line => decide (FieldsWhole line)) = true := by decide
    exact fun line hline => of_decide_eq_true (all_eq_true.mp hall line hline)
  ends := ⟨js "\x7b\"type\":\"message_stop\"\x7d", by decide, by decide⟩
  events := by decide

/-- The short response breaks off inside the data of its first event. -/
theorem streamResponse_truncated_in_data :
    EndsInError false (streamResponse plainAnthropicSettings (fun _ => false) false
      (some ⟨[shortBytes.take 40], none⟩)) :=
  (streamResponse_truncated_iff plainAnthropicSettings (fun _ => false) false
    wellFormed_shortResponse ⟨[shortBytes.take 40], none⟩
    (flatten_singleton ▸ take_prefix 40 shortBytes) (by decide)).mpr
      (Or.inr (Or.inr (Or.inr ⟨js "message_start", by decide, by decide⟩)))

/-- It breaks off inside the name of its first event, and the stream is done. -/
theorem streamResponse_done_in_name : WellFormedResponse shortBytes shortResponse ∧
      [shortBytes.take 18].flatten <+: shortBytes ∧
      ¬ shortResponse <+: TextDecoder.decode [shortBytes.take 18].flatten ∧
      ¬ EndsInError false (streamResponse plainAnthropicSettings (fun _ => false) false
        (some ⟨[shortBytes.take 18], none⟩)) := by
  refine ⟨wellFormed_shortResponse, flatten_singleton ▸ take_prefix 18 shortBytes, by decide, ?_⟩
  rintro ⟨hdone, -⟩
  exact absurd hdone (by decide)

end Anthropic

end AcademicAgent
