import AcademicAgent.Ai.Providers.OpenAICodexResponses
import AcademicAgent.Core.Run
import Mathlib.Data.List.Perm.Basic

/-!
# Order of the events of a socket

Each message is decoded in a task of its own, and is queued when that is over.
-/

namespace AcademicAgent.Responses.Codex

open List
open Option (bind_some some.inj)

variable {r : SocketReader} {decoded : List Decoded}

/-- What the decoding of the data of a message comes to: a text, none, or an error. -/
abbrev Decoded : Type := Except JsString (Option JsString)

/-- The variables of `parseWebSocket`, the messages that are being decoded, all messages that were
received, the events that were yielded, and how the reader ended. -/
structure SocketReader where
  socket : SocketState
  decoding : List Decoded
  received : List Decoded
  yielded : List Json
  ending : Option StreamEnd

def SocketReader.initial : SocketReader := ⟨.initial, [], [], [], none⟩

/-- What happens: a message arrives, the decoding of one in progress is over, an error, the end of
the connection, an abort, or the consumer asks for an event. -/
inductive SocketAction where
  | receive (data : Decoded)
  | decode (index : Nat)
  | error (message : JsString)
  | close (message : JsString)
  | abort
  | resume

section Reader

variable (settings : CodexSettings)

/-- The listener for messages, from the end of the decoding on. -/
def onDecoded (s : SocketState) : Decoded → SocketState
  | .ok text => onMessage settings s text
  | .error cause =>
    { s with
      failed := some ⟨js "Invalid Codex WebSocket JSON: " ++ cause, true⟩
      done := true }

section

variable (r : SocketReader)

/-- The listeners are there until the reader ends. -/
def SocketReader.listen (f : SocketState → SocketState) : SocketReader :=
  if r.ending.isSome then r else { r with socket := f r.socket }

def SocketReader.resume : SocketReader :=
  if r.socket.aborted then
    { r with ending := some (.failed ⟨js "Request was aborted", false⟩) }
  else
    match r.socket.queue with
    | event :: queue =>
      { r with
        socket := { r.socket with queue := queue }
        yielded := r.yielded ++ [event] }
    | [] => if r.socket.done then { r with ending := some (socketEnd r.socket) } else r

def SocketReader.step : SocketAction → Option SocketReader
  | .receive data =>
    if r.ending.isSome then some r
    else some { r with decoding := r.decoding ++ [data], received := r.received ++ [data] }
  | .decode index =>
    r.decoding[index]?.map fun data =>
      { r with
        socket := onDecoded settings r.socket data
        decoding := r.decoding.eraseIdx index }
  | .error message => some (r.listen fun s => onError s message)
  | .close message => some (r.listen fun s => onClose s message)
  | .abort => some (r.listen onAbort)
  | .resume => if r.ending.isSome then none else some r.resume

end

def eventOf : Decoded → Option Json
  | .ok text =>
    (nonEmpty text).bind fun text => (parseEvent settings (js "WebSocket") text).toOption
  | .error _ => none

section

variable (r : SocketReader)

/-- A message that completes the response was received. -/
def SocketReader.Completed : Prop :=
  ∃ event ∈ r.received.filterMap (eventOf settings), isCompletion event = true

/-- The events are yielded in the order in which the socket has delivered them. -/
def SocketReader.InOrder : Prop :=
  r.yielded <+: r.received.filterMap (eventOf settings)

/-- The end of the connection does not fail a response whose completing message was received. -/
def SocketReader.KeepsCompletion (message : JsString) : Prop :=
  r.Completed settings → ∀ r', r.step settings (.close message) = some r' →
    r'.socket.failed = r.socket.failed ∧
      (r.socket.failed = none → socketEnd r'.socket = .finished)

/-- Messages are decoded in their turn, and no completing message is being decoded when the
connection ends. -/
def SocketReader.InTurn : SocketAction → Prop
  | .decode index => index = 0
  | .close _ => ∀ event ∈ r.decoding.filterMap (eventOf settings), isCompletion event = false
  | _ => True

end

variable {settings}

section

variable (s : SocketState) (data : Decoded)

theorem onDecoded_queue :
    (onDecoded settings s data).queue = s.queue ++ (eventOf settings data).toList := by
  cases data with
  | error cause => exact (append_nil _).symm
  | ok text =>
    rw [onDecoded, onMessage, eventOf]
    cases nonEmpty text with
    | none => exact (append_nil _).symm
    | some text =>
      rw [bind_some]
      dsimp only
      cases parseEvent settings (js "WebSocket") text with
      | error error => exact (append_nil _).symm
      | ok event => rfl

theorem onDecoded_sawCompletion : (onDecoded settings s data).sawCompletion =
      (s.sawCompletion || (eventOf settings data).any isCompletion) := by
  cases data with
  | error cause => exact (Bool.or_false _).symm
  | ok text =>
    rw [onDecoded, onMessage, eventOf]
    cases nonEmpty text with
    | none => exact (Bool.or_false _).symm
    | some text =>
      rw [bind_some]
      dsimp only
      cases parseEvent settings (js "WebSocket") text with
      | error error => exact (Bool.or_false _).symm
      | ok event => rfl

theorem onDecoded_aborted : (onDecoded settings s data).aborted = s.aborted := by
  cases data with
  | error cause => rfl
  | ok text =>
    rw [onDecoded, onMessage]
    split
    · rfl
    · split <;> rfl

end

theorem resume_of_queue {event : Json} {queue : List Json} (hending : r.ending = none)
    (haborted : r.socket.aborted = false) (hqueue : r.socket.queue = event :: queue) :
    r.step settings .resume = some
      { r with
        socket := { r.socket with queue := queue }
        yielded := r.yielded ++ [event] } := by
  obtain ⟨socket, decoding, received, yielded, ending⟩ := r
  subst hending
  have hgoes : ¬ socket.aborted = true := by
    rw [haborted]
    exact Bool.false_ne_true
  rw [SocketReader.step, Option.isSome_none, if_neg Bool.false_ne_true, SocketReader.resume,
    if_neg hgoes, hqueue]

/-- What messages that are decoded in their turn keep: the messages are those that were decoded
and those that are being decoded, the events of the former were yielded or are queued, and one
that completes the response was seen. -/
structure SocketReader.Sound (settings : CodexSettings) (r : SocketReader)
    (decoded : List Decoded) : Prop where
  received_eq : r.received = decoded ++ r.decoding
  events_eq : r.yielded ++ r.socket.queue = decoded.filterMap (eventOf settings)
  saw_eq : r.socket.sawCompletion = (decoded.filterMap (eventOf settings)).any isCompletion

theorem SocketReader.Sound.initial : SocketReader.initial.Sound settings [] := ⟨rfl, rfl, rfl⟩

theorem SocketReader.Sound.listen (h : r.Sound settings decoded) {f : SocketState → SocketState}
    (hqueue : ∀ s, (f s).queue = s.queue) (hsaw : ∀ s, (f s).sawCompletion = s.sawCompletion) :
    (r.listen f).Sound settings decoded := by
  unfold SocketReader.listen
  split_ifs
  · exact h
  · exact ⟨h.received_eq, by rw [← h.events_eq, hqueue], by rw [← h.saw_eq, hsaw]⟩

theorem SocketReader.Sound.resume (h : r.Sound settings decoded) :
    r.resume.Sound settings decoded := by
  unfold SocketReader.resume
  split
  · exact ⟨h.received_eq, h.events_eq, h.saw_eq⟩
  · split
    · rename_i event queue hqueue
      refine ⟨h.received_eq, ?_, h.saw_eq⟩
      rw [← h.events_eq, hqueue, append_assoc]
      rfl
    · split_ifs
      · exact ⟨h.received_eq, h.events_eq, h.saw_eq⟩
      · exact h

theorem SocketReader.Sound.decode {r' : SocketReader} (h : r.Sound settings decoded)
    (hstep : r.step settings (.decode 0) = some r') : ∃ decoded', r'.Sound settings decoded' := by
  obtain ⟨data, hdata, rfl⟩ := Option.map_eq_some_iff.mp hstep
  cases hdecoding : r.decoding with
  | nil =>
    rw [hdecoding] at hdata
    cases hdata
  | cons first rest =>
    rw [hdecoding] at hdata
    obtain rfl : first = data := some.inj hdata
    have hevents : (decoded ++ [first]).filterMap (eventOf settings) =
        decoded.filterMap (eventOf settings) ++ (eventOf settings first).toList := by
      rw [filterMap_append]
      cases hevent : eventOf settings first with
      | none => rw [filterMap_cons_none hevent]; rfl
      | some event => rw [filterMap_cons_some hevent]; rfl
    refine ⟨decoded ++ [first], ?_, ?_, ?_⟩
    · dsimp only
      rw [h.received_eq, hdecoding, append_assoc]
      rfl
    · dsimp only
      rw [hevents, onDecoded_queue, ← append_assoc, h.events_eq]
    · dsimp only
      rw [hevents, onDecoded_sawCompletion, any_append, h.saw_eq]
      cases eventOf settings first with
      | none => rfl
      | some event =>
        rw [Option.toList_some, any_cons, any_nil, Bool.or_false]
        rfl

theorem SocketReader.Sound.step {r' : SocketReader} (h : r.Sound settings decoded)
    {action : SocketAction} (hturn : r.InTurn settings action)
    (hstep : r.step settings action = some r') : ∃ decoded', r'.Sound settings decoded' := by
  cases action with
  | receive data =>
    rw [SocketReader.step] at hstep
    split_ifs at hstep
    · exact ⟨decoded, some.inj hstep ▸ h⟩
    · obtain rfl := some.inj hstep
      refine ⟨decoded, ?_, h.events_eq, h.saw_eq⟩
      rw [h.received_eq, append_assoc]
  | decode index =>
    obtain rfl : index = 0 := hturn
    exact h.decode hstep
  | error message | close message =>
    exact ⟨decoded, some.inj hstep ▸ h.listen (fun _ => rfl) fun _ => rfl⟩
  | abort => exact ⟨decoded, some.inj hstep ▸ h.listen (fun _ => rfl) fun _ => rfl⟩
  | resume =>
    rw [SocketReader.step] at hstep
    split_ifs at hstep
    exact ⟨decoded, some.inj hstep ▸ h.resume⟩

section

variable (h : r.Sound settings decoded)
include h

theorem SocketReader.Sound.inOrder : r.InOrder settings := by
  refine ⟨r.socket.queue ++ r.decoding.filterMap (eventOf settings), ?_⟩
  rw [← append_assoc, h.events_eq, h.received_eq, filterMap_append]

theorem SocketReader.Sound.sawCompletion (hcompleted : r.Completed settings)
    (hdecoding : ∀ event ∈ r.decoding.filterMap (eventOf settings), isCompletion event = false) :
    r.socket.sawCompletion = true := by
  obtain ⟨event, hevent, hcompletion⟩ := hcompleted
  rw [h.received_eq, filterMap_append] at hevent
  rcases mem_append.mp hevent with hdecoded | hprogress
  · rw [h.saw_eq, any_eq_true]
    exact ⟨event, hdecoded, hcompletion⟩
  · rw [hdecoding event hprogress] at hcompletion
    cases hcompletion

theorem SocketReader.Sound.keepsCompletion
    (hdecoding : ∀ event ∈ r.decoding.filterMap (eventOf settings), isCompletion event = false)
    (message : JsString) : r.KeepsCompletion settings message := by
  intro hcompleted r' hstep
  have hsaw := h.sawCompletion hcompleted hdecoding
  obtain rfl := some.inj hstep
  unfold SocketReader.listen
  split_ifs
  · refine ⟨rfl, fun hfailed => ?_⟩
    rw [socketEnd, hfailed]
    exact if_pos hsaw
  · dsimp only [onClose]
    rw [if_pos hsaw]
    refine ⟨rfl, fun hfailed => ?_⟩
    rw [socketEnd]
    rw [hfailed]
    exact if_pos hsaw

end

/-- In whatever order the messages are decoded, and however the connection ends, the events that
are yielded, queued or being decoded are the received ones: none is lost and none comes twice. -/
theorem events_conserved {r : SocketReader}
    (h : Reachable (SocketReader.step settings) .initial r) :
    r.yielded ++ r.socket.queue ++ r.decoding.filterMap (eventOf settings) ~
      r.received.filterMap (eventOf settings) := by
  refine @Reachable.invariant _ _ _ (fun r => r.yielded ++ r.socket.queue ++
    r.decoding.filterMap (eventOf settings) ~ r.received.filterMap (eventOf settings))
    (fun r action r' hr hstep => ?_) _ _ (.refl []) h
  cases action with
  | receive data =>
    rw [SocketReader.step] at hstep
    split_ifs at hstep
    · exact Option.some.inj hstep ▸ hr
    · obtain rfl := Option.some.inj hstep
      rw [filterMap_append, filterMap_append, ← append_assoc]
      exact hr.append_right _
  | decode index =>
    obtain ⟨data, hdata, rfl⟩ := Option.map_eq_some_iff.mp hstep
    obtain ⟨hlt, rfl⟩ := List.getElem?_eq_some_iff.mp hdata
    have hdecoding := (getElem_cons_eraseIdx_perm hlt).filterMap (eventOf settings)
    refine Perm.trans ?_ hr
    rw [onDecoded_queue, ← append_assoc, append_assoc (r.yielded ++ _)]
    refine Perm.append_left _ (Perm.trans ?_ hdecoding)
    cases hevent : eventOf settings r.decoding[index] with
    | none => rw [filterMap_cons_none hevent]; rfl
    | some event => rw [filterMap_cons_some hevent]; rfl
  | error message | close message | abort =>
    obtain rfl := Option.some.inj hstep
    unfold SocketReader.listen
    split_ifs <;> exact hr
  | resume =>
    rw [SocketReader.step] at hstep
    split_ifs at hstep
    obtain rfl := Option.some.inj hstep
    unfold SocketReader.resume
    split
    · exact hr
    · split
      · next hqueue =>
        rw [hqueue] at hr
        simpa using hr
      · split_ifs <;> exact hr

end Reader

def eventSettings : CodexSettings where
  stream :=
    { calculateCost := fun _ => EMPTY_USAGE.cost
      applyServiceTierPricing := fun cost _ => cost
      resolveServiceTier := fun tier _ => tier
      serviceTier := none
      parseIncomplete := fun _ => none }
  readContent _ := .other
  syntaxError text := text

def overtaken (first second : Decoded) : List SocketAction :=
  [.receive first, .receive second, .decode 1, .decode 0, .resume, .resume]

theorem events_conserved_overtaken :
    let first : Decoded := .ok (some (js "[]"))
    let second : Decoded := .ok (some (js "\x7b\x7d"))
    ∃ r, run (SocketReader.step eventSettings) .initial (overtaken first second) = some r ∧
      r.yielded ++ r.socket.queue ++ r.decoding.filterMap (eventOf eventSettings) ~
        r.received.filterMap (eventOf eventSettings) := by
  intro first second
  exact ⟨_, rfl, events_conserved ⟨overtaken first second, rfl⟩⟩

theorem run_overtaken {settings : CodexSettings} {first second : Decoded} {event event' : Json}
    (hfirst : eventOf settings first = some event)
    (hsecond : eventOf settings second = some event') :
    ∃ r, run (SocketReader.step settings) .initial (overtaken first second) = some r ∧
      r.yielded = [event', event] ∧ r.received = [first, second] := by
  have hqueue : (onDecoded settings (onDecoded settings .initial second) first).queue =
      [event', event] := by
    rw [onDecoded_queue, onDecoded_queue, hfirst, hsecond]
    rfl
  have haborted : (onDecoded settings (onDecoded settings .initial second) first).aborted =
      false := by
    rw [onDecoded_aborted, onDecoded_aborted]
    rfl
  generalize hs : onDecoded settings (onDecoded settings .initial second) first = s
    at hqueue haborted
  have hdecoded : run (SocketReader.step settings) .initial
      [.receive first, .receive second, .decode 1, .decode 0] =
      some ⟨s, [], [first, second], [], none⟩ := by
    rw [← hs]
    rfl
  have hrun := run_append (SocketReader.step settings) .initial
    [.receive first, .receive second, .decode 1, .decode 0] [.resume, .resume]
  rw [hdecoded, bind_some, run, resume_of_queue rfl haborted hqueue, bind_some, run,
    resume_of_queue rfl haborted rfl, bind_some, run] at hrun
  exact ⟨_, hrun, rfl, rfl⟩

def completing : Decoded := .ok (some (js "\x7b\"type\":\"response.done\"\x7d"))

end AcademicAgent.Responses.Codex
