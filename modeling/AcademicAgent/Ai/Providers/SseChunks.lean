import AcademicAgent.Ai.Providers.SseLines

/-!
# Server-sent events and chunk borders

A chunk border between a carriage return and its line feed adds an empty line, and an empty
line dispatches what is pending.
-/

namespace AcademicAgent

open List

open TextDecoder (decode decodeChunks)

inductive LineKind where
  | blank
  | event (value : JsString)
  | data (value : JsString)
  | other
  deriving DecidableEq

def lineKind (line : JsString) : LineKind :=
  if line = [] then .blank
  else if line.head? = some 0x3A then .other
  else if (sseField line).1 = js "event" then .event (sseField line).2
  else if (sseField line).1 = js "data" then .data (sseField line).2
  else .other

abbrev SseMessage := Option JsString × JsString

def ServerSentEvent.message (e : ServerSentEvent) : SseMessage := (e.event, e.data)

/-- What the lines since the last dispatch have set. -/
structure PendingEvent where
  event : Option JsString
  data : List JsString
  deriving DecidableEq

variable {s : PendingEvent} {ks : List LineKind} {named : Option JsString}

def SseDecoderState.pending (state : SseDecoderState) : PendingEvent := ⟨state.event, state.data⟩

namespace PendingEvent

def initial : PendingEvent := ⟨none, []⟩

def Nothing (s : PendingEvent) : Prop := nonEmpty s.event = none ∧ s.data = []

instance (s : PendingEvent) : Decidable s.Nothing := inferInstanceAs (Decidable (_ ∧ _))

def message (s : PendingEvent) : SseMessage := (s.event, [lf].intercalate s.data)

def read (s : PendingEvent) : LineKind → Option SseMessage × PendingEvent
  | .blank => if s.Nothing then (none, s) else (some s.message, initial)
  | .event value => (none, ⟨some value, s.data⟩)
  | .data value => (none, ⟨s.event, s.data ++ [value]⟩)
  | .other => (none, s)

def readAll (s : PendingEvent) : List LineKind → PendingEvent
  | [] => s
  | k :: ks => (s.read k).2.readAll ks

def messages (s : PendingEvent) : List LineKind → List SseMessage
  | [] => []
  | k :: ks => (s.read k).1.toList ++ (s.read k).2.messages ks

end PendingEvent

theorem decodeSseLine_pending (line : JsString) (state : SseDecoderState) :
    (decodeSseLine line state).1.map ServerSentEvent.message =
        (state.pending.read (lineKind line)).1 ∧
      (decodeSseLine line state).2.pending = (state.pending.read (lineKind line)).2 := by
  rw [decodeSseLine, lineKind]
  by_cases hblank : line = []
  · rw [if_pos hblank, if_pos hblank, PendingEvent.read, flushSseEvent]
    have hiff : (nonEmpty state.event = none ∧ state.data.length = 0) ↔ state.pending.Nothing :=
      and_congr_right fun _ => length_eq_zero_iff
    by_cases hnothing : state.pending.Nothing
    · rw [if_pos hnothing, if_pos (hiff.mpr hnothing)]
      exact ⟨rfl, rfl⟩
    · rw [if_neg hnothing, if_neg fun h => hnothing (hiff.mp h)]
      exact ⟨rfl, rfl⟩
  rw [if_neg hblank, if_neg hblank]
  by_cases hcomment : line.head? = some 0x3A
  · rw [if_pos hcomment, if_pos hcomment]
    exact ⟨rfl, rfl⟩
  rw [if_neg hcomment, if_neg hcomment]
  by_cases hevent : (sseField line).1 = js "event"
  · rw [if_pos hevent]
    dsimp only
    rw [if_pos hevent]
    exact ⟨rfl, rfl⟩
  rw [if_neg hevent]
  dsimp only
  rw [if_neg hevent]
  by_cases hdata : (sseField line).1 = js "data"
  · rw [if_pos hdata, if_pos hdata]
    exact ⟨rfl, rfl⟩
  · rw [if_neg hdata, if_neg hdata]
    exact ⟨rfl, rfl⟩

theorem decodeLines_messages (state : SseDecoderState) (lines : List JsString) :
    (decodeLines state lines).2.map ServerSentEvent.message =
      state.pending.messages (lines.map lineKind) := by
  induction lines generalizing state with
  | nil => rfl
  | cons line lines ih =>
    obtain ⟨hmessage, hpending⟩ := decodeSseLine_pending line state
    rw [decodeLines, map_cons, PendingEvent.messages, map_append, ih, hpending, ← hmessage]
    cases (decodeSseLine line state).1 <;> rfl

/-- The next message gets a name, so that it does not matter whether the event name
was unset or empty before. -/
def NextNamed (hasData : Bool) : List LineKind → Bool
  | [] => true
  | .blank :: ks => !hasData && NextNamed false ks
  | .event _ :: _ => true
  | .data _ :: ks => NextNamed true ks
  | .other :: ks => NextNamed hasData ks

/-- The lines up to the next dispatch add nothing to a message that was dispatched
early: they hold no data, and no name but one that leaves the empty name as it was.
`named` is the last name they have given so far. -/
def Silent (s : PendingEvent) (named : Option JsString) : List LineKind → Bool
  | [] => false
  | .blank :: ks =>
    named == none ||
      (named == some [] && s.event == some [] && s.data != [] && NextNamed false ks)
  | .event value :: ks => Silent s (some value) ks
  | .data _ :: _ => false
  | .other :: ks => Silent s named ks

/-- A dispatch that an empty line makes too early does not show in the messages. -/
def Unnoticed (s : PendingEvent) (ks : List LineKind) : Prop := s.Nothing ∨ Silent s none ks

instance (s : PendingEvent) (ks : List LineKind) : Decidable (Unnoticed s ks) :=
  inferInstanceAs (Decidable (_ ∨ _))

namespace PendingEvent

variable {t : PendingEvent}

/-- The two pending events are dispatched or not together, now and later. -/
def Alike (s t : PendingEvent) : Prop :=
  (s.data = [] ↔ t.data = []) ∧ (s.data = [] → (nonEmpty s.event = none ↔ nonEmpty t.event = none))

theorem Alike.nothing (h : Alike s t) : s.Nothing ↔ t.Nothing := by
  constructor
  · rintro ⟨hevent, hdata⟩
    exact ⟨(h.2 hdata).mp hevent, h.1.mp hdata⟩
  · rintro ⟨hevent, hdata⟩
    have hnil := h.1.mpr hdata
    exact ⟨(h.2 hnil).mpr hevent, hnil⟩

theorem Alike.length_messages (h : Alike s t) (ks : List LineKind) :
    (s.messages ks).length = (t.messages ks).length := by
  induction ks generalizing s t with
  | nil => rfl
  | cons k ks ih =>
    rw [messages, messages, length_append, length_append]
    cases k with
    | blank =>
      by_cases hnothing : s.Nothing
      · rw [read, read, if_pos hnothing, if_pos (h.nothing.mp hnothing)]
        exact congrArg _ (ih h)
      · rw [read, read, if_neg hnothing, if_neg fun ht => hnothing (h.nothing.mpr ht)]
        rfl
    | event value => exact congrArg _ (ih ⟨h.1, fun _ => Iff.rfl⟩)
    | data value =>
      have hs : s.data ++ [value] ≠ [] := append_ne_nil_of_right_ne_nil _ (cons_ne_nil _ _)
      have ht : t.data ++ [value] ≠ [] := append_ne_nil_of_right_ne_nil _ (cons_ne_nil _ _)
      exact congrArg _ (ih ⟨iff_of_false hs ht, fun hnil => absurd hnil hs⟩)
    | other => exact congrArg _ (ih h)

theorem nextNamed_of_messages {data : List JsString}
    (h : messages ⟨some [], data⟩ ks = messages ⟨none, data⟩ ks) :
    NextNamed (!data.isEmpty) ks = true := by
  induction ks generalizing data with
  | nil => rfl
  | cons k ks ih =>
    cases k with
    | blank =>
      cases data with
      | nil => exact ih h
      | cons value data => exact absurd (List.cons.inj h).1 (by simp [message])
    | event value => rfl
    | data value =>
      have hnamed := ih h
      cases data <;> exact hnamed
    | other => exact ih h

theorem silent_of_messages
    (h : s.message :: messages ⟨named, []⟩ ks = messages ⟨named.or s.event, s.data⟩ ks) :
    Silent s named ks = true := by
  induction ks generalizing named with
  | nil => contradiction
  | cons k ks ih =>
    cases k with
    | event value => exact ih h
    | other => exact ih h
    | data value =>
      -- the data behind the dispatch make a message of their own
      have hlength := congrArg length h
      have hfull (event : Option JsString) (data : List JsString) :
          (messages ⟨event, data ++ [value]⟩ ks).length = (messages ⟨named, [value]⟩ ks).length := by
        have hne : data ++ [value] ≠ [] :=
          append_ne_nil_of_right_ne_nil _ (cons_ne_nil _ _)
        exact Alike.length_messages ⟨iff_of_false hne (cons_ne_nil _ _),
          fun hnil => absurd hnil hne⟩ ks
      have hleft : messages ⟨named, []⟩ (.data value :: ks) = messages ⟨named, [value]⟩ ks := rfl
      have hright : messages ⟨named.or s.event, s.data⟩ (.data value :: ks) =
          messages ⟨named.or s.event, s.data ++ [value]⟩ ks := rfl
      rw [length_cons, hleft, hright, hfull] at hlength
      omega
    | blank =>
      cases named with
      | none => rfl
      | some name =>
        cases name with
        | cons c name =>
          -- the name behind the dispatch makes a message of its own
          have hlength := congrArg length h
          have hleft : messages ⟨some (c :: name), []⟩ (.blank :: ks) =
              (some (c :: name), []) :: messages initial ks := rfl
          have hright : messages ⟨(some (c :: name)).or s.event, s.data⟩ (.blank :: ks) =
              (some (c :: name), [lf].intercalate s.data) :: messages initial ks := rfl
          rw [hleft, hright] at hlength
          simp only [length_cons] at hlength
          omega
        | nil =>
          have hleft : messages ⟨some [], []⟩ (.blank :: ks) = messages ⟨some [], []⟩ ks := rfl
          rw [hleft] at h
          cases hdata : s.data with
          | nil =>
            have hlength := congrArg length h
            have hright : messages ⟨(some []).or s.event, s.data⟩ (.blank :: ks) =
                messages ⟨some [], []⟩ ks := by
              rw [hdata]
              rfl
            rw [length_cons, hright] at hlength
            omega
          | cons value data =>
            have hright : messages ⟨(some []).or s.event, s.data⟩ (.blank :: ks) =
                (some [], [lf].intercalate s.data) :: messages initial ks := by
              rw [hdata]
              rfl
            rw [hright] at h
            obtain ⟨hmessage, hrest⟩ := List.cons.inj h
            have hevent : s.event = some [] := congrArg Prod.fst hmessage
            have hnamed : NextNamed false ks = true := nextNamed_of_messages hrest
            simp [Silent, hevent, hdata, hnamed]

theorem not_silent_of_named (hs : s.event ≠ some []) {value : JsString} :
    Silent s (some value) ks ≠ true := by
  induction ks generalizing value with
  | nil => exact Bool.false_ne_true
  | cons k ks ih =>
    cases k with
    | blank => simp [Silent, hs]
    | event value => exact ih
    | data value => exact Bool.false_ne_true
    | other => exact ih

theorem not_silent_of_silent (ht : t.event ≠ some []) {value : JsString} (hvalue : value ≠ [])
    (h : Silent t none ks = true) : Silent s (some value) ks ≠ true := by
  induction ks with
  | nil => exact Bool.false_ne_true
  | cons k ks ih =>
    cases k with
    | blank => simp [Silent, hvalue]
    | event value => exact absurd h (not_silent_of_named ht)
    | data value => exact Bool.false_ne_true
    | other => exact ih h

theorem not_nextNamed_of_silent (hs : s.event ≠ some []) (h : Silent s none ks = true) :
    NextNamed true ks ≠ true := by
  induction ks with
  | nil => contradiction
  | cons k ks ih =>
    cases k with
    | blank => exact Bool.false_ne_true
    | event value => exact absurd h (not_silent_of_named hs)
    | data value => contradiction
    | other => exact ih h

end PendingEvent

/-- An empty line behind a marked line goes unnoticed, wherever one stands. -/
def AllUnnoticed (s : PendingEvent) : List (LineKind × Bool) → Prop
  | [] => True
  | (k, mark) :: ms =>
    (mark = true → Unnoticed (s.read k).2 (ms.map Prod.fst)) ∧ AllUnnoticed (s.read k).2 ms

namespace PendingEvent

/-- What the messages with added lines are, from the same pending event, from the empty
name where there is none, and behind an early dispatch. -/
structure Follows (ms : List (LineKind × Bool)) (ks : List LineKind) : Prop where
  same : ∀ s, AllUnnoticed s ms → messages s ks = messages s (ms.map Prod.fst)
  unnamed : ∀ data, AllUnnoticed ⟨none, data⟩ ms →
    NextNamed (!data.isEmpty) (ms.map Prod.fst) = true →
      messages ⟨some [], data⟩ ks = messages ⟨none, data⟩ (ms.map Prod.fst)
  early : ∀ s named, ¬ Nothing s → AllUnnoticed ⟨named.or s.event, s.data⟩ ms →
    Silent s named (ms.map Prod.fst) = true →
      s.message :: messages ⟨named, []⟩ ks = messages ⟨named.or s.event, s.data⟩ (ms.map Prod.fst)

theorem messages_cons (s : PendingEvent) (k : LineKind) (ks : List LineKind) :
    messages s (k :: ks) = (s.read k).1.toList ++ messages (s.read k).2 ks := rfl

theorem messages_blank_of_nothing (hs : s.Nothing) (ks : List LineKind) :
    messages s (.blank :: ks) = messages s ks := by
  rw [messages_cons, read, if_pos hs]
  rfl

theorem messages_blank_of_not_nothing (hs : ¬ s.Nothing) (ks : List LineKind) :
    messages s (.blank :: ks) = s.message :: messages initial ks := by
  rw [messages_cons, read, if_neg hs]
  rfl

theorem Follows.blank {ms : List (LineKind × Bool)} (h : Follows ms ks) (hs : AllUnnoticed s ms)
    (hunnoticed : Unnoticed s (ms.map Prod.fst)) :
    messages s (.blank :: ks) = messages s (ms.map Prod.fst) := by
  by_cases hnothing : s.Nothing
  · rw [messages_blank_of_nothing hnothing, h.same s hs]
  · have hsilent : Silent s none (ms.map Prod.fst) = true := hunnoticed.resolve_left hnothing
    rw [messages_blank_of_not_nothing hnothing]
    exact h.early s none hnothing hs hsilent

section

variable {ms : List (LineKind × Bool)}

theorem Follows.dispatch (h : Follows ms ks) (hs : ¬ s.Nothing)
    (hms : AllUnnoticed (read ⟨named.or s.event, s.data⟩ .blank).2 ms)
    (hsilent : Silent s named (.blank :: ms.map Prod.fst) = true) :
    s.message :: messages ⟨named, []⟩ ks =
        messages ⟨named.or s.event, s.data⟩ (.blank :: ms.map Prod.fst) ∧
      Nothing ⟨named, []⟩ := by
  cases named with
  | none =>
    have hwhole : (⟨none.or s.event, s.data⟩ : PendingEvent) = s := rfl
    rw [hwhole] at hms ⊢
    rw [read, if_neg hs] at hms
    refine ⟨?_, rfl, rfl⟩
    rw [messages_blank_of_not_nothing hs, ← h.same initial hms]
    rfl
  | some name =>
    simp only [Silent, Bool.or_eq_true, Bool.and_eq_true, beq_iff_eq, reduceCtorEq, false_or,
      Option.some.injEq, bne_iff_ne, ne_eq] at hsilent
    obtain ⟨⟨⟨rfl, hevent⟩, hdata⟩, hnamed⟩ := hsilent
    have hwhole : (⟨(some []).or s.event, s.data⟩ : PendingEvent) = s := by
      rw [← hevent, Option.or_self]
    rw [hwhole] at hms ⊢
    rw [read, if_neg hs] at hms
    refine ⟨?_, rfl, rfl⟩
    rw [messages_blank_of_not_nothing hs, h.unnamed [] hms hnamed]
    rfl

theorem Follows.keep {ks : List LineKind} (h : Follows ms ks)
    (k : LineKind) (mark : Bool) : Follows ((k, mark) :: ms) (k :: ks) where
  same s hs := by
    rw [map_cons, messages_cons, messages_cons, h.same _ hs.2]
  unnamed data hdata hnamed := by
    cases k with
    | blank =>
      cases data with
      | nil => exact h.unnamed [] hdata.2 hnamed
      | cons value data => contradiction
    | event value => exact h.same _ hdata.2
    | data value =>
      refine h.unnamed (data ++ [value]) hdata.2 ?_
      cases data <;> exact hnamed
    | other => exact h.unnamed data hdata.2 hnamed
  early s named hs hms hsilent := by
    cases k with
    | blank =>
      obtain ⟨hmessages, hnothing⟩ := h.dispatch hs hms.2 hsilent
      rw [messages_blank_of_nothing hnothing]
      exact hmessages
    | event value => exact h.early s (some value) hs hms.2 hsilent
    | data value => contradiction
    | other => exact h.early s named hs hms.2 hsilent

theorem nothing_of_unnoticed (hsilent : Silent s named ks = true)
    (hunnoticed : Unnoticed ⟨named.or s.event, s.data⟩ ks) : Nothing ⟨named, []⟩ := by
  cases named with
  | none => exact ⟨rfl, rfl⟩
  | some value =>
    by_cases hvalue : value = []
    · subst hvalue
      exact ⟨rfl, rfl⟩
    · rcases hunnoticed with hnothing | hrest
      · have hevent : nonEmpty (some value) = none := hnothing.1
        rw [nonEmpty, if_neg hvalue] at hevent
        contradiction
      · have hne : (PendingEvent.mk ((some value).or s.event) s.data).event ≠ some [] :=
          fun h => hvalue (Option.some.inj h)
        exact absurd hsilent (not_silent_of_silent hne hvalue hrest)

theorem Follows.add (h : Follows ms ks) (k : LineKind) :
    Follows ((k, true) :: ms) (k :: .blank :: ks) where
  same s hs := by
    rw [map_cons, messages_cons s, messages_cons s, h.blank hs.2 (hs.1 rfl)]
  unnamed data hdata hnamed := by
    have hempty : Nothing ⟨some [], []⟩ := ⟨rfl, rfl⟩
    have hno (data : List JsString) (hne : data ≠ [])
        (hunnoticed : Unnoticed ⟨none, data⟩ (ms.map Prod.fst)) :
        NextNamed true (ms.map Prod.fst) ≠ true :=
      not_nextNamed_of_silent (Option.some_ne_none []).symm
        (hunnoticed.resolve_left fun hnothing => hne hnothing.2)
    cases k with
    | blank =>
      cases data with
      | nil =>
        have hrest := h.unnamed [] hdata.2 hnamed
        rw [← messages_blank_of_nothing hempty] at hrest
        exact hrest
      | cons value data => contradiction
    | event value => exact h.blank hdata.2 (hdata.1 rfl)
    | data value =>
      refine absurd ?_ (hno (data ++ [value])
        (append_ne_nil_of_right_ne_nil _ (cons_ne_nil _ _)) (hdata.1 rfl))
      cases data <;> exact hnamed
    | other =>
      cases data with
      | nil =>
        have hrest := h.unnamed [] hdata.2 hnamed
        rw [← messages_blank_of_nothing hempty] at hrest
        exact hrest
      | cons value data => exact absurd hnamed (hno _ (cons_ne_nil _ _) (hdata.1 rfl))
  early s named hs hms hsilent := by
    cases k with
    | blank =>
      obtain ⟨hmessages, hnothing⟩ := h.dispatch hs hms.2 hsilent
      rw [messages_blank_of_nothing hnothing, messages_blank_of_nothing hnothing]
      exact hmessages
    | event value =>
      have hrest := h.early s (some value) hs hms.2 hsilent
      have hnothing : Nothing ⟨some value, []⟩ := nothing_of_unnoticed hsilent (hms.1 rfl)
      rw [← messages_blank_of_nothing hnothing] at hrest
      exact hrest
    | data value => contradiction
    | other =>
      have hnothing : Nothing ⟨named, []⟩ := nothing_of_unnoticed hsilent (hms.1 rfl)
      have hrest := h.early s named hs hms.2 hsilent
      rw [← messages_blank_of_nothing hnothing] at hrest
      exact hrest

theorem follows_of_added (h : Added .blank ms ks) : Follows ms ks := by
  induction h with
  | nil => exact ⟨fun _ _ => rfl, fun _ _ _ => rfl, fun _ _ _ _ hsilent => by contradiction⟩
  | keep k mark _ ih => exact ih.keep k mark
  | add k _ ih => exact ih.add k

end

theorem messages_append (s : PendingEvent) (xs ys : List LineKind) :
    messages s (xs ++ ys) = messages s xs ++ messages (s.readAll xs) ys := by
  induction xs generalizing s with
  | nil => rfl
  | cons k xs ih =>
    rw [cons_append, messages_cons, ih, messages_cons, append_assoc]
    rfl

theorem unnoticed_of_messages (h : messages s (.blank :: ks) = messages s ks) : Unnoticed s ks := by
  by_cases hnothing : s.Nothing
  · exact .inl hnothing
  · rw [messages_blank_of_not_nothing hnothing] at h
    exact .inr (silent_of_messages h)

end PendingEvent

/-- The messages of a body that is read to its end. -/
def sseMessages (chunks : List (List UInt8)) : List SseMessage :=
  (iterateSseMessages (fun _ => false) ⟨chunks, none⟩).1.map ServerSentEvent.message

/-- At every line end of two units, what is pending behind the line can be dispatched
without a difference to the messages. -/
def LineEndsUnnoticed (text : JsString) : Prop :=
  ∀ before after, pieces text = before ++ .crlf :: after →
    Unnoticed (PendingEvent.initial.readAll ((closedLines [] before).map lineKind))
      ((bodyLines [] after).map lineKind)

theorem sseMessages_eq (chunks : List (List UInt8)) :
    sseMessages chunks = PendingEvent.initial.messages
      ((bodyLines [] ((decodeChunks chunks).flatMap pieces)).map lineKind) := by
  rw [sseMessages, iterateSseMessages_eq, decodeLines_messages]
  rfl

theorem allUnnoticed_markedLines {line : JsString} {ps : List Piece}
    (h : ∀ before after, ps = before ++ .crlf :: after → Unnoticed (s.readAll ((closedLines line before).map lineKind)) ((bodyLines [] after).map lineKind))
    : AllUnnoticed s ((markedLines line ps).map (Prod.map lineKind id)) := by
  have hunmarked (s : PendingEvent) (lines : List JsString) :
      AllUnnoticed s ((lines.map fun line => (line, false)).map (Prod.map lineKind id)) := by
    induction lines generalizing s with
    | nil => trivial
    | cons line lines ih => exact ⟨fun hmark => by contradiction, ih _⟩
  have hkinds (ps : List Piece) : ((markedLines [] ps).map (Prod.map lineKind id)).map Prod.fst =
        (bodyLines [] ps).map lineKind := by
    rw [← map_fst_markedLines, map_map, map_map]
    rfl
  induction ps generalizing line s with
  | nil =>
    rw [markedLines]
    split
    · exact hunmarked s [[]]
    · exact hunmarked s [line, []]
  | cons piece ps ih =>
    rw [markedLines]
    by_cases hpiece : piece.isLineEnd
    · rw [if_pos hpiece]
      refine ⟨fun hmark => ?_, ih fun before after hps => ?_⟩
      · have hcrlf : piece = .crlf := of_decide_eq_true hmark
        have hfirst := h [] ps (by rw [hcrlf, nil_append])
        rw [hkinds]
        exact hfirst
      · have hrest := h (piece :: before) after (by rw [hps, cons_append])
        rw [closedLines_cons, if_pos hpiece] at hrest
        exact hrest
    · rw [if_neg hpiece]
      refine ih fun before after hps => ?_
      have hrest := h (piece :: before) after (by rw [hps, cons_append])
      rw [closedLines_cons, if_neg hpiece] at hrest
      exact hrest

theorem sseMessages_of_unnoticed {chunks : List (List UInt8)}
    (h : LineEndsUnnoticed (decode chunks.flatten)) :
    sseMessages chunks = PendingEvent.initial.messages
      ((bodyLines [] (pieces (decode chunks.flatten))).map lineKind) := by
  have hcuts := cuts_flatten (decodeChunks chunks)
  rw [TextDecoder.flatten_decodeChunks] at hcuts
  have hadded := (hcuts.added []).map lineKind
  have hsame := (PendingEvent.follows_of_added hadded).same .initial (allUnnoticed_markedLines h)
  rw [sseMessages_eq, hsame, ← map_fst_markedLines, map_map, map_map]
  rfl

theorem pieces_decodeChunks_singleton (bytes : List UInt8) :
    (decodeChunks [bytes]).flatMap pieces = pieces (decode bytes) := by
  have hchunks : decodeChunks [bytes] = [(TextDecoder.transducer.feed .new bytes).2,
        (TextDecoder.transducer.feed .new bytes).1.flush] := rfl
  rw [hchunks, decode, pieces_append fun h => TextDecoder.flush_head _ h.2]
  simp only [flatMap_cons, flatMap_nil, append_nil]

/-- The messages of a body do not depend on how it is cut into chunks exactly when
every line end of two units goes unnoticed. -/
theorem sseMessages_independent_iff (bytes : List UInt8) :
    (∀ chunks others : List (List UInt8), chunks.flatten = bytes → others.flatten = bytes →
        sseMessages chunks = sseMessages others) ↔
      LineEndsUnnoticed (decode bytes) := by
  constructor
  · intro hsame before after hpieces
    have hbefore := (pieces_piecesText hpieces).1
    have hafter : pieces (piecesText after) = after := by
      rw [← singleton_append, ← append_assoc] at hpieces
      exact (pieces_piecesText hpieces).2
    have htext : decode bytes = piecesText before ++ cr :: lf :: piecesText after := by
      rw [← piecesText_pieces (decode bytes), hpieces]
      simp only [piecesText, flatMap_append, flatMap_cons]
      rfl
    obtain ⟨first, second, hbytes, text, rest, hchunks, hrest, hhead⟩ :=
      TextDecoder.decodeChunks_cut htext
    have hcut : (decodeChunks [first, second]).flatMap pieces =
        before ++ .unit cr :: .unit lf :: after := by
      have hjoin : pieces text ++ pieces rest = .unit lf :: after := by
        rw [← pieces_append fun h => hhead h.2, hrest, pieces_lf_cons, hafter]
      rw [hchunks, flatMap_cons, flatMap_cons, flatMap_singleton, hjoin,
        pieces_append_cr, hbefore, append_assoc]
      rfl
    have hmessages := hsame [first, second] [bytes]
      (by rw [hbytes, flatten_cons, flatten_singleton]) flatten_singleton
    have hcr : (Piece.unit cr).isLineEnd := rfl
    have hlf : (Piece.unit lf).isLineEnd := rfl
    have hcrlf : Piece.crlf.isLineEnd := rfl
    rw [sseMessages_eq, sseMessages_eq, hcut, pieces_decodeChunks_singleton, hpieces,
      bodyLines_append [] before hcr, bodyLines_append [] before hcrlf, bodyLines_cons, if_pos hlf,
      map_append, map_append, PendingEvent.messages_append,
      PendingEvent.messages_append] at hmessages
    exact PendingEvent.unnoticed_of_messages (append_cancel_left hmessages)
  · intro h chunks others hchunks hothers
    rw [← hchunks] at h
    have hsame : chunks.flatten = others.flatten := hchunks.trans hothers.symm
    rw [sseMessages_of_unnoticed h, sseMessages_of_unnoticed (hsame ▸ h), hsame]

/-- An event with both units at its line ends falls apart when a chunk ends between
them. -/
theorem sseMessages_split_crlf :
    sseMessages [[0x65, 0x76, 0x65, 0x6E, 0x74, 0x3A, 0x61, 0x0D, 0x0A, 0x64, 0x61, 0x74, 0x61, 0x3A,
        0x62, 0x0D, 0x0A, 0x0D, 0x0A]] = [(some (js "a"), js "b")] ∧
      sseMessages [[0x65, 0x76, 0x65, 0x6E, 0x74, 0x3A, 0x61, 0x0D], [0x0A, 0x64, 0x61, 0x74, 0x61,
        0x3A, 0x62, 0x0D, 0x0A, 0x0D, 0x0A]] = [(some (js "a"), []), (none, js "b")] := by
  exact ⟨by decide, by decide⟩

end AcademicAgent
