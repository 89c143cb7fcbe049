import AcademicAgent.Ai.Providers.AnthropicStream
import Mathlib.Data.List.Nodup

/-!
# Assembled blocks

Blocks may interleave in a stream, but the events with one index act on one block only.
-/

namespace AcademicAgent

open List ContentBlockDelta
open Option (map_some some.inj)

variable {events : List RawMessageStreamEvent} {s : StreamState} {event : RawMessageStreamEvent}
  {i : Nat}

namespace RawMessageStreamEvent

/-- The index of the block that an event is about. -/
def blockIndex? : RawMessageStreamEvent → Option Nat
  | contentBlockStart index _ | contentBlockDelta index _ | contentBlockStop index => some index
  | messageStart _ _ | messageDelta _ _ | messageStop => none

def start? : RawMessageStreamEvent → Option (Nat × ContentBlockStart)
  | contentBlockStart index contentBlock => some (index, contentBlock)
  | _ => none

def delta? (i : Nat) : RawMessageStreamEvent → Option ContentBlockDelta
  | contentBlockDelta index delta => if index = i then some delta else none
  | _ => none

def isHandled : RawMessageStreamEvent → Bool
  | messageDelta stopReason _ =>
    match nonEmpty stopReason with
    | some reason => (mapStopReason reason).isOk
    | none => true
  | _ => true

end RawMessageStreamEvent

open RawMessageStreamEvent

section

variable (events : List RawMessageStreamEvent)

/-- The events that are about one block, in order. -/
def eventsOf (i : Nat) : List RawMessageStreamEvent :=
  events.filter fun event => event.blockIndex? = some i

/-- Each block is started once, receives any deltas and is stopped. -/
def BlocksComplete : Prop :=
  ∀ i, eventsOf events i = [] ∨ ∃ (contentBlock : ContentBlockStart) (deltas : List ContentBlockDelta),
    eventsOf events i = contentBlockStart i contentBlock ::
      (deltas.map (contentBlockDelta i) ++ [contentBlockStop i])

/-- The blocks of a stream in the order of their starts. -/
def startsOf : List (Nat × ContentBlockStart) :=
  events.filterMap start?

def deltasOf (i : Nat) : List ContentBlockDelta :=
  events.filterMap (delta? i)

end

namespace ContentBlockDelta

def text? : ContentBlockDelta → Option JsString
  | .text content => some content
  | _ => none

def thinking? : ContentBlockDelta → Option JsString
  | .thinking content => some content
  | _ => none

def inputJson? : ContentBlockDelta → Option JsString
  | .inputJson content => some content
  | _ => none

def signature? : ContentBlockDelta → Option JsString
  | .signature content => some content
  | _ => none

end ContentBlockDelta

section Assembly

variable (settings : StreamSettings)

/-- The arguments of a call: the parsed concatenation of its deltas, or the input given at
the start when there are none. -/
def callArguments (input : Option Json) (deltas : List ContentBlockDelta) : Json :=
  if deltas.filterMap ContentBlockDelta.inputJson? = [] then input.getD .emptyObject
  else
    parseStreamingJson settings.parseIncomplete
      (deltas.filterMap ContentBlockDelta.inputJson?).flatten

section

variable (arguments : Json) (deltas : List ContentBlockDelta)

/-- The block of a start and its deltas, with the arguments of a call. -/
def assembledBlock :
    ContentBlockStart → AssistantBlock
  | .text => .text { text := (deltas.filterMap ContentBlockDelta.text?).flatten }
  | .thinking =>
    .thinking
      { thinking := (deltas.filterMap ContentBlockDelta.thinking?).flatten
        thinkingSignature := some (deltas.filterMap ContentBlockDelta.signature?).flatten }
  | .redactedThinking data =>
    .thinking
      { thinking := REASONING_REDACTED ++ (deltas.filterMap ContentBlockDelta.thinking?).flatten
        thinkingSignature := some (data ++ (deltas.filterMap ContentBlockDelta.signature?).flatten)
        redacted := some true }
  | .toolUse id name _ => .toolCall { id, name := settings.toolName name, arguments }

/-- The updates of a block: its start, its deltas, and its end with what it became. -/
def assembledUpdates :
    ContentBlockStart → List UpdateKind
  | .text =>
    .textStart :: ((deltas.filterMap ContentBlockDelta.text?).map .textDelta ++
      [.textEnd (deltas.filterMap ContentBlockDelta.text?).flatten])
  | .thinking =>
    .thinkingStart :: ((deltas.filterMap ContentBlockDelta.thinking?).map .thinkingDelta ++
      [.thinkingEnd (deltas.filterMap ContentBlockDelta.thinking?).flatten])
  | .redactedThinking _ =>
    .thinkingStart :: ((deltas.filterMap ContentBlockDelta.thinking?).map .thinkingDelta ++
      [.thinkingEnd
        (REASONING_REDACTED ++ (deltas.filterMap ContentBlockDelta.thinking?).flatten)])
  | .toolUse id name _ =>
    .toolcallStart :: ((deltas.filterMap ContentBlockDelta.inputJson?).map .toolcallDelta ++
      [.toolcallEnd { id, name := settings.toolName name, arguments }])

end

/-- The arguments a start and its deltas call for; only a call has any. -/
def startArguments (deltas : List ContentBlockDelta) : ContentBlockStart → Json
  | .toolUse _ _ input => callArguments settings input deltas
  | .text | .thinking | .redactedThinking _ => .emptyObject

/-- The message has one block for each start, each with what its deltas say; the updates
with its place are its own; no scratch field is left. -/
structure FaithfullyAssembled (events : List RawMessageStreamEvent) (result : StreamResult) :
    Prop where
  blocks : result.message.content.map Block.content = (startsOf events).map fun p =>
    assembledBlock settings (startArguments settings (deltasOf events p.1) p.2)
      (deltasOf events p.1) p.2
  updates : ∀ k, (result.updates.filter fun update => update.contentIndex = k).map
      BlockUpdate.kind =
    match (startsOf events)[k]? with
    | some p => assembledUpdates settings (startArguments settings (deltasOf events p.1) p.2)
        (deltasOf events p.1) p.2
    | none => []
  clean : ∀ block ∈ result.message.content, block.index = none ∧ block.partialJson = none

/-- What an event of a block does to the block and to its updates. -/
def partStep (part : Block × List UpdateKind) : RawMessageStreamEvent → Block × List UpdateKind
  | contentBlockDelta _ delta =>
    match applyDelta settings part.1 delta with
    | some (block, kind) => (block, part.2 ++ kind.toList)
    | none => part
  | contentBlockStop _ =>
    ((stopBlock settings part.1).1, part.2 ++ [(stopBlock settings part.1).2])
  | _ => part

section

variable (p : Nat × ContentBlockStart) (events : List RawMessageStreamEvent)

/-- A block with its updates, after some of its events. -/
def partOf : Block × List UpdateKind :=
  events.foldl (partStep settings)
    ((startBlock settings p.1 p.2).1, [(startBlock settings p.1 p.2).2])

def openBlock (i : Nat) (deltas : List ContentBlockDelta) : ContentBlockStart → Block
  | .toolUse id name input =>
    ⟨assembledBlock settings (callArguments settings input deltas) deltas (.toolUse id name input),
      some i, some (deltas.filterMap ContentBlockDelta.inputJson?).flatten⟩
  | contentBlock => ⟨assembledBlock settings .emptyObject deltas contentBlock, some i, none⟩

def openUpdates (deltas : List ContentBlockDelta) : ContentBlockStart → List UpdateKind
  | .text => .textStart :: (deltas.filterMap ContentBlockDelta.text?).map .textDelta
  | .thinking | .redactedThinking _ =>
    .thinkingStart :: (deltas.filterMap ContentBlockDelta.thinking?).map .thinkingDelta
  | .toolUse _ _ _ =>
    .toolcallStart :: (deltas.filterMap ContentBlockDelta.inputJson?).map .toolcallDelta

theorem partStep_delta (i : Nat) (deltas : List ContentBlockDelta) (delta : ContentBlockDelta)
    (contentBlock : ContentBlockStart) :
    partStep settings (openBlock settings i deltas contentBlock, openUpdates deltas contentBlock)
        (contentBlockDelta i delta) =
      (openBlock settings i (deltas ++ [delta]) contentBlock,
        openUpdates (deltas ++ [delta]) contentBlock) := by
  cases contentBlock <;> cases delta <;>
    simp [partStep, openBlock, openUpdates, assembledBlock, applyDelta, callArguments,
      filterMap_append, filterMap_cons, text?,
      thinking?, inputJson?, signature?]

theorem partOf_deltas (i : Nat) (contentBlock : ContentBlockStart)
    (deltas : List ContentBlockDelta) :
    partOf settings (i, contentBlock) (deltas.map (contentBlockDelta i)) =
      (openBlock settings i deltas contentBlock, openUpdates deltas contentBlock) := by
  induction deltas using reverseRecOn with
  | nil =>
    cases contentBlock with
    | text => rfl
    | thinking => rfl
    | toolUse id name input => rfl
    | redactedThinking data =>
      simp only [partOf, startBlock, openBlock, openUpdates, assembledBlock, map_nil,
        filterMap_nil, flatten_nil, append_nil, foldl_nil]
  | append_singleton deltas delta ih =>
    rw [map_append, map_singleton, partOf, foldl_append, ← partOf, ih,
      foldl_cons, foldl_nil, partStep_delta]

def stoppedArguments (deltas : List ContentBlockDelta) : ContentBlockStart → Json
  | .toolUse _ _ _ =>
    parseStreamingJson settings.parseIncomplete
      (deltas.filterMap ContentBlockDelta.inputJson?).flatten
  | .text | .thinking | .redactedThinking _ => .emptyObject

theorem partOf_stopped (i : Nat) (contentBlock : ContentBlockStart)
    (deltas : List ContentBlockDelta) : partOf settings (i, contentBlock)
        (contentBlockStart i contentBlock ::
          (deltas.map (contentBlockDelta i) ++ [contentBlockStop i])) =
      (⟨assembledBlock settings (stoppedArguments settings deltas contentBlock) deltas contentBlock,
          none, none⟩,
        assembledUpdates settings (stoppedArguments settings deltas contentBlock) deltas
          contentBlock) := by
  have hdeltas := partOf_deltas settings i contentBlock deltas
  rw [partOf] at hdeltas ⊢
  have hstart (part : Block × List UpdateKind) :
      partStep settings part (contentBlockStart i contentBlock) = part := rfl
  rw [foldl_cons, hstart, foldl_append, hdeltas, foldl_cons, foldl_nil, partStep]
  cases contentBlock with
  | text => rfl
  | thinking => rfl
  | redactedThinking data => rfl
  | toolUse id name input => rfl

theorem partOf_index :
    (partOf settings p events).1.index = some p.1 ∨ (partOf settings p events).1.index = none := by
  induction events using reverseRecOn with
  | nil =>
    obtain ⟨i, contentBlock⟩ := p
    cases contentBlock <;> exact .inl rfl
  | append_singleton events event ih =>
    rw [partOf, foldl_append, ← partOf, foldl_cons, foldl_nil]
    generalize partOf settings p events = part at ih
    obtain ⟨⟨content, index, json⟩, kinds⟩ := part
    cases event with
    | contentBlockDelta i delta =>
      cases content <;> cases delta <;> exact ih
    | contentBlockStop i =>
      refine .inr ?_
      cases content <;> rfl
    | messageStart id usage => exact ih
    | contentBlockStart i contentBlock => exact ih
    | messageDelta stopReason usage => exact ih
    | messageStop => exact ih

end

/-- The state of the assembly after some events: every started block is what its events
so far make of it, and nothing else was reported. -/
structure Assembling (events : List RawMessageStreamEvent) (s : StreamState) : Prop where
  nodup : ((startsOf events).map Prod.fst).Nodup
  started : ∀ i, i ∈ (startsOf events).map Prod.fst ↔ eventsOf events i ≠ []
  content : s.output.content =
    (startsOf events).map fun p => (partOf settings p (eventsOf events p.1)).1
  updates : ∀ k, (s.updates.filter fun update => update.contentIndex = k).map BlockUpdate.kind =
    match (startsOf events)[k]? with
    | some p => (partOf settings p (eventsOf events p.1)).2
    | none => []

theorem Assembling.place_unique (h : Assembling settings events s) {j k : Nat}
    {q p : Nat × ContentBlockStart} (hj : (startsOf events)[j]? = some q)
    (hk : (startsOf events)[k]? = some p) (heq : q.1 = p.1) : j = k := by
  have hlt : j < ((startsOf events).map Prod.fst).length := by
    rw [length_map]
    exact (List.getElem?_eq_some_iff.mp hj).1
  apply (getElem?_inj hlt h.nodup).mp
  rw [getElem?_map, getElem?_map, hj, hk, map_some, map_some, heq]

theorem eventsOf_append (events more : List RawMessageStreamEvent) (i : Nat) :
    eventsOf (events ++ more) i = eventsOf events i ++ eventsOf more i :=
  filter_append ..

theorem eventsOf_singleton_self (h : event.blockIndex? = some i) : eventsOf [event] i = [event] :=
  filter_cons_of_pos (decide_eq_true h)

theorem eventsOf_singleton_ne (h : event.blockIndex? ≠ some i) : eventsOf [event] i = [] :=
  filter_cons_of_neg (by simpa only [decide_eq_true_eq] using h)

theorem BlocksComplete.event_cases {more : List RawMessageStreamEvent}
    (h : BlocksComplete (events ++ event :: more)) (hi : event.blockIndex? = some i) :
    (∃ contentBlock, event = contentBlockStart i contentBlock ∧ eventsOf events i = []) ∨
      ∃ (contentBlock : ContentBlockStart) (deltas : List ContentBlockDelta),
        eventsOf events i = contentBlockStart i contentBlock :: deltas.map (contentBlockDelta i) ∧
          ((∃ delta, event = contentBlockDelta i delta) ∨ event = contentBlockStop i) := by
  have hsplit : eventsOf (events ++ event :: more) i =
      eventsOf events i ++ event :: eventsOf more i := by
    rw [show event :: more = [event] ++ more from rfl, eventsOf_append, eventsOf_append,
      eventsOf_singleton_self hi]
    rfl
  rcases h i with hnone | ⟨contentBlock, deltas, hall⟩
  · rw [hsplit] at hnone
    simp at hnone
  · rw [hsplit] at hall
    cases hbefore : eventsOf events i with
    | nil =>
      rw [hbefore, nil_append] at hall
      exact .inl ⟨contentBlock, (List.cons.inj hall).1, rfl⟩
    | cons first rest =>
      rw [hbefore, cons_append] at hall
      obtain ⟨rfl, hrest⟩ := List.cons.inj hall
      refine .inr ⟨contentBlock, ?_⟩
      rcases append_eq_append_iff.mp hrest with ⟨gap, hgap, hevent⟩ | ⟨gap, hgap, hevent⟩
      · obtain ⟨firstDeltas, laterDeltas, -, hfirst, hlater⟩ := map_eq_append_iff.mp hgap
        refine ⟨firstDeltas, by rw [hfirst], ?_⟩
        cases hgapnil : laterDeltas with
        | nil =>
          rw [← hlater, hgapnil] at hevent
          exact .inr (List.cons.inj hevent).1
        | cons delta laterDeltas =>
          rw [← hlater, hgapnil] at hevent
          exact .inl ⟨delta, (List.cons.inj hevent).1⟩
      · cases gap with
        | nil =>
          rw [append_nil] at hgap
          refine ⟨deltas, by rw [hgap], ?_⟩
          exact .inr (List.cons.inj hevent).1.symm
        | cons x gap =>
          have := congrArg length hevent
          simp at this

theorem startsOf_append (events more : List RawMessageStreamEvent) :
    startsOf (events ++ more) = startsOf events ++ startsOf more :=
  filterMap_append ..

theorem partOf_append (p : Nat × ContentBlockStart) (events : List RawMessageStreamEvent)
    (event : RawMessageStreamEvent) :
    partOf settings p (events ++ [event]) = partStep settings (partOf settings p events) event := by
  rw [partOf, foldl_append, ← partOf, foldl_cons, foldl_nil]

theorem Assembling.other {t : StreamState} (h : Assembling settings events s)
    (hevent : event.blockIndex? = none) (hcontent : t.output.content = s.output.content)
    (hupdates : t.updates = s.updates) : Assembling settings (events ++ [event]) t := by
  have hnone (i : Nat) : eventsOf (events ++ [event]) i = eventsOf events i := by
    rw [eventsOf_append, eventsOf_singleton_ne (by rw [hevent]; exact nofun), append_nil]
  have hstarts : startsOf (events ++ [event]) = startsOf events := by
    have hstart : start? event = none := by
      cases event with
      | contentBlockStart i contentBlock => contradiction
      | messageStart id usage => rfl
      | contentBlockDelta i delta => rfl
      | contentBlockStop i => rfl
      | messageDelta stopReason usage => rfl
      | messageStop => rfl
    rw [startsOf_append, startsOf, startsOf, filterMap_cons_none hstart, filterMap_nil, append_nil]
  refine ⟨?_, ?_, ?_, ?_⟩
  · rw [hstarts]
    exact h.nodup
  · intro i
    rw [hstarts, hnone]
    exact h.started i
  · rw [hstarts, hcontent]
    simp only [hnone]
    exact h.content
  · intro k
    rw [hstarts, hupdates]
    simp only [hnone]
    exact h.updates k

theorem Assembling.start {events : List RawMessageStreamEvent} {s : StreamState}
    (h : Assembling settings events s) {i : Nat} {contentBlock : ContentBlockStart}
    (hfresh : eventsOf events i = []) :
    Assembling settings (events ++ [contentBlockStart i contentBlock])
      { output :=
          { s.output with
            content := s.output.content ++ [(startBlock settings i contentBlock).1] }
        updates :=
          s.updates ++ [⟨s.output.content.length, (startBlock settings i contentBlock).2⟩] } := by
  have hstarts : startsOf (events ++ [contentBlockStart i contentBlock]) =
      startsOf events ++ [(i, contentBlock)] := startsOf_append events _
  have hself : eventsOf (events ++ [contentBlockStart i contentBlock]) i =
      [contentBlockStart i contentBlock] := by
    rw [eventsOf_append, hfresh, eventsOf_singleton_self rfl, nil_append]
  have hother {j : Nat} (hj : j ≠ i) :
      eventsOf (events ++ [contentBlockStart i contentBlock]) j = eventsOf events j := by
    rw [eventsOf_append, eventsOf_singleton_ne, append_nil]
    exact fun hi => hj (some.inj hi).symm
  have hnotin : i ∉ (startsOf events).map Prod.fst := fun hmem => (h.started i).mp hmem hfresh
  have hne (p : Nat × ContentBlockStart) (hp : p ∈ startsOf events) : p.1 ≠ i := by
    rintro rfl
    exact hnotin (mem_map_of_mem hp)
  have hlength : s.output.content.length = (startsOf events).length := by
    rw [h.content, length_map]
  have hpart : partOf settings (i, contentBlock) [contentBlockStart i contentBlock] =
      ((startBlock settings i contentBlock).1, [(startBlock settings i contentBlock).2]) := rfl
  refine ⟨?_, ?_, ?_, ?_⟩
  · rw [hstarts, map_append, map_singleton]
    rw [nodup_append]
    refine ⟨h.nodup, nodup_singleton _, ?_⟩
    rintro j hj i' hi' rfl
    rw [mem_singleton.mp hi'] at hj
    exact hnotin hj
  · intro j
    rw [hstarts, map_append, map_singleton, mem_append, mem_singleton]
    by_cases hj : j = i
    · subst hj
      rw [hself]
      exact iff_of_true (.inr rfl) (cons_ne_nil _ _)
    · rw [hother hj, ← h.started j]
      exact ⟨fun hmem => hmem.resolve_right hj, .inl⟩
  · rw [hstarts, map_append, map_singleton, hself, hpart]
    dsimp only
    rw [h.content]
    congr 1
    apply map_congr_left
    intro p hp
    rw [hother (hne p hp)]
  · intro k
    rw [filter_append, map_append, h.updates k, hstarts]
    rcases Nat.lt_trichotomy k (startsOf events).length with hk | hk | hk
    · rw [getElem?_append_left hk, filter_cons_of_neg (by
        simp only [hlength, decide_eq_true_eq]
        omega), filter_nil, map_nil, append_nil]
      rw [getElem?_eq_getElem hk]
      dsimp only
      rw [hother (hne _ (getElem_mem hk))]
    · subst hk
      rw [getElem?_eq_none (Nat.le_refl _), getElem?_append_right (Nat.le_refl _),
        Nat.sub_self, filter_cons_of_pos (by rw [hlength, decide_eq_true_eq])]
      dsimp only [getElem?_cons_zero]
      rw [hself, hpart]
      rfl
    · rw [getElem?_eq_none (by omega), getElem?_eq_none (by
        rw [length_append, length_singleton]
        omega), filter_cons_of_neg (by
        simp only [hlength, decide_eq_true_eq]
        omega)]
      rfl

theorem Assembling.findBlock (h : Assembling settings events s) {contentBlock : ContentBlockStart}
    {deltas : List ContentBlockDelta}
    (hopen : eventsOf events i = contentBlockStart i contentBlock :: deltas.map (contentBlockDelta i))
    : ∃ k p, (startsOf events)[k]? = some p ∧ p.1 = i ∧
      AcademicAgent.findBlock s.output.content i = some k ∧
        s.output.content[k]? = some (partOf settings p (eventsOf events i)).1 := by
  have hmem : i ∈ (startsOf events).map Prod.fst := by
    rw [h.started i, hopen]
    exact cons_ne_nil _ _
  obtain ⟨p, hp, rfl⟩ := mem_map.mp hmem
  obtain ⟨k, hk⟩ := mem_iff_getElem?.mp hp
  have hat : s.output.content[k]? = some (partOf settings p (eventsOf events p.1)).1 := by
    rw [h.content, getElem?_map, hk]
    rfl
  refine ⟨k, p, hk, rfl, ?_, hat⟩
  have hindex : (partOf settings p (eventsOf events p.1)).1.index = some p.1 := by
    have hpart := partOf_deltas settings p.1 p.2 deltas
    rw [partOf] at hpart
    have hstart (part : Block × List UpdateKind) :
        partStep settings part (contentBlockStart p.1 contentBlock) = part := rfl
    rw [hopen, partOf, foldl_cons, hstart, hpart]
    cases p.2 <;> rfl
  rw [AcademicAgent.findBlock, findIdx?_eq_some_iff_getElem]
  obtain ⟨hlt, hget⟩ := List.getElem?_eq_some_iff.mp hat
  refine ⟨hlt, ?_, ?_⟩
  · rw [hget, hindex, decide_eq_true rfl]
  · intro j hj
    have hjlt : j < (startsOf events).length := by
      rw [h.content, length_map] at hlt
      omega
    have hne : (startsOf events)[j].1 ≠ p.1 := by
      intro heq
      have := h.place_unique settings (getElem?_eq_getElem hjlt) hk heq
      omega
    have hblock : s.output.content[j]? =
        some (partOf settings (startsOf events)[j] (eventsOf events (startsOf events)[j].1)).1 := by
      rw [h.content, getElem?_map, getElem?_eq_getElem hjlt]
      rfl
    obtain ⟨hjlt', hgetj⟩ := List.getElem?_eq_some_iff.mp hblock
    rw [hgetj, decide_eq_true_eq]
    rcases partOf_index settings (startsOf events)[j] (eventsOf events (startsOf events)[j].1) with
      hindexj | hindexj
    · rw [hindexj]
      exact fun heq => hne (some.inj heq)
    · rw [hindexj]
      exact nofun

theorem Assembling.update {events : List RawMessageStreamEvent} {s : StreamState}
    (h : Assembling settings events s) {event : RawMessageStreamEvent} {i : Nat}
    (hevent : event.blockIndex? = some i) (hstart : start? event = none) {k : Nat}
    {p : Nat × ContentBlockStart} (hk : (startsOf events)[k]? = some p) (hp : p.1 = i)
    {block : Block} {kinds : List UpdateKind}
    (hstep : partStep settings (partOf settings p (eventsOf events i)) event =
      (block, (partOf settings p (eventsOf events i)).2 ++ kinds)) :
    Assembling settings (events ++ [event])
      { output := { s.output with content := s.output.content.set k block }
        updates := s.updates ++ kinds.map (BlockUpdate.mk k) } := by
  subst hp
  have hstarts : startsOf (events ++ [event]) = startsOf events := by
    rw [startsOf_append, startsOf, startsOf, filterMap_cons_none hstart, filterMap_nil, append_nil]
  have hself : partOf settings p (eventsOf (events ++ [event]) p.1) =
      (block, (partOf settings p (eventsOf events p.1)).2 ++ kinds) := by
    rw [eventsOf_append, eventsOf_singleton_self hevent, partOf_append, hstep]
  have hother {j : Nat} (hj : j ≠ p.1) : eventsOf (events ++ [event]) j = eventsOf events j := by
    rw [eventsOf_append, eventsOf_singleton_ne, append_nil]
    rw [hevent]
    exact fun hi => hj (some.inj hi).symm
  have hplace {j : Nat} {q : Nat × ContentBlockStart} (hj : (startsOf events)[j]? = some q)
      (hjk : j ≠ k) : q.1 ≠ p.1 := by
    exact fun heq => hjk (h.place_unique settings hj hk heq)
  refine ⟨?_, ?_, ?_, ?_⟩
  · rw [hstarts]
    exact h.nodup
  · intro j
    rw [hstarts, h.started j]
    by_cases hj : j = p.1
    · subst hj
      refine iff_of_true ?_ ?_
      · rw [← h.started]
        exact mem_map_of_mem (mem_of_getElem? hk)
      · rw [eventsOf_append, eventsOf_singleton_self hevent]
        simp
    · rw [hother hj]
  · rw [hstarts]
    apply ext_getElem?
    intro j
    rw [getElem?_map]
    by_cases hj : j = k
    · subst hj
      have hlt : j < s.output.content.length := by
        rw [h.content, length_map]
        exact (List.getElem?_eq_some_iff.mp hk).1
      rw [getElem?_set_self hlt, hk, map_some, hself]
    · rw [getElem?_set_ne (fun heq => hj heq.symm), h.content, getElem?_map]
      cases hq : (startsOf events)[j]? with
      | none => rfl
      | some q => rw [map_some, map_some, hother (hplace hq hj)]
  · intro j
    rw [hstarts, filter_append, map_append, h.updates j]
    by_cases hj : j = k
    · subst hj
      have hall : (kinds.map (BlockUpdate.mk j)).filter (fun update => update.contentIndex = j) =
          kinds.map (BlockUpdate.mk j) := by
        rw [filter_eq_self]
        intro update hupdate
        obtain ⟨kind, -, rfl⟩ := mem_map.mp hupdate
        exact decide_eq_true rfl
      have hkinds : (kinds.map (BlockUpdate.mk j)).map BlockUpdate.kind = kinds := by
        rw [map_map]
        exact map_id' kinds
      rw [hall, hkinds, hk]
      dsimp only
      rw [hself]
    · have hnone : (kinds.map (BlockUpdate.mk k)).filter (fun update => update.contentIndex = j) =
          [] := by
        rw [filter_eq_nil_iff]
        intro update hupdate
        obtain ⟨kind, -, rfl⟩ := mem_map.mp hupdate
        simpa using fun heq => hj heq.symm
      rw [hnone, map_nil, append_nil]
      cases hq : (startsOf events)[j]? with
      | none => rfl
      | some q =>
        dsimp only
        rw [hother (hplace hq hj)]

theorem Assembling.step {more : List RawMessageStreamEvent} (h : Assembling settings events s)
    (hcomplete : BlocksComplete (events ++ event :: more)) (hhandled : event.isHandled = true) :
    ∃ t, streamEvent settings s event = .ok t ∧ Assembling settings (events ++ [event]) t := by
  cases event with
  | messageStart id usage | messageStop => exact ⟨_, rfl, h.other settings rfl rfl rfl⟩
  | messageDelta stopReason usage =>
    rw [streamEvent]
    rw [RawMessageStreamEvent.isHandled] at hhandled
    cases hreason : nonEmpty stopReason with
    | none => exact ⟨_, rfl, h.other settings rfl rfl rfl⟩
    | some reason =>
      rw [hreason] at hhandled
      dsimp only at hhandled ⊢
      cases hmapped : mapStopReason reason with
      | error error =>
        rw [hmapped] at hhandled
        contradiction
      | ok mapped => exact ⟨_, rfl, h.other settings rfl rfl rfl⟩
  | contentBlockStart i contentBlock =>
    rcases hcomplete.event_cases rfl with ⟨_, -, hfresh⟩ | ⟨_, _, -, ⟨delta, heq⟩ | heq⟩
    · exact ⟨_, rfl, h.start settings hfresh⟩
    · contradiction
    · contradiction
  | contentBlockDelta i delta =>
    rcases hcomplete.event_cases rfl with ⟨_, heq, -⟩ | ⟨contentBlock, deltas, hopen, -⟩
    · contradiction
    · obtain ⟨k, p, hk, hp, hfind, hat⟩ := h.findBlock settings hopen
      rw [streamEvent]
      rw [hfind]
      dsimp only
      rw [hat, Option.bind_some]
      cases happly : applyDelta settings (partOf settings p (eventsOf events i)).1 delta with
      | none =>
        refine ⟨s, rfl, ?_⟩
        have hsame : Assembling settings (events ++ [contentBlockDelta i delta])
            { output :=
                { s.output with
                  content := s.output.content.set k (partOf settings p (eventsOf events i)).1 }
              updates := s.updates ++ ([] : List UpdateKind).map (BlockUpdate.mk k) } := by
          apply h.update settings rfl rfl hk hp
          rw [partStep, happly, append_nil]
        obtain ⟨hlt, hget⟩ := List.getElem?_eq_some_iff.mp hat
        rw [← hget, set_getElem_self, map_nil, append_nil] at hsame
        exact hsame
      | some result =>
        obtain ⟨block, kind⟩ := result
        refine ⟨_, rfl, h.update settings rfl rfl hk hp ?_⟩
        rw [partStep, happly]
  | contentBlockStop i =>
    rcases hcomplete.event_cases rfl with ⟨_, heq, -⟩ | ⟨contentBlock, deltas, hopen, -⟩
    · contradiction
    · obtain ⟨k, p, hk, hp, hfind, hat⟩ := h.findBlock settings hopen
      rw [streamEvent]
      rw [hfind]
      dsimp only
      rw [hat]
      have hstep : partStep settings (partOf settings p (eventsOf events i)) (contentBlockStop i) =
          ((stopBlock settings (partOf settings p (eventsOf events i)).1).1,
            (partOf settings p (eventsOf events i)).2 ++
              [(stopBlock settings (partOf settings p (eventsOf events i)).1).2]) := rfl
      exact ⟨_, rfl, h.update settings rfl rfl hk hp hstep⟩

theorem consumeEvents_assembling (hcomplete : BlocksComplete events)
    (hhandled : ∀ event ∈ events, event.isHandled = true) :
    ∃ s, consumeEvents settings .initial events = (s, none) ∧ Assembling settings events s := by
  have hstart : Assembling settings [] .initial := by
    refine ⟨nodup_nil, ?_, rfl, fun k => rfl⟩
    intro i
    exact iff_of_false not_mem_nil (fun h => h rfl)
  have hrun (before more : List RawMessageStreamEvent) (s : StreamState)
      (hs : Assembling settings before s) (hall : BlocksComplete (before ++ more))
      (hhandled : ∀ event ∈ more, event.isHandled = true) :
      ∃ t, consumeEvents settings s more = (t, none) ∧ Assembling settings (before ++ more) t := by
    induction more generalizing before s with
    | nil =>
      rw [append_nil]
      exact ⟨s, rfl, hs⟩
    | cons event more ih =>
      obtain ⟨t, ht, hassembling⟩ := hs.step settings hall (hhandled event mem_cons_self)
      rw [append_cons] at hall
      obtain ⟨u, hu, hdone⟩ := ih (before ++ [event]) t hassembling hall
        (fun e he => hhandled e (mem_cons_of_mem _ he))
      rw [consumeEvents, ht, append_cons]
      exact ⟨u, hu, hdone⟩
  exact hrun [] events .initial hstart hcomplete hhandled

theorem streamAnthropic_error_clean (aborted : Bool)
    (events : List RawMessageStreamEvent × Option JsString)
    (h : (streamAnthropic settings aborted events).done = false) :
    ∀ block ∈ (streamAnthropic settings aborted events).message.content,
      block.index = none ∧ block.partialJson = none := by
  have hfail (s : StreamState) (error : JsString) :
      ∀ block ∈ (failStream aborted s error).message.content,
        block.index = none ∧ block.partialJson = none := by
    intro block hblock
    obtain ⟨b, -, rfl⟩ := mem_map.mp hblock
    exact ⟨rfl, rfl⟩
  revert h
  unfold streamAnthropic
  dsimp only
  split
  · exact fun _ => hfail _ _
  · split
    · exact fun _ => hfail _ _
    · split
      · exact fun _ => hfail _ _
      · intro h
        contradiction

theorem streamAnthropic_of_consumed (aborted : Bool) (error : Option JsString)
    (h : consumeEvents settings .initial events = (s, none)) :
    (streamAnthropic settings aborted (events, error)).message.content.map Block.content =
        s.output.content.map Block.content ∧
      (streamAnthropic settings aborted (events, error)).updates = s.updates ∧
      ((streamAnthropic settings aborted (events, error)).done = true →
        (streamAnthropic settings aborted (events, error)).message.content = s.output.content) := by
  have hfail (error : JsString) : (failStream aborted s error).message.content.map Block.content =
        s.output.content.map Block.content := by
    rw [failStream, map_map]
    rfl
  unfold streamAnthropic
  rw [h]
  dsimp only [Option.none_or]
  split
  · exact ⟨hfail _, rfl, fun hdone => nomatch hdone⟩
  · split
    · exact ⟨hfail _, rfl, fun hdone => nomatch hdone⟩
    · split
      · exact ⟨hfail _, rfl, fun hdone => nomatch hdone⟩
      · exact ⟨rfl, rfl, fun _ => rfl⟩

theorem BlocksComplete.eventsOf_eq (h : BlocksComplete events) {p : Nat × ContentBlockStart}
    (hp : p ∈ startsOf events) : eventsOf events p.1 = contentBlockStart p.1 p.2 ::
      ((deltasOf events p.1).map (contentBlockDelta p.1) ++ [contentBlockStop p.1]) := by
  obtain ⟨event, hevent, hstart⟩ := mem_filterMap.mp hp
  obtain ⟨i, contentBlock⟩ := p
  have heq : event = contentBlockStart i contentBlock := by
    cases event with
    | contentBlockStart j other =>
      cases hstart
      rfl
    | messageStart id usage | contentBlockDelta j delta | contentBlockStop j
    | messageDelta stopReason usage | messageStop => contradiction
  subst heq
  have hmem : contentBlockStart i contentBlock ∈ eventsOf events i :=
    mem_filter.mpr ⟨hevent, decide_eq_true rfl⟩
  have hdeltas : deltasOf events i = (eventsOf events i).filterMap (delta? i) := by
    rw [eventsOf, filterMap_filter, deltasOf]
    congr 1
    funext e
    cases e with
    | contentBlockDelta j delta =>
      by_cases hj : j = i
      · subst hj
        simp [blockIndex?]
      · simp [blockIndex?, delta?, hj]
    | messageStart id usage => rfl
    | contentBlockStart j other | contentBlockStop j => simp [blockIndex?, delta?]
    | messageDelta stopReason usage => rfl
    | messageStop => rfl
  rcases h i with hnone | ⟨first, deltas, hall⟩
  · rw [hnone] at hmem
    contradiction
  · rw [hall] at hmem
    have hfirst : first = contentBlock := by
      rcases mem_cons.mp hmem with heq | hmem
      · cases heq
        rfl
      · rcases mem_append.mp hmem with hmem | hmem
        · obtain ⟨delta, -, heq⟩ := mem_map.mp hmem
          contradiction
        · rw [mem_singleton] at hmem
          contradiction
    have hread (deltas : List ContentBlockDelta) :
        (deltas.map (contentBlockDelta i)).filterMap (delta? i) = deltas := by
      rw [filterMap_map]
      have hsome : delta? i ∘ contentBlockDelta i = some := by
        funext delta
        exact if_pos rfl
      rw [hsome, filterMap_some]
    have hsame : deltasOf events i = deltas := by
      rw [hdeltas, hall, filterMap_cons_none rfl, filterMap_append, hread,
        filterMap_cons_none rfl, filterMap_nil, append_nil]
    rw [hall, hfirst, hsame]

/-- The arguments that a call without deltas starts with are kept. -/
def KeepsInput (deltas : List ContentBlockDelta) : ContentBlockStart → Prop
  | .toolUse _ _ input =>
    deltas.filterMap ContentBlockDelta.inputJson? = [] → input.getD .emptyObject = .emptyObject
  | .text | .thinking | .redactedThinking _ => True

theorem stoppedArguments_eq_iff (deltas : List ContentBlockDelta)
    (contentBlock : ContentBlockStart) :
    stoppedArguments settings deltas contentBlock = startArguments settings deltas contentBlock ↔
      KeepsInput deltas contentBlock := by
  cases contentBlock with
  | text | thinking | redactedThinking data => exact iff_of_true rfl trivial
  | toolUse id name input =>
    rw [stoppedArguments, startArguments, callArguments, KeepsInput]
    by_cases hnone : deltas.filterMap inputJson? = []
    · rw [if_pos hnone, hnone, flatten_nil, parseStreamingJson_nil]
      exact ⟨fun h _ => h.symm, fun h => (h rfl).symm⟩
    · rw [if_neg hnone]
      exact iff_of_true rfl (fun h => absurd h hnone)

theorem assembledBlock_inj {deltas : List ContentBlockDelta} {contentBlock : ContentBlockStart}
    (h : assembledBlock settings (startArguments settings deltas contentBlock) deltas contentBlock =
      assembledBlock settings (stoppedArguments settings deltas contentBlock) deltas contentBlock) :
    stoppedArguments settings deltas contentBlock =
      startArguments settings deltas contentBlock := by
  cases contentBlock with
  | text => rfl
  | thinking => rfl
  | redactedThinking data => rfl
  | toolUse id name input =>
    rw [assembledBlock, assembledBlock, AssistantBlock.toolCall.injEq, ToolCall.mk.injEq] at h
    exact h.2.2.1.symm

end Assembly

def plainSettings : StreamSettings := ⟨id, fun _ => EMPTY_USAGE.cost, fun _ => none⟩

/-- The input of a call, as an object with one member. -/
def wholeInput : Json := ⟨.obj [(js "a", .bool true)], by decide⟩

theorem blocksComplete_single (contentBlock : ContentBlockStart) (deltas : List ContentBlockDelta) :
    BlocksComplete (contentBlockStart 0 contentBlock ::
      (deltas.map (contentBlockDelta 0) ++ [contentBlockStop 0])) := by
  have hindex : ∀ event ∈ contentBlockStart 0 contentBlock ::
      (deltas.map (contentBlockDelta 0) ++ [contentBlockStop 0]), event.blockIndex? = some 0 := by
    intro event hevent
    rcases mem_cons.mp hevent with rfl | hevent
    · rfl
    · rcases mem_append.mp hevent with hevent | hevent
      · obtain ⟨delta, -, rfl⟩ := mem_map.mp hevent
        rfl
      · rw [mem_singleton.mp hevent]
        rfl
  intro i
  by_cases hi : i = 0
  · subst hi
    refine .inr ⟨contentBlock, deltas, ?_⟩
    rw [eventsOf, filter_eq_self]
    exact fun event hevent => decide_eq_true (hindex event hevent)
  · refine .inl ?_
    rw [eventsOf, filter_eq_nil_iff]
    intro event hevent
    rw [hindex event hevent, decide_eq_true_eq]
    exact fun heq => hi (some.inj heq).symm

end AcademicAgent
