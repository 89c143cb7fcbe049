import Mathlib.Data.List.Basic

/-!
# The event stream

A producer pushes events and a consumer takes them through an async generator.
-/

namespace AcademicAgent

open List

variable {T R : Type}

inductive IteratorResult (T : Type) where
  | value (value : T)
  | done
  deriving DecidableEq, Repr

inductive Generator (T : Type) where
  /-- At its start or at a yield whose value was handed out. -/
  | suspended
  /-- At the await of a promise whose resolver is in the waiting list. -/
  | awaiting (promise : Nat)
  /-- At the await of a promise that was resolved and not yet taken. -/
  | resolved (result : IteratorResult T)
  /-- At a yield whose value is not handed out yet. -/
  | yielding (value : T)
  | completed
  deriving DecidableEq, Repr

/-- The stream, its generator and what its consumer was answered. -/
structure EventStream (T R : Type) where
  queue : List T
  waiting : List Nat
  done : Bool
  finalResult : Option R
  generator : Generator T
  /-- The promises made so far. -/
  promises : Nat
  /-- The next calls without an answer. -/
  requests : Nat
  results : List (IteratorResult T)
  deriving DecidableEq, Repr

namespace EventStream

/-- The stream as it is constructed, with a fresh iterator. -/
def new (T R : Type) : EventStream T R :=
  { queue := [], waiting := [], done := false, finalResult := none, generator := .suspended,
    promises := 0, requests := 0, results := [] }

section

variable (s : EventStream T R)

/-- The first result given settles the final result. -/
def resolveFinalResult (result : R) : EventStream T R :=
  { s with finalResult := s.finalResult.or (some result) }

def resolve (promise : Nat) (result : IteratorResult T) : EventStream T R :=
  match s.generator with
  | .awaiting awaited =>
    if awaited = promise then { s with generator := .resolved result } else s
  | _ => s

/-- Hands an event to the first waiter or keeps it in the queue. -/
def deliver (event : T) : EventStream T R :=
  match s.waiting with
  | waiter :: rest => resolve { s with waiting := rest } waiter (.value event)
  | [] => { s with queue := s.queue ++ [event] }

end

def push (isComplete : T → Bool) (extractResult : T → R) (s : EventStream T R) (event : T) :
    EventStream T R :=
  if s.done then s
  else if isComplete event then
    deliver (resolveFinalResult { s with done := true } (extractResult event)) event
  else deliver s event

/-- Answers every waiter with the end of the stream. -/
def endWaiting (s : EventStream T R) : List Nat → EventStream T R
  | [] => { s with waiting := [] }
  | waiter :: rest => endWaiting (resolve s waiter .done) rest

section

variable (s : EventStream T R)

def endStream (result : Option R) : EventStream T R :=
  let s := { s with done := true }
  let s := match result with
    | some result => s.resolveFinalResult result
    | none => s
  endWaiting s s.waiting

/-- The generator returns, and so does every call that waits for it. -/
def complete : EventStream T R :=
  { s with
    generator := .completed
    requests := 0
    results := s.results ++ replicate s.requests .done }

def loop : EventStream T R :=
  match s.queue with
  | event :: rest => { s with queue := rest, generator := .yielding event }
  | [] =>
    if s.done then s.complete
    else
      { s with
        waiting := s.waiting ++ [s.promises]
        generator := .awaiting s.promises
        promises := s.promises + 1 }

/-- A next call: it resumes a suspended generator, and queues behind a running one. -/
def next : EventStream T R :=
  match s.generator with
  | .suspended => loop { s with requests := s.requests + 1 }
  | .completed => { s with results := s.results ++ [.done] }
  | _ => { s with requests := s.requests + 1 }

/-- The microtask that takes the generator on, if one is due. -/
def tick : EventStream T R :=
  match s.generator with
  | .resolved .done => s.complete
  | .resolved (.value event) => { s with generator := .yielding event }
  | .yielding event =>
    let s := { s with
      generator := .suspended
      requests := s.requests - 1
      results := s.results ++ [.value event] }
    if s.requests = 0 then s else s.loop
  | _ => s

end

/-- What the producer, the consumer and the event loop do. -/
inductive Action (T R : Type) where
  | push (event : T)
  | endStream (result : Option R)
  | next
  | tick
  deriving DecidableEq, Repr

section

variable (isComplete : T → Bool) (extractResult : T → R) (s : EventStream T R)

def step :
    Action T R → EventStream T R
  | .push event => s.push isComplete extractResult event
  | .endStream result => s.endStream result
  | .next => s.next
  | .tick => s.tick

def steps (actions : List (Action T R)) : EventStream T R :=
  actions.foldl (step isComplete extractResult) s

end

def settled (s : EventStream T R) : Bool :=
  match s.generator with
  | .resolved _ | .yielding _ => false
  | _ => true

/-- The event the generator took and has not handed out yet. -/
def inFlight (s : EventStream T R) : List T :=
  match s.generator with
  | .resolved (.value event) | .yielding event => [event]
  | _ => []

/-- The events pushed up to the completing event or the end. -/
def accepted (isComplete : T → Bool) : List (Action T R) → List T
  | [] => []
  | .push event :: rest => event :: if isComplete event then [] else accepted isComplete rest
  | .endStream _ :: _ => []
  | .next :: rest | .tick :: rest => accepted isComplete rest

/-- A completing event was pushed or the end was called. -/
def closes (isComplete : T → Bool) : List (Action T R) → Bool
  | [] => false
  | .push event :: rest => isComplete event || closes isComplete rest
  | .endStream _ :: _ => true
  | .next :: rest | .tick :: rest => closes isComplete rest

def nexts : List (Action T R) → Nat
  | [] => 0
  | .next :: rest => nexts rest + 1
  | _ :: rest => nexts rest

/-- What the next calls are to be answered with, in order: the accepted events, and
after a closing the end for every further call. -/
def answers (isComplete : T → Bool) (actions : List (Action T R)) : List (IteratorResult T) :=
  ((accepted isComplete actions).map IteratorResult.value ++
    if closes isComplete actions then replicate (nexts actions) IteratorResult.done
    else []).take (nexts actions)

/-- How the stream stands to the events it accepted and the next calls it received. -/
structure Ledger (s : EventStream T R) (events : List T) (calls : Nat) : Prop where
  /-- Every accepted event is handed out, in flight or queued. -/
  kept : ∃ delivered ended, 
    s.results = delivered.map IteratorResult.value ++ replicate ended .done ∧
    delivered ++ s.inFlight ++ s.queue = events ∧ (0 < ended → s.generator = .completed)
  counted : s.results.length + s.requests = calls
  /-- Only the awaiting generator has its resolver in the waiting list. -/
  waiters : s.waiting = match s.generator with
    | .awaiting promise => [promise]
    | _ => []
  idle : s.generator = .suspended → s.requests = 0
  busy : s.generator ≠ .suspended → s.generator ≠ .completed → 0 < s.requests
  starved : ∀ promise, s.generator = .awaiting promise → s.queue = [] ∧ s.done = false
  exhausted : s.generator = .completed ∨ s.generator = .resolved .done →
    s.queue = [] ∧ s.done = true
  finished : s.generator = .completed → s.requests = 0

theorem ledger_new : Ledger (new T R) [] 0 where
  kept := ⟨[], 0, rfl, rfl, fun h => absurd h (by decide)⟩
  counted := rfl
  waiters := rfl
  idle _ := rfl
  busy h := absurd rfl h
  starved _ h := nomatch h
  exhausted h := by rcases h with h | h <;> cases h
  finished h := nomatch h

variable (isComplete : T → Bool) (extractResult : T → R) {s : EventStream T R}
  {events : List T} {calls : Nat}

private theorem ended_eq_zero {ended : Nat} (hended : 0 < ended → s.generator = .completed)
    (hg : s.generator ≠ .completed) : ended = 0 := by
  by_contra hne
  exact hg (hended (Nat.pos_of_ne_zero hne))

theorem Ledger.loop {delivered : List T} (hresults : s.results = delivered.map .value)
    (hkept : delivered ++ s.queue = events) (hcounted : s.results.length + s.requests = calls)
    (hwaiting : s.waiting = []) (hbusy : 0 < s.requests) : Ledger s.loop events calls := by
  cases hqueue : s.queue with
  | cons event rest =>
    have hloop : s.loop = { s with queue := rest, generator := .yielding event } := by
      rw [EventStream.loop, hqueue]
    rw [hloop]
    exact
      { kept := ⟨delivered, 0, by simpa using hresults, by simpa [inFlight, hqueue] using hkept,
          fun h => absurd h (by decide)⟩
        counted := hcounted
        waiters := hwaiting
        idle := fun h => nomatch h
        busy := fun _ _ => hbusy
        starved := fun _ h => nomatch h
        exhausted := fun h => by rcases h with h | h <;> cases h
        finished := fun h => nomatch h }
  | nil =>
    cases hdone : s.done with
    | true =>
      have hloop : s.loop = s.complete := by
        rw [EventStream.loop, hqueue]
        simp [hdone]
      rw [hloop]
      exact
        { kept := ⟨delivered, s.requests, by simp [complete, hresults],
            by simpa [inFlight, complete, hqueue] using hkept, fun _ => rfl⟩
          counted := by simpa [complete] using hcounted
          waiters := hwaiting
          idle := fun h => nomatch h
          busy := fun _ h => absurd rfl h
          starved := fun _ h => nomatch h
          exhausted := fun _ => ⟨hqueue, hdone⟩
          finished := fun _ => rfl }
    | false =>
      have hloop : s.loop = { s with
          waiting := s.waiting ++ [s.promises]
          generator := .awaiting s.promises
          promises := s.promises + 1 } := by
        rw [EventStream.loop, hqueue]
        simp [hdone]
      rw [hloop]
      exact
        { kept := ⟨delivered, 0, by simpa using hresults, by simpa [inFlight, hqueue] using hkept,
            fun h => absurd h (by decide)⟩
          counted := hcounted
          waiters := by simp [hwaiting]
          idle := fun h => nomatch h
          busy := fun _ _ => hbusy
          starved := fun _ _ => ⟨hqueue, hdone⟩
          exhausted := fun h => by rcases h with h | h <;> cases h
          finished := fun h => nomatch h }

section

variable (h : Ledger s events calls)
include h

theorem Ledger.next : Ledger s.next events (calls + 1) := by
  obtain ⟨delivered, ended, hresults, hkept, hended⟩ := h.kept
  have hcounted := h.counted
  unfold EventStream.next
  split
  · rename_i hgenerator
    obtain rfl := ended_eq_zero hended (by simp [hgenerator])
    have hwaiters := h.waiters
    rw [hgenerator] at hwaiters
    refine Ledger.loop (by simpa using hresults) ?_ ?_ hwaiters (Nat.succ_pos _)
    · simpa [inFlight, hgenerator] using hkept
    · show s.results.length + (s.requests + 1) = calls + 1
      omega
  · rename_i hgenerator
    have hidle := h.finished hgenerator
    exact
      { kept := ⟨delivered, ended + 1, by simp [hresults, replicate_succ'], hkept,
          fun _ => hgenerator⟩
        counted := by simp only [length_append, length_singleton]; omega
        waiters := h.waiters
        idle := h.idle
        busy := h.busy
        starved := h.starved
        exhausted := h.exhausted
        finished := h.finished }
  · rename_i hsuspended hcompleted
    exact
      { kept := ⟨delivered, ended, hresults, hkept, hended⟩
        counted := by show s.results.length + (s.requests + 1) = calls + 1; omega
        waiters := h.waiters
        idle := fun hg => absurd hg hsuspended
        busy := fun _ _ => Nat.succ_pos _
        starved := h.starved
        exhausted := h.exhausted
        finished := fun hg => absurd hg hcompleted }

theorem Ledger.waiting_eq_nil
    (hgenerator : ∀ promise, s.generator ≠ .awaiting promise) : s.waiting = [] := by
  rw [h.waiters]
  split
  · rename_i promise hawaiting
    exact absurd hawaiting (hgenerator promise)
  · rfl

theorem Ledger.deliver (hopen : s.done = false) (closing : Bool) (result : Option R) (event : T) :
    Ledger (({ s with done := closing, finalResult := result } : EventStream T R).deliver event)
      (events ++ [event]) calls := by
  obtain ⟨delivered, ended, hresults, hkept, hended⟩ := h.kept
  have hexhausted : s.generator ≠ .completed ∧ s.generator ≠ .resolved .done := by
    constructor
    · intro hg
      rw [(h.exhausted (.inl hg)).2] at hopen
      cases hopen
    · intro hg
      rw [(h.exhausted (.inr hg)).2] at hopen
      cases hopen
  by_cases hawaiting : ∃ promise, s.generator = .awaiting promise
  · obtain ⟨promise, hg⟩ := hawaiting
    have hwaiting : s.waiting = [promise] := by
      have hwaiters := h.waiters
      rwa [hg] at hwaiters
    have hqueue := (h.starved promise hg).1
    have hdeliver : ({ s with done := closing, finalResult := result } :
        EventStream T R).deliver event = { s with
          done := closing, finalResult := result, waiting := []
          generator := .resolved (.value event) } := by
      simp [EventStream.deliver, hwaiting, resolve, hg]
    rw [hdeliver]
    exact
      { kept := ⟨delivered, ended, hresults, by
          rw [← hkept]
          simp [inFlight, hg, hqueue], fun he => absurd (hended he) hexhausted.1⟩
        counted := h.counted
        waiters := rfl
        idle := fun hs => nomatch hs
        busy := fun _ _ => h.busy (by simp [hg]) (by simp [hg])
        starved := fun _ hs => nomatch hs
        exhausted := fun hs => by rcases hs with hs | hs <;> cases hs
        finished := fun hs => nomatch hs }
  · have hnot : ∀ promise, s.generator ≠ .awaiting promise :=
      fun promise hg => hawaiting ⟨promise, hg⟩
    have hwaiting := h.waiting_eq_nil hnot
    have hdeliver : ({ s with done := closing, finalResult := result } :
        EventStream T R).deliver event = { s with
          done := closing, finalResult := result, queue := s.queue ++ [event] } := by
      simp [EventStream.deliver, hwaiting]
    rw [hdeliver]
    exact
      { kept := ⟨delivered, ended, hresults, by
          rw [← hkept]
          simp [inFlight], fun he => absurd (hended he) hexhausted.1⟩
        counted := h.counted
        waiters := h.waiters
        idle := h.idle
        busy := h.busy
        starved := fun promise hg => absurd hg (hnot promise)
        exhausted := fun hs => by
          rcases hs with hs | hs
          · exact absurd hs hexhausted.1
          · exact absurd hs hexhausted.2
        finished := h.finished }

theorem Ledger.push (hopen : s.done = false) (event : T) :
    Ledger (s.push isComplete extractResult event) (events ++ [event]) calls := by
  unfold EventStream.push
  rw [if_neg (by simp [hopen])]
  split
  · exact h.deliver hopen true (s.finalResult.or (some (extractResult event))) event
  · exact h.deliver hopen s.done s.finalResult event

theorem endStream_eq (result : Option R) : ∃ final, s.endStream result = { s with
      done := true, finalResult := final, waiting := []
      generator := match s.generator with
        | .awaiting _ => .resolved .done
        | generator => generator } := by
  have hwaiters := h.waiters
  cases hg : s.generator with
  | awaiting promise =>
    rw [hg] at hwaiters
    cases result with
    | none => exact ⟨s.finalResult, by simp [endStream, hwaiters, endWaiting, resolve, hg]⟩
    | some result =>
      exact ⟨s.finalResult.or (some result), by
        simp [endStream, resolveFinalResult, hwaiters, endWaiting, resolve, hg]⟩
  | _ =>
    rw [hg] at hwaiters
    cases result with
    | none => exact ⟨s.finalResult, by simp [endStream, hwaiters, endWaiting, ← hg]⟩
    | some result =>
      exact ⟨s.finalResult.or (some result), by
        simp [endStream, resolveFinalResult, hwaiters, endWaiting, ← hg]⟩

theorem Ledger.endStream (result : Option R) : Ledger (s.endStream result) events calls := by
  obtain ⟨delivered, ended, hresults, hkept, hended⟩ := h.kept
  obtain ⟨final, heq⟩ := endStream_eq h result
  rw [heq]
  by_cases hawaiting : ∃ promise, s.generator = .awaiting promise
  · obtain ⟨promise, hg⟩ := hawaiting
    have hqueue := (h.starved promise hg).1
    simp only [hg]
    exact
      { kept := ⟨delivered, ended, hresults, by
          rw [← hkept]
          simp [inFlight, hg], fun he => by simp [hg] at hended; omega⟩
        counted := h.counted
        waiters := rfl
        idle := fun hs => nomatch hs
        busy := fun _ _ => h.busy (by simp [hg]) (by simp [hg])
        starved := fun _ hs => nomatch hs
        exhausted := fun _ => ⟨hqueue, rfl⟩
        finished := fun hs => nomatch hs }
  · have hnot : ∀ promise, s.generator ≠ .awaiting promise :=
      fun promise hg => hawaiting ⟨promise, hg⟩
    have hsame : (match s.generator with
        | .awaiting _ => .resolved .done
        | generator => generator) = s.generator := by
      split
      · rename_i promise hg
        exact absurd hg (hnot promise)
      · rfl
    rw [hsame]
    exact
      { kept := ⟨delivered, ended, hresults, hkept, hended⟩
        counted := h.counted
        waiters := by
          show [] = _
          rw [← h.waiters, h.waiting_eq_nil hnot]
        idle := h.idle
        busy := h.busy
        starved := fun promise hg => absurd hg (hnot promise)
        exhausted := fun hs => ⟨(h.exhausted hs).1, rfl⟩
        finished := h.finished }

theorem Ledger.tick : Ledger s.tick events calls := by
  obtain ⟨delivered, ended, hresults, hkept, hended⟩ := h.kept
  have hcounted := h.counted
  unfold EventStream.tick
  split
  · rename_i hg
    have hexhausted := h.exhausted (.inr hg)
    obtain rfl := ended_eq_zero hended (by simp [hg])
    exact
      { kept := ⟨delivered, s.requests, by simp [complete, hresults], by
          rw [← hkept]
          simp [inFlight, complete, hg], fun _ => rfl⟩
        counted := by simpa [complete] using hcounted
        waiters := h.waiting_eq_nil (by simp [hg])
        idle := fun hs => nomatch hs
        busy := fun _ hs => absurd rfl hs
        starved := fun _ hs => nomatch hs
        exhausted := fun _ => hexhausted
        finished := fun _ => rfl }
  · rename_i event hg
    exact
      { kept := ⟨delivered, ended, hresults, by
          rw [← hkept]
          simp [inFlight, hg], fun he => by simp [hg] at hended; omega⟩
        counted := hcounted
        waiters := h.waiting_eq_nil (by simp [hg])
        idle := fun hs => nomatch hs
        busy := fun _ _ => h.busy (by simp [hg]) (by simp [hg])
        starved := fun _ hs => nomatch hs
        exhausted := fun hs => by rcases hs with hs | hs <;> cases hs
        finished := fun hs => nomatch hs }
  · rename_i event hg
    have hbusy := h.busy (by simp [hg]) (by simp [hg])
    have hwaiting := h.waiting_eq_nil (by simp [hg])
    obtain rfl := ended_eq_zero hended (by simp [hg])
    have hhanded : s.results ++ [IteratorResult.value event] =
        (delivered ++ [event]).map IteratorResult.value := by simp [hresults]
    have hrest : (delivered ++ [event]) ++ s.queue = events := by
      rw [← hkept]
      simp [inFlight, hg]
    have hlength : (s.results ++ [IteratorResult.value event]).length + (s.requests - 1) =
        calls := by
      simp only [length_append, length_singleton]
      omega
    dsimp only
    split
    · rename_i hnone
      exact
        { kept := ⟨delivered ++ [event], 0, by simpa using hhanded, by
            simpa [inFlight] using hrest, fun he => absurd he (by decide)⟩
          counted := hlength
          waiters := hwaiting
          idle := fun _ => hnone
          busy := fun hs => absurd rfl hs
          starved := fun _ hs => nomatch hs
          exhausted := fun hs => by rcases hs with hs | hs <;> cases hs
          finished := fun hs => nomatch hs }
    · rename_i hsome
      exact Ledger.loop hhanded hrest hlength hwaiting (Nat.pos_of_ne_zero hsome)
  · exact h

end

section

variable (s : EventStream T R)

@[simp] theorem loop_done : s.loop.done = s.done := by
  unfold EventStream.loop
  split
  · rfl
  · split <;> rfl

@[simp] theorem next_done : s.next.done = s.done := by
  unfold EventStream.next
  split <;> simp

@[simp] theorem tick_done : s.tick.done = s.done := by
  unfold EventStream.tick
  split
  · rfl
  · rfl
  · dsimp only
    split <;> simp
  · rfl

@[simp] theorem resolve_done (promise : Nat) (result : IteratorResult T) :
    (s.resolve promise result).done = s.done := by
  unfold resolve
  split
  · split <;> rfl
  · rfl

@[simp] theorem deliver_done (event : T) : (s.deliver event).done = s.done := by
  unfold EventStream.deliver
  split <;> simp

theorem push_done (event : T) :
    (s.push isComplete extractResult event).done = (s.done || isComplete event) := by
  unfold EventStream.push
  cases hdone : s.done with
  | true => simpa using hdone
  | false =>
    cases hcomplete : isComplete event with
    | true => simp [resolveFinalResult]
    | false => simp [hdone]

end

theorem push_of_done (hdone : s.done = true) (event : T) :
    s.push isComplete extractResult event = s := by
  unfold EventStream.push
  rw [if_pos hdone]

theorem steps_cons (s : EventStream T R) (action : Action T R) (rest : List (Action T R)) :
    s.steps isComplete extractResult (action :: rest) =
      (s.step isComplete extractResult action).steps isComplete extractResult rest := rfl

theorem Ledger.steps (h : Ledger s events calls) (actions : List (Action T R)) :
    Ledger (s.steps isComplete extractResult actions)
      (events ++ if s.done then [] else accepted isComplete actions)
      (calls + nexts actions) ∧ (s.steps isComplete extractResult actions).done =
      (s.done || closes isComplete actions) := by
  induction actions generalizing s events calls with
  | nil =>
    refine ⟨?_, by simp [EventStream.steps, closes]⟩
    simpa [EventStream.steps, accepted, nexts] using h
  | cons action rest ih =>
    rw [steps_cons]
    cases action with
    | push event =>
      have hdone := push_done isComplete extractResult s event
      cases hclosed : s.done with
      | true =>
        have hsame := push_of_done isComplete extractResult hclosed event
        have hrest := ih h
        rw [hclosed] at hrest
        simpa [EventStream.step, hsame, nexts] using hrest
      | false =>
        have hrest := ih (h.push isComplete extractResult hclosed event)
        rw [hdone, hclosed] at hrest
        simpa [EventStream.step, accepted, closes, nexts] using hrest
    | endStream result =>
      obtain ⟨final, heq⟩ := endStream_eq h result
      have hdone : (s.endStream result).done = true := by rw [heq]
      have hrest := ih (h.endStream result)
      rw [hdone] at hrest
      simpa [EventStream.step, accepted, closes, nexts] using hrest
    | next =>
      have hrest := ih h.next
      rw [next_done] at hrest
      simpa [EventStream.step, accepted, closes, nexts, Nat.add_assoc, Nat.add_comm 1] using hrest
    | tick =>
      have hrest := ih h.tick
      rw [tick_done] at hrest
      simpa [EventStream.step, accepted, closes, nexts] using hrest

def delivered (s : EventStream T R) : List T :=
  s.results.filterMap fun
    | .value event => some event
    | .done => none

private theorem values_of_results {values : List T} {ended : Nat}
    (hresults : s.results = values.map IteratorResult.value ++ replicate ended .done) :
    s.delivered = values := by
  unfold delivered
  rw [hresults, filterMap_append, filterMap_map]
  simp

section

variable (h : Ledger s events calls)
include h

theorem Ledger.lossless : s.delivered ++ s.inFlight ++ s.queue = events := by
  obtain ⟨values, ended, hresults, hkept, -⟩ := h.kept
  rw [values_of_results hresults, hkept]

theorem Ledger.queue_or_waiting : s.queue = [] ∨ s.waiting = [] := by
  by_cases hawaiting : ∃ promise, s.generator = .awaiting promise
  · obtain ⟨promise, hg⟩ := hawaiting
    exact .inl (h.starved promise hg).1
  · exact .inr (h.waiting_eq_nil fun promise hg => hawaiting ⟨promise, hg⟩)

theorem Ledger.results_prefix : s.results <+: (events.map IteratorResult.value ++
      if s.done then replicate calls IteratorResult.done else []).take calls := by
  obtain ⟨values, ended, hresults, hkept, hended⟩ := h.kept
  have hlength : s.results.length ≤ calls := by
    have hcounted := h.counted
    omega
  rw [prefix_take_iff]
  refine ⟨?_, hlength⟩
  cases ended with
  | zero =>
    rw [hresults, ← hkept]
    simp only [map_append, append_assoc, replicate_zero, append_nil]
    exact ⟨_, rfl⟩
  | succ ended =>
    have hg := hended (Nat.succ_pos _)
    obtain ⟨hqueue, hdone⟩ := h.exhausted (.inl hg)
    have hvalues : values = events := by
      rw [← hkept]
      simp [inFlight, hg, hqueue]
    rw [hresults, hvalues] at hlength ⊢
    simp only [length_append, length_map, length_replicate] at hlength
    rw [hdone, if_pos rfl]
    refine (prefix_append_right_inj _).mpr ?_
    exact ⟨replicate (calls - (ended + 1)) .done, by
      rw [replicate_append_replicate]
      congr 1
      omega⟩

theorem Ledger.results_of_settled (hsettled : s.settled = true) :
    s.results = (events.map IteratorResult.value ++
      if s.done then replicate calls IteratorResult.done else []).take calls := by
  have hprefix := h.results_prefix
  have hcounted := h.counted
  refine hprefix.eq_of_length_le ?_
  rw [length_take]
  cases hg : s.generator with
  | suspended =>
    have hnone := h.idle hg
    omega
  | awaiting promise =>
    obtain ⟨hqueue, hdone⟩ := h.starved promise hg
    have hlossless := h.lossless
    have hlength : s.delivered.length ≤ s.results.length := length_filterMap_le _ _
    simp only [inFlight, hg, hqueue, append_nil] at hlossless
    rw [hdone, ← hlossless]
    simp only [Bool.false_eq_true, if_false, append_nil, length_map]
    omega
  | resolved result | yielding event => simp [EventStream.settled, hg] at hsettled
  | completed =>
    have hnone := h.finished hg
    omega

end

theorem exists_settled (s : EventStream T R) : ∃ ticks, (s.steps isComplete extractResult
    (replicate ticks .tick)).settled = true := by
  have hyielding : ∀ (requests : Nat) (s : EventStream T R) (event : T),
      s.requests = requests → s.generator = .yielding event →
      ∃ ticks, (s.steps isComplete extractResult (replicate ticks .tick)).settled = true := by
    intro requests
    induction requests with
    | zero =>
      intro s event hrequests hg
      refine ⟨1, ?_⟩
      simp [EventStream.steps, EventStream.step, EventStream.tick, hg, hrequests,
        EventStream.settled]
    | succ requests ih =>
      intro s event hrequests hg
      by_cases hmore : requests = 0
      · refine ⟨1, ?_⟩
        simp [EventStream.steps, EventStream.step, EventStream.tick, hg, hrequests, hmore,
          EventStream.settled]
      · cases hqueue : s.queue with
        | nil =>
          refine ⟨1, ?_⟩
          cases hdone : s.done <;>
            simp [EventStream.steps, EventStream.step, EventStream.tick, hg, hrequests, hmore,
              EventStream.loop, hqueue, hdone, complete, EventStream.settled]
        | cons first rest =>
          obtain ⟨ticks, hticks⟩ := ih s.tick first (by
              simp [EventStream.tick, hg, hrequests, hmore, EventStream.loop, hqueue]) (by
              simp [EventStream.tick, hg, hrequests, hmore, EventStream.loop, hqueue])
          exact ⟨ticks + 1, hticks⟩
  cases hg : s.generator with
  | suspended | awaiting promise | completed
    => exact ⟨0, by simp [EventStream.steps, EventStream.settled, hg]⟩
  | yielding event => exact hyielding s.requests s event rfl hg
  | resolved result =>
    cases result with
    | done =>
      exact ⟨1, by simp [EventStream.steps, EventStream.step, EventStream.tick, hg, complete,
        EventStream.settled]⟩
    | value event =>
      obtain ⟨ticks, hticks⟩ := hyielding s.requests s.tick event (by
        simp [EventStream.tick, hg]) (by simp [EventStream.tick, hg])
      exact ⟨ticks + 1, hticks⟩

/-- The stream is closed and everything accepted was handed out. -/
structure Drained (s : EventStream T R) : Prop where
  done : s.done = true
  queue : s.queue = []
  inFlight : s.inFlight = []

theorem Drained.step (hd : Drained s) (h : Ledger s events calls) (action : Action T R) :
    Drained (s.step isComplete extractResult action) ∧
      ∃ ended, (s.step isComplete extractResult action).results =
        s.results ++ replicate ended .done := by
  cases action with
  | push event =>
    rw [EventStream.step, push_of_done isComplete extractResult hd.done]
    exact ⟨hd, 0, by simp⟩
  | endStream result =>
    obtain ⟨final, heq⟩ := endStream_eq h result
    rw [EventStream.step, heq]
    refine ⟨⟨rfl, hd.queue, ?_⟩, 0, by simp⟩
    have hflight := hd.inFlight
    rw [EventStream.inFlight] at hflight ⊢
    cases hg : s.generator with
    | suspended | awaiting _ | completed => rfl
    | resolved _ | yielding _ =>
      rw [hg] at hflight
      exact hflight
  | next =>
    rw [EventStream.step, EventStream.next]
    split
    · refine ⟨⟨by simpa using hd.done, ?_, ?_⟩, s.requests + 1, ?_⟩ <;>
        simp [EventStream.loop, hd.queue, hd.done, complete, EventStream.inFlight]
    · rename_i hg
      exact ⟨⟨hd.done, hd.queue, hd.inFlight⟩, 1, rfl⟩
    · exact ⟨⟨hd.done, hd.queue, hd.inFlight⟩, 0, by simp⟩
  | tick =>
    have hflight := hd.inFlight
    rw [EventStream.step, EventStream.tick]
    split
    · exact ⟨⟨hd.done, hd.queue, rfl⟩, s.requests, rfl⟩
    · rename_i event hg
      simp [EventStream.inFlight, hg] at hflight
    · rename_i event hg
      simp [EventStream.inFlight, hg] at hflight
    · exact ⟨hd, 0, by simp⟩

theorem Drained.steps (hd : Drained s) (h : Ledger s events calls) (more : List (Action T R)) :
    ∃ ended, (s.steps isComplete extractResult more).results =
      s.results ++ replicate ended .done := by
  induction more generalizing s events calls with
  | nil => exact ⟨0, by simp [EventStream.steps]⟩
  | cons action rest ih =>
    obtain ⟨hnext, ended, hresults⟩ := hd.step isComplete extractResult h action
    have hledger := (h.steps isComplete extractResult [action]).1
    obtain ⟨later, hlater⟩ := ih hnext hledger
    refine ⟨ended + later, ?_⟩
    rw [steps_cons, hlater, hresults, append_assoc, replicate_append_replicate]

/-- For every interleaving, the events accepted before completion are handed out once
and in order, each call gets the answer due, and a drained stream only ends. -/
theorem delivery (actions : List (Action T R)) :
    let s := (new T R).steps isComplete extractResult actions
    s.delivered ++ s.inFlight ++ s.queue = accepted isComplete actions ∧
    (s.queue = [] ∨ s.waiting = []) ∧
    s.results <+: answers isComplete actions ∧
    (s.settled = true → s.results = answers isComplete actions) ∧
    (∃ ticks, (s.steps isComplete extractResult (replicate ticks .tick)).settled = true) ∧
    (Drained s → ∀ more, ∃ ended,
      (s.steps isComplete extractResult more).results = s.results ++ replicate ended .done ∧
      ((s.steps isComplete extractResult more).settled = true →
        ended = s.requests + nexts more)) := by
  have hnew : Ledger (new T R) [] 0 := ledger_new
  obtain ⟨hledger, hclosed⟩ := hnew.steps isComplete extractResult actions
  have hopen : (new T R).done = false := rfl
  simp only [hopen, Bool.false_eq_true, if_false, nil_append, Nat.zero_add,
    Bool.false_or] at hledger hclosed
  dsimp only
  refine ⟨hledger.lossless, hledger.queue_or_waiting, ?_, fun hsettled => ?_,
    exists_settled isComplete extractResult _, fun hd more => ?_⟩
  · have hprefix := hledger.results_prefix
    rwa [hclosed] at hprefix
  · have hresults := hledger.results_of_settled hsettled
    rwa [hclosed] at hresults
  · obtain ⟨ended, hended⟩ := hd.steps isComplete extractResult hledger more
    refine ⟨ended, hended, fun hsettled => ?_⟩
    obtain ⟨hlater, hdone⟩ := hledger.steps isComplete extractResult more
    have hbefore := hledger.counted
    have hafter := hlater.counted
    rw [hended, length_append, length_replicate] at hafter
    have hnone : ((new T R).steps isComplete extractResult actions |>.steps isComplete
        extractResult more).requests = 0 := by
      rw [hd.done, Bool.true_or] at hdone
      cases hg : ((new T R).steps isComplete extractResult actions |>.steps isComplete
          extractResult more).generator with
      | suspended => exact hlater.idle hg
      | awaiting promise =>
        have hopen := (hlater.starved promise hg).2
        rw [hdone] at hopen
        cases hopen
      | resolved result => simp [EventStream.settled, hg] at hsettled
      | yielding event => simp [EventStream.settled, hg] at hsettled
      | completed => exact hlater.finished hg
    omega

end EventStream

end AcademicAgent
