import AcademicAgent.CodingAgent.Tools.EditDiff
import AcademicAgent.Core.JsMap
import AcademicAgent.Core.Run

/-!
# The queue of file mutations

Calls of the edit and write tools on one file wait for each other: a call is queued under the
real path of its file, starts when the queue before it has settled, and is released when the
promise of its body settles.
-/

namespace AcademicAgent

namespace Mutation

inductive Tool where
  | edit (edits : List Edit)
  | write (content : JsString)
  deriving DecidableEq

/-- Where the body of a call is: before its start, in the operation that comes first, in
`readFile`, in `writeFile` with the content that is written, or at its end. -/
inductive Phase where
  | waiting
  | preparing
  | reading
  | writing (content : JsString)
  | ended
  deriving DecidableEq

inductive Outcome where
  | resolved
  | rejected (error : JsString)
  deriving DecidableEq

/-- A call that was queued. A queue is the list of the calls whose release it awaits. -/
structure Call where
  path : JsString
  tool : Tool
  key : JsString
  currentQueue : List Nat
  signalAborted : Bool
  /-- `onAbort` is registered. -/
  listening : Bool
  aborted : Bool
  phase : Phase
  outcome : Option Outcome
  released : Bool
  deriving DecidableEq

namespace Call

section

variable (c : Call)

def InSection : Prop := c.phase = .reading ∨ ∃ content, c.phase = .writing content

def reject (error : JsString) : Call :=
  { c with outcome := c.outcome.or (some (.rejected error)) }

def start : Call :=
  if c.signalAborted then
    { c with
      phase := .ended
      outcome := some (.rejected (js "Operation aborted")) }
  else
    { c with
      phase := .preparing
      listening := true }

def abort : Call :=
  if c.listening then
    { c with
      signalAborted := true
      listening := false
      aborted := true
      outcome := c.outcome.or (some (.rejected (js "Operation aborted"))) }
  else { c with signalAborted := true }

def fail (error : JsString) : Call :=
  { c.reject error with
    listening := false
    phase := .ended }

def giveUp : Call := { c with phase := .ended }

/-- `access` or `mkdir` has completed. -/
def prepared (error : Option JsString) : Call :=
  match error with
  | some error =>
    match c.tool with
    | .edit _ => c.fail (js "Could not edit file: " ++ c.path ++ js ". " ++ error ++ js ".")
    | .write _ => c.fail error
  | none =>
    if c.aborted then c.giveUp
    else
      match c.tool with
      | .edit _ => { c with phase := .reading }
      | .write content => { c with phase := .writing content }

/-- `readFile` has completed. -/
def readDone (nfkc : JsString → JsString) (content : Except JsString JsString) : Call :=
  match content with
  | .error error => c.fail error
  | .ok rawContent =>
    if c.aborted then c.giveUp
    else
      match c.tool with
      | .write _ => c
      | .edit edits =>
        match editFile nfkc rawContent edits c.path with
        | .error error => c.fail error
        | .ok finalContent => { c with phase := .writing finalContent }

/-- `writeFile` has completed. -/
def writeDone (error : Option JsString) : Call :=
  match error with
  | some error => c.fail error
  | none =>
    if c.aborted then c.giveUp
    else
      { c with
        listening := false
        outcome := c.outcome.or (some .resolved)
        phase := .ended }

end

end Call

/-- The files by their real paths, the calls in the order in which they were queued, and
`fileMutationQueues`. -/
structure State where
  files : JsString → Option JsString
  calls : List Call
  fileMutationQueues : JsMap JsString (List Nat)

def State.initial (files : JsString → Option JsString) : State := ⟨files, [], .empty⟩

def State.setCall (s : State) (i : Nat) (c : Call) : State := { s with calls := s.calls.set i c }

def State.isReleased (s : State) (i : Nat) : Bool :=
  match s.calls[i]? with
  | some c => c.released
  | none => false

/-- What happens next: a tool is called, a body starts, a signal is aborted, an operation
on the file completes, or a settled body releases its queue. -/
inductive Event where
  | call (path : JsString) (tool : Tool) (signalAborted : Bool)
  | start (i : Nat)
  | abort (i : Nat)
  | prepared (i : Nat) (error : Option JsString)
  | readDone (i : Nat) (error : Option JsString)
  | writeDone (i : Nat) (error : Option JsString)
  | release (i : Nat)
  deriving DecidableEq

section Queue

variable (nfkc : JsString → JsString) (canonical : JsString → JsString)

section

variable (s : State)

section

variable (path : JsString)

/-- `realpathSync.native`, which throws for a file that does not exist; `canonical` is
where a path leads when its links are followed. -/
def realpath : Option JsString :=
  if (s.files (canonical path)).isSome then some (canonical path) else none

def getMutationQueueKey : JsString :=
  (realpath canonical s path).getD path

/-- The synchronous part of `withFileMutationQueue`. -/
def queueCall (tool : Tool) (signalAborted : Bool) : State :=
  let key := getMutationQueueKey canonical s path
  let currentQueue := (s.fileMutationQueues.get key).getD []
  { s with
    calls := s.calls ++
      [{ path, tool, key, currentQueue, signalAborted
         listening := false
         aborted := false
         phase := .waiting
         outcome := none
         released := false }]
    fileMutationQueues := s.fileMutationQueues.set key (currentQueue ++ [s.calls.length]) }

/-- The `finally` block. -/
def releaseCall (i : Nat) (c : Call) : State :=
  { s.setCall i { c with released := true } with
    fileMutationQueues :=
      if s.fileMutationQueues.get c.key = some (c.currentQueue ++ [i]) then
        s.fileMutationQueues.delete c.key
      else s.fileMutationQueues }

def readFile (error : Option JsString) : Except JsString JsString :=
  match error, s.files (canonical path) with
  | none, some content => .ok content
  | none, none => .error (js "ENOENT")
  | some error, _ => .error error

end

def writeFile (path content : JsString) : State :=
  { s with files := fun file => if file = canonical path then some content else s.files file }

/-- The state after an event, when the event is one that can come. -/
def step : Event → Option State
  | .call path tool signalAborted => some (queueCall canonical s path tool signalAborted)
  | .start i => s.calls[i]?.bind fun c =>
      if c.phase = .waiting ∧ c.currentQueue.all s.isReleased = true then
        some (s.setCall i c.start)
      else none
  | .abort i => s.calls[i]?.map fun c => s.setCall i c.abort
  | .prepared i error => s.calls[i]?.bind fun c =>
      if c.phase = .preparing then some (s.setCall i (c.prepared error)) else none
  | .readDone i error => s.calls[i]?.bind fun c =>
      if c.phase = .reading then
        some (s.setCall i (c.readDone nfkc (readFile canonical s c.path error)))
      else none
  | .writeDone i error => s.calls[i]?.bind fun c =>
      match c.phase with
      | .writing content =>
        match error with
        | some _ => some (s.setCall i (c.writeDone error))
        | none => some ((writeFile canonical s c.path content).setCall i (c.writeDone none))
      | _ => none
  | .release i => s.calls[i]?.bind fun c =>
      if c.outcome.isSome = true ∧ c.released = false then some (releaseCall s i c) else none

end

end Queue

end Mutation

end AcademicAgent

/-!
# Mutations of one file are serialized

Calls on one file take turns as long as they are queued under one key and no abort
reaches a body that is reading or writing.
-/

namespace AcademicAgent

open List
open Option (bind_eq_some_iff bind_some getD_some some.inj)

namespace Mutation

variable {s : State} {i : Nat} {c : Call} {calls : List Call}

variable {j : Nat} {d : Call}

section Queue

variable (nfkc : JsString → JsString) (canonical : JsString → JsString)

def SameFile (c d : Call) : Prop := canonical c.path = canonical d.path

/-- Calls on one file take turns in the order in which they were queued, and no call blocks
another one or takes its entry from the queue. -/
structure Serialized (s : State) : Prop where
  exclusive : ∀ (i j : Nat) (c d : Call), s.calls[i]? = some c → s.calls[j]? = some d → i ≠ j →
    SameFile canonical c d → c.InSection → ¬ d.InSection
  ordered : ∀ (i j : Nat) (c d : Call), i < j → s.calls[i]? = some c → s.calls[j]? = some d →
    SameFile canonical c d → d.phase ≠ .waiting → c.released = true
  unblocked : ∀ (j : Nat) (d : Call), s.calls[j]? = some d → d.phase = .waiting →
    (∀ (i : Nat) (c : Call), i < j → s.calls[i]? = some c → c.key = d.key → c.released = true) →
      (step nfkc canonical s (.start j)).isSome = true
  releases : ∀ (i : Nat) (c : Call), s.calls[i]? = some c → c.outcome.isSome = true →
    c.released = false → (step nfkc canonical s (.release i)).isSome = true
  queued : ∀ (i : Nat) (c : Call), s.calls[i]? = some c → c.released = false →
    ∃ queue, s.fileMutationQueues.get c.key = some queue ∧ i ∈ queue

/-- A call is queued under the key of the calls on its file that are not released, and an
abort reaches no body that is reading or writing. -/
def StepMeets (s : State) : Event → Prop
  | .call path _ _ => ∀ c ∈ s.calls, c.released = false → canonical c.path = canonical path →
      c.key = getMutationQueueKey canonical s path
  | .abort i => ∀ c, s.calls[i]? = some c → ¬ c.InSection
  | _ => True

/-- How the parts of a call go together: a body that has settled before its end is aborted
in its first operation, and only a started body listens or settles. -/
structure Call.Ok (c : Call) : Prop where
  open_or : c.outcome = none ∨ c.phase = .ended ∨ (c.phase = .preparing ∧ c.aborted = true)
  listening : c.listening = true → c.phase ≠ .waiting
  released : c.released = true → c.outcome.isSome = true

structure Inv (s : State) : Prop where
  ok : ∀ (i : Nat) (c : Call), s.calls[i]? = some c → c.Ok
  /-- A call waits for the earlier calls under its key. -/
  chained : ∀ (i j : Nat) (c d : Call), i < j → s.calls[i]? = some c → s.calls[j]? = some d →
    c.key = d.key → c.released = false → i ∈ d.currentQueue
  /-- A call waits for earlier calls under its key only. -/
  back : ∀ (j : Nat) (d : Call), s.calls[j]? = some d → ∀ i ∈ d.currentQueue,
    i < j ∧ ∃ c, s.calls[i]? = some c ∧ c.key = d.key
  /-- A call starts when those it waits for are released. -/
  turn : ∀ (j : Nat) (d : Call), s.calls[j]? = some d → d.phase ≠ .waiting →
    ∀ i ∈ d.currentQueue, s.isReleased i = true
  queued : ∀ (i : Nat) (c : Call), s.calls[i]? = some c → c.released = false →
    ∃ queue, s.fileMutationQueues.get c.key = some queue ∧ i ∈ queue
  queues : ∀ (key : JsString) (queue : List Nat), s.fileMutationQueues.get key = some queue →
    ∀ i ∈ queue, ∃ c, s.calls[i]? = some c ∧ c.key = key
  oneKey : ∀ (i j : Nat) (c d : Call), i < j → s.calls[i]? = some c → s.calls[j]? = some d →
    SameFile canonical c d → c.released = true ∨ c.key = d.key

theorem Inv.ordered (h : Inv canonical s) (hij : i < j) (hc : s.calls[i]? = some c)
    (hd : s.calls[j]? = some d) (hsame : SameFile canonical c d) (hstarted : d.phase ≠ .waiting) :
    c.released = true := by
  rcases h.oneKey i j c d hij hc hd hsame with hreleased | hkey
  · exact hreleased
  · cases hreleased : c.released with
    | true => rfl
    | false =>
      have hmem := h.chained i j c d hij hc hd hkey hreleased
      have := h.turn j d hd hstarted i hmem
      rw [State.isReleased, hc] at this
      rw [← hreleased]
      exact this

theorem Call.Ok.inSection (h : c.Ok) (hsection : c.InSection) :
    c.released = false ∧ c.phase ≠ .waiting := by
  have hphase : c.phase ≠ .waiting ∧ c.phase ≠ .ended ∧ c.phase ≠ .preparing := by
    rcases hsection with hreading | ⟨content, hwriting⟩
    · rw [hreading]
      exact ⟨nofun, nofun, nofun⟩
    · rw [hwriting]
      exact ⟨nofun, nofun, nofun⟩
  refine ⟨?_, hphase.1⟩
  cases hreleased : c.released with
  | false => rfl
  | true =>
    have hsome := h.released hreleased
    rcases h.open_or with hnone | hended | ⟨hpreparing, -⟩
    · rw [hnone] at hsome
      contradiction
    · exact absurd hended hphase.2.1
    · exact absurd hpreparing hphase.2.2

theorem Inv.serialized (h : Inv canonical s) : Serialized nfkc canonical s := by
  refine ⟨?_, ?_, ?_, ?_, h.queued⟩
  · intro i j c d hc hd hne hsame hsection hsection'
    obtain ⟨hc', hstarted⟩ := (h.ok i c hc).inSection hsection
    obtain ⟨hd', hstarted'⟩ := (h.ok j d hd).inSection hsection'
    rcases Nat.lt_or_gt_of_ne hne with hij | hji
    · have := h.ordered canonical hij hc hd hsame hstarted'
      rw [hc'] at this
      contradiction
    · have := h.ordered canonical hji hd hc hsame.symm hstarted
      rw [hd'] at this
      contradiction
  · exact fun i j c d hij hc hd hsame hstarted => h.ordered canonical hij hc hd hsame hstarted
  · intro j d hd hwaiting hreleased
    have hall : d.currentQueue.all s.isReleased = true := by
      rw [all_eq_true]
      intro i hi
      obtain ⟨hij, c, hc, hkey⟩ := h.back j d hd i hi
      rw [State.isReleased, hc]
      exact hreleased i c hij hc hkey
    rw [step, hd, bind_some, if_pos ⟨hwaiting, hall⟩]
    rfl
  · intro i c hc hsettled hreleased
    rw [step, hc, bind_some, if_pos ⟨hsettled, hreleased⟩]
    rfl

theorem getElem?_set_cases (h : (calls.set i c)[j]? = some d) :
    (j = i ∧ d = c) ∨ (j ≠ i ∧ calls[j]? = some d) := by
  rw [getElem?_set] at h
  by_cases hij : i = j
  · rw [if_pos hij] at h
    split at h
    · exact .inl ⟨hij.symm, (some.inj h).symm⟩
    · contradiction
  · rw [if_neg hij] at h
    exact .inr ⟨fun heq => hij heq.symm, h⟩

theorem getElem?_set_other (hne : j ≠ i) (h : calls[j]? = some d) :
    (calls.set i c)[j]? = some d := by
  rw [getElem?_set, if_neg (fun heq => hne heq.symm)]
  exact h

theorem getElem?_set_same (h : calls[i]? = some d) : (calls.set i c)[i]? = some c := by
  rw [getElem?_set, if_pos rfl, if_pos (List.getElem?_eq_some_iff.mp h).1]

/-- A change of one call that keeps its file, its place in the queue and its release. -/
structure Advances (s : State) (c c' : Call) : Prop where
  ok : c'.Ok
  path : c'.path = c.path
  key : c'.key = c.key
  currentQueue : c'.currentQueue = c.currentQueue
  released : c'.released = c.released
  turn : c'.phase ≠ .waiting → c.phase ≠ .waiting ∨ ∀ i ∈ c.currentQueue, s.isReleased i = true

theorem Inv.advance (h : Inv canonical s) {c' : Call} (hc : s.calls[i]? = some c)
    (hadvances : Advances s c c') (files : JsString → Option JsString) :
    Inv canonical { s.setCall i c' with files } := by
  -- A call after the change is a call before it, with the same file, place and release.
  have hbefore {j : Nat} {d' : Call} (hd' : (s.calls.set i c')[j]? = some d') :
      ∃ d, s.calls[j]? = some d ∧ Advances s d d' := by
    rcases getElem?_set_cases hd' with ⟨rfl, rfl⟩ | ⟨-, hd⟩
    · exact ⟨c, hc, hadvances⟩
    · exact ⟨d', hd, h.ok j d' hd, rfl, rfl, rfl, rfl, .inl⟩
  have hafter {j : Nat} {d : Call} (hd : s.calls[j]? = some d) :
      ∃ d', (s.calls.set i c')[j]? = some d' ∧ d'.key = d.key ∧ d'.released = d.released := by
    by_cases hij : j = i
    · subst hij
      rw [hc] at hd
      cases hd
      exact ⟨c', getElem?_set_same hc, hadvances.key, hadvances.released⟩
    · exact ⟨d, getElem?_set_other hij hd, rfl, rfl⟩
  have hreleased {j : Nat} (hj : s.isReleased j = true) :
      State.isReleased { s.setCall i c' with files } j = true := by
    rw [State.isReleased] at hj ⊢
    cases hd : s.calls[j]? with
    | none =>
      rw [hd] at hj
      contradiction
    | some d =>
      rw [hd] at hj
      obtain ⟨d', hd', -, hsame⟩ := hafter hd
      show (match (s.calls.set i c')[j]? with | some c => c.released | none => false) = true
      rw [hd']
      exact hsame.trans hj
  refine ⟨?_, ?_, ?_, ?_, ?_, ?_, ?_⟩
  · intro j d' hd'
    obtain ⟨d, -, hd⟩ := hbefore hd'
    exact hd.ok
  · intro j k d' e' hjk hd' he' hkey hopen
    obtain ⟨d, hd, hadv⟩ := hbefore hd'
    obtain ⟨e, he, hadv'⟩ := hbefore he'
    rw [hadv'.currentQueue]
    apply h.chained j k d e hjk hd he
    · rw [← hadv.key, ← hadv'.key, hkey]
    · rw [← hadv.released, hopen]
  · intro j d' hd' k hk
    obtain ⟨d, hd, hadv⟩ := hbefore hd'
    rw [hadv.currentQueue] at hk
    obtain ⟨hkj, e, he, hkey⟩ := h.back j d hd k hk
    obtain ⟨e', he', hkey', -⟩ := hafter he
    exact ⟨hkj, e', he', by rw [hkey', hkey, hadv.key]⟩
  · intro j d' hd' hstarted k hk
    obtain ⟨d, hd, hadv⟩ := hbefore hd'
    rw [hadv.currentQueue] at hk
    apply hreleased
    rcases hadv.turn hstarted with hstarted | hall
    · exact h.turn j d hd hstarted k hk
    · exact hall k hk
  · intro j d' hd' hopen
    obtain ⟨d, hd, hadv⟩ := hbefore hd'
    rw [hadv.key]
    exact h.queued j d hd (by rw [← hadv.released, hopen])
  · intro key queue hqueue j hj
    obtain ⟨d, hd, hkey⟩ := h.queues key queue hqueue j hj
    obtain ⟨d', hd', hkey', -⟩ := hafter hd
    exact ⟨d', hd', by rw [hkey', hkey]⟩
  · intro j k d' e' hjk hd' he' hsame
    obtain ⟨d, hd, hadv⟩ := hbefore hd'
    obtain ⟨e, he, hadv'⟩ := hbefore he'
    rw [hadv.released, hadv.key, hadv'.key]
    apply h.oneKey j k d e hjk hd he
    rw [SameFile, ← hadv.path, ← hadv'.path]
    exact hsame

section

variable {s : State} {c : Call}

theorem advances_start (hok : c.Ok) (hwaiting : c.phase = .waiting)
    (hturn : c.currentQueue.all s.isReleased = true) : Advances s c c.start := by
  have hall : ∀ i ∈ c.currentQueue, s.isReleased i = true := all_eq_true.mp hturn
  have hquiet : c.listening = false := by
    rw [Bool.eq_false_iff]
    exact fun h => hok.listening h hwaiting
  have hnone : c.outcome = none := by
    rcases hok.open_or with h | h | ⟨h, -⟩
    · exact h
    all_goals
      rw [hwaiting] at h
      contradiction
  rw [Call.start]
  split
  · exact ⟨⟨.inr (.inl rfl), fun _ => nofun, fun _ => rfl⟩, rfl, rfl, rfl, rfl,
      fun _ => .inr hall⟩
  · exact ⟨⟨.inl hnone, fun _ => nofun, hok.released⟩, rfl, rfl, rfl, rfl, fun _ => .inr hall⟩

theorem advances_abort (hok : c.Ok) (hout : ¬ c.InSection) : Advances s c c.abort := by
  rw [Call.abort]
  split
  · rename_i hlistening
    refine ⟨⟨?_, fun h => absurd h Bool.false_ne_true, ?_⟩, rfl, rfl, rfl, rfl, .inl⟩
    · have hstarted := hok.listening hlistening
      cases hphase : c.phase with
      | waiting => exact absurd hphase hstarted
      | preparing => exact .inr (.inr ⟨rfl, rfl⟩)
      | reading => exact absurd (.inl hphase) hout
      | writing content => exact absurd (.inr ⟨content, hphase⟩) hout
      | ended => exact .inr (.inl rfl)
    · intro _
      cases c.outcome with
      | none => rfl
      | some outcome => rfl
  · exact ⟨⟨hok.open_or, hok.listening, hok.released⟩, rfl, rfl, rfl, rfl, .inl⟩

theorem advances_fail (hstarted : c.phase ≠ .waiting) (error : JsString) :
    Advances s c (c.fail error) := by
  refine ⟨⟨.inr (.inl rfl), fun h => absurd h Bool.false_ne_true, ?_⟩, rfl, rfl, rfl, rfl,
    fun _ => .inl hstarted⟩
  intro _
  rw [Call.fail, Call.reject]
  cases c.outcome with
  | none => rfl
  | some outcome => rfl

theorem advances_giveUp (hok : c.Ok) (hstarted : c.phase ≠ .waiting) : Advances s c c.giveUp :=
  ⟨⟨.inr (.inl rfl), fun _ => nofun, hok.released⟩, rfl, rfl, rfl, rfl, fun _ => .inl hstarted⟩

theorem advances_next (hok : c.Ok) (hstarted : c.phase ≠ .waiting)
    (hopen : c.outcome = none) {phase : Phase} (hphase : phase ≠ .waiting) :
    Advances s c { c with phase } :=
  ⟨⟨.inl hopen, fun _ => hphase, hok.released⟩, rfl, rfl, rfl, rfl, fun _ => .inl hstarted⟩

end

theorem Call.Ok.outcome (h : c.Ok) (hended : c.phase ≠ .ended)
    (haborted : c.phase = .preparing → c.aborted = false) : c.outcome = none := by
  rcases h.open_or with hnone | h | ⟨hpreparing, h⟩
  · exact hnone
  · exact absurd h hended
  · rw [haborted hpreparing] at h
    contradiction

section

variable {s : State} {c : Call} (hok : c.Ok)
include hok

theorem advances_prepared (hphase : c.phase = .preparing)
    (error : Option JsString) : Advances s c (c.prepared error) := by
  have hstarted : c.phase ≠ .waiting := by
    rw [hphase]
    exact nofun
  have hended : c.phase ≠ .ended := by
    rw [hphase]
    exact nofun
  unfold Call.prepared
  split
  · split
    all_goals exact advances_fail hstarted _
  · split
    · exact advances_giveUp hok hstarted
    · rename_i haborted
      have hopen := hok.outcome hended (fun _ => Bool.eq_false_iff.mpr haborted)
      split
      all_goals exact advances_next hok hstarted hopen nofun

theorem advances_readDone (hphase : c.phase = .reading)
    (content : Except JsString JsString) : Advances s c (c.readDone nfkc content) := by
  have hstarted : c.phase ≠ .waiting := by
    rw [hphase]
    exact nofun
  have hopen : c.outcome = none := by
    apply hok.outcome
    all_goals
      rw [hphase]
      exact nofun
  unfold Call.readDone
  split
  · exact advances_fail hstarted _
  · split
    · exact advances_giveUp hok hstarted
    · split
      · exact ⟨hok, rfl, rfl, rfl, rfl, .inl⟩
      · split
        · exact advances_fail hstarted _
        · exact advances_next hok hstarted hopen nofun

theorem advances_writeDone {content : JsString}
    (hphase : c.phase = .writing content) (error : Option JsString) :
    Advances s c (c.writeDone error) := by
  have hstarted : c.phase ≠ .waiting := by
    rw [hphase]
    exact nofun
  unfold Call.writeDone
  split
  · exact advances_fail hstarted _
  · split
    · exact advances_giveUp hok hstarted
    · refine ⟨⟨.inr (.inl rfl), fun h => absurd h Bool.false_ne_true, ?_⟩, rfl, rfl, rfl, rfl,
        fun _ => .inl hstarted⟩
      intro _
      cases c.outcome with
      | none => rfl
      | some outcome => rfl

end

theorem Inv.release (h : Inv canonical s) (hc : s.calls[i]? = some c)
    (hsettled : c.outcome.isSome = true) : Inv canonical (releaseCall s i c) := by
  have hok := h.ok i c hc
  have hstarted : c.phase ≠ .waiting := by
    intro hwaiting
    rcases hok.open_or with hnone | hended | ⟨hpreparing, -⟩
    · rw [hnone] at hsettled
      contradiction
    · rw [hwaiting] at hended
      contradiction
    · rw [hwaiting] at hpreparing
      contradiction
  have hbefore {j : Nat} {d' : Call}
      (hd' : (s.calls.set i { c with released := true })[j]? = some d') :
      ∃ d, s.calls[j]? = some d ∧ d'.Ok ∧ d'.path = d.path ∧ d'.key = d.key ∧
        d'.currentQueue = d.currentQueue ∧ d'.phase = d.phase ∧
          (d'.released = false → j ≠ i ∧ d.released = false) ∧
            (d.released = true → d'.released = true) := by
    rcases getElem?_set_cases hd' with ⟨rfl, rfl⟩ | ⟨hne, hd⟩
    · exact ⟨c, hc, ⟨hok.open_or, hok.listening, fun _ => hsettled⟩, rfl, rfl, rfl, rfl, nofun,
        fun _ => rfl⟩
    · exact ⟨d', hd, h.ok j d' hd, rfl, rfl, rfl, rfl, fun hopen => ⟨hne, hopen⟩, id⟩
  have hafter {j : Nat} {d : Call} (hd : s.calls[j]? = some d) :
      ∃ d', (s.calls.set i { c with released := true })[j]? = some d' ∧ d'.key = d.key ∧
        (d.released = true → d'.released = true) := by
    by_cases hij : j = i
    · subst hij
      rw [hc] at hd
      cases hd
      exact ⟨_, getElem?_set_same hc, rfl, fun _ => rfl⟩
    · exact ⟨d, getElem?_set_other hij hd, rfl, id⟩
  have hreleased {j : Nat} (hj : s.isReleased j = true) :
      (releaseCall s i c).isReleased j = true := by
    rw [State.isReleased] at hj
    cases hd : s.calls[j]? with
    | none =>
      rw [hd] at hj
      contradiction
    | some d =>
      rw [hd] at hj
      obtain ⟨d', hd', -, hkeep⟩ := hafter hd
      show (match (s.calls.set i { c with released := true })[j]? with
        | some c => c.released
        | none => false) = true
      rw [hd']
      exact hkeep hj
  refine ⟨?_, ?_, ?_, ?_, ?_, ?_, ?_⟩
  · intro j d' hd'
    obtain ⟨d, -, hd, -⟩ := hbefore hd'
    exact hd
  · intro j k d' e' hjk hd' he' hkey hopen
    obtain ⟨d, hd, -, -, hkd, -, -, hopened, -⟩ := hbefore hd'
    obtain ⟨e, he, -, -, hke, hqueue, -⟩ := hbefore he'
    rw [hqueue]
    exact h.chained j k d e hjk hd he (by rw [← hkd, ← hke, hkey]) (hopened hopen).2
  · intro j d' hd' k hk
    obtain ⟨d, hd, -, -, hkd, hqueue, -⟩ := hbefore hd'
    rw [hqueue] at hk
    obtain ⟨hkj, e, he, hkey⟩ := h.back j d hd k hk
    obtain ⟨e', he', hkey', -⟩ := hafter he
    exact ⟨hkj, e', he', by rw [hkey', hkey, hkd]⟩
  · intro j d' hd' hstarted' k hk
    obtain ⟨d, hd, -, -, -, hqueue, hphase, -⟩ := hbefore hd'
    rw [hqueue] at hk
    rw [hphase] at hstarted'
    exact hreleased (h.turn j d hd hstarted' k hk)
  · intro j d' hd' hopen
    obtain ⟨d, hd, -, -, hkd, -, -, hopened, -⟩ := hbefore hd'
    obtain ⟨hne, hopen⟩ := hopened hopen
    obtain ⟨queue, hqueue, hmem⟩ := h.queued j d hd hopen
    refine ⟨queue, ?_, hmem⟩
    show (if s.fileMutationQueues.get c.key = some (c.currentQueue ++ [i]) then
      s.fileMutationQueues.delete c.key else s.fileMutationQueues).get d'.key = some queue
    rw [hkd]
    split
    · rename_i hown
      rw [JsMap.get_delete, if_neg]
      · exact hqueue
      · -- The deleted queue holds only calls that are released and the call itself.
        intro hkey
        rw [hkey, hqueue, Option.some.injEq] at hown
        rw [hown] at hmem
        rcases mem_append.mp hmem with hmem | hmem
        · have hturn := h.turn i c hc hstarted j hmem
          rw [State.isReleased, hd] at hturn
          rw [← Bool.not_eq_true] at hopen
          exact hopen hturn
        · exact hne (mem_singleton.mp hmem)
    · exact hqueue
  · intro key queue hqueue j hj
    have hold : s.fileMutationQueues.get key = some queue := by
      have hqueue : (if s.fileMutationQueues.get c.key = some (c.currentQueue ++ [i]) then
        s.fileMutationQueues.delete c.key else s.fileMutationQueues).get key = some queue := hqueue
      split at hqueue
      · rw [JsMap.get_delete] at hqueue
        split at hqueue
        · contradiction
        · exact hqueue
      · exact hqueue
    obtain ⟨d, hd, hkey⟩ := h.queues key queue hold j hj
    obtain ⟨d', hd', hkey', -⟩ := hafter hd
    exact ⟨d', hd', by rw [hkey', hkey]⟩
  · intro j k d' e' hjk hd' he' hsame
    obtain ⟨d, hd, -, hpd, hkd, -, -, -, hkeep⟩ := hbefore hd'
    obtain ⟨e, he, -, hpe, hke, -⟩ := hbefore he'
    rw [hkd, hke]
    have hsame : SameFile canonical d e := by
      rw [SameFile, ← hpd, ← hpe]
      exact hsame
    rcases h.oneKey j k d e hjk hd he hsame with hreleased' | hkey
    · exact .inl (hkeep hreleased')
    · exact .inr hkey

theorem getElem?_concat_cases (h : (calls ++ [c])[j]? = some d) :
    (j < calls.length ∧ calls[j]? = some d) ∨ (j = calls.length ∧ d = c) := by
  rw [getElem?_append] at h
  split at h
  · exact .inl ⟨‹_›, h⟩
  · rename_i hj
    right
    have hj' : j - calls.length = 0 := by
      have := (List.getElem?_eq_some_iff.mp h).1
      rw [length_singleton] at this
      omega
    rw [hj'] at h
    exact ⟨by omega, (some.inj h).symm⟩

theorem Inv.call (h : Inv canonical s) {path : JsString} (tool : Tool) (signalAborted : Bool)
    (hkeys : ∀ c ∈ s.calls, c.released = false → canonical c.path = canonical path → c.key = getMutationQueueKey canonical s path)
    : Inv canonical (queueCall canonical s path tool signalAborted) := by
  unfold queueCall
  dsimp only
  generalize getMutationQueueKey canonical s path = key at hkeys
  generalize hqueue : (s.fileMutationQueues.get key).getD [] = currentQueue
  have hmembers : ∀ i ∈ currentQueue, ∃ c, s.calls[i]? = some c ∧ c.key = key := by
    intro i hi
    cases hget : s.fileMutationQueues.get key with
    | none =>
      rw [hget, Option.getD_none] at hqueue
      rw [← hqueue] at hi
      contradiction
    | some queue =>
      rw [hget, getD_some] at hqueue
      exact h.queues key queue hget i (hqueue ▸ hi)
  have hwaits : ∀ (i : Nat) (c : Call), s.calls[i]? = some c → c.key = key → c.released = false →
      i ∈ currentQueue := by
    intro i c hc hkey hopen
    obtain ⟨queue, hget, hmem⟩ := h.queued i c hc hopen
    rw [hkey] at hget
    rw [hget, getD_some] at hqueue
    rw [← hqueue]
    exact hmem
  have hafter {c : Call} {i : Nat} {d : Call} (hd : s.calls[i]? = some d) :
      (s.calls ++ [c])[i]? = some d := by
    rw [getElem?_append_left (List.getElem?_eq_some_iff.mp hd).1]
    exact hd
  have hreleased {t : State} {c : Call} (ht : t.calls = s.calls ++ [c]) {j : Nat}
      (hj : s.isReleased j = true) : t.isReleased j = true := by
    rw [State.isReleased] at hj ⊢
    cases hd : s.calls[j]? with
    | none =>
      rw [hd] at hj
      contradiction
    | some d =>
      rw [hd] at hj
      rw [ht, hafter hd]
      exact hj
  refine ⟨?_, ?_, ?_, ?_, ?_, ?_, ?_⟩
  · intro j d hd
    rcases getElem?_concat_cases hd with ⟨-, hd⟩ | ⟨-, rfl⟩
    · exact h.ok j d hd
    · exact ⟨.inl rfl, nofun, nofun⟩
  · intro i j c d hij hc hd hkey hopen
    rcases getElem?_concat_cases hd with ⟨hj, hd⟩ | ⟨hj, rfl⟩
    · rcases getElem?_concat_cases hc with ⟨-, hc⟩ | ⟨hi, -⟩
      · exact h.chained i j c d hij hc hd hkey hopen
      · omega
    · rcases getElem?_concat_cases hc with ⟨-, hc⟩ | ⟨hi, -⟩
      · exact hwaits i c hc hkey hopen
      · omega
  · intro j d hd i hi
    rcases getElem?_concat_cases hd with ⟨-, hd⟩ | ⟨hj, rfl⟩
    · obtain ⟨hij, c, hc, hkey⟩ := h.back j d hd i hi
      exact ⟨hij, c, hafter hc, hkey⟩
    · obtain ⟨c, hc, hkey⟩ := hmembers i hi
      exact ⟨hj ▸ (List.getElem?_eq_some_iff.mp hc).1, c, hafter hc, hkey⟩
  · intro j d hd hstarted i hi
    rcases getElem?_concat_cases hd with ⟨-, hd⟩ | ⟨-, rfl⟩
    · exact hreleased rfl (h.turn j d hd hstarted i hi)
    · exact absurd rfl hstarted
  · intro j d hd hopen
    dsimp only
    rw [JsMap.get_set]
    rcases getElem?_concat_cases hd with ⟨-, hd⟩ | ⟨hj, rfl⟩
    · by_cases hkey : key = d.key
      · rw [if_pos hkey]
        exact ⟨_, rfl, mem_append_left _ (hwaits j d hd hkey.symm hopen)⟩
      · rw [if_neg hkey]
        exact h.queued j d hd hopen
    · rw [if_pos rfl]
      exact ⟨_, rfl, mem_append_right _ (mem_singleton.mpr hj)⟩
  · intro key' queue hget i hi
    dsimp only at hget ⊢
    rw [JsMap.get_set] at hget
    split at hget
    · rename_i hkey
      cases hget
      rcases mem_append.mp hi with hi | hi
      · obtain ⟨c, hc, hc'⟩ := hmembers i hi
        exact ⟨c, hafter hc, hc'.trans hkey⟩
      · rw [mem_singleton.mp hi, getElem?_concat_length]
        exact ⟨_, rfl, hkey⟩
    · obtain ⟨c, hc, hc'⟩ := h.queues key' queue hget i hi
      exact ⟨c, hafter hc, hc'⟩
  · intro i j c d hij hc hd hsame
    rcases getElem?_concat_cases hd with ⟨hj, hd⟩ | ⟨hj, rfl⟩
    · rcases getElem?_concat_cases hc with ⟨-, hc⟩ | ⟨hi, -⟩
      · exact h.oneKey i j c d hij hc hd hsame
      · omega
    · rcases getElem?_concat_cases hc with ⟨-, hc⟩ | ⟨hi, -⟩
      · cases hopen : c.released with
        | true => exact .inl rfl
        | false => exact .inr (hkeys c (mem_of_getElem? hc) hopen hsame)
      · omega

theorem Inv.step {t : State} {event : Event} (h : Inv canonical s)
    (hmeets : StepMeets canonical s event) (hstep : Mutation.step nfkc canonical s event = some t) :
    Inv canonical t := by
  cases event with
  | call path tool signalAborted =>
    cases hstep
    exact h.call canonical tool signalAborted hmeets
  | start i =>
    rw [Mutation.step, bind_eq_some_iff] at hstep
    obtain ⟨c, hc, hstep⟩ := hstep
    split at hstep
    · rename_i hturn
      cases hstep
      exact h.advance canonical hc (advances_start (h.ok i c hc) hturn.1 hturn.2) s.files
    · contradiction
  | abort i =>
    rw [Mutation.step, Option.map_eq_some_iff] at hstep
    obtain ⟨c, hc, rfl⟩ := hstep
    exact h.advance canonical hc (advances_abort (h.ok i c hc) (hmeets c hc)) s.files
  | prepared i error =>
    rw [Mutation.step, bind_eq_some_iff] at hstep
    obtain ⟨c, hc, hstep⟩ := hstep
    split at hstep
    · rename_i hphase
      cases hstep
      exact h.advance canonical hc (advances_prepared (h.ok i c hc) hphase error) s.files
    · contradiction
  | readDone i error =>
    rw [Mutation.step, bind_eq_some_iff] at hstep
    obtain ⟨c, hc, hstep⟩ := hstep
    split at hstep
    · rename_i hphase
      cases hstep
      exact h.advance canonical hc (advances_readDone nfkc (h.ok i c hc) hphase _) s.files
    · contradiction
  | writeDone i error =>
    rw [Mutation.step, bind_eq_some_iff] at hstep
    obtain ⟨c, hc, hstep⟩ := hstep
    split at hstep
    · rename_i content hphase
      cases error with
      | some error =>
        cases hstep
        exact h.advance canonical hc (advances_writeDone (h.ok i c hc) hphase _) s.files
      | none =>
        cases hstep
        exact h.advance canonical hc (advances_writeDone (h.ok i c hc) hphase none)
          (writeFile canonical s c.path content).files
    · contradiction
  | release i =>
    rw [Mutation.step, bind_eq_some_iff] at hstep
    obtain ⟨c, hc, hstep⟩ := hstep
    split at hstep
    · rename_i hsettled
      cases hstep
      exact h.release canonical hc hsettled.1
    · contradiction

theorem inv_initial (files : JsString → Option JsString) : Inv canonical (.initial files) := by
  have hnone {i : Nat} {c : Call} (hc : (State.initial files).calls[i]? = some c) : False := by
    rw [State.initial, getElem?_nil] at hc
    contradiction
  refine ⟨fun _ _ hc => (hnone hc).elim, fun _ _ _ _ _ hc => (hnone hc).elim,
    fun _ _ hd => (hnone hd).elim, fun _ _ hd => (hnone hd).elim, fun _ _ hc => (hnone hc).elim,
    ?_, fun _ _ _ _ _ hc => (hnone hc).elim⟩
  intro key queue hqueue
  rw [State.initial, JsMap.get_empty] at hqueue
  contradiction

/-- In a run whose steps meet the condition, calls on one file are serialized in every
state. -/
theorem calls_serialized {files : JsString → Option JsString} {events : List Event} {s : State}
    (hmeets : Along (Mutation.step nfkc canonical) (StepMeets canonical) (.initial files) events)
    (hrun : run (Mutation.step nfkc canonical) (.initial files) events = some s) :
    Serialized nfkc canonical s :=
  (run_invariant (fun _ _ _ h hmeets hstep => h.step nfkc canonical hmeets hstep)
    (inv_initial canonical files) hmeets hrun).serialized nfkc canonical

end Queue

def sampleFiles : JsString → Option JsString := fun file =>
  if file = js "p" then some (js "a") else none

/-- Two writes of one file are serialized after the first one has started. -/
theorem calls_serialized_two : ∃ s, run (step id id) (.initial sampleFiles)
        [.call (js "p") (.write (js "b")) false, .call (js "p") (.write (js "c")) false,
          .start 0] = some s ∧
      Serialized id id s := by
  have hmeets : Along (step id id) (StepMeets id) (.initial sampleFiles)
      [.call (js "p") (.write (js "b")) false, .call (js "p") (.write (js "c")) false,
        .start 0] := by
    refine Along.cons rfl (fun c hc => nomatch hc) (Along.cons rfl ?_ (Along.cons rfl trivial trivial))
    intro c hc _ _
    rw [mem_singleton.mp hc]
    rfl
  exact ⟨_, rfl, calls_serialized id id hmeets rfl⟩

theorem not_serialized_of_sections {nfkc canonical : JsString → JsString} {p q : JsString × Phase}
    (hcalls : s.calls.map (fun c => (c.path, c.phase)) = [p, q])
    (hsame : canonical p.1 = canonical q.1)
    (hp : p.2 = .reading ∨ ∃ content, p.2 = .writing content)
    (hq : q.2 = .reading ∨ ∃ content, q.2 = .writing content) : ¬ Serialized nfkc canonical s := by
  intro h
  have hfirst : (s.calls.map fun c => (c.path, c.phase))[0]? = some p := by rw [hcalls]; rfl
  have hsecond : (s.calls.map fun c => (c.path, c.phase))[1]? = some q := by rw [hcalls]; rfl
  rw [getElem?_map, Option.map_eq_some_iff] at hfirst hsecond
  obtain ⟨c, hc, rfl⟩ := hfirst
  obtain ⟨d, hd, rfl⟩ := hsecond
  exact h.exclusive 0 1 c d hc hd (by decide) hsame hp hq

/-- An abort releases the queue while the write is in flight, and a file that does not
exist yet is queued under each of its paths. -/
theorem calls_not_serialized : (∃ s, run (step id id) (.initial sampleFiles)
        [.call (js "p") (.edit [⟨js "a", js "b"⟩]) false,
          .call (js "p") (.edit [⟨js "a", js "c"⟩]) false, .start 0, .prepared 0 none,
          .readDone 0 none, .abort 0, .release 0, .start 1, .prepared 1 none] = some s ∧
      ¬ Serialized id id s) ∧ ∃ s, run (step id fun _ => js "p") (.initial fun _ => none)
        [.call (js "p") (.write (js "b")) false, .call (js "l") (.write (js "c")) false,
          .start 0, .prepared 0 none, .start 1, .prepared 1 none] = some s ∧
      ¬ Serialized id (fun _ => js "p") s := by
  constructor
  · have hphases : (run (step id id) (.initial sampleFiles)
        [.call (js "p") (.edit [⟨js "a", js "b"⟩]) false,
          .call (js "p") (.edit [⟨js "a", js "c"⟩]) false, .start 0, .prepared 0 none,
          .readDone 0 none, .abort 0, .release 0, .start 1, .prepared 1 none]).map
        (fun s => s.calls.map fun c => (c.path, c.phase)) =
        some [(js "p", .writing (js "b")), (js "p", .reading)] := by
      decide +kernel
    obtain ⟨s, hs, hcalls⟩ := Option.map_eq_some_iff.mp hphases
    exact ⟨s, hs, not_serialized_of_sections hcalls rfl (Or.inr ⟨_, rfl⟩) (Or.inl rfl)⟩
  · have hphases : (run (step id fun _ => js "p") (.initial fun _ => none)
        [.call (js "p") (.write (js "b")) false, .call (js "l") (.write (js "c")) false,
          .start 0, .prepared 0 none, .start 1, .prepared 1 none]).map
        (fun s => s.calls.map fun c => (c.path, c.phase)) =
        some [(js "p", .writing (js "b")), (js "l", .writing (js "c"))] := by
      decide
    obtain ⟨s, hs, hcalls⟩ := Option.map_eq_some_iff.mp hphases
    exact ⟨s, hs, not_serialized_of_sections hcalls rfl (Or.inr ⟨_, rfl⟩) (Or.inr ⟨_, rfl⟩)⟩

end Mutation

end AcademicAgent
