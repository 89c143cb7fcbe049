import Mathlib.Data.List.Basic

/-!
# Resumable computations

A computation performs effects on a shared state, reads that state and awaits the answers of
calls.
-/

namespace AcademicAgent

/-- A computation with effects, calls and answers to each call. -/
inductive Resumable (S E Q : Type) (A : Q → Type) (α : Type) where
  | done (result : α)
  | perform (effect : E) (next : Resumable S E Q A α)
  | read (next : S → Resumable S E Q A α)
  | await (call : Q) (next : A call → Resumable S E Q A α)

/-- What a computation has come to: its result, the state, and what it did in order. -/
structure Finished (S E Q α : Type) where
  result : α
  state : S
  log : List (E ⊕ Q)

section

variable {S E Q α : Type} (rest : Finished S E Q α) (log : List (E ⊕ Q))

/-- What a computation has come to when it goes on from an earlier log. -/
def Finished.after : Finished S E Q α :=
  { rest with log := log ++ rest.log }

@[simp] theorem Finished.result_after : (rest.after log).result = rest.result := rfl

@[simp] theorem Finished.state_after : (rest.after log).state = rest.state := rfl

@[simp] theorem Finished.log_after : (rest.after log).log = log ++ rest.log := rfl

end

@[simp] theorem Finished.mk_after {S E Q α : Type} (result : α) (state : S)
    (log more : List (E ⊕ Q)) :
    (⟨result, state, more⟩ : Finished S E Q α).after log = ⟨result, state, log ++ more⟩ := rfl

@[simp] theorem Finished.after_nil {S E Q α : Type} (rest : Finished S E Q α) :
    rest.after [] = rest := rfl

@[simp] theorem Finished.after_after {S E Q α : Type} (rest : Finished S E Q α)
    (log earlier : List (E ⊕ Q)) : (rest.after log).after earlier = rest.after (earlier ++ log) := by
  rw [after, after, after, List.append_assoc]

/-- A computation that has ended or waits for the answer of a call. -/
inductive Suspended (S E Q : Type) (A : Q → Type) (α : Type) where
  | ended (result : α)
  | awaiting (call : Q) (next : A call → Resumable S E Q A α)

namespace Resumable

variable {S E Q : Type} {A : Q → Type} {α β γ : Type}

variable {p : Resumable S E Q A α}

/-- One computation and then another that depends on its result. -/
def bind : Resumable S E Q A α → (α → Resumable S E Q A β) → Resumable S E Q A β
  | .done a, f => f a
  | .perform e next, f => .perform e (next.bind f)
  | .read next, f => .read fun s => (next s).bind f
  | .await q next, f => .await q fun answer => (next answer).bind f

instance : Monad (Resumable S E Q A) where
  pure := .done
  bind := bind

def effect (e : E) : Resumable S E Q A Unit := .perform e (.done ())

def state : Resumable S E Q A S := .read .done

def ask (q : Q) : Resumable S E Q A (A q) := .await q .done

def effects : List E → Resumable S E Q A Unit
  | [] => .done ()
  | e :: es => .perform e (effects es)

variable (apply : S → E → S) (reply : List Q → (q : Q) → A q)

/-- Run a computation through; an answer may depend on the calls before. -/
def runWith : Resumable S E Q A α → List Q → S → Finished S E Q α
  | .done a, _, s => ⟨a, s, []⟩
  | .perform e next, calls, s =>
    let rest := runWith next calls (apply s e)
    { rest with log := .inl e :: rest.log }
  | .read next, calls, s => runWith (next s) calls s
  | .await q next, calls, s =>
    let rest := runWith (next (reply calls q)) (calls ++ [q]) s
    { rest with log := .inr q :: rest.log }

def callsOf (log : List (E ⊕ Q)) : List Q := log.filterMap Sum.getRight?

def effectsOf (log : List (E ⊕ Q)) : List E := log.filterMap Sum.getLeft?

variable {apply reply}

@[simp] theorem callsOf_nil : callsOf ([] : List (E ⊕ Q)) = [] := rfl

@[simp] theorem callsOf_append (xs ys : List (E ⊕ Q)) :
    callsOf (xs ++ ys) = callsOf xs ++ callsOf ys :=
  List.filterMap_append

@[simp] theorem callsOf_effect (e : E) (log : List (E ⊕ Q)) :
    callsOf (.inl e :: log) = callsOf log := rfl

@[simp] theorem callsOf_call (q : Q) (log : List (E ⊕ Q)) :
    callsOf (.inr q :: log) = q :: callsOf log := rfl

@[simp] theorem effectsOf_nil : effectsOf ([] : List (E ⊕ Q)) = [] := rfl

@[simp] theorem effectsOf_append (xs ys : List (E ⊕ Q)) :
    effectsOf (xs ++ ys) = effectsOf xs ++ effectsOf ys :=
  List.filterMap_append

@[simp] theorem effectsOf_effect (e : E) (log : List (E ⊕ Q)) :
    effectsOf (.inl e :: log) = e :: effectsOf log := rfl

@[simp] theorem effectsOf_call (q : Q) (log : List (E ⊕ Q)) :
    effectsOf (.inr q :: log) = effectsOf log := rfl

theorem runWith_bind (p : Resumable S E Q A α) (f : α → Resumable S E Q A β) (calls : List Q)
    (s : S) :
    runWith apply reply (p >>= f) calls s = let first := runWith apply reply p calls s
      (runWith apply reply (f first.result) (calls ++ callsOf first.log) first.state).after
        first.log := by
  show runWith apply reply (p.bind f) calls s = _
  induction p generalizing calls s with
  | done a => simp [bind, runWith]
  | perform e next ih =>
    rw [bind, runWith, ih]
    rfl
  | read next ih => exact ih s calls s
  | await q next ih =>
    rw [bind, runWith, ih]
    simp [runWith, Finished.after]

/-- Run a computation to its end or its next call: what it has come to, the state, and
the effects on the way. -/
def advance (apply : S → E → S) :
    Resumable S E Q A α → S → Suspended S E Q A α × S × List E
  | .done a, s => (.ended a, s, [])
  | .perform e next, s =>
    let rest := advance apply next (apply s e)
    (rest.1, rest.2.1, e :: rest.2.2)
  | .read next, s => advance apply (next s) s
  | .await q next, s => (.awaiting q next, s, [])

theorem state_advance (p : Resumable S E Q A α) (s : S) :
    (p.advance apply s).2.1 = (p.advance apply s).2.2.foldl apply s := by
  induction p generalizing s with
  | done a => rfl
  | perform e next ih => exact ih (apply s e)
  | read next ih => exact ih s s
  | await q next => rfl

section

variable {rejects : (q : Q) → A q → Prop} {ends : α → Prop} {endsNext : β → Prop}

/-- An answer that rejects a call ends a computation at once, with a result of a kind. -/
def Quits (rejects : (q : Q) → A q → Prop) (ends : α → Prop) : Resumable S E Q A α → Prop
  | .done _ => True
  | .perform _ next => Quits rejects ends next
  | .read next => ∀ s, Quits rejects ends (next s)
  | .await q next => ∀ answer, (rejects q answer → ∃ a, next answer = .done a ∧ ends a) ∧
      Quits rejects ends (next answer)

@[simp] theorem quits_pure (a : α) : Quits rejects ends (pure a : Resumable S E Q A α) := trivial

@[simp] theorem quits_effect (e : E) {ends : Unit → Prop} :
    Quits rejects ends (effect e : Resumable S E Q A Unit) := trivial

@[simp] theorem quits_state {ends : S → Prop} :
    Quits rejects ends (state : Resumable S E Q A S) := fun _ => trivial

theorem quits_effects (es : List E) {ends : Unit → Prop} :
    Quits rejects ends (effects es : Resumable S E Q A Unit) := by
  induction es with
  | nil => trivial
  | cons e es ih => exact ih

/-- A sequence ends at a rejection when both parts do and the second is over at once after a
result that the first ends with. -/
theorem Quits.bind {f : α → Resumable S E Q A β} (hp : Quits rejects ends p)
    (hf : ∀ a, Quits rejects endsNext (f a)) (hends : ∀ a, ends a → ∃ b, f a = .done b ∧ endsNext b)
    : Quits rejects endsNext (p >>= f) := by
  show Quits rejects endsNext (p.bind f)
  induction p with
  | done a => exact hf a
  | perform e next ih => exact ih hp
  | read next ih => exact fun s => ih s (hp s)
  | await q next ih =>
    intro answer
    obtain ⟨hrejects, hnext⟩ := hp answer
    refine ⟨fun hanswer => ?_, ih answer hnext⟩
    obtain ⟨a, hdone, ha⟩ := hrejects hanswer
    obtain ⟨b, hb, hendsNext⟩ := hends a ha
    have hsecond : (next answer).bind f = .done b := by
      rw [hdone]
      exact hb
    exact ⟨b, hsecond, hendsNext⟩

theorem Quits.bind_never {f : α → Resumable S E Q A β} (hp : Quits rejects (fun _ => False) p)
    (hf : ∀ a, Quits rejects endsNext (f a)) : Quits rejects endsNext (p >>= f) :=
  hp.bind hf fun _ h => h.elim

theorem Quits.advance (hp : Quits rejects ends p) (s : S) {q : Q} {next : A q → Resumable S E Q A α}
    (h : (p.advance apply s).1 = .awaiting q next) : Quits rejects ends (.await q next) := by
  induction p generalizing s with
  | done a => cases h
  | perform e next ih => exact ih hp (apply s e) h
  | read next ih => exact ih s (hp s) s h
  | await q next ih =>
    cases h
    exact hp

end

end Resumable

end AcademicAgent
