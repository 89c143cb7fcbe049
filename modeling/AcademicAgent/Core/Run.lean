import Mathlib.Logic.Basic

/-!
# Runs of a step function

A system takes one step per input; a step without a result is one the system does not complete.
-/

namespace AcademicAgent

variable {σ ι : Type}

variable {is : List ι}

def run (step : σ → ι → Option σ) : σ → List ι → Option σ
  | s, [] => some s
  | s, i :: is => (step s i).bind fun t => run step t is

/-- A condition on the state before a step and its input, at every step of a run. -/
def Along (step : σ → ι → Option σ) (permitted : σ → ι → Prop) : σ → List ι → Prop
  | _, [] => True
  | s, i :: is => permitted s i ∧ ∀ t, step s i = some t → Along step permitted t is

section

variable {step : σ → ι → Option σ}

theorem Along.cons {permitted : σ → ι → Prop} {s t : σ} {i : ι}
    {is : List ι} (hstep : step s i = some t) (hi : permitted s i)
    (hrest : Along step permitted t is) : Along step permitted s (i :: is) := by
  refine ⟨hi, fun u hu => ?_⟩
  rw [hstep] at hu
  cases hu
  exact hrest

theorem Along.imp {permitted weaker : σ → ι → Prop} (h : ∀ s i, permitted s i → weaker s i) {s : σ}
    (ha : Along step permitted s is) : Along step weaker s is := by
  induction is generalizing s with
  | nil => trivial
  | cons i is ih => exact ⟨h s i ha.1, fun t ht => ih (ha.2 t ht)⟩

theorem Along.and {p q : σ → ι → Prop} {s : σ} (hp : Along step p s is) (hq : Along step q s is) :
    Along step (fun s i => p s i ∧ q s i) s is := by
  induction is generalizing s with
  | nil => trivial
  | cons i is ih => exact ⟨⟨hp.1, hq.1⟩, fun t ht => ih (hp.2 t ht) (hq.2 t ht)⟩

/-- Conditions that agree wherever an invariant holds hold along the same runs. -/
theorem along_iff_along {p q : σ → ι → Prop} {inv : σ → Prop}
    (hiff : ∀ s i, inv s → (p s i ↔ q s i))
    (hstep : ∀ s i t, inv s → q s i → step s i = some t → inv t) {s : σ} (hs : inv s) :
    Along step p s is ↔ Along step q s is := by
  induction is generalizing s with
  | nil => exact Iff.rfl
  | cons i is ih =>
    constructor
    · intro h
      have hq := (hiff s i hs).mp h.1
      exact ⟨hq, fun t ht => (ih (hstep s i t hs hq ht)).mp (h.2 t ht)⟩
    · intro h
      exact ⟨(hiff s i hs).mpr h.1, fun t ht => (ih (hstep s i t hs h.1 ht)).mpr (h.2 t ht)⟩

end

/-- A decidable condition can be checked along a run. -/
instance decidableAlong (step : σ → ι → Option σ) (permitted : σ → ι → Prop)
    [∀ s i, Decidable (permitted s i)] : ∀ s is, Decidable (Along step permitted s is)
  | _, [] => isTrue trivial
  | s, i :: is =>
    match h : step s i with
    | none =>
      decidable_of_iff (permitted s i)
        ⟨fun hi => ⟨hi, fun t ht => by rw [h] at ht; cases ht⟩, fun ha => ha.1⟩
    | some t =>
      have : Decidable (Along step permitted t is) := decidableAlong step permitted t is
      decidable_of_iff (permitted s i ∧ Along step permitted t is)
        ⟨fun ha => .cons h ha.1 ha.2, fun ha => ⟨ha.1, ha.2 t h⟩⟩

def Reachable (step : σ → ι → Option σ) (s t : σ) : Prop := ∃ is, run step s is = some t

@[simp] theorem run_nil (step : σ → ι → Option σ) (s : σ) : run step s [] = some s := rfl

theorem run_cons_eq_some {step : σ → ι → Option σ} {s u : σ} {i : ι} :
    run step s (i :: is) = some u ↔ ∃ t, step s i = some t ∧ run step t is = some u := by
  rw [run, Option.bind_eq_some_iff]

theorem run_append (step : σ → ι → Option σ) (s : σ) (is js : List ι) :
    run step s (is ++ js) = (run step s is).bind fun t => run step t js := by
  induction is generalizing s with
  | nil => rfl
  | cons i is ih =>
    simp only [List.cons_append, run]
    cases step s i with
    | none => rfl
    | some t => exact ih t

theorem run_invariant {step : σ → ι → Option σ} {permitted : σ → ι → Prop} {inv : σ → Prop}
    (hstep : ∀ s i t, inv s → permitted s i → step s i = some t → inv t) {s t : σ} (hs : inv s)
    (hp : Along step permitted s is) (hr : run step s is = some t) : inv t := by
  induction is generalizing s with
  | nil =>
    cases hr
    exact hs
  | cons i is ih =>
    obtain ⟨u, hu, hr⟩ := run_cons_eq_some.mp hr
    exact ih (hstep s i u hs hp.1 hu) (hp.2 u hu) hr

theorem Reachable.invariant {step : σ → ι → Option σ} {inv : σ → Prop}
    (hstep : ∀ s i t, inv s → step s i = some t → inv t)
    {s t : σ} (hs : inv s) (h : Reachable step s t) : inv t := by
  obtain ⟨is, hr⟩ := h
  induction is generalizing s with
  | nil =>
    cases hr
    exact hs
  | cons i is ih =>
    obtain ⟨u, hu, hr⟩ := run_cons_eq_some.mp hr
    exact ih (hstep s i u hs hu) hr

end AcademicAgent
