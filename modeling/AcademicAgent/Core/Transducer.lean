import Mathlib.Data.List.Basic

/-!
# Transducers

A machine that reads one symbol at a time and writes some symbols for each.
-/

namespace AcademicAgent

open List

/-- A machine with states `σ`, input `α` and output `β`. -/
structure Transducer (σ α β : Type*) where
  step : σ → α → σ × List β

namespace Transducer

variable {σ α β : Type*} (m : Transducer σ α β)

def feed (s : σ) : List α → σ × List β
  | [] => (s, [])
  | x :: xs =>
    let (t, out) := m.step s x
    let (u, rest) := feed t xs
    (u, out ++ rest)

/-- What is written for each of several chunks, and the last state. -/
def feedChunks (s : σ) : List (List α) → σ × List (List β)
  | [] => (s, [])
  | chunk :: chunks =>
    let (t, out) := m.feed s chunk
    let (u, rest) := feedChunks t chunks
    (u, out :: rest)

section

variable (s : σ)

@[simp] theorem feed_nil : m.feed s [] = (s, []) := rfl

theorem feed_cons (x : α) (xs : List α) : m.feed s (x :: xs) =
      ((m.feed (m.step s x).1 xs).1, (m.step s x).2 ++ (m.feed (m.step s x).1 xs).2) := rfl

theorem feed_append (xs ys : List α) : m.feed s (xs ++ ys) =
      ((m.feed (m.feed s xs).1 ys).1, (m.feed s xs).2 ++ (m.feed (m.feed s xs).1 ys).2) := by
  induction xs generalizing s with
  | nil => rfl
  | cons x xs ih =>
    rw [cons_append, feed_cons, feed_cons, ih]
    simp only [append_assoc]

theorem feedChunks_flatten (chunks : List (List α)) :
    (m.feedChunks s chunks).1 = (m.feed s chunks.flatten).1 ∧
      (m.feedChunks s chunks).2.flatten = (m.feed s chunks.flatten).2 := by
  induction chunks generalizing s with
  | nil => exact ⟨rfl, rfl⟩
  | cons chunk chunks ih =>
    obtain ⟨hstate, hout⟩ := ih (m.feed s chunk).1
    rw [flatten_cons, feed_append]
    refine ⟨hstate, ?_⟩
    rw [← hout]
    rfl

theorem feedChunks_concat (chunks : List (List α)) (chunk : List α) :
    m.feedChunks s (chunks ++ [chunk]) = ((m.feed (m.feedChunks s chunks).1 chunk).1,
      (m.feedChunks s chunks).2 ++ [(m.feed (m.feedChunks s chunks).1 chunk).2]) := by
  induction chunks generalizing s with
  | nil => rfl
  | cons first chunks ih =>
    rw [cons_append, feedChunks, feedChunks]
    dsimp only
    rw [ih]
    rfl

end

/-- Where a symbol is always the last that a step writes, the input can be cut behind
the place at which it was written. -/
theorem cut_behind {y : β} (hlast : ∀ s x before after, (m.step s x).2 = before ++ y :: after →
    after = []) {s : σ} {xs : List α} {before after : List β}
    (h : (m.feed s xs).2 = before ++ y :: after) :
    ∃ first second, xs = first ++ second ∧ (m.feed s first).2 = before ++ [y] ∧
      (m.feed (m.feed s first).1 second).2 = after := by
  induction xs generalizing s before with
  | nil => cases before <;> contradiction
  | cons x xs ih =>
    rw [feed_cons] at h
    rcases append_eq_append_iff.mp h with ⟨as, hbefore, hrest⟩ | ⟨bs, hout, hrest⟩
    · -- the symbol is written by a later step
      obtain ⟨first, second, rfl, hfirst, hsecond⟩ := ih hrest
      refine ⟨x :: first, second, rfl, ?_, hsecond⟩
      rw [feed_cons, hfirst, hbefore, append_assoc]
    · cases bs with
      | nil =>
        obtain ⟨first, second, rfl, hfirst, hsecond⟩ := @ih (m.step s x).1 [] hrest.symm
        refine ⟨x :: first, second, rfl, ?_, hsecond⟩
        rw [feed_cons, hfirst, hout, append_nil, nil_append]
      | cons z bs =>
        obtain ⟨rfl, hafter⟩ := List.cons.inj hrest
        have hnil : bs = [] := hlast s x before bs hout
        subst hnil
        refine ⟨[x], xs, rfl, ?_, hafter.symm⟩
        rw [feed_cons, feed_nil, append_nil, hout]

end Transducer

end AcademicAgent
