import Mathlib.Data.List.Basic

/-!
# Elements and what stands around them

A property of every element of a sequence, with the elements before it and behind it, is
read off from the front.
-/

namespace AcademicAgent

open List

namespace Preceding

variable {α : Type}

/-- Every element of a sequence has a property with what stands before it, which starts with
the given elements, and with what stands behind it. -/
def Each (P : List α → α → List α → Prop) (before xs : List α) : Prop :=
  ∀ pre x post, xs = pre ++ x :: post → P (before ++ pre) x post

variable {P : List α → α → List α → Prop} {before xs ys : List α}

theorem each_nil : Each P before [] := by
  intro pre x post h
  cases pre <;> cases h

theorem each_cons {x : α} : Each P before (x :: xs) ↔ P before x xs ∧ Each P (before ++ [x]) xs := by
  constructor
  · intro h
    refine ⟨?_, fun pre y post heq => ?_⟩
    · have hhead := h [] x xs rfl
      rwa [append_nil] at hhead
    · have hrest := h (x :: pre) y post (by rw [heq, cons_append])
      rwa [append_assoc, singleton_append]
  · rintro ⟨hhead, hrest⟩ pre y post heq
    cases pre with
    | nil =>
      obtain ⟨rfl, rfl⟩ := List.cons.inj heq
      rwa [append_nil]
    | cons z pre =>
      obtain ⟨rfl, htail⟩ := List.cons.inj heq
      have := hrest pre y post htail
      rwa [append_assoc, singleton_append] at this

theorem each_append (hP : ∀ before x post post', P before x post → P before x post') :
    Each P before (xs ++ ys) ↔ Each P before xs ∧ Each P (before ++ xs) ys := by
  induction xs generalizing before with
  | nil =>
    rw [nil_append, append_nil]
    exact (and_iff_right each_nil).symm
  | cons x xs ih =>
    rw [cons_append, each_cons, each_cons, ih, append_assoc, singleton_append, and_assoc]
    exact and_congr_left' ⟨hP _ _ _ _, hP _ _ _ _⟩

theorem each_append_of_forall (h : ∀ x ∈ xs, ∀ before post, P before x post) :
    Each P before (xs ++ ys) ↔ Each P (before ++ xs) ys := by
  induction xs generalizing before with
  | nil => rw [nil_append, append_nil]
  | cons x xs ih =>
    obtain ⟨hx, hxs⟩ := forall_mem_cons.mp h
    rw [cons_append, each_cons, ih hxs, append_assoc, singleton_append]
    exact and_iff_right (hx _ _)

end Preceding

end AcademicAgent
