import Mathlib.Data.List.DropRight
import Mathlib.Data.List.GetD

/-!
# Trailing filler

A list from which the trailing copies of an element are cut off is told by its elements,
when that element is read behind its end.
-/

namespace AcademicAgent

open List

namespace Padding

variable {α : Type} [BEq α] [LawfulBEq α] {a : α}

/-- The list without the trailing copies of an element. -/
def trimFiller (a : α) (xs : List α) : List α := xs.rdropWhile (· == a)

theorem getD_trimFiller (xs : List α) (i : Nat) : (trimFiller a xs).getD i a = xs.getD i a := by
  induction xs using reverseRecOn with
  | nil => rfl
  | append_singleton xs x ih =>
    rw [trimFiller]
    by_cases hx : x = a
    · subst hx
      rw [rdropWhile_concat_pos _ _ _ (by simp), ← trimFiller, ih]
      rcases Nat.lt_trichotomy i xs.length with hlt | rfl | hgt
      · rw [getD_append _ _ _ _ hlt]
      · rw [getD_eq_default _ _ (Nat.le_refl _)]
        simp
      · rw [getD_eq_default _ _ (by omega), getD_eq_default _ _ (by simp; omega)]
    · rw [rdropWhile_concat_neg _ _ _ (by simpa using hx)]

theorem getD_length_sub_one {xs : List α} (h : trimFiller a xs ≠ []) :
    (trimFiller a xs).getD ((trimFiller a xs).length - 1) a ≠ a := by
  have hlast := rdropWhile_last_not (· == a) xs h
  have hpos := length_pos_iff.mpr h
  rw [getD_eq_getElem _ _ (Nat.sub_lt hpos Nat.one_pos), ← getLast_eq_getElem h]
  exact fun heq => hlast (beq_iff_eq.mpr heq)

theorem length_trimFiller_le {xs ys : List α} (h : ∀ i, xs.getD i a = ys.getD i a) :
    (trimFiller a xs).length ≤ (trimFiller a ys).length := by
  by_contra hlt
  have hne : trimFiller a xs ≠ [] := ne_nil_of_length_pos (by omega)
  refine getD_length_sub_one hne ?_
  rw [getD_trimFiller, h, ← getD_trimFiller, getD_eq_default _ _ (by omega)]

theorem trimFiller_eq_iff {xs ys : List α} :
    trimFiller a xs = trimFiller a ys ↔ ∀ i, xs.getD i a = ys.getD i a := by
  constructor
  · intro h i
    rw [← getD_trimFiller, h, getD_trimFiller]
  · intro h
    refine ext_getElem (Nat.le_antisymm (length_trimFiller_le h)
      (length_trimFiller_le fun i => (h i).symm)) fun i hi hi' => ?_
    rw [← getD_eq_getElem _ a hi, ← getD_eq_getElem _ a hi', getD_trimFiller, getD_trimFiller, h]

theorem trimFiller_eq_nil {xs : List α} : trimFiller a xs = [] ↔ ∀ x ∈ xs, x = a := by
  rw [trimFiller, rdropWhile_eq_nil_iff]
  simp

theorem prefix_trimFiller {xs ys : List α} {x : α} (hx : x ≠ a) :
    xs ++ [x] <+: trimFiller a (xs ++ [x] ++ ys) := by
  induction ys using reverseRecOn with
  | nil =>
    have hkept : trimFiller a (xs ++ [x] ++ []) = xs ++ [x] := by
      rw [append_nil, trimFiller, rdropWhile_concat_neg _ _ _ (by simpa using hx)]
    exact ⟨[], (append_nil _).trans hkept.symm⟩
  | append_singleton ys y ih =>
    rw [← append_assoc, trimFiller]
    by_cases hy : y = a
    · rw [rdropWhile_concat_pos _ _ _ (by simpa using hy)]
      exact ih
    · rw [rdropWhile_concat_neg _ _ _ (by simpa using hy), append_assoc (xs ++ [x])]
      exact prefix_append _ _

end Padding

end AcademicAgent
