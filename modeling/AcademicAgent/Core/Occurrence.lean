import Mathlib.Data.List.Basic

/-!
# Occurrences in a sequence

A needle starts at a position of a haystack when it is a prefix of what is left there, so
occurrences may overlap and the empty needle starts everywhere.
-/

namespace AcademicAgent

open List Option

variable {α : Type*}

variable {p : Nat} {front : List α}

/-- The needle starts at position `p`. -/
def OccursAt (hay needle : List α) (p : Nat) : Prop := p ≤ hay.length ∧ needle <+: hay.drop p

instance [DecidableEq α] (hay needle : List α) (p : Nat) : Decidable (OccursAt hay needle p) :=
  inferInstanceAs (Decidable (_ ∧ _))

/-- The needle starts at two positions, which may overlap. -/
def OccursTwice (hay needle : List α) : Prop :=
  ∃ p q, p < q ∧ OccursAt hay needle p ∧ OccursAt hay needle q

/-- The needle stands at two places that do not overlap. -/
def OccursApart (hay needle : List α) : Prop :=
  ∃ p q, p + needle.length ≤ q ∧ OccursAt hay needle p ∧ OccursAt hay needle q

section Positions

variable {hay needle : List α}

theorem occursAt_zero : OccursAt hay needle 0 ↔ needle <+: hay := by
  simp only [OccursAt, Nat.zero_le, drop_zero, true_and]

theorem occursAt_cons_succ {a : α} :
    OccursAt (a :: hay) needle (p + 1) ↔ OccursAt hay needle p := by
  simp only [OccursAt, length_cons, Nat.add_le_add_iff_right, drop_succ_cons]

theorem occursAt_nil : OccursAt ([] : List α) needle p ↔ p = 0 ∧ needle = [] := by
  simp only [OccursAt, length_nil, Nat.le_zero, drop_nil, prefix_nil]

theorem OccursAt.add_length_le (h : OccursAt hay needle p) : p + needle.length ≤ hay.length := by
  have hlength := h.2.length_le
  rw [length_drop] at hlength
  have := h.1
  omega

theorem occursAt_drop {k : Nat} (hk : k ≤ hay.length) :
    OccursAt (hay.drop k) needle p ↔ OccursAt hay needle (k + p) := by
  simp only [OccursAt, length_drop, drop_drop]
  constructor
  all_goals exact fun ⟨hp, hpre⟩ => ⟨by omega, hpre⟩

theorem occursAt_append_right :
    OccursAt (front ++ hay) needle (front.length + p) ↔ OccursAt hay needle p := by
  have hle : front.length ≤ (front ++ hay).length := by
    rw [length_append]
    omega
  rw [← occursAt_drop hle, drop_left]

/-- The occurrences that end inside the front of a sequence are those of the front. -/
theorem occursAt_append_left {back : List α} (hp : p + needle.length ≤ hay.length) :
    OccursAt (hay ++ back) needle p ↔ OccursAt hay needle p := by
  have hdrop : (hay ++ back).drop p = hay.drop p ++ back :=
    drop_append_of_le_length (by omega)
  have hlength : needle.length ≤ (hay.drop p).length := by
    rw [length_drop]
    omega
  simp only [OccursAt, hdrop, length_append]
  constructor
  · exact fun ⟨_, hpre⟩ => ⟨by omega, prefix_of_prefix_length_le hpre
      (prefix_append _ _) hlength⟩
  · exact fun ⟨_, hpre⟩ => ⟨by omega, hpre.trans (prefix_append _ _)⟩

theorem occursTwice_iff : OccursTwice hay needle ↔ ∃ q ∈ range (hay.length + 1), ∃ p ∈ range q,
        OccursAt hay needle p ∧ OccursAt hay needle q := by
  constructor
  · rintro ⟨p, q, hpq, hp, hq⟩
    exact ⟨q, mem_range.mpr (Nat.lt_succ_of_le hq.1), p, mem_range.mpr hpq, hp, hq⟩
  · rintro ⟨q, -, p, hpq, hp, hq⟩
    exact ⟨p, q, mem_range.mp hpq, hp, hq⟩

instance [DecidableEq α] : Decidable (OccursTwice hay needle) :=
  decidable_of_iff _ occursTwice_iff.symm

theorem existsUnique_occursAt_iff :
    (∃! p, OccursAt hay needle p) ↔ (∃ p, OccursAt hay needle p) ∧ ¬ OccursTwice hay needle := by
  constructor
  · rintro ⟨p, hp, hunique⟩
    refine ⟨⟨p, hp⟩, ?_⟩
    rintro ⟨q, r, hqr, hq, hr⟩
    have := (hunique q hq).trans (hunique r hr).symm
    omega
  · rintro ⟨⟨p, hp⟩, hone⟩
    refine ⟨p, hp, fun q hq => ?_⟩
    rcases Nat.lt_trichotomy p q with hlt | heq | hgt
    · exact absurd ⟨p, q, hlt, hp, hq⟩ hone
    · exact heq.symm
    · exact absurd ⟨q, p, hgt, hq, hp⟩ hone

end Positions

variable [DecidableEq α]

/-- The first position at which the needle starts. -/
def indexOf? (needle : List α) : List α → Option Nat
  | [] => if needle = [] then some 0 else none
  | a :: hay =>
    if needle <+: a :: hay then some 0 else (indexOf? needle hay).map (· + 1)

section IndexOf

variable {hay needle : List α}

theorem indexOf?_eq_some (h : indexOf? needle hay = some p) :
    OccursAt hay needle p ∧ ∀ q, OccursAt hay needle q → p ≤ q := by
  induction hay generalizing p with
  | nil =>
    rw [indexOf?] at h
    split at h
    · rename_i hempty
      cases h
      exact ⟨occursAt_nil.mpr ⟨rfl, hempty⟩, fun q _ => Nat.zero_le q⟩
    · cases h
  | cons a hay ih =>
    rw [indexOf?] at h
    split at h
    · rename_i hpre
      cases h
      exact ⟨occursAt_zero.mpr hpre, fun q _ => Nat.zero_le q⟩
    · rename_i hpre
      obtain ⟨p', hp', rfl⟩ := map_eq_some_iff.mp h
      obtain ⟨hoccurs, hfirst⟩ := ih hp'
      refine ⟨occursAt_cons_succ.mpr hoccurs, fun q hq => ?_⟩
      cases q with
      | zero => exact absurd (occursAt_zero.mp hq) hpre
      | succ q => exact Nat.succ_le_succ (hfirst q (occursAt_cons_succ.mp hq))

theorem indexOf?_eq_none_iff : indexOf? needle hay = none ↔ ∀ p, ¬ OccursAt hay needle p := by
  constructor
  · intro h p
    induction hay generalizing p with
    | nil =>
      rw [indexOf?] at h
      split at h
      · cases h
      · rename_i hne
        exact fun hp => hne (occursAt_nil.mp hp).2
    | cons a hay ih =>
      rw [indexOf?] at h
      split at h
      · cases h
      · rename_i hpre
        cases p with
        | zero => exact fun hp => hpre (occursAt_zero.mp hp)
        | succ p => exact fun hp => ih (map_eq_none_iff.mp h) p (occursAt_cons_succ.mp hp)
  · intro h
    cases hfind : indexOf? needle hay with
    | none => rfl
    | some p => exact absurd (indexOf?_eq_some hfind).1 (h p)

theorem indexOf?_isSome_iff : (indexOf? needle hay).isSome ↔ ∃ p, OccursAt hay needle p := by
  rw [← ne_none_iff_isSome, Ne, indexOf?_eq_none_iff, not_forall_not]

theorem indexOf?_eq_some_iff :
    indexOf? needle hay = some p ↔ OccursAt hay needle p ∧ ∀ q, OccursAt hay needle q → p ≤ q := by
  constructor
  · exact indexOf?_eq_some
  · rintro ⟨hp, hfirst⟩
    cases hfind : indexOf? needle hay with
    | none => exact absurd hp (indexOf?_eq_none_iff.mp hfind p)
    | some q =>
      obtain ⟨hq, hmin⟩ := indexOf?_eq_some hfind
      exact congrArg some (Nat.le_antisymm (hmin p hp) (hfirst q hq))

section

variable {back : List α} {p : Nat}

theorem indexOf?_append_of_some (h : indexOf? needle hay = some p) :
    indexOf? needle (hay ++ back) = some p := by
  obtain ⟨hp, hfirst⟩ := indexOf?_eq_some h
  have hbound := hp.add_length_le
  refine indexOf?_eq_some_iff.mpr ⟨(occursAt_append_left hbound).mpr hp, fun q hq => ?_⟩
  by_cases hle : q ≤ p
  · exact hfirst q ((occursAt_append_left (by omega)).mp hq)
  · omega

theorem indexOf?_of_append
    (h : indexOf? needle (hay ++ back) = some p) (hp : p + needle.length ≤ hay.length) :
    indexOf? needle hay = some p := by
  obtain ⟨hoccurs, hfirst⟩ := indexOf?_eq_some h
  refine indexOf?_eq_some_iff.mpr ⟨(occursAt_append_left hp).mp hoccurs, fun q hq => hfirst q ?_⟩
  exact (occursAt_append_left hq.add_length_le).mpr hq

/-- A front that holds no occurrence of a needle ends before the end of the first. -/
theorem length_lt_of_indexOf?_none
    (h : indexOf? needle (hay ++ back) = some p) (hnone : indexOf? needle hay = none) :
    hay.length < p + needle.length := by
  by_contra hle
  rw [indexOf?_of_append h (by omega)] at hnone
  contradiction

end

theorem indexOf?_append_right (h : indexOf? needle (front ++ hay) = some p) (hp : front.length ≤ p)
    : indexOf? needle hay = some (p - front.length) := by
  obtain ⟨hoccurs, hfirst⟩ := indexOf?_eq_some h
  have hsplit : front.length + (p - front.length) = p := by omega
  refine indexOf?_eq_some_iff.mpr ⟨?_, fun q hq => ?_⟩
  · rw [← hsplit] at hoccurs
    exact occursAt_append_right.mp hoccurs
  · have hle := hfirst _ (occursAt_append_right.mpr hq)
    omega

theorem indexOf?_none_of_append (h : indexOf? needle (front ++ hay) = none) :
    indexOf? needle hay = none :=
  indexOf?_eq_none_iff.mpr fun _ hp =>
    indexOf?_eq_none_iff.mp h _ (occursAt_append_right.mpr hp)

end IndexOf

/-- The pieces between occurrences, for as many occurrences as the fuel allows. -/
def splitPieces (needle : List α) : Nat → List α → List (List α)
  | 0, hay => [hay]
  | fuel + 1, hay =>
    match indexOf? needle hay with
    | none => [hay]
    | some p => hay.take p :: splitPieces needle fuel (hay.drop (p + needle.length))

/-- Cuts at a separator, as `String.prototype.split`: the empty separator cuts
between all elements, and makes nothing of the empty sequence. -/
def splitAll (hay needle : List α) : List (List α) :=
  if needle = [] then hay.map fun a => [a] else splitPieces needle hay.length hay

section Split

variable {hay needle : List α}

theorem splitPieces_length_pos (needle : List α) (fuel : Nat) (hay : List α) :
    0 < (splitPieces needle fuel hay).length := by
  cases fuel with
  | zero => exact Nat.one_pos
  | succ fuel =>
    rw [splitPieces]
    split
    · exact Nat.one_pos
    · exact Nat.succ_pos _

theorem one_lt_splitPieces_length_iff (hne : needle ≠ []) {fuel : Nat} (hfuel : hay.length ≤ fuel) :
    1 < (splitPieces needle fuel hay).length ↔ ∃ p, OccursAt hay needle p := by
  rw [← indexOf?_isSome_iff]
  cases fuel with
  | zero =>
    have hnil : hay = [] := length_eq_zero_iff.mp (Nat.le_zero.mp hfuel)
    subst hnil
    simp only [splitPieces, length_singleton, Nat.lt_irrefl, indexOf?, if_neg hne,
      isSome_none, Bool.false_eq_true]
  | succ fuel =>
    rw [splitPieces]
    cases indexOf? needle hay with
    | none => simp only [length_singleton, Nat.lt_irrefl, isSome_none, Bool.false_eq_true]
    | some p =>
      simp only [length_cons, isSome_some, iff_true]
      have := splitPieces_length_pos needle fuel (hay.drop (p + needle.length))
      omega

/-- Two cuts are made when the needle occurs at two places that are apart: the first
occurrence ends before every other place that is apart from some occurrence. -/
theorem two_lt_splitPieces_length_iff (hne : needle ≠ []) {fuel : Nat} (hfuel : hay.length ≤ fuel) :
    2 < (splitPieces needle fuel hay).length ↔ OccursApart hay needle := by
  have hpos := length_pos_of_ne_nil hne
  cases fuel with
  | zero =>
    have hnil : hay = [] := length_eq_zero_iff.mp (Nat.le_zero.mp hfuel)
    subst hnil
    refine ⟨fun h => absurd h (by simp [splitPieces]), ?_⟩
    rintro ⟨p, q, -, hp, -⟩
    exact absurd (occursAt_nil.mp hp).2 hne
  | succ fuel =>
    rw [splitPieces]
    cases hfind : indexOf? needle hay with
    | none =>
      refine ⟨fun h => absurd h (by simp), ?_⟩
      rintro ⟨p, q, -, hp, -⟩
      exact absurd hp (indexOf?_eq_none_iff.mp hfind p)
    | some p =>
      obtain ⟨hp, hfirst⟩ := indexOf?_eq_some hfind
      have hend := hp.add_length_le
      have hrest : (hay.drop (p + needle.length)).length ≤ fuel := by
        rw [length_drop]
        omega
      rw [length_cons, Nat.succ_lt_succ_iff, one_lt_splitPieces_length_iff hne hrest]
      constructor
      · rintro ⟨q, hq⟩
        exact ⟨p, p + needle.length + q, by omega, hp, (occursAt_drop hend).mp hq⟩
      · rintro ⟨q, r, hqr, hq, hr⟩
        have hpq := hfirst q hq
        refine ⟨r - (p + needle.length), (occursAt_drop hend).mpr ?_⟩
        rwa [show p + needle.length + (r - (p + needle.length)) = r by omega]

/-- Splitting sees two occurrences only where two stand apart; at the empty
separator it sees the elements. -/
theorem two_lt_splitAll_length_iff : 2 < (splitAll hay needle).length ↔
      if needle = [] then 2 < hay.length else OccursApart hay needle := by
  rw [splitAll]
  split
  · rw [length_map]
  · rename_i hne
    exact two_lt_splitPieces_length_iff hne (Nat.le_refl _)

end Split

end AcademicAgent
