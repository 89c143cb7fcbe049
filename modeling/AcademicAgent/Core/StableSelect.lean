import Mathlib.Data.List.Basic
import Mathlib.Order.Nat

/-!
# Selecting by key after a stable sort

Keeping the first element of each key of a list that was sorted by rank selects, for each
key, the element of the lowest rank that came first in the list before it was sorted.
-/

namespace AcademicAgent

open List

variable {α κ : Type} [DecidableEq κ]

variable {l : List α} {a : α}

/-- The elements whose key is new: neither that of an earlier element nor in `seen`. -/
def keepFirst (key : α → κ) : List κ → List α → List α
  | _, [] => []
  | seen, a :: l =>
    if key a ∈ seen then keepFirst key seen l else a :: keepFirst key (key a :: seen) l

/-- `a` has the lowest rank in a list, and is the first one of that rank. -/
def Wins (rank : α → Nat) (l : List α) (a : α) : Prop :=
  ∃ front back, l = front ++ a :: back ∧ (∀ b ∈ front, rank a < rank b) ∧
    ∀ b ∈ back, rank a ≤ rank b

variable {key : α → κ} {rank : α → Nat}

theorem keepFirst_sublist (key : α → κ) (seen : List κ) (l : List α) :
    (keepFirst key seen l).Sublist l := by
  induction l generalizing seen with
  | nil => exact List.Sublist.refl _
  | cons a l ih =>
    unfold keepFirst
    split
    · exact (ih seen).cons a
    · exact (ih _).cons_cons a

theorem mem_keepFirst {seen : List κ} : a ∈ keepFirst key seen l ↔
      key a ∉ seen ∧ ∃ front back, l = front ++ a :: back ∧ ∀ b ∈ front, key b ≠ key a := by
  induction l generalizing seen with
  | nil =>
    refine ⟨fun h => absurd h not_mem_nil, ?_⟩
    rintro ⟨-, front, back, hl, -⟩
    cases front <;> cases hl
  | cons x l ih =>
    unfold keepFirst
    split
    · rename_i hseen
      rw [ih]
      refine and_congr_right fun hnot => ⟨?_, ?_⟩
      · rintro ⟨front, back, rfl, hfront⟩
        refine ⟨x :: front, back, rfl, fun b hb => ?_⟩
        rcases mem_cons.mp hb with rfl | hb
        · exact fun heq => hnot (heq ▸ hseen)
        · exact hfront b hb
      · rintro ⟨front, back, hl, hfront⟩
        cases front with
        | nil =>
          cases hl
          exact absurd hseen hnot
        | cons y front =>
          cases hl
          exact ⟨front, back, rfl, fun b hb => hfront b (mem_cons_of_mem _ hb)⟩
    · rename_i hseen
      rw [mem_cons, ih, mem_cons, not_or]
      constructor
      · rintro (rfl | ⟨⟨hne, hnot⟩, front, back, rfl, hfront⟩)
        · exact ⟨hseen, [], l, rfl, fun b hb => absurd hb not_mem_nil⟩
        · refine ⟨hnot, x :: front, back, rfl, fun b hb => ?_⟩
          rcases mem_cons.mp hb with rfl | hb
          · exact fun heq => hne heq.symm
          · exact hfront b hb
      · rintro ⟨hnot, front, back, hl, hfront⟩
        cases front with
        | nil =>
          cases hl
          exact .inl rfl
        | cons y front =>
          cases hl
          refine .inr ⟨⟨fun heq => hfront x mem_cons_self heq.symm, hnot⟩, front, back, rfl,
            fun b hb => hfront b (mem_cons_of_mem _ hb)⟩

theorem nodup_keys_keepFirst (key : α → κ) (seen : List κ) (l : List α) :
    ((keepFirst key seen l).map key).Nodup := by
  induction l generalizing seen with
  | nil => exact nodup_nil
  | cons a l ih =>
    unfold keepFirst
    split
    · exact ih seen
    · rw [map_cons, nodup_cons]
      refine ⟨fun hmem => ?_, ih _⟩
      obtain ⟨b, hb, hkey⟩ := mem_map.mp hmem
      exact (mem_keepFirst.mp hb).1 (by rw [hkey]; exact mem_cons_self)

section

variable {l : List α}

theorem exists_mem_keepFirst {a : α} (h : a ∈ l) : ∃ b ∈ keepFirst key [] l, key b = key a := by
  have hfound : (l.find? fun b => decide (key b = key a)).isSome = true :=
    find?_isSome.mpr ⟨a, h, decide_eq_true rfl⟩
  obtain ⟨b, hb⟩ := Option.isSome_iff_exists.mp hfound
  obtain ⟨hkey, front, back, hl, hfront⟩ := find?_eq_some_iff_append.mp hb
  have hkey : key b = key a := of_decide_eq_true hkey
  refine ⟨b, mem_keepFirst.mpr ⟨not_mem_nil, front, back, hl, fun c hc hcb => ?_⟩, hkey⟩
  have hnot := hfront c hc
  rw [decide_eq_true (hcb.trans hkey)] at hnot
  cases hnot

theorem Wins.mem (h : Wins rank l a) : a ∈ l := by
  obtain ⟨front, back, rfl, -, -⟩ := h
  exact mem_append_right _ mem_cons_self

theorem Wins.rank_le {b : α} (h : Wins rank l a) (hb : b ∈ l) : rank a ≤ rank b := by
  obtain ⟨front, back, rfl, hfront, hback⟩ := h
  rcases mem_append.mp hb with hb | hb
  · exact (hfront b hb).le
  · rcases mem_cons.mp hb with rfl | hb
    · exact le_refl _
    · exact hback b hb

theorem Wins.unique {b : α} (ha : Wins rank l a) (hb : Wins rank l b) : a = b := by
  have hab := ha.rank_le hb.mem
  have hba := hb.rank_le ha.mem
  obtain ⟨front, back, hl, hfront, -⟩ := ha
  obtain ⟨front', back', hl', hfront', -⟩ := hb
  rw [hl] at hl'
  rcases append_eq_append_iff.mp hl' with ⟨mid, rfl, hmid⟩ | ⟨mid, rfl, hmid⟩
  · cases mid with
    | nil =>
      cases hmid
      rfl
    | cons c mid =>
      cases hmid
      have hlt := hfront' a (mem_append_right _ mem_cons_self)
      omega
  · cases mid with
    | nil =>
      cases hmid
      rfl
    | cons c mid =>
      cases hmid
      have hlt := hfront b (mem_append_right _ mem_cons_self)
      omega

theorem not_pair_sublist_of_nodup {b : α} (hnodup : (a :: l).Nodup) (hne : b ≠ a) :
    ¬ [b, a].Sublist (a :: l) := by
  intro hsub
  cases hsub with
  | cons _ h =>
    exact (nodup_cons.mp hnodup).1 (h.subset (mem_cons_of_mem _ mem_cons_self))
  | cons_cons _ h => exact hne rfl

end

def rankLe (rank : α → Nat) (a b : α) : Bool := decide (rank a ≤ rank b)

/-- In a list sorted by rank the first element of a key wins among those of the key. -/
theorem wins_of_sorted {front back : List α} (hnodup : l.Nodup)
    (hsorted : l.mergeSort (rankLe rank) = front ++ a :: back) (hfront : ∀ b ∈ front, key b ≠ key a)
    : Wins rank (l.filter fun b => decide (key b = key a)) a := by
  have htrans : ∀ a b c : α, rankLe rank a b → rankLe rank b c → rankLe rank a c := by
    intro a b c hab hbc
    exact decide_eq_true ((of_decide_eq_true hab).trans (of_decide_eq_true hbc))
  have htotal : ∀ a b : α, rankLe rank a b || rankLe rank b a := by
    intro a b
    rw [Bool.or_eq_true]
    exact (le_total (rank a) (rank b)).imp decide_eq_true decide_eq_true
  have hperm : (l.mergeSort (rankLe rank)).Perm l := mergeSort_perm _ _
  have hmem : ∀ b, b ∈ l → key b = key a → b = a ∨ b ∈ back := by
    intro b hb hkey
    have hin := hperm.mem_iff.mpr hb
    rw [hsorted] at hin
    rcases mem_append.mp hin with hin | hin
    · exact absurd hkey (hfront b hin)
    · exact mem_cons.mp hin
  have hpairwise := pairwise_mergeSort htrans htotal l
  rw [hsorted, pairwise_append, pairwise_cons] at hpairwise
  have hnodup' : (front ++ a :: back).Nodup := by
    rw [← hsorted]
    exact hperm.nodup_iff.mpr hnodup
  have hle : ∀ b, b ∈ l → key b = key a → rank a ≤ rank b := by
    intro b hb hkey
    rcases hmem b hb hkey with rfl | hback
    · exact le_refl _
    · exact of_decide_eq_true (hpairwise.2.1.1 b hback)
  have ha : a ∈ l.filter fun b => decide (key b = key a) := by
    refine mem_filter.mpr ⟨hperm.mem_iff.mp ?_, decide_eq_true rfl⟩
    rw [hsorted]
    exact mem_append_right _ mem_cons_self
  obtain ⟨before, after, hsplit⟩ := append_of_mem ha
  have hin : ∀ b, b ∈ before ++ a :: after → b ∈ l ∧ key b = key a := by
    intro b hb
    rw [← hsplit] at hb
    obtain ⟨hb, hkey⟩ := mem_filter.mp hb
    exact ⟨hb, of_decide_eq_true hkey⟩
  refine ⟨before, after, hsplit, fun b hb => ?_, fun b hb => ?_⟩
  · obtain ⟨hbl, hkey⟩ := hin b (mem_append_left _ hb)
    refine lt_of_le_of_ne (hle b hbl hkey) fun heq => ?_
    -- A stable sort keeps `b` in front of `a`.
    have hpair : [b, a].Sublist l := by
      have hfilter : [b, a].Sublist (before ++ a :: after) :=
        (singleton_sublist.mpr hb).append (singleton_sublist.mpr mem_cons_self)
      rw [← hsplit] at hfilter
      exact hfilter.trans filter_sublist
    have hsub := pair_sublist_mergeSort htrans htotal (decide_eq_true heq.ge) hpair
    rw [hsorted] at hsub
    have hbfront : b ∉ front := fun h => hfront b h hkey
    have hsub' : [b, a].Sublist (a :: back) := by
      obtain ⟨left, right, hsplit', hleft, hright⟩ := sublist_append_iff.mp hsub
      cases left with
      | nil =>
        rw [nil_append] at hsplit'
        rw [hsplit']
        exact hright
      | cons c left =>
        obtain rfl : b = c := (List.cons.inj hsplit').1
        exact absurd (hleft.subset mem_cons_self) hbfront
    have hne : b ≠ a := by
      rintro rfl
      have hnodupfilter : (before ++ b :: after).Nodup := by
        rw [← hsplit]
        exact hnodup.filter _
      exact (nodup_append.mp hnodupfilter).2.2 b hb b mem_cons_self rfl
    exact not_pair_sublist_of_nodup (nodup_append.mp hnodup').2.1 hne hsub'
  · obtain ⟨hbl, hkey⟩ := hin b (mem_append_right _ (mem_cons_of_mem _ hb))
    exact hle b hbl hkey

/-- Keeping the first of each key after a stable sort by rank selects the winners. -/
theorem mem_keepFirst_mergeSort_iff (hnodup : l.Nodup) :
    a ∈ keepFirst key [] (l.mergeSort (rankLe rank)) ↔
      Wins rank (l.filter fun b => decide (key b = key a)) a := by
  constructor
  · intro h
    obtain ⟨-, front, back, hsorted, hfront⟩ := mem_keepFirst.mp h
    exact wins_of_sorted hnodup hsorted hfront
  · intro h
    have ha : a ∈ l.mergeSort (rankLe rank) :=
      (mergeSort_perm _ _).mem_iff.mpr (mem_filter.mp h.mem).1
    obtain ⟨b, hb, hkey⟩ := @exists_mem_keepFirst _ _ _ key _ _ ha
    obtain ⟨-, front, back, hsorted, hfront⟩ := mem_keepFirst.mp hb
    have hwins := wins_of_sorted hnodup hsorted hfront
    rw [hkey] at hwins
    rw [h.unique hwins]
    exact hb

/-- `a` is in order before all later elements of a list, and no earlier element is in order
before `a`. -/
def Leads (le : α → α → Bool) (l : List α) (a : α) : Prop :=
  ∃ front back, l = front ++ a :: back ∧ (∀ b ∈ front, le b a = false) ∧ ∀ b ∈ back, le a b = true

theorem head?_mergeSort_iff {le : α → α → Bool} (htrans : ∀ a b c, le a b → le b c → le a c)
    (htotal : ∀ a b, le a b || le b a) (hnodup : l.Nodup) :
    (l.mergeSort le).head? = some a ↔ Leads le l a := by
  have hperm := mergeSort_perm l le
  have hsorted := pairwise_mergeSort htrans htotal l
  have hnodup' := hperm.nodup_iff.mpr hnodup
  cases hsort : l.mergeSort le with
  | nil =>
    rw [hsort] at hperm
    obtain rfl := hperm.nil_eq
    refine iff_of_false (fun h => by cases h) ?_
    rintro ⟨front, back, hsplit, -⟩
    exact append_ne_nil_of_right_ne_nil front (cons_ne_nil a back) hsplit.symm
  | cons c rest =>
    rw [hsort] at hperm hnodup' hsorted
    have hrest := (pairwise_cons.mp hsorted).1
    -- what is in order before the head stays before it, so nothing else is
    have hstays (b : α) (hle : le b c = true) (hne : b ≠ c) : ¬ [b, c].Sublist l := by
      intro hpair
      have hsub := pair_sublist_mergeSort htrans htotal hle hpair
      rw [hsort] at hsub
      exact not_pair_sublist_of_nodup hnodup' hne hsub
    constructor
    · intro h
      obtain rfl := Option.some.inj h
      obtain ⟨front, back, rfl⟩ := append_of_mem (hperm.mem_iff.mp mem_cons_self)
      obtain ⟨-, hback, hfront⟩ := nodup_append.mp hnodup
      refine ⟨front, back, rfl, fun b hb => ?_, fun b hb => ?_⟩
      · have hne : b ≠ c := hfront b hb c mem_cons_self
        rw [← Bool.not_eq_true]
        intro hle
        exact hstays b hle hne
          ((singleton_sublist.mpr hb).append (singleton_sublist.mpr mem_cons_self))
      · have hne : b ≠ c := by
          rintro rfl
          exact (nodup_cons.mp hback).1 hb
        have hmem := hperm.mem_iff.mpr (mem_append_right front (mem_cons_of_mem c hb))
        exact hrest b ((mem_cons.mp hmem).resolve_left hne)
    · rintro ⟨front, back, rfl, hfront, hback⟩
      by_contra hhead
      have hne : a ≠ c := fun h => hhead (by rw [h]; rfl)
      have ha : a ∈ c :: rest :=
        hperm.mem_iff.mpr (mem_append_right front mem_cons_self)
      have hca := hrest a ((mem_cons.mp ha).resolve_left hne)
      rcases mem_append.mp (hperm.mem_iff.mp mem_cons_self) with hc | hc
      · rw [hfront c hc] at hca
        cases hca
      · have hc := (mem_cons.mp hc).resolve_left hne.symm
        refine hstays a (hback c hc) hne ?_
        exact ((singleton_sublist.mpr hc).cons_cons a).trans (sublist_append_right _ _)

end AcademicAgent
