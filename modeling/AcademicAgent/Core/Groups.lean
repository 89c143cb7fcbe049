import Mathlib.Data.List.Chain

/-!
# Maximal runs of a list

A list is cut where the key of its elements changes.
-/

namespace AcademicAgent

open List

variable {α κ : Type}

variable {groups : List (κ × List α)} {items : List α}

/-- The runs of a list, each with its key, in order. -/
structure RunsOf (key : α → κ) (groups : List (κ × List α)) (items : List α) : Prop where
  flatten : (groups.map Prod.snd).flatten = items
  ne_nil : ∀ g ∈ groups, g.2 ≠ []
  keyed : ∀ g ∈ groups, ∀ x ∈ g.2, key x = g.1
  apart : (groups.map Prod.fst).IsChain (· ≠ ·)

def Together (key : α → κ) (items : List α) (k : κ) : Prop :=
  ∃ before among after, items = before ++ (among ++ after) ∧ (∀ x ∈ among, key x = k) ∧
    (∀ x ∈ before, key x ≠ k) ∧ ∀ x ∈ after, key x ≠ k

namespace RunsOf

variable {key : α → κ}

theorem nil : RunsOf key [] [] :=
  ⟨rfl, forall_mem_nil _, forall_mem_nil _, List.IsChain.nil⟩

theorem tail {g : κ × List α} (h : RunsOf key (g :: groups) items) :
    RunsOf key groups (groups.map Prod.snd).flatten :=
  ⟨rfl, fun g hg => h.ne_nil g (mem_cons_of_mem _ hg),
    fun g hg => h.keyed g (mem_cons_of_mem _ hg), h.apart.tail⟩

section

variable {groups : List (κ × List α)}

theorem extend {k : κ} {run : List α} (h : RunsOf key (groups ++ [(k, run)]) items) {x : α}
    (hx : key x = k) : RunsOf key (groups ++ [(k, run ++ [x])]) (items ++ [x]) := by
  refine ⟨?_, ?_, ?_, ?_⟩
  · rw [← h.flatten]
    simp only [map_append, map_cons, map_nil, flatten_append,
      flatten_cons, flatten_nil, append_nil, append_assoc]
  · intro g hg
    rcases mem_append.mp hg with hg | hg
    · exact h.ne_nil g (mem_append_left _ hg)
    · rw [mem_singleton.mp hg]
      exact append_ne_nil_of_right_ne_nil _ (cons_ne_nil _ _)
  · intro g hg y hy
    rcases mem_append.mp hg with hg | hg
    · exact h.keyed g (mem_append_left _ hg) y hy
    · rw [mem_singleton.mp hg] at hy ⊢
      rcases mem_append.mp hy with hy | hy
      · exact h.keyed (k, run) (mem_append_right _ (mem_singleton_self _)) y hy
      · rw [mem_singleton.mp hy]
        exact hx
  · have hapart := h.apart
    rw [map_append] at hapart ⊢
    exact hapart

theorem concat (h : RunsOf key groups items) {x : α}
    (hx : ∀ g, groups.getLast? = some g → g.1 ≠ key x) :
    RunsOf key (groups ++ [(key x, [x])]) (items ++ [x]) := by
  refine ⟨?_, ?_, ?_, ?_⟩
  · rw [← h.flatten]
    simp only [map_append, map_cons, map_nil, flatten_append, flatten_cons, flatten_nil, append_nil]
  · intro g hg
    rcases mem_append.mp hg with hg | hg
    · exact h.ne_nil g hg
    · rw [mem_singleton.mp hg]
      exact cons_ne_nil _ _
  · intro g hg y hy
    rcases mem_append.mp hg with hg | hg
    · exact h.keyed g hg y hy
    · rw [mem_singleton.mp hg] at hy ⊢
      rw [mem_singleton.mp hy]
  · rw [map_append, map_singleton, isChain_append]
    refine ⟨h.apart, isChain_singleton _, ?_⟩
    intro k hk l hl
    rw [getLast?_map, Option.mem_def, Option.map_eq_some_iff] at hk
    obtain ⟨g, hg, rfl⟩ := hk
    rw [head?_cons, Option.mem_def, Option.some.injEq] at hl
    rw [← hl]
    exact hx g hg

theorem mem_keys_iff (h : RunsOf key groups items) (k : κ) :
    k ∈ groups.map Prod.fst ↔ ∃ x ∈ items, key x = k := by
  rw [← h.flatten]
  constructor
  · intro hk
    obtain ⟨g, hg, rfl⟩ := mem_map.mp hk
    obtain ⟨x, xs, hrun⟩ := exists_cons_of_ne_nil (h.ne_nil g hg)
    have hx : x ∈ g.2 := by
      rw [hrun]
      exact mem_cons_self
    exact ⟨x, mem_flatten_of_mem (mem_map_of_mem hg) hx, h.keyed g hg x hx⟩
  · rintro ⟨x, hx, rfl⟩
    obtain ⟨run, hrun, hx⟩ := mem_flatten.mp hx
    obtain ⟨g, hg, rfl⟩ := mem_map.mp hrun
    rw [h.keyed g hg x hx]
    exact mem_map_of_mem hg

end

/-- Elements that stand together behind a first run with their key are in that run. -/
theorem notMem_tail_of_together {g : κ × List α} (h : RunsOf key (g :: groups) items)
    (htogether : Together key items g.1) : g.1 ∉ groups.map Prod.fst := by
  intro hmem
  obtain ⟨before, among, after, hsplit, hamong, hbefore, hafter⟩ := htogether
  obtain ⟨y, hy, hkey⟩ := (h.tail.mem_keys_iff g.1).mp hmem
  have hitems : items = g.2 ++ (groups.map Prod.snd).flatten := by
    rw [← h.flatten, map_cons, flatten_cons]
  obtain ⟨x, xs, hrun⟩ := exists_cons_of_ne_nil (h.ne_nil g mem_cons_self)
  have hx : key x = g.1 := by
    apply h.keyed g mem_cons_self x
    rw [hrun]
    exact mem_cons_self
  have hnil : before = [] := by
    cases before with
    | nil => rfl
    | cons z before =>
      rw [hitems, hrun, cons_append, cons_append] at hsplit
      have hz : key z ≠ g.1 := hbefore z mem_cons_self
      rw [← (List.cons.inj hsplit).1] at hz
      exact absurd hx hz
  rw [hnil, nil_append, hitems] at hsplit
  cases groups with
  | nil => exact nomatch hmem
  | cons next groups =>
    obtain ⟨z, zs, hnext⟩ := exists_cons_of_ne_nil (h.ne_nil next (mem_cons_of_mem _ mem_cons_self))
    have hz : key z ≠ g.1 := by
      rw [h.keyed next (mem_cons_of_mem _ mem_cons_self) z (by rw [hnext]; exact mem_cons_self)]
      have hchain := h.apart
      rw [map_cons, map_cons, isChain_cons_cons] at hchain
      exact fun heq => hchain.1 heq.symm
    rcases append_eq_append_iff.mp hsplit with ⟨gap, hgap, hrest⟩ | ⟨gap, hgap, hrest⟩
    · cases gap with
      | nil =>
        rw [nil_append] at hrest
        rw [hrest] at hy
        exact hafter y hy hkey
      | cons w gap =>
        rw [map_cons, flatten_cons, hnext, cons_append, cons_append] at hrest
        have hw : w ∈ among := by
          rw [hgap]
          exact mem_append_right _ mem_cons_self
        rw [(List.cons.inj hrest).1] at hz
        exact hz (hamong w hw)
    · apply hafter y _ hkey
      rw [hrest]
      exact mem_append_right _ hy

/-- Elements that stand together in a list stand together behind a run of others. -/
theorem together_of_append {run : List α} {k : κ} (hrun : ∀ x ∈ run, key x ≠ k)
    (h : Together key (run ++ items) k) : Together key items k := by
  obtain ⟨before, among, after, hsplit, hamong, hbefore, hafter⟩ := h
  rcases append_eq_append_iff.mp hsplit with ⟨gap, hgap, hrest⟩ | ⟨gap, hgap, hrest⟩
  · refine ⟨gap, among, after, hrest, hamong, ?_, hafter⟩
    intro x hx
    apply hbefore
    rw [hgap]
    exact mem_append_right _ hx
  · cases among with
    | nil =>
      refine ⟨items, [], [], by simp only [append_nil], forall_mem_nil _, ?_, forall_mem_nil _⟩
      intro x hx
      apply hafter
      rw [nil_append] at hrest
      rw [hrest]
      exact mem_append_right _ hx
    | cons y among =>
      cases gap with
      | nil => exact ⟨[], y :: among, after, hrest.symm, hamong, forall_mem_nil _, hafter⟩
      | cons z gap =>
        rw [cons_append, cons_append] at hrest
        have hz : z ∈ run := by
          rw [hgap]
          exact mem_append_right _ mem_cons_self
        rw [← (List.cons.inj hrest).1] at hz
        exact absurd (hamong y mem_cons_self) (hrun y hz)

theorem count_le_one_iff [DecidableEq κ] (h : RunsOf key groups items) (k : κ) :
    (groups.map Prod.fst).count k ≤ 1 ↔ Together key items k := by
  induction groups generalizing items with
  | nil =>
    have hnil : items = [] := h.flatten.symm
    refine iff_of_true (by simp) ⟨[], [], [], ?_, ?_, ?_, ?_⟩
    · exact hnil
    all_goals exact forall_mem_nil _
  | cons g groups ih =>
    have hitems : items = g.2 ++ (groups.map Prod.snd).flatten := by
      rw [← h.flatten, map_cons, flatten_cons]
    have hkeyed := h.keyed g mem_cons_self
    rw [map_cons]
    by_cases hk : g.1 = k
    · subst hk
      rw [count_cons_self]
      constructor
      · intro hcount
        have hnone : g.1 ∉ groups.map Prod.fst := by
          rw [← count_eq_zero]
          omega
        refine ⟨[], g.2, (groups.map Prod.snd).flatten, hitems, hkeyed, forall_mem_nil _, ?_⟩
        intro x hx hkey
        exact hnone ((h.tail.mem_keys_iff g.1).mpr ⟨x, hx, hkey⟩)
      · intro htogether
        have hnone := h.notMem_tail_of_together htogether
        rw [← count_eq_zero] at hnone
        omega
    · rw [count_cons_of_ne hk, ih h.tail, hitems]
      have hrun : ∀ x ∈ g.2, key x ≠ k := by
        intro x hx
        rw [hkeyed x hx]
        exact hk
      constructor
      · rintro ⟨before, among, after, hsplit, hamong, hbefore, hafter⟩
        refine ⟨g.2 ++ before, among, after, ?_, hamong, ?_, hafter⟩
        · rw [hsplit, append_assoc]
        · intro x hx
          rcases mem_append.mp hx with hx | hx
          · exact hrun x hx
          · exact hbefore x hx
      · exact together_of_append hrun

end RunsOf

end AcademicAgent
