import Mathlib.Algebra.Order.BigOperators.Group.List
import AcademicAgent.Tui.WrapText

/-!
# Widths of graphemes

A text is measured by its graphemes.
-/

namespace AcademicAgent

open List

open AnsiText (TextMetrics visibleWidth isPrintableAscii AnsiItem ansiItems ansiItemsFrom expandTab)

variable {s grapheme : JsString} {gs : List JsString}

/-- What holds of the graphemes of texts: those of a part between graphemes are the same ones,
and a text is at most as wide as its graphemes. -/
structure AnsiText.TextMetrics.Measures (metrics : TextMetrics) : Prop where
  segment_run : ∀ s gs, gs <:+: metrics.segment s → metrics.segment gs.flatten = gs
  visibleWidth_le : ∀ s, visibleWidth metrics s ≤
    ((metrics.segment s).map (visibleWidth metrics)).sum

def graphemesWidth (metrics : TextMetrics) (graphemes : List JsString) : Nat :=
  (graphemes.map (visibleWidth metrics)).sum

@[simp] theorem visibleWidth_nil (metrics : TextMetrics) : visibleWidth metrics [] = 0 := rfl
section Widths

variable {metrics : TextMetrics}

@[simp] theorem graphemesWidth_append (gs gs' : List JsString) :
    graphemesWidth metrics (gs ++ gs') =
      graphemesWidth metrics gs + graphemesWidth metrics gs' := by
  rw [graphemesWidth, map_append, sum_append]
  rfl

theorem visibleWidth_of_printable (h : isPrintableAscii s) :
    visibleWidth metrics s = s.length := if_pos h

theorem graphemesWidth_of_printable (h : isPrintableAscii gs.flatten) :
    graphemesWidth metrics gs = gs.flatten.length := by
  induction gs with
  | nil => rfl
  | cons g gs ih =>
    rw [flatten_cons, isPrintableAscii, all_append, Bool.and_eq_true] at h
    rw [graphemesWidth, map_cons, sum_cons, visibleWidth_of_printable h.1,
      flatten_cons, length_append, ← ih h.2]
    rfl

theorem graphemesWidth_own {own : List JsString} {segment : JsString}
    (hown : own.flatten = segment) (h : own = [segment] ∨ isPrintableAscii segment) :
    graphemesWidth metrics own = visibleWidth metrics segment := by
  rcases h with rfl | hascii
  · exact Nat.add_zero _
  · rw [visibleWidth_of_printable hascii, ← hown]
    exact graphemesWidth_of_printable (hown ▸ hascii)

namespace AnsiText.TextMetrics.Measures

variable (hm : metrics.Measures)
include hm

theorem segment_nil : metrics.segment [] = [] := hm.segment_run [] [] nil_infix

theorem grapheme_ne_nil (h : grapheme ∈ metrics.segment s) : grapheme ≠ [] := by
  rintro rfl
  obtain ⟨before, after, hsplit⟩ := append_of_mem h
  have hrun := hm.segment_run s [[]] ⟨before, after, by rw [hsplit]; simp⟩
  rw [flatten_singleton, hm.segment_nil] at hrun
  cases hrun

theorem segment_grapheme (h : grapheme ∈ metrics.segment s) :
    metrics.segment grapheme = [grapheme] := by
  obtain ⟨before, after, hsplit⟩ := append_of_mem h
  have hrun := hm.segment_run s [grapheme] ⟨before, after, by rw [hsplit]; simp⟩
  rwa [flatten_singleton] at hrun

theorem visibleWidth_run_le (h : gs <:+: metrics.segment s) :
    visibleWidth metrics gs.flatten ≤ graphemesWidth metrics gs := by
  have hle := hm.visibleWidth_le gs.flatten
  rwa [hm.segment_run s gs h] at hle

end AnsiText.TextMetrics.Measures

end Widths

/-- A number sign and a bracket behind it are one grapheme. -/
def signSegments : JsString → List JsString
  | [] => []
  | [c] => [[c]]
  | c :: d :: s =>
    if c = 0x0600 ∧ d = 0x5B then [c, d] :: signSegments s else [c] :: signSegments (d :: s)

/-- The width of a code unit: an ideograph takes two columns, and a zero width space none. -/
def cellWidth (c : CodeUnit) : Nat := if c = 0x4E2D then 2 else if c = 0x200B then 0 else 1

theorem flatten_signSegments (s : JsString) : (signSegments s).flatten = s := by
  fun_induction signSegments s with
  | case1 => rfl
  | case2 => rfl
  | case3 c d s hpair ih | case4 c d s hpair ih => rw [flatten_cons, ih]; rfl

def signMetrics : TextMetrics where
  segment := signSegments
  graphemeWidth grapheme := (grapheme.map cellWidth).sum
  flatten_segment := flatten_signSegments

theorem signSegments_prefix (h : gs <+: signSegments s) : signSegments gs.flatten = gs := by
  fun_induction signSegments s generalizing gs with
  | case1 =>
    rw [prefix_nil.mp h]
    rfl
  | case2 c =>
    rcases prefix_cons_iff.mp h with rfl | ⟨gs, rfl, hrest⟩
    · rfl
    · rw [prefix_nil.mp hrest]
      rfl
  | case3 c d s hpair ih =>
    rcases prefix_cons_iff.mp h with rfl | ⟨gs, rfl, hrest⟩
    · rfl
    · rw [flatten_cons, cons_append, cons_append, nil_append, signSegments, if_pos hpair, ih hrest]
  | case4 c d s hpair ih =>
    rcases prefix_cons_iff.mp h with rfl | ⟨gs, rfl, hrest⟩
    · rfl
    · have hsame := ih hrest
      have hprefix : gs.flatten <+: d :: s := by
        obtain ⟨more, hmore⟩ := hrest
        refine ⟨more.flatten, ?_⟩
        rw [← flatten_append, hmore, flatten_signSegments]
      rw [flatten_cons, singleton_append]
      cases hflatten : gs.flatten with
      | nil =>
        rw [hflatten] at hsame
        rw [← hsame]
        rfl
      | cons e t =>
        rw [hflatten] at hsame hprefix
        obtain ⟨rfl, -⟩ := cons_prefix_cons.mp hprefix
        rw [signSegments, if_neg hpair, hsame]

theorem signSegments_tail (h : signSegments s = grapheme :: gs) : ∃ t, gs = signSegments t := by
  fun_cases signSegments s with
  | case1 => cases h
  | case2 c => exact ⟨[], (List.cons.inj h).2.symm⟩
  | case3 c d s hpair =>
    rw [signSegments, if_pos hpair] at h
    exact ⟨s, (List.cons.inj h).2.symm⟩
  | case4 c d s hpair =>
    rw [signSegments, if_neg hpair] at h
    exact ⟨d :: s, (List.cons.inj h).2.symm⟩

theorem signSegments_infix (h : gs <:+: signSegments s) : signSegments gs.flatten = gs := by
  obtain ⟨before, after, hsplit⟩ := h
  induction before generalizing s with
  | nil => exact signSegments_prefix ⟨after, hsplit⟩
  | cons g before ih =>
    obtain ⟨t, ht⟩ := signSegments_tail hsplit.symm
    exact ih ht

theorem mem_signSegments (h : grapheme ∈ signSegments s) :
    grapheme = [0x0600, 0x5B] ∨ ∃ c, grapheme = [c] := by
  fun_induction signSegments s with
  | case1 => cases h
  | case2 c => exact .inr ⟨c, mem_singleton.mp h⟩
  | case3 c d s hpair ih =>
    rcases mem_cons.mp h with rfl | h
    · exact .inl (by rw [hpair.1, hpair.2])
    · exact ih h
  | case4 c d s hpair ih =>
    rcases mem_cons.mp h with rfl | h
    · exact .inr ⟨c, rfl⟩
    · exact ih h

/-- The widths of the code units of a text, with three spaces in place of a tab. -/
def cellsWidth (s : JsString) : Nat := ((s.flatMap expandTab).map cellWidth).sum

theorem cellsWidth_append (s t : JsString) : cellsWidth (s ++ t) = cellsWidth s + cellsWidth t := by
  rw [cellsWidth, flatMap_append, map_append, sum_append]
  rfl

theorem cellsWidth_flatten (gs : List JsString) :
    cellsWidth gs.flatten = (gs.map cellsWidth).sum := by
  induction gs with
  | nil => rfl
  | cons g gs ih => rw [flatten_cons, cellsWidth_append, ih, map_cons, sum_cons]

theorem cellsWidth_of_printable (h : isPrintableAscii s) : cellsWidth s = s.length := by
  induction s with
  | nil => rfl
  | cons c s ih =>
    rw [isPrintableAscii, all_cons, Bool.and_eq_true, Bool.and_eq_true, decide_eq_true_iff,
      decide_eq_true_iff] at h
    obtain ⟨⟨hlow, hhigh⟩, hs⟩ := h
    rw [UInt16.le_iff_toNat_le] at hlow hhigh
    have htab : c ≠ 0x09 := by
      rintro rfl
      revert hlow
      decide
    have hone : cellWidth c = 1 := by
      unfold cellWidth
      rw [if_neg, if_neg]
      all_goals
        rintro rfl
        revert hhigh
        decide
    rw [← singleton_append, cellsWidth_append, ih hs, length_append, cellsWidth,
      flatMap_singleton, expandTab, if_neg htab, map_singleton, sum_singleton, hone]
    rfl

theorem filterMap_unit_sublist (skip : Nat) (s : JsString) :
    ((ansiItemsFrom skip s).filterMap AnsiItem.unit?).Sublist s := by
  fun_induction ansiItemsFrom skip s with
  | case1 => exact List.Sublist.slnil
  | case2 c cs code hcode ih | case4 skip c cs ih => exact ih.cons c
  | case3 c cs hnone ih => exact ih.cons_cons c

theorem visibleWidth_signMetrics (s : JsString) (h : ¬ isPrintableAscii s) :
    visibleWidth signMetrics s =
      (((ansiItems (s.flatMap expandTab)).filterMap AnsiItem.unit?).map cellWidth).sum := by
  rw [visibleWidth, if_neg h]
  generalize (ansiItems (s.flatMap expandTab)).filterMap AnsiItem.unit? = clean
  have hflatten := flatten_signSegments clean
  conv_rhs => rw [← hflatten]
  rw [map_flatten, sum_flatten, map_map]
  rfl

theorem visibleWidth_signMetrics_le (s : JsString) : visibleWidth signMetrics s ≤ cellsWidth s := by
  by_cases h : isPrintableAscii s
  · rw [visibleWidth_of_printable h, cellsWidth_of_printable h]
  · rw [visibleWidth_signMetrics s h]
    exact ((filterMap_unit_sublist 0 _).map cellWidth).sum_le_sum fun _ _ => Nat.zero_le _

theorem visibleWidth_signMetrics_grapheme (h : grapheme ∈ signSegments s) :
    visibleWidth signMetrics grapheme = cellsWidth grapheme := by
  rcases mem_signSegments h with rfl | ⟨c, rfl⟩
  · decide
  · by_cases hprintable : isPrintableAscii [c]
    · rw [visibleWidth_of_printable hprintable, cellsWidth_of_printable hprintable]
    · rw [visibleWidth_signMetrics _ hprintable, cellsWidth, flatMap_singleton]
      by_cases htab : c = 0x09
      · rw [htab]
        decide
      · rw [expandTab, if_neg htab]
        rfl

theorem signMetrics_measures : signMetrics.Measures where
  segment_run _ _ h := signSegments_infix h
  visibleWidth_le s := by
    have hgraphemes : (signMetrics.segment s).map (visibleWidth signMetrics) =
        (signSegments s).map cellsWidth :=
      map_congr_left fun g hg => visibleWidth_signMetrics_grapheme hg
    rw [hgraphemes, ← cellsWidth_flatten, flatten_signSegments]
    exact visibleWidth_signMetrics_le s

end AcademicAgent
