import AcademicAgent.Tui.TextEditor
import Mathlib.Data.List.Chain

/-!
# Visual lines

The visual lines of the editor cut each line into pieces from its start to its end.
-/

namespace AcademicAgent

open List Option

open AnsiText (TextMetrics visibleWidth)

variable {vls : List VisualLine} {logicalLine : Nat} {lines : List JsString} {col : Int}
  {line : JsString}

/-- Visual lines of one line follow each other from `low` to `high`. -/
def VisualLine.Cut (logicalLine high : Nat) : Nat → List VisualLine → Prop
  | low, [] => low = high
  | low, vl :: vls =>
    vl.logicalLine = logicalLine ∧ vl.startCol = low ∧ Cut logicalLine high (low + vl.length) vls

/-- Visual lines cut the lines from a number on, each into at least one piece. -/
def VisualLine.MapOf : Nat → List JsString → List VisualLine → Prop
  | _, [], vls => vls = []
  | logicalLine, line :: lines, vls =>
    ∃ own others, vls = own ++ others ∧ own ≠ [] ∧ Cut logicalLine line.length 0 own ∧
      MapOf (logicalLine + 1) lines others

namespace VisualLine

section

variable {logicalLine high low : Nat}

theorem Cut.le (h : Cut logicalLine high low vls) : low ≤ high := by
  induction vls generalizing low with
  | nil => exact Nat.le_of_eq h
  | cons vl vls ih => exact (Nat.le_add_right _ _).trans (ih h.2.2)

theorem Cut.mem (h : Cut logicalLine high low vls) {vl : VisualLine} (hvl : vl ∈ vls) :
    vl.logicalLine = logicalLine ∧ vl.startCol ≤ high := by
  induction vls generalizing low with
  | nil => cases hvl
  | cons first vls ih =>
    obtain ⟨hline, hstart, hrest⟩ := h
    rcases mem_cons.mp hvl with rfl | hvl
    · exact ⟨hline, hstart ▸ (Nat.le_add_right _ _).trans hrest.le⟩
    · exact ih hrest hvl

theorem cut_of_contiguous {chunks : List TextChunk}
    (h : Contiguous high low chunks) :
    Cut logicalLine high low (chunks.map fun chunk =>
      ⟨logicalLine, chunk.startIndex, chunk.endIndex - chunk.startIndex⟩) := by
  induction chunks generalizing low with
  | nil => exact h
  | cons chunk chunks ih =>
    obtain ⟨hstart, hle, hrest⟩ := h
    refine ⟨rfl, hstart, ?_⟩
    dsimp only
    rw [hstart, Nat.add_sub_cancel' hle]
    exact ih hrest

end

theorem MapOf.mem (h : MapOf logicalLine lines vls) {vl : VisualLine} (hvl : vl ∈ vls) :
    ∃ i line, vl.logicalLine = logicalLine + i ∧ lines[i]? = some line ∧
      vl.startCol ≤ line.length := by
  induction lines generalizing logicalLine vls with
  | nil =>
    rw [h] at hvl
    cases hvl
  | cons line lines ih =>
    obtain ⟨own, others, rfl, -, hown, hothers⟩ := h
    rcases mem_append.mp hvl with hvl | hvl
    · obtain ⟨hline, hstart⟩ := hown.mem hvl
      exact ⟨0, line, hline, rfl, hstart⟩
    · obtain ⟨i, line', hline, hget, hstart⟩ := ih hothers hvl
      exact ⟨i + 1, line', by omega, hget, hstart⟩

/-- A visual line goes on where the one before it ends, or starts a line. -/
def Follows (vl next : VisualLine) : Prop :=
  next.logicalLine = vl.logicalLine ∧ vl.startCol ≤ next.startCol ∨
    next.logicalLine ≠ vl.logicalLine ∧ next.startCol = 0

theorem Cut.isChain {high low : Nat} (h : Cut logicalLine high low vls) : vls.IsChain Follows := by
  induction vls generalizing low with
  | nil => exact .nil
  | cons vl vls ih =>
    obtain ⟨hline, hstart, hrest⟩ := h
    cases vls with
    | nil => exact .singleton vl
    | cons next vls =>
      refine .cons_cons (.inl ⟨hrest.1.trans hline.symm, ?_⟩) (ih hrest)
      rw [hrest.2.1]
      omega

theorem MapOf.head {logicalLine : Nat} {lines : List JsString} {vls : List VisualLine}
    (h : MapOf logicalLine lines vls) {vl : VisualLine} (hvl : vls.head? = some vl) :
    vl.logicalLine = logicalLine ∧ vl.startCol = 0 := by
  cases lines with
  | nil =>
    rw [h] at hvl
    cases hvl
  | cons line lines =>
    obtain ⟨own, others, rfl, hne, hown, -⟩ := h
    obtain ⟨first, own, rfl⟩ := exists_cons_of_ne_nil hne
    obtain rfl : first = vl := some.inj hvl
    exact ⟨hown.1, hown.2.1⟩

theorem MapOf.isChain (h : MapOf logicalLine lines vls) : vls.IsChain Follows := by
  induction lines generalizing logicalLine vls with
  | nil =>
    rw [h]
    exact .nil
  | cons line lines ih =>
    obtain ⟨own, others, rfl, -, hown, hothers⟩ := h
    refine isChain_append.mpr ⟨hown.isChain, ih hothers, fun last hlast next hnext => ?_⟩
    have hline := (hown.mem (mem_of_getLast? hlast)).1
    obtain ⟨hnextLine, hnextStart⟩ := hothers.head hnext
    exact .inr ⟨by omega, hnextStart⟩

theorem startCol_skip {vl next : VisualLine} {p : VisualLine → Bool}
    (h : (vl :: vls).IsChain Follows) (hp : ∀ v, p v = true → v.logicalLine = vl.logicalLine)
    (hnext : vls[(vls.takeWhile p).length]? = some next) :
    vl.startCol ≤ next.startCol ∨ next.startCol = 0 := by
  induction vls generalizing vl with
  | nil => cases hnext
  | cons first vls ih =>
    obtain ⟨hfollows, hrest⟩ := isChain_cons_cons.mp h
    by_cases hfirst : p first = true
    · rw [takeWhile_cons, if_pos hfirst, length_cons, getElem?_cons_succ] at hnext
      have hsame := hp first hfirst
      have hle : vl.startCol ≤ first.startCol := by
        rcases hfollows with ⟨-, hle⟩ | ⟨hne, -⟩
        · exact hle
        · exact absurd hsame hne
      rcases ih hrest (fun v hv => (hp v hv).trans hsame.symm) hnext with hbehind | hzero
      · exact .inl (hle.trans hbehind)
      · exact .inr hzero
    · rw [takeWhile_cons, if_neg hfirst, length_nil, getElem?_cons_zero] at hnext
      obtain rfl : first = next := some.inj hnext
      exact hfollows.imp And.right And.right

end VisualLine

theorem findVisualLine_eq_some {line : Nat} {i : Nat} (h : findVisualLine line col vls = some i) :
    ∃ vl, vls[i]? = some vl ∧ vl.logicalLine = line ∧ (vl.startCol : Int) ≤ col := by
  induction vls generalizing i with
  | nil => cases h
  | cons vl vls ih =>
    rw [findVisualLine] at h
    split at h
    · rename_i hfound
      cases h
      exact ⟨vl, rfl, hfound.1, by omega⟩
    · obtain ⟨j, hj, rfl⟩ := map_eq_some_iff.mp h
      exact ih hj

theorem findVisualLine_append_of_ne {line : Nat} {own others : List VisualLine}
    (h : ∀ vl ∈ own, vl.logicalLine ≠ line) : findVisualLine line col (own ++ others) =
      (findVisualLine line col others).map (own.length + ·) := by
  induction own with
  | nil => simp
  | cons vl own ih =>
    rw [cons_append, findVisualLine, if_neg (fun hfound => h vl mem_cons_self hfound.1),
      ih fun v hv => h v (mem_cons_of_mem _ hv), Option.map_map]
    congr 1
    funext i
    simp only [Function.comp_apply, length_cons]
    omega

theorem findVisualLine_append_isSome {line low high : Nat} {own others : List VisualLine}
    (hown : VisualLine.Cut line high low own) (hne : own ≠ [])
    (hothers : ∀ vl, others.head? = some vl → vl.logicalLine ≠ line) (hlow : (low : Int) ≤ col)
    (hhigh : col ≤ high) : (findVisualLine line col (own ++ others)).isSome = true := by
  induction own generalizing low with
  | nil => contradiction
  | cons vl own ih =>
    obtain ⟨hline, hstart, hrest⟩ := hown
    rw [cons_append, findVisualLine]
    split
    · rfl
    · rename_i hfound
      rw [isSome_map]
      cases own with
      | nil =>
        have hend : low + vl.length = high := hrest
        have hlast : ((([] : List VisualLine) ++ others).head?.all fun next =>
            decide (next.logicalLine ≠ vl.logicalLine)) = true := by
          rw [nil_append, Option.all_eq_true]
          intro next hnext
          rw [hline]
          exact decide_eq_true (hothers next hnext)
        refine absurd ⟨hline, by omega, ?_⟩ hfound
        by_cases hinside : col - (vl.startCol : Int) < vl.length
        · exact .inl hinside
        · exact .inr ⟨hlast, by omega⟩
      | cons next own =>
        refine ih hrest (cons_ne_nil _ _) ?_
        by_contra hbefore
        refine hfound ⟨hline, by omega, .inl ?_⟩
        push_cast at hbefore
        omega

theorem VisualLine.MapOf.findVisualLine_isSome {i : Nat}
    (h : VisualLine.MapOf logicalLine lines vls) (hline : lines[i]? = some line) (hlow : 0 ≤ col)
    (hhigh : col ≤ line.length) : (findVisualLine (logicalLine + i) col vls).isSome = true := by
  induction lines generalizing logicalLine vls i with
  | nil => cases hline
  | cons first lines ih =>
    obtain ⟨own, others, rfl, hne, hown, hothers⟩ := h
    cases i with
    | zero =>
      obtain rfl : first = line := some.inj hline
      refine findVisualLine_append_isSome hown hne (fun vl hvl => ?_) hlow hhigh
      have hhead := (hothers.head hvl).1
      omega
    | succ i =>
      rw [findVisualLine_append_of_ne (fun vl hvl => by have := (hown.mem hvl).1; omega),
        isSome_map, show logicalLine + (i + 1) = logicalLine + 1 + i by omega]
      exact ih hothers hline

theorem VisualLine.MapOf.findVisualLineAt (h : VisualLine.MapOf 0 lines vls) {i : Nat}
    (hline : lines[i]? = some line) (hlow : 0 ≤ col) (hhigh : col ≤ line.length) :
    ∃ vl, vls[AcademicAgent.findVisualLineAt vls i col]? = some vl ∧ vl.logicalLine = i ∧
      (vl.startCol : Int) ≤ col := by
  have hsome := h.findVisualLine_isSome hline hlow hhigh
  rw [Nat.zero_add] at hsome
  obtain ⟨j, hj⟩ := isSome_iff_exists.mp hsome
  rw [AcademicAgent.findVisualLineAt, hj]
  exact findVisualLine_eq_some hj

namespace TextEditor

variable {metrics : TextMetrics} {e : TextEditor}

theorem cut_lineVisualLines (hsegment : ∀ s, ∀ part ∈ metrics.segment s, part ≠ []) {width : Nat}
    (hwidth : 0 < width) (h : e.lineVisualLines metrics width logicalLine line = some vls) :
    vls ≠ [] ∧ VisualLine.Cut logicalLine line.length 0 vls := by
  unfold lineVisualLines at h
  split_ifs at h with hempty hfits
  · cases h
    refine ⟨cons_ne_nil _ _, rfl, rfl, ?_⟩
    rw [hempty]
    rfl
  · cases h
    exact ⟨cons_ne_nil _ _, rfl, rfl, Nat.zero_add _⟩
  · obtain ⟨chunks, hchunks, rfl⟩ := map_eq_some_iff.mp h
    have hcontiguous := contiguous_wordWrapLine hwidth
      (segmentsInOrder_segmentWithMarkers hsegment line _) hchunks
    refine ⟨?_, VisualLine.cut_of_contiguous hcontiguous⟩
    rintro hnil
    rw [map_eq_nil_iff.mp hnil] at hcontiguous
    exact hempty (length_eq_zero_iff.mp hcontiguous.symm)

theorem mapOf_visualLinesFrom (hsegment : ∀ s, ∀ part ∈ metrics.segment s, part ≠ []) {width : Nat}
    (hwidth : 0 < width) (h : e.visualLinesFrom metrics width logicalLine lines = some vls) :
    VisualLine.MapOf logicalLine lines vls := by
  induction lines generalizing logicalLine vls with
  | nil =>
    cases h
    rfl
  | cons line lines ih =>
    rw [visualLinesFrom] at h
    obtain ⟨own, hown, h⟩ := bind_eq_some_iff.mp h
    obtain ⟨others, hothers, rfl⟩ := map_eq_some_iff.mp h
    obtain ⟨hne, hcut⟩ := cut_lineVisualLines hsegment hwidth hown
    exact ⟨own, others, rfl, hne, hcut, ih hothers⟩

end TextEditor

end AcademicAgent
