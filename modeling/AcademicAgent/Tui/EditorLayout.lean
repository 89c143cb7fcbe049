import AcademicAgent.Tui.CursorRange

/-!
# The layout of the editor

The layout that is drawn is what the visual lines say, with the cursor on the current one.
-/

namespace AcademicAgent

open List

open AnsiText (TextMetrics visibleWidth)

variable {line : JsString} {chunks : List TextChunk} {col : Int} {vls : List VisualLine}

def SlicesOf (text : JsString) (segs : List TextSegment) : Prop :=
  ∀ seg ∈ segs, seg.segment <+: text.drop seg.index

theorem slicesOf_indexed {text before : JsString} {parts : List JsString}
    (h : before ++ parts.flatten = text) : SlicesOf text (indexed before.length parts) := by
  induction parts generalizing before with
  | nil => exact forall_mem_nil _
  | cons part parts ih =>
    rw [flatten_cons, ← append_assoc] at h
    refine forall_mem_cons.mpr ⟨?_, ?_⟩
    · rw [← h, append_assoc, drop_left]
      exact prefix_append _ _
    · rw [← length_append]
      exact ih h

theorem slicesOf_mergeSegments {text : JsString} {segs : List TextSegment}
    (h : SlicesOf text segs) (markers : List (Nat × Nat)) :
    SlicesOf text (mergeSegments text markers segs) := by
  induction segs generalizing markers with
  | nil => exact forall_mem_nil _
  | cons seg segs ih =>
    obtain ⟨hseg, hsegs⟩ := forall_mem_cons.mp h
    rw [mergeSegments]
    split
    · exact forall_mem_cons.mpr ⟨hseg, ih hsegs _⟩
    · split
      · refine forall_mem_append.mpr ⟨?_, ih hsegs _⟩
        split
        · refine forall_mem_singleton.mpr ?_
          rw [drop_take]
          exact take_prefix _ _
        · exact forall_mem_nil _
      · exact forall_mem_cons.mpr ⟨hseg, ih hsegs _⟩

theorem slicesOf_baseSegments (metrics : TextMetrics) (text : JsString) :
    SlicesOf text (baseSegments metrics text) :=
  @slicesOf_indexed _ [] _ (metrics.flatten_segment text)

theorem slicesOf_segmentWithMarkers (metrics : TextMetrics) (text : JsString)
    (validIds : List Nat) : SlicesOf text (segmentWithMarkers metrics text validIds) := by
  unfold segmentWithMarkers
  split
  · exact slicesOf_baseSegments metrics text
  · dsimp only
    split
    · exact slicesOf_baseSegments metrics text
    · exact slicesOf_mergeSegments (slicesOf_baseSegments metrics text) _

def ChunksOf (line : JsString) (chunks : List TextChunk) : Prop :=
  ∀ chunk ∈ chunks, chunk.text = (line.take chunk.endIndex).drop chunk.startIndex

theorem chunksOf_checkOverflow {s : WrapState} (h : ChunksOf line s.chunks)
    (maxWidth gWidth charIndex : Nat) :
    ChunksOf line (checkOverflow line maxWidth s gWidth charIndex).chunks := by
  have hadd (a b : Nat) : ChunksOf line (s.chunks ++ [chunkOf line a b]) :=
    forall_mem_append.mpr ⟨h, forall_mem_singleton.mpr rfl⟩
  unfold checkOverflow
  dsimp only
  split
  · split
    · split
      · exact hadd _ _
      · split
        · exact hadd _ _
        · exact h
    · split
      · exact hadd _ _
      · exact h
  · exact h

theorem chunksOf_shift {segment : JsString} {index : Nat} (hslice : segment <+: line.drop index)
    (h : ChunksOf segment chunks) (hend : ∀ chunk ∈ chunks, chunk.endIndex ≤ segment.length) :
    ChunksOf line (chunks.map fun sc =>
      ⟨sc.text, index + sc.startIndex, index + sc.endIndex⟩) := by
  intro chunk hchunk
  obtain ⟨sc, hsc, rfl⟩ := mem_map.mp hchunk
  obtain ⟨rest, hrest⟩ := hslice
  rw [h sc hsc, drop_take, drop_take, Nat.add_sub_add_left, ← drop_drop, ← hrest, ← drop_take,
    ← drop_take, take_append_of_le_length (hend sc hsc)]

theorem Contiguous.bounds {high low : Nat} (h : Contiguous high low chunks) :
    ∀ chunk ∈ chunks, chunk.startIndex ≤ chunk.endIndex ∧ chunk.endIndex ≤ high := by
  induction chunks generalizing low with
  | nil => exact forall_mem_nil _
  | cons chunk chunks ih =>
    exact forall_mem_cons.mpr ⟨⟨h.1.trans_le h.2.1, h.2.2.le⟩, ih h.2.2⟩

theorem chunksOf_wrapLoop {metrics : TextMetrics} {maxWidth : Nat}
    {wrapSegment : JsString → Option (List TextChunk)}
    (hwrap : ∀ segment chunks, wrapSegment segment = some chunks → ChunksOf segment chunks ∧ ∀ chunk ∈ chunks, chunk.endIndex ≤ segment.length)
    {segs : List TextSegment} (hsegs : SlicesOf line segs) {s t : WrapState}
    (h : ChunksOf line s.chunks)
    (hloop : wrapLoop metrics line maxWidth wrapSegment segs s = some t) :
    ChunksOf line t.chunks := by
  induction segs generalizing s with
  | nil =>
    cases hloop
    exact h
  | cons seg rest ih =>
    obtain ⟨hseg, hrest⟩ := forall_mem_cons.mp hsegs
    have hchecked := chunksOf_checkOverflow h maxWidth (visibleWidth metrics seg.segment) seg.index
    rw [wrapLoop] at hloop
    split at hloop
    · obtain ⟨subChunks, hsub, hloop⟩ := Option.bind_eq_some_iff.mp hloop
      obtain ⟨last, -, hloop⟩ := Option.bind_eq_some_iff.mp hloop
      obtain ⟨hchunks, hend⟩ := hwrap _ _ hsub
      have hsubset := (dropLast_sublist subChunks).subset
      refine ih hrest ?_ hloop
      exact forall_mem_append.mpr ⟨hchecked, chunksOf_shift hseg
        (fun chunk hc => hchunks chunk (hsubset hc)) fun chunk hc => hend chunk (hsubset hc)⟩
    · refine ih hrest ?_ hloop
      exact hchecked

theorem chunksOf_wordWrapLine {metrics : TextMetrics} {maxWidth : Nat} (hwidth : 0 < maxWidth)
    {fuel : Nat} {segments : List TextSegment} (hslices : SlicesOf line segments)
    (h : wordWrapLine metrics maxWidth fuel line segments = some chunks) :
    ChunksOf line chunks := by
  induction fuel generalizing line segments chunks with
  | zero => cases h
  | succ fuel ih =>
    rw [wordWrapLine] at h
    split at h
    · cases h
      exact forall_mem_singleton.mpr rfl
    · split at h
      · cases h
        exact forall_mem_singleton.mpr (take_length).symm
      · obtain ⟨t, ht, rfl⟩ := Option.map_eq_some_iff.mp h
        refine forall_mem_append.mpr ⟨?_, forall_mem_singleton.mpr rfl⟩
        refine chunksOf_wrapLoop (s := {}) (fun segment chunks hchunks => ?_) hslices
          (forall_mem_nil _) ht
        have hbounds := (contiguous_wordWrapLine hwidth
          (segmentsInOrder_baseSegments metrics segment) hchunks).bounds
        exact ⟨ih (slicesOf_baseSegments metrics segment) hchunks, fun c hc => (hbounds c hc).2⟩

/-- A line of the layout; it has the cursor when there is a position. -/
structure LayoutLine where
  text : JsString
  cursorPos : Option Int
  deriving DecidableEq

/-- The layout lines of the chunks of a line, which has the cursor when there is a position. -/
def layoutChunks (cursorPos : Option Int) : List TextChunk → List LayoutLine
  | [] => []
  | chunk :: rest =>
    ⟨chunk.text, cursorPos.bind fun cursorPos =>
      if rest = [] then
        if chunk.startIndex ≤ cursorPos then some (cursorPos - chunk.startIndex) else none
      else if chunk.startIndex ≤ cursorPos ∧ cursorPos < chunk.endIndex then
        some (min (cursorPos - chunk.startIndex) chunk.text.length)
      else none⟩ :: layoutChunks cursorPos rest

/-- The cursor on the visual lines from one on: the offset on the one that it is found on. -/
def cursorMarks (line : Nat) (col : Int) : List VisualLine → List (Option Int)
  | [] => []
  | vl :: vls =>
    let offset := col - vl.startCol
    let isLastSegmentOfLine := vls.head?.all fun next => decide (next.logicalLine ≠ vl.logicalLine)
    if vl.logicalLine = line ∧ 0 ≤ offset ∧
        (offset < vl.length ∨ isLastSegmentOfLine = true ∧ offset = vl.length) then
      some offset :: vls.map fun _ => none
    else none :: cursorMarks line col vls

@[simp] theorem length_cursorMarks (line : Nat) (col : Int) (vls : List VisualLine) :
    (cursorMarks line col vls).length = vls.length := by
  induction vls with
  | nil => rfl
  | cons vl vls ih =>
    rw [cursorMarks]
    split <;> simp [ih]

theorem getElem?_cursorMarks {line : Nat} {i : Nat} {vl : VisualLine} (h : vls[i]? = some vl) :
    (cursorMarks line col vls)[i]? =
      some (if findVisualLine line col vls = some i then some (col - vl.startCol) else none) := by
  induction vls generalizing i with
  | nil => cases h
  | cons first vls ih =>
    rw [cursorMarks, findVisualLine]
    split
    · cases i with
      | zero =>
        cases h
        rfl
      | succ i =>
        have hi : vls[i]? = some vl := h
        rw [getElem?_cons_succ, getElem?_map, hi]
        simp
    · cases i with
      | zero => simp
      | succ i => simpa using ih h

theorem cursorMarks_of_ne {line : Nat} (h : ∀ vl ∈ vls, vl.logicalLine ≠ line) :
    cursorMarks line col vls = vls.map fun _ => none := by
  induction vls with
  | nil => rfl
  | cons vl vls ih =>
    obtain ⟨hvl, hvls⟩ := forall_mem_cons.mp h
    rw [cursorMarks, if_neg fun hfound => hvl hfound.1, ih hvls]
    rfl

theorem cursorMarks_append_of_ne {line : Nat} {own others : List VisualLine}
    (h : ∀ vl ∈ own, vl.logicalLine ≠ line) : cursorMarks line col (own ++ others) =
      (own.map fun _ => none) ++ cursorMarks line col others := by
  induction own with
  | nil => rfl
  | cons vl own ih =>
    obtain ⟨hvl, hown⟩ := forall_mem_cons.mp h
    rw [cons_append, cursorMarks, if_neg fun hfound => hvl hfound.1, ih hown]
    rfl

def TextChunk.visualLine (logicalLine : Nat) (chunk : TextChunk) : VisualLine :=
  ⟨logicalLine, chunk.startIndex, chunk.endIndex - chunk.startIndex⟩

theorem text_layoutChunks (cursorPos : Option Int) (chunks : List TextChunk) :
    (layoutChunks cursorPos chunks).map (·.text) = chunks.map (·.text) := by
  induction chunks with
  | nil => rfl
  | cons chunk chunks ih => exact congrArg (chunk.text :: ·) ih

theorem cursorPos_layoutChunks_none (chunks : List TextChunk) :
    (layoutChunks none chunks).map (·.cursorPos) = chunks.map fun _ => none := by
  induction chunks with
  | nil => rfl
  | cons chunk chunks ih => exact congrArg (none :: ·) ih

theorem cursorPos_layoutChunks_before {high low : Nat} (h : Contiguous high low chunks)
    (hcol : col < low) :
    (layoutChunks (some col) chunks).map (·.cursorPos) = chunks.map fun _ => none := by
  induction chunks generalizing low with
  | nil => rfl
  | cons chunk chunks ih =>
    obtain ⟨hstart, hle, hrest⟩ := h
    rw [layoutChunks, map_cons, map_cons, ih hrest (by omega)]
    have hbefore : ¬ (chunk.startIndex : Int) ≤ col := by omega
    simp [hbefore]

/-- The layout and the visual lines agree on the line with the cursor. -/
theorem cursorPos_layoutChunks {line high low : Nat} {text : JsString} {others : List VisualLine}
    (h : Contiguous high low chunks) (hchunks : ChunksOf text chunks) (htext : text.length = high)
    (hne : chunks ≠ []) (hothers : ∀ vl ∈ others, vl.logicalLine ≠ line) (hlow : (low : Int) ≤ col)
    (hhigh : col ≤ high) :
    (layoutChunks (some col) chunks).map (·.cursorPos) ++ others.map (fun _ => none) =
      cursorMarks line col (chunks.map (·.visualLine line) ++ others) := by
  induction chunks generalizing low with
  | nil => contradiction
  | cons chunk rest ih =>
    obtain ⟨hstart, hle, hrest⟩ := h
    obtain ⟨hchunk, hchunks⟩ := forall_mem_cons.mp hchunks
    have hstarted : (chunk.startIndex : Int) ≤ col := by omega
    rw [layoutChunks, map_cons, map_cons, cons_append, cons_append, cursorMarks, Option.bind_some]
    dsimp only [TextChunk.visualLine]
    cases rest with
    | nil =>
      have hend : chunk.endIndex = high := hrest
      have hlast : others.head?.all (fun next => decide (next.logicalLine ≠ line)) = true := by
        rw [Option.all_eq_true]
        exact fun next hnext => decide_eq_true (hothers next (mem_of_head? hnext))
      rw [if_pos rfl, if_pos hstarted]
      refine Eq.trans ?_ (if_pos ?_).symm
      · rfl
      · refine ⟨rfl, by omega, ?_⟩
        by_cases hinside : col < high
        · exact .inl (by omega)
        · exact .inr ⟨hlast, by omega⟩
    | cons next rest =>
      by_cases hinside : col < chunk.endIndex
      · have hlength : chunk.text.length = chunk.endIndex - chunk.startIndex := by
          rw [hchunk, length_drop, length_take, htext]
          have := hrest.le
          omega
        rw [if_neg (cons_ne_nil _ _), if_pos ⟨hstarted, hinside⟩,
          cursorPos_layoutChunks_before hrest hinside, min_eq_left (by omega)]
        refine Eq.trans ?_ (if_pos ?_).symm
        · rw [map_append, map_map]
          rfl
        · exact ⟨rfl, by omega, .inl (by omega)⟩
      · rw [if_neg (cons_ne_nil _ _), if_neg (fun h => hinside h.2),
          ih hrest hchunks (cons_ne_nil _ _) (by omega)]
        refine (if_neg ?_).symm
        rintro ⟨-, -, hbefore | ⟨hlast, -⟩⟩
        · omega
        · exact absurd rfl (of_decide_eq_true hlast)

namespace TextEditor

section Layout

variable (metrics : TextMetrics) (e : TextEditor)

def layoutLine (contentWidth i : Nat) (line : JsString) : Option (List LayoutLine) :=
  let cursorPos := if i = e.state.cursorLine then some e.state.cursorCol else none
  if visibleWidth metrics line ≤ contentWidth then some [⟨line, cursorPos⟩]
  else
    (wordWrapLine metrics contentWidth (line.length + 1) line (e.segment metrics line)).map
      (layoutChunks cursorPos)

/-- The layout lines of the lines from a number on. -/
def layoutLinesFrom (contentWidth : Nat) : Nat → List JsString → Option (List LayoutLine)
  | _, [] => some []
  | i, line :: lines =>
    (e.layoutLine metrics contentWidth i line).bind fun own =>
      (layoutLinesFrom contentWidth (i + 1) lines).map fun others => own ++ others

def layoutText (contentWidth : Nat) : Option (List LayoutLine) :=
  if e.state.lines = [] ∨ e.state.lines = [[]] then some [⟨[], some 0⟩]
  else e.layoutLinesFrom metrics contentWidth 0 e.state.lines

/-- The part of the text that a visual line shows. -/
def visualText (vl : VisualLine) : JsString :=
  ((e.state.lines.getD vl.logicalLine []).take (vl.startCol + vl.length)).drop vl.startCol

/-- The layout that some visual lines say, with the cursor on the current one. -/
def drawn (vls : List VisualLine) : List LayoutLine :=
  vls.zipIdx.map fun p => ⟨e.visualText p.1,
    if p.2 = e.findCurrentVisualLine vls then some (e.state.cursorCol - p.1.startCol) else none⟩

/-- The chunks of a line, which is one when it fits. -/
def lineChunks (width : Nat) (line : JsString) : Option (List TextChunk) :=
  if visibleWidth metrics line ≤ width then some [⟨line, 0, line.length⟩]
  else wordWrapLine metrics width (line.length + 1) line (e.segment metrics line)

end Layout

variable {metrics : TextMetrics} {e : TextEditor} {width : Nat}

theorem lineVisualLines_eq (i : Nat) (line : JsString) : e.lineVisualLines metrics width i line =
      (e.lineChunks metrics width line).map (·.map (·.visualLine i)) := by
  rw [lineVisualLines, lineChunks]
  split
  · rename_i hempty
    subst hempty
    rfl
  · split <;> rfl

theorem layoutLine_eq {i : Nat} (hcol : i = e.state.cursorLine → 0 ≤ e.state.cursorCol)
    (line : JsString) : e.layoutLine metrics width i line =
      (e.lineChunks metrics width line).map (layoutChunks
        (if i = e.state.cursorLine then some e.state.cursorCol else none)) := by
  rw [layoutLine, lineChunks]
  by_cases hfits : visibleWidth metrics line ≤ width
  · simp only [if_pos hfits]
    by_cases hcurrent : i = e.state.cursorLine
    · simp [hcurrent, layoutChunks, hcol hcurrent]
    · simp [hcurrent, layoutChunks]
  · simp only [if_neg hfits]

theorem lineChunks_spec (hsegment : ∀ s, ∀ part ∈ metrics.segment s, part ≠ []) (hwidth : 0 < width)
    (h : e.lineChunks metrics width line = some chunks) :
    Contiguous line.length 0 chunks ∧ ChunksOf line chunks ∧ chunks ≠ [] := by
  rw [lineChunks] at h
  split at h
  · cases h
    exact ⟨⟨rfl, Nat.zero_le _, rfl⟩, forall_mem_singleton.mpr take_length.symm, cons_ne_nil _ _⟩
  · rename_i hwide
    have hcontiguous := contiguous_wordWrapLine hwidth
      (segmentsInOrder_segmentWithMarkers hsegment line _) h
    refine ⟨hcontiguous, chunksOf_wordWrapLine hwidth
      (slicesOf_segmentWithMarkers metrics line _) h, ?_⟩
    rintro rfl
    rw [length_eq_zero_iff.mp hcontiguous.symm] at hwide
    exact hwide (Nat.zero_le _)

/-- Layout lines and visual lines that say the same. -/
structure SameLines (e : TextEditor) (layout : List LayoutLine) (vls : List VisualLine) : Prop where
  text : layout.map (·.text) = vls.map e.visualText
  cursorPos : layout.map (·.cursorPos) = cursorMarks e.state.cursorLine e.state.cursorCol vls

theorem layoutLinesFrom_agrees (hsegment : ∀ s, ∀ part ∈ metrics.segment s, part ≠ [])
    (hwidth : 0 < width) (hcol : 0 ≤ e.state.cursorCol ∧ e.state.cursorCol ≤ e.currentLine.length)
    {i : Nat} {lines : List JsString} (hlines : e.state.lines.drop i = lines) :
    (e.layoutLinesFrom metrics width i lines = none ∧
      e.visualLinesFrom metrics width i lines = none) ∨
    ∃ layout vls, e.layoutLinesFrom metrics width i lines = some layout ∧
      e.visualLinesFrom metrics width i lines = some vls ∧ e.SameLines layout vls ∧
        ∀ vl ∈ vls, i ≤ vl.logicalLine := by
  induction lines generalizing i with
  | nil => exact .inr ⟨[], [], rfl, rfl, ⟨rfl, rfl⟩, forall_mem_nil _⟩
  | cons line lines ih =>
    have hline : e.state.lines[i]? = some line := by
      rw [← Nat.add_zero i, ← getElem?_drop, hlines]
      rfl
    have hrest : e.state.lines.drop (i + 1) = lines := by
      rw [← drop_drop, hlines]
      rfl
    rw [layoutLinesFrom, visualLinesFrom, lineVisualLines_eq, layoutLine_eq fun _ => hcol.1]
    cases hchunks : e.lineChunks metrics width line with
    | none => exact .inl ⟨rfl, rfl⟩
    | some chunks =>
      obtain ⟨hcontiguous, hparts, hne⟩ := lineChunks_spec hsegment hwidth hchunks
      rcases ih hrest with ⟨hlayout, hvls⟩ | ⟨layout, vls, hlayout, hvls, hsame, hlater⟩
      · rw [hlayout, hvls]
        exact .inl ⟨rfl, rfl⟩
      · rw [hlayout, hvls]
        have hown : ∀ vl ∈ chunks.map (·.visualLine i), vl.logicalLine = i :=
          forall_mem_map.mpr fun _ _ => rfl
        have hget : e.state.lines.getD i [] = line := by rw [getD_eq_getElem?_getD, hline]; rfl
        refine .inr ⟨_, _, rfl, rfl, ⟨?_, ?_⟩, ?_⟩
        · rw [map_append, map_append, hsame.text, text_layoutChunks, map_map]
          refine congrArg (· ++ _) (map_congr_left fun chunk hchunk => ?_)
          have hbounds := (hcontiguous.bounds chunk hchunk).1
          rw [Function.comp_apply, visualText, TextChunk.visualLine, hget,
            Nat.add_sub_cancel' hbounds, hparts chunk hchunk]
        · have hothers : ∀ vl ∈ vls, vl.logicalLine ≠ i := fun vl hvl =>
            Nat.ne_of_gt (hlater vl hvl)
          rw [map_append, hsame.cursorPos]
          by_cases hcurrent : i = e.state.cursorLine
          · have hcurrentLine : e.currentLine = line := by rw [currentLine, ← hcurrent, hget]
            rw [hcurrentLine] at hcol
            rw [if_pos hcurrent, ← hcurrent, cursorMarks_of_ne hothers]
            exact cursorPos_layoutChunks hcontiguous hparts rfl hne hothers hcol.1 hcol.2
          · rw [if_neg hcurrent, cursorPos_layoutChunks_none, cursorMarks_append_of_ne
              fun vl hvl => (hown vl hvl).trans_ne hcurrent, map_map]
            rfl
        · refine forall_mem_append.mpr ⟨fun vl hvl => (hown vl hvl).ge, fun vl hvl => ?_⟩
          exact (Nat.le_succ i).trans (hlater vl hvl)

theorem SameLines.eq_drawn {layout : List LayoutLine} (h : e.SameLines layout vls)
    (hfound : findVisualLine e.state.cursorLine e.state.cursorCol vls = some (e.findCurrentVisualLine vls))
    : layout = e.drawn vls := by
  refine ext_getElem? fun i => ?_
  have htext := congrArg (·[i]?) h.text
  have hpos := congrArg (·[i]?) h.cursorPos
  simp only [getElem?_map] at htext hpos
  rw [drawn, getElem?_map, getElem?_zipIdx]
  cases hvl : vls[i]? with
  | none =>
    rw [hvl] at htext
    exact Option.map_eq_none_iff.mp htext
  | some vl =>
    rw [hvl] at htext
    obtain ⟨line, hline, hlineText⟩ := Option.map_eq_some_iff.mp htext
    rw [hline, getElem?_cursorMarks hvl, hfound, Option.map_some] at hpos
    rw [hline, Option.map_some, Option.map_some, Nat.zero_add]
    refine congrArg some (LayoutLine.mk.injEq .. ▸ ⟨hlineText, ?_⟩)
    rw [Option.some.inj hpos]
    simp [eq_comm]

theorem layoutText_eq (hline : e.state.cursorLine < e.state.lines.length)
    (hcol : 0 ≤ e.state.cursorCol ∧ e.state.cursorCol ≤ e.currentLine.length) :
    e.layoutText metrics width = e.layoutLinesFrom metrics width 0 e.state.lines := by
  rw [layoutText]
  split
  · rename_i hempty
    rcases hempty with hnone | hone
    · rw [hnone] at hline
      cases hline
    · rw [hone, length_singleton, Nat.lt_one_iff] at hline
      rw [currentLine, hone, hline] at hcol
      have hzero : e.state.cursorCol = 0 := Int.le_antisymm hcol.2 hcol.1
      have hfits : visibleWidth metrics [] ≤ width := Nat.zero_le _
      simp [hone, layoutLinesFrom, layoutLine, hline, hzero, hfits]
  · rfl

/-- Two lines with the cursor behind the first letter. -/
def twoLines (width : Nat) : TextEditor :=
  { state := { lines := [js "ab", js "c"], cursorLine := 0, cursorCol := 1 }, lastWidth := width }

end TextEditor

end AcademicAgent
