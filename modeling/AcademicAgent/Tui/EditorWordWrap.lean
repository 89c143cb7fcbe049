import AcademicAgent.Tui.EditorSegments

/-!
# Word wrap of a line in the editor

A line that is too wide is cut into chunks at words, or between segments where a word does not
fit, or inside of a segment that is wider than a line.
-/

namespace AcademicAgent

open AnsiText (TextMetrics visibleWidth)

variable {chunks : List TextChunk}

/-- A chunk of a wrapped line and its place in the line. -/
structure TextChunk where
  text : JsString
  startIndex : Nat
  endIndex : Nat
  deriving DecidableEq

def chunkOf (line : JsString) (startIndex endIndex : Nat) : TextChunk :=
  ⟨(line.take endIndex).drop startIndex, startIndex, endIndex⟩

/-- The variables of the loop of `wordWrapLine`. -/
structure WrapState where
  chunks : List TextChunk := []
  currentWidth : Nat := 0
  chunkStart : Nat := 0
  /-- `wrapOppIndex` and `wrapOppWidth`, when there is an opportunity. -/
  wrapOpp : Option (Nat × Nat) := none

section Wrap

variable (metrics : TextMetrics) (line : JsString) (maxWidth : Nat)

def checkOverflow (s : WrapState) (gWidth charIndex : Nat) : WrapState :=
  let forceBreak : WrapState :=
    if s.chunkStart < charIndex then
      { chunks := s.chunks ++ [chunkOf line s.chunkStart charIndex], chunkStart := charIndex }
    else { s with wrapOpp := none }
  if maxWidth < s.currentWidth + gWidth then
    match s.wrapOpp with
    | some (wrapOppIndex, wrapOppWidth) =>
      if s.currentWidth + gWidth ≤ maxWidth + wrapOppWidth then
        { chunks := s.chunks ++ [chunkOf line s.chunkStart wrapOppIndex]
          chunkStart := wrapOppIndex
          currentWidth := s.currentWidth - wrapOppWidth }
      else forceBreak
    | none => forceBreak
  else s

/-- The wrap opportunity behind a segment: white space before anything else. -/
def nextWrapOpp (seg : TextSegment) (rest : List TextSegment) (width : Nat)
    (wrapOpp : Option (Nat × Nat)) : Option (Nat × Nat) :=
  match rest with
  | next :: _ =>
    if !isPasteMarker seg.segment && isWhitespaceChar seg.segment &&
        (isPasteMarker next.segment || !isWhitespaceChar next.segment) then
      some (next.index, width)
    else wrapOpp
  | [] => wrapOpp

/-- The loop of `wordWrapLine`. A segment that is too wide is wrapped by `wrapSegment`. -/
def wrapLoop (wrapSegment : JsString → Option (List TextChunk)) :
    List TextSegment → WrapState → Option WrapState
  | [], s => some s
  | seg :: rest, s =>
    let gWidth := visibleWidth metrics seg.segment
    let s := checkOverflow line maxWidth s gWidth seg.index
    if maxWidth < gWidth then
      (wrapSegment seg.segment).bind fun subChunks =>
        subChunks.getLast?.bind fun last =>
          wrapLoop wrapSegment rest
            { chunks := s.chunks ++ subChunks.dropLast.map fun sc =>
                ⟨sc.text, seg.index + sc.startIndex, seg.index + sc.endIndex⟩
              chunkStart := seg.index + last.startIndex
              currentWidth := visibleWidth metrics last.text }
    else
      wrapLoop wrapSegment rest { s with
        currentWidth := s.currentWidth + gWidth
        wrapOpp := nextWrapOpp seg rest (s.currentWidth + gWidth) s.wrapOpp }

end Wrap

/-- `wordWrapLine`. A segment that is wrapped is shorter than the line or is the line, and the
call goes on forever, which ends in an error: `fuel` is more than the length of the line. -/
def wordWrapLine (metrics : TextMetrics) (maxWidth : Nat) :
    Nat → JsString → List TextSegment → Option (List TextChunk)
  | 0, _, _ => none
  | fuel + 1, line, segments =>
    if line = [] ∨ maxWidth = 0 then some [⟨[], 0, 0⟩]
    else if visibleWidth metrics line ≤ maxWidth then some [⟨line, 0, line.length⟩]
    else
      (wrapLoop metrics line maxWidth
        (fun grapheme =>
          wordWrapLine metrics maxWidth fuel grapheme (baseSegments metrics grapheme))
        segments {}).map fun s => s.chunks ++ [chunkOf line s.chunkStart line.length]

/-- Chunks follow each other from `low` to `high`. -/
def Contiguous (high : Nat) : Nat → List TextChunk → Prop
  | low, [] => low = high
  | low, chunk :: chunks =>
    chunk.startIndex = low ∧ low ≤ chunk.endIndex ∧ Contiguous high chunk.endIndex chunks

theorem Contiguous.le {high low : Nat} (h : Contiguous high low chunks) : low ≤ high := by
  induction chunks generalizing low with
  | nil => exact Nat.le_of_eq h
  | cons chunk chunks ih => exact h.2.1.trans (ih h.2.2)

theorem Contiguous.append {high middle low : Nat} {chunks' : List TextChunk}
    (h : Contiguous middle low chunks) (h' : Contiguous high middle chunks') :
    Contiguous high low (chunks ++ chunks') := by
  induction chunks generalizing low with
  | nil =>
    cases h
    exact h'
  | cons chunk chunks ih => exact ⟨h.1, h.2.1, ih h.2.2⟩

theorem contiguous_chunkOf {line : JsString} {low high : Nat} (h : low ≤ high) :
    Contiguous high low [chunkOf line low high] := ⟨rfl, h, rfl⟩

theorem Contiguous.dropLast {high low : Nat} {last : TextChunk} (h : Contiguous high low chunks)
    (hlast : chunks.getLast? = some last) :
    Contiguous last.startIndex low chunks.dropLast ∧ last.startIndex ≤ high := by
  induction chunks generalizing low with
  | nil => cases hlast
  | cons chunk chunks ih =>
    obtain ⟨hstart, hle, hrest⟩ := h
    cases chunks with
    | nil =>
      obtain rfl : chunk = last := Option.some.inj hlast
      have hend := hrest.le
      exact ⟨hstart.symm, by omega⟩
    | cons next chunks =>
      rw [List.getLast?_cons_cons] at hlast
      obtain ⟨hbefore, hend⟩ := ih hrest hlast
      exact ⟨⟨hstart, hle, hbefore⟩, hend⟩

theorem Contiguous.shift {high low : Nat} (h : Contiguous high low chunks) (index : Nat) :
    Contiguous (index + high) (index + low) (chunks.map fun sc =>
      ⟨sc.text, index + sc.startIndex, index + sc.endIndex⟩) := by
  induction chunks generalizing low with
  | nil =>
    cases h
    rfl
  | cons chunk chunks ih =>
    obtain ⟨hstart, hle, hrest⟩ := h
    refine ⟨by dsimp only; omega, by dsimp only; omega, ih hrest⟩

/-- What the loop keeps: the chunks so far lead up to the start of the current one, which is
behind them and before `low`, and a break opportunity lies in between. -/
structure WrapState.Sound (low : Nat) (s : WrapState) : Prop where
  chunks : Contiguous s.chunkStart 0 s.chunks
  start : s.chunkStart ≤ low
  opportunity : ∀ index width, s.wrapOpp = some (index, width) →
    s.chunkStart ≤ index ∧ index ≤ low ∧ width ≤ s.currentWidth

section Loop

variable {metrics : TextMetrics} {line : JsString} {maxWidth : Nat}

theorem WrapState.Sound.checkOverflow {s : WrapState} {low charIndex gWidth : Nat}
    (h : s.Sound low) (hlow : low ≤ charIndex) :
    (AcademicAgent.checkOverflow line maxWidth s gWidth charIndex).Sound charIndex ∧
      (maxWidth < gWidth →
        (AcademicAgent.checkOverflow line maxWidth s gWidth charIndex).chunkStart = charIndex) := by
  have hstart := h.start.trans hlow
  have hforced : ∀ {t : WrapState}, (t = if s.chunkStart < charIndex then
      { chunks := s.chunks ++ [chunkOf line s.chunkStart charIndex], chunkStart := charIndex }
      else { s with wrapOpp := none }) → t.Sound charIndex ∧ t.chunkStart = charIndex := by
    rintro _ rfl
    split
    · refine ⟨⟨h.chunks.append (contiguous_chunkOf hstart), le_refl _, ?_⟩, rfl⟩
      intro index width hopp
      cases hopp
    · refine ⟨⟨h.chunks, hstart, ?_⟩, by dsimp only; omega⟩
      intro index width hopp
      cases hopp
  unfold AcademicAgent.checkOverflow
  dsimp only
  split
  · split
    · rename_i index width hopp
      obtain ⟨hbehind, hbefore, hwidth⟩ := h.opportunity index width hopp
      split
      · refine ⟨⟨h.chunks.append (contiguous_chunkOf hbehind), hbefore.trans hlow, ?_⟩, ?_⟩
        · intro index' width' hopp'
          cases hopp'
        · omega
      · exact ⟨(hforced rfl).1, fun _ => (hforced rfl).2⟩
    · exact ⟨(hforced rfl).1, fun _ => (hforced rfl).2⟩
  · refine ⟨⟨h.chunks, hstart, fun index width hopp => ?_⟩, by omega⟩
    obtain ⟨hbehind, hbefore, hwidth⟩ := h.opportunity index width hopp
    exact ⟨hbehind, hbefore.trans hlow, hwidth⟩

theorem WrapState.Sound.wrapLoop {wrapSegment : JsString → Option (List TextChunk)}
    (hwrap : ∀ grapheme subChunks, wrapSegment grapheme = some subChunks →
      Contiguous grapheme.length 0 subChunks) {segs : List TextSegment} {s t : WrapState}
    {low high : Nat} (h : s.Sound low) (hsegs : SegmentsInOrder high low segs)
    (hloop : AcademicAgent.wrapLoop metrics line maxWidth wrapSegment segs s = some t) :
    t.Sound high := by
  induction segs generalizing s low with
  | nil =>
    cases hloop
    refine ⟨h.chunks, h.start.trans hsegs, fun index width hopp => ?_⟩
    obtain ⟨hbehind, hbefore, hwidth⟩ := h.opportunity index width hopp
    exact ⟨hbehind, hbefore.trans hsegs, hwidth⟩
  | cons seg rest ih =>
    obtain ⟨hlow, hrest⟩ := hsegs
    obtain ⟨hsound, hwide⟩ := @WrapState.Sound.checkOverflow line maxWidth s low seg.index
      (visibleWidth metrics seg.segment) h hlow
    rw [AcademicAgent.wrapLoop] at hloop
    generalize AcademicAgent.checkOverflow line maxWidth s (visibleWidth metrics seg.segment)
      seg.index = s' at hsound hwide hloop
    split at hloop
    · rename_i htooWide
      obtain ⟨subChunks, hsub, hloop⟩ := Option.bind_eq_some_iff.mp hloop
      obtain ⟨last, hlast, hloop⟩ := Option.bind_eq_some_iff.mp hloop
      obtain ⟨hbefore, hend⟩ := (hwrap _ _ hsub).dropLast hlast
      refine ih ⟨?_, ?_, ?_⟩ hrest hloop
      · refine Contiguous.append hsound.chunks ?_
        rw [hwide htooWide]
        exact hbefore.shift seg.index
      · dsimp only
        omega
      · intro index width hopp
        cases hopp
    · have hstart := hsound.start
      have hold : ∀ index width, s'.wrapOpp = some (index, width) → s'.chunkStart ≤ index ∧
          index ≤ seg.index + seg.segment.length ∧
            width ≤ s'.currentWidth + visibleWidth metrics seg.segment := by
        intro index width hopp
        obtain ⟨hbehind, hbefore, hwidth⟩ := hsound.opportunity index width hopp
        omega
      cases rest with
      | nil =>
        refine ih ?_ hrest hloop
        exact ⟨hsound.chunks, by dsimp only; omega, hold⟩
      | cons next rest =>
        obtain ⟨hnext, hrest⟩ := hrest
        refine ih ?_ ⟨le_refl next.index, hrest⟩ hloop
        refine ⟨hsound.chunks, by dsimp only; omega, ?_⟩
        intro index width hopp
        dsimp only [nextWrapOpp] at hopp ⊢
        split at hopp
        · cases hopp
          omega
        · obtain ⟨hbehind, hbefore, hwidth⟩ := hold index width hopp
          omega

end Loop

theorem contiguous_wordWrapLine {metrics : TextMetrics} {maxWidth : Nat} (hwidth : 0 < maxWidth)
    {fuel : Nat} {line : JsString} {segments : List TextSegment}
    (hsegments : SegmentsInOrder line.length 0 segments)
    (h : wordWrapLine metrics maxWidth fuel line segments = some chunks) :
    Contiguous line.length 0 chunks := by
  induction fuel generalizing line segments chunks with
  | zero => cases h
  | succ fuel ih =>
    rw [wordWrapLine] at h
    split at h
    · rename_i hempty
      cases h
      rcases hempty with rfl | hzero
      · exact ⟨rfl, le_refl _, rfl⟩
      · omega
    · split at h
      · cases h
        exact ⟨rfl, Nat.zero_le _, rfl⟩
      · obtain ⟨s, hloop, rfl⟩ := Option.map_eq_some_iff.mp h
        have hsound : WrapState.Sound 0 {} := by
          refine ⟨rfl, le_refl _, fun index width hopp => ?_⟩
          cases hopp
        have hend := hsound.wrapLoop
          (fun grapheme subChunks hsub => ih (segmentsInOrder_baseSegments metrics grapheme) hsub)
          hsegments hloop
        exact hend.chunks.append (contiguous_chunkOf hend.start)

end AcademicAgent
