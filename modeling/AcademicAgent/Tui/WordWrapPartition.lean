import AcademicAgent.Tui.GraphemeWidths
import AcademicAgent.Tui.TextEditor

/-!
# Termination and chunks of the word wrap

A segment that is too wide is wrapped again by its graphemes, so the wrap comes to an end
exactly when these fit.
-/

namespace AcademicAgent

open List Option

open AnsiText (TextMetrics visibleWidth isPrintableAscii)

variable {index : Nat} {parts : List JsString} {line s text : JsString}

theorem forall_mem_indexed {P : JsString → Prop} :
    (∀ seg ∈ indexed index parts, P seg.segment) ↔ ∀ part ∈ parts, P part := by
  induction parts generalizing index with
  | nil => exact iff_of_true (fun _ h => nomatch h) fun _ h => nomatch h
  | cons part parts ih => rw [indexed, forall_mem_cons, forall_mem_cons, ih]

def WrapsWithin (metrics : TextMetrics) (maxWidth fuel : Nat) (segment : JsString) : Prop :=
  (wordWrapLine metrics maxWidth fuel segment (baseSegments metrics segment)).isSome

section Termination

variable {metrics : TextMetrics} {maxWidth : Nat}

theorem ne_nil_of_wordWrapLine {fuel : Nat} {segments : List TextSegment} {chunks : List TextChunk}
    (h : wordWrapLine metrics maxWidth fuel line segments = some chunks) : chunks ≠ [] := by
  cases fuel with
  | zero => cases h
  | succ fuel =>
    rw [wordWrapLine] at h
    split_ifs at h
    · cases h
      exact cons_ne_nil _ _
    · cases h
      exact cons_ne_nil _ _
    · obtain ⟨s, -, rfl⟩ := map_eq_some_iff.mp h
      exact append_ne_nil_of_right_ne_nil _ (cons_ne_nil _ _)

theorem isSome_wrapLoop_iff {wrapSegment : JsString → Option (List TextChunk)}
    (hwrap : ∀ grapheme subChunks, wrapSegment grapheme = some subChunks → subChunks ≠ [])
    (segs : List TextSegment) (s : WrapState) :
    (wrapLoop metrics line maxWidth wrapSegment segs s).isSome ↔
      ∀ seg ∈ segs, maxWidth < visibleWidth metrics seg.segment →
        (wrapSegment seg.segment).isSome := by
  induction segs generalizing s with
  | nil => exact iff_of_true rfl fun _ h => by cases h
  | cons seg rest ih =>
    rw [wrapLoop, forall_mem_cons]
    split
    · rename_i hwide
      cases hsub : wrapSegment seg.segment with
      | none => exact iff_of_false Bool.noConfusion fun h => by cases h.1 hwide
      | some subChunks =>
        rw [bind_some, getLast?_eq_getLast_of_ne_nil (hwrap _ _ hsub), bind_some, ih]
        exact ⟨fun h => ⟨fun _ => rfl, h⟩, fun h => h.2⟩
    · rename_i hfits
      rw [ih]
      exact ⟨fun h => ⟨fun hwide => absurd hwide hfits, h⟩, fun h => h.2⟩

theorem isSome_wordWrapLine_succ (fuel : Nat) (line : JsString) (segments : List TextSegment) :
    (wordWrapLine metrics maxWidth (fuel + 1) line segments).isSome ↔
      maxWidth = 0 ∨ visibleWidth metrics line ≤ maxWidth ∨
        ∀ seg ∈ segments, maxWidth < visibleWidth metrics seg.segment →
          WrapsWithin metrics maxWidth fuel seg.segment := by
  rw [wordWrapLine]
  split_ifs with hempty hfits
  · refine iff_of_true rfl ?_
    rcases hempty with rfl | hzero
    · exact .inr (.inl (Nat.zero_le _))
    · exact .inl hzero
  · exact iff_of_true rfl (.inr (.inl hfits))
  · rw [isSome_map, isSome_wrapLoop_iff (fun _ _ => ne_nil_of_wordWrapLine),
      or_iff_right (not_or.mp hempty).2, or_iff_right hfits]
    rfl

theorem wrapsWithin_succ (fuel : Nat) (segment : JsString) :
    WrapsWithin metrics maxWidth (fuel + 1) segment ↔
      maxWidth = 0 ∨ visibleWidth metrics segment ≤ maxWidth ∨
        ∀ grapheme ∈ metrics.segment segment, maxWidth < visibleWidth metrics grapheme →
          WrapsWithin metrics maxWidth fuel grapheme := by
  rw [WrapsWithin, isSome_wordWrapLine_succ, baseSegments,
    forall_mem_indexed (P := fun grapheme => maxWidth < visibleWidth metrics grapheme →
      WrapsWithin metrics maxWidth fuel grapheme)]

variable (hsegment : ∀ s, ∀ grapheme ∈ metrics.segment s, metrics.segment grapheme = [grapheme])
include hsegment

theorem not_wrapsWithin_grapheme (hpos : maxWidth ≠ 0) {grapheme : JsString}
    (hmem : grapheme ∈ metrics.segment s) (hwide : maxWidth < visibleWidth metrics grapheme)
    (fuel : Nat) : ¬ WrapsWithin metrics maxWidth fuel grapheme := by
  induction fuel with
  | zero => exact Bool.noConfusion
  | succ fuel ih =>
    rw [wrapsWithin_succ, hsegment s grapheme hmem, forall_mem_singleton]
    rintro (hzero | hfits | hagain)
    · exact hpos hzero
    · omega
    · exact ih (hagain hwide)

theorem wrapsWithin_iff (hpos : maxWidth ≠ 0) {segment : JsString}
    (hwide : maxWidth < visibleWidth metrics segment) (fuel : Nat) :
    WrapsWithin metrics maxWidth (fuel + 1) segment ↔
      ∀ grapheme ∈ metrics.segment segment, visibleWidth metrics grapheme ≤ maxWidth := by
  rw [wrapsWithin_succ, or_iff_right hpos, or_iff_right (Nat.not_le.mpr hwide)]
  refine forall₂_congr fun grapheme hgrapheme => ⟨fun h => ?_, fun h htooWide => ?_⟩
  · by_contra htooWide
    rw [Nat.not_le] at htooWide
    exact not_wrapsWithin_grapheme hsegment hpos hgrapheme htooWide fuel (h htooWide)
  · exact absurd htooWide (Nat.not_lt.mpr h)

/-- The wrap of a line comes to an end exactly when there is nothing to wrap, or no segment that
is too wide has a grapheme that is too wide. -/
theorem exists_wordWrapLine_iff (line : JsString) (segments : List TextSegment) :
    (∃ fuel, (wordWrapLine metrics maxWidth fuel line segments).isSome) ↔
      maxWidth = 0 ∨ visibleWidth metrics line ≤ maxWidth ∨
        ∀ seg ∈ segments, maxWidth < visibleWidth metrics seg.segment →
          ∀ grapheme ∈ metrics.segment seg.segment, visibleWidth metrics grapheme ≤ maxWidth := by
  by_cases hpos : maxWidth = 0
  · exact iff_of_true ⟨1, (isSome_wordWrapLine_succ 0 line segments).mpr (.inl hpos)⟩ (.inl hpos)
  constructor
  · rintro ⟨fuel, h⟩
    cases fuel with
    | zero => cases h
    | succ fuel =>
      refine ((isSome_wordWrapLine_succ fuel line segments).mp h).imp_right fun h => ?_
      refine h.imp_right fun hsegs seg hseg hwide => ?_
      have hsub := hsegs seg hseg hwide
      cases fuel with
      | zero => cases hsub
      | succ fuel => exact (wrapsWithin_iff hsegment hpos hwide fuel).mp hsub
  · intro h
    refine ⟨2, (isSome_wordWrapLine_succ 1 line segments).mpr ?_⟩
    refine h.imp_right fun h => h.imp_right fun hsegs seg hseg hwide => ?_
    exact (wrapsWithin_iff hsegment hpos hwide 0).mpr (hsegs seg hseg hwide)

end Termination

/-- In a terminal of two columns, of which the cursor takes one, the wrap of an ideograph never
ends. -/
theorem wordWrapLine_forever :
    ¬ ∃ fuel, (wordWrapLine signMetrics (TextEditor.layoutWidth 2 0) fuel [0x4E2D]
      (segmentWithMarkers signMetrics [0x4E2D] [])).isSome := by
  rintro ⟨fuel, h⟩
  have hmem : ([0x4E2D] : JsString) ∈ signMetrics.segment [0x4E2D] := mem_singleton_self _
  have hforever := not_wrapsWithin_grapheme (fun _ _ => signMetrics_measures.segment_grapheme)
    Nat.one_ne_zero hmem (by decide) fuel
  exact hforever h

theorem exists_wordWrapLine_iff_ab : (∃ fuel, (wordWrapLine signMetrics 1 fuel (js "ab")
      (baseSegments signMetrics (js "ab"))).isSome) ↔
      1 = 0 ∨ visibleWidth signMetrics (js "ab") ≤ 1 ∨
        ∀ seg ∈ baseSegments signMetrics (js "ab"), 1 < visibleWidth signMetrics seg.segment →
          ∀ grapheme ∈ signMetrics.segment seg.segment, visibleWidth signMetrics grapheme ≤ 1 :=
  exists_wordWrapLine_iff (fun _ _ => signMetrics_measures.segment_grapheme) (js "ab") _

/-- Groups of graphemes as chunks of a text, the first one at `index`. -/
def groupChunks : Nat → List (List JsString) → List TextChunk
  | _, [] => []
  | index, group :: groups =>
    ⟨group.flatten, index, index + group.flatten.length⟩ ::
      groupChunks (index + group.flatten.length) groups

/-- Segments from `index` on that are graphemes, or runs of them in printable ASCII. -/
def SegmentsCover : Nat → List JsString → List TextSegment → Prop
  | _, graphemes, [] => graphemes = []
  | index, graphemes, seg :: segs =>
    seg.index = index ∧ ∃ own rest, graphemes = own ++ rest ∧ own.flatten = seg.segment ∧
      (own = [seg.segment] ∨ isPrintableAscii seg.segment) ∧
      SegmentsCover (index + seg.segment.length) rest segs

theorem groupChunks_append (index : Nat) (groups groups' : List (List JsString)) :
    groupChunks index (groups ++ groups') =
      groupChunks index groups ++ groupChunks (index + groups.flatten.flatten.length) groups' := by
  induction groups generalizing index with
  | nil => rfl
  | cons group groups ih =>
    rw [cons_append, groupChunks, groupChunks, ih, flatten_cons, flatten_append,
      length_append, Nat.add_assoc, cons_append]

theorem map_shift_groupChunks (shift index : Nat) (groups : List (List JsString)) :
    ((groupChunks index groups).map fun sc : TextChunk =>
      (⟨sc.text, shift + sc.startIndex, shift + sc.endIndex⟩ : TextChunk)) =
      groupChunks (shift + index) groups := by
  induction groups generalizing index with
  | nil => rfl
  | cons group groups ih => rw [groupChunks, map_cons, ih, groupChunks, Nat.add_assoc]

theorem contiguous_groupChunks (index : Nat) (groups : List (List JsString)) :
    Contiguous (index + groups.flatten.flatten.length) index (groupChunks index groups) := by
  induction groups generalizing index with
  | nil => rfl
  | cons group groups ih =>
    refine ⟨rfl, Nat.le_add_right _ _, ?_⟩
    have hrest := ih (index + group.flatten.length)
    rw [flatten_cons, flatten_append, length_append, ← Nat.add_assoc]
    exact hrest

theorem mem_groupChunks {groups : List (List JsString)}
    (hline : line.drop index = groups.flatten.flatten) {chunk : TextChunk}
    (h : chunk ∈ groupChunks index groups) :
    chunk.text = (line.take chunk.endIndex).drop chunk.startIndex ∧
      ∃ group ∈ groups, chunk.text = group.flatten := by
  induction groups generalizing index with
  | nil => cases h
  | cons group groups ih =>
    rw [flatten_cons, flatten_append] at hline
    rcases mem_cons.mp h with rfl | h
    · refine ⟨?_, group, mem_cons_self, rfl⟩
      rw [drop_take, hline, Nat.add_sub_cancel_left, take_left]
    · have hrest : line.drop (index + group.flatten.length) = groups.flatten.flatten := by
        rw [← drop_drop, hline, drop_left]
      obtain ⟨hslice, own, hown, htext⟩ := ih hrest h
      exact ⟨hslice, own, mem_cons_of_mem _ hown, htext⟩

theorem chunkOf_eq {before own after : List JsString}
    (hline : line = (before ++ own ++ after).flatten) :
    chunkOf line before.flatten.length (before ++ own).flatten.length =
      ⟨own.flatten, before.flatten.length, before.flatten.length + own.flatten.length⟩ := by
  have hsplit : line = (before ++ own).flatten ++ after.flatten := by
    rw [hline, flatten_append]
  rw [chunkOf, hsplit, take_left, flatten_append, drop_left, length_append]

/-- What the loop keeps: the graphemes seen so far are those of the chunks, in groups that fit,
and those of the current chunk, and a break opportunity lies between two of these. -/
structure WrapState.Grouped (metrics : TextMetrics) (maxWidth : Nat) (seen : List JsString)
    (s : WrapState) (groups : List (List JsString)) (current : List JsString) : Prop where
  seen_eq : seen = groups.flatten ++ current
  chunks_eq : s.chunks = groupChunks 0 groups
  chunkStart_eq : s.chunkStart = groups.flatten.flatten.length
  width_eq : s.currentWidth = graphemesWidth metrics current
  fits : s.currentWidth ≤ maxWidth
  groups_fit : ∀ group ∈ groups, visibleWidth metrics group.flatten ≤ maxWidth
  opportunity : ∀ index width, s.wrapOpp = some (index, width) → ∃ before after,
    current = before ++ after ∧ index = s.chunkStart + before.flatten.length ∧
      width = graphemesWidth metrics before

section Loop

variable {metrics : TextMetrics} {maxWidth : Nat} {line : JsString} {seen rest : List JsString}
  {s : WrapState} {groups : List (List JsString)} {current : List JsString}

theorem WrapState.Grouped.close (hm : metrics.Measures)
    (hline : metrics.segment line = seen ++ rest)
    (h : s.Grouped metrics maxWidth seen groups current) {own after : List JsString}
    (hcurrent : current = own ++ after) : WrapState.Grouped metrics maxWidth seen
      { chunks := s.chunks ++ [chunkOf line s.chunkStart (s.chunkStart + own.flatten.length)]
        chunkStart := s.chunkStart + own.flatten.length
        currentWidth := graphemesWidth metrics after } (groups ++ [own]) after := by
  have hwhole : line = (groups.flatten ++ own ++ (after ++ rest)).flatten := by
    rw [← metrics.flatten_segment line, hline, h.seen_eq, hcurrent]
    simp only [append_assoc]
  have hwidth := h.width_eq
  have hfits := h.fits
  rw [hcurrent, graphemesWidth_append] at hwidth
  refine ⟨?_, ?_, ?_, rfl, by dsimp only; omega, ?_, fun _ _ hopp => by cases hopp⟩
  · rw [h.seen_eq, hcurrent, flatten_append, flatten_singleton, append_assoc]
  · have hchunk := chunkOf_eq hwhole
    rw [flatten_append, length_append] at hchunk
    rw [h.chunkStart_eq, hchunk, h.chunks_eq, groupChunks_append, Nat.zero_add]
    rfl
  · dsimp only
    rw [h.chunkStart_eq, flatten_append, flatten_singleton, flatten_append, length_append]
  · rw [forall_mem_append, forall_mem_singleton]
    refine ⟨h.groups_fit, ?_⟩
    have hrun : own <:+: metrics.segment line :=
      ⟨groups.flatten, after ++ rest, by
        rw [hline, h.seen_eq, hcurrent]
        simp only [append_assoc]⟩
    have hle := hm.visibleWidth_run_le hrun
    omega

theorem WrapState.Grouped.checkOverflow (hm : metrics.Measures)
    (hline : metrics.segment line = seen ++ rest)
    (h : s.Grouped metrics maxWidth seen groups current) (gWidth : Nat) :
    ∃ groups' current', (AcademicAgent.checkOverflow line maxWidth s gWidth
        seen.flatten.length).Grouped metrics maxWidth seen groups' current' ∧
      (gWidth ≤ maxWidth → (AcademicAgent.checkOverflow line maxWidth s gWidth
        seen.flatten.length).currentWidth + gWidth ≤ maxWidth) ∧
      (maxWidth < gWidth → current' = []) := by
  have hwidth := h.width_eq
  have hlength : seen.flatten.length = s.chunkStart + current.flatten.length := by
    rw [h.seen_eq, flatten_append, length_append, h.chunkStart_eq]
  have hforced : ∃ groups' current', (if s.chunkStart < seen.flatten.length then
      { chunks := s.chunks ++ [chunkOf line s.chunkStart seen.flatten.length]
        chunkStart := seen.flatten.length }
      else { s with wrapOpp := none } : WrapState).Grouped metrics maxWidth seen groups' current' ∧
      (if s.chunkStart < seen.flatten.length then
      { chunks := s.chunks ++ [chunkOf line s.chunkStart seen.flatten.length]
        chunkStart := seen.flatten.length }
      else { s with wrapOpp := none } : WrapState).currentWidth = 0 ∧ current' = [] := by
    split
    · refine ⟨groups ++ [current], [], ?_, rfl, rfl⟩
      have hwhole : current = current ++ [] := (append_nil _).symm
      have hclosed := h.close hm hline hwhole
      rw [← hlength] at hclosed
      exact hclosed
    · rename_i hnothing
      have hempty : current = [] := by
        cases current with
        | nil => rfl
        | cons g gs =>
          have hg : g ∈ metrics.segment line := by
            rw [hline, h.seen_eq]
            simp
          have hpos := length_pos_iff.mpr (hm.grapheme_ne_nil hg)
          rw [flatten_cons, length_append] at hlength
          omega
      subst hempty
      refine ⟨groups, [], ⟨h.seen_eq, h.chunks_eq, h.chunkStart_eq, h.width_eq, h.fits,
        h.groups_fit, fun _ _ hopp => by cases hopp⟩, hwidth, rfl⟩
  unfold AcademicAgent.checkOverflow
  dsimp only
  split
  · split
    · rename_i index width hopp
      obtain ⟨before, after, hcurrent, hindex, hbefore⟩ := h.opportunity index width hopp
      have hsum := hwidth
      rw [hcurrent, graphemesWidth_append] at hsum
      split
      · rename_i hfits
        have hclosed := h.close hm hline hcurrent
        rw [← hindex, show graphemesWidth metrics after = s.currentWidth - width by omega]
          at hclosed
        refine ⟨groups ++ [before], after, hclosed, ?_, ?_⟩
        · dsimp only
          omega
        · omega
      · obtain ⟨groups', current', hgrouped, hzero, hnil⟩ := hforced
        refine ⟨groups', current', hgrouped, ?_, fun _ => hnil⟩
        rw [hzero, Nat.zero_add]
        exact id
    · obtain ⟨groups', current', hgrouped, hzero, hnil⟩ := hforced
      refine ⟨groups', current', hgrouped, ?_, fun _ => hnil⟩
      rw [hzero, Nat.zero_add]
      exact id
  · refine ⟨groups, current, h, ?_, ?_⟩
    · omega
    · omega

theorem WrapState.Grouped.advance (h : s.Grouped metrics maxWidth seen groups current)
    {own : List JsString} {gWidth : Nat} (hown : graphemesWidth metrics own = gWidth)
    (hfits : s.currentWidth + gWidth ≤ maxWidth) {opp : Option (Nat × Nat)}
    (hopp : opp = s.wrapOpp ∨ opp = some ((seen ++ own).flatten.length, s.currentWidth + gWidth)) :
    WrapState.Grouped metrics maxWidth (seen ++ own)
      { s with currentWidth := s.currentWidth + gWidth, wrapOpp := opp } groups
      (current ++ own) := by
  refine ⟨?_, h.chunks_eq, h.chunkStart_eq, ?_, hfits, h.groups_fit, fun index width hsome => ?_⟩
  · rw [h.seen_eq, append_assoc]
  · dsimp only
    rw [graphemesWidth_append, h.width_eq, hown]
  · dsimp only at hsome ⊢
    rcases hopp with rfl | rfl
    · obtain ⟨before, after, hcurrent, hindex, hwidth⟩ := h.opportunity index width hsome
      exact ⟨before, after ++ own, by rw [hcurrent, append_assoc], hindex, hwidth⟩
    · obtain ⟨rfl, rfl⟩ := Prod.mk.inj (some.inj hsome)
      refine ⟨current ++ own, [], (append_nil _).symm, ?_, ?_⟩
      · rw [h.seen_eq, h.chunkStart_eq, append_assoc, flatten_append, length_append]
      · rw [graphemesWidth_append, h.width_eq, hown]

theorem WrapState.Grouped.wrapped (h : s.Grouped metrics maxWidth seen groups [])
    {init : List (List JsString)} {last : List JsString}
    (hinit : ∀ group ∈ init, visibleWidth metrics group.flatten ≤ maxWidth)
    (hlast : visibleWidth metrics last.flatten ≤ maxWidth)
    (hwidth : graphemesWidth metrics last = visibleWidth metrics last.flatten) :
    WrapState.Grouped metrics maxWidth (seen ++ (init ++ [last]).flatten)
      { chunks := s.chunks ++ groupChunks seen.flatten.length init
        chunkStart := seen.flatten.length + init.flatten.flatten.length
        currentWidth := visibleWidth metrics last.flatten } (groups ++ init) last := by
  have hseen : seen = groups.flatten := by rw [h.seen_eq, append_nil]
  refine ⟨?_, ?_, ?_, hwidth.symm, hlast, ?_, fun _ _ hopp => by cases hopp⟩
  · rw [hseen, flatten_append, flatten_append, flatten_singleton, append_assoc]
  · dsimp only
    rw [h.chunks_eq, hseen, groupChunks_append, Nat.zero_add]
  · dsimp only
    rw [hseen, flatten_append, flatten_append, length_append]
  · rw [forall_mem_append]
    exact ⟨h.groups_fit, hinit⟩

theorem nextWrapOpp_eq (seg : TextSegment) (segs : List TextSegment) (width : Nat)
    (opp : Option (Nat × Nat)) : nextWrapOpp seg segs width opp = opp ∨
      ∃ next ∈ segs.head?, nextWrapOpp seg segs width opp = some (next.index, width) := by
  unfold nextWrapOpp
  split
  · split
    · exact .inr ⟨_, rfl, rfl⟩
    · exact .inl rfl
  · exact .inl rfl

/-- The graphemes of a text in groups that fit, as chunks. -/
def FitsInGroups (metrics : TextMetrics) (maxWidth : Nat) (line : JsString)
    (chunks : List TextChunk) : Prop :=
  ∃ groups : List (List JsString), groups ≠ [] ∧ groups.flatten = metrics.segment line ∧
    chunks = groupChunks 0 groups ∧
    ∀ group ∈ groups, visibleWidth metrics group.flatten ≤ maxWidth

theorem WrapState.Grouped.wrapLoop (hm : metrics.Measures)
    {wrapSegment : JsString → Option (List TextChunk)}
    (hwrap : ∀ segment subChunks, isPrintableAscii segment →
      (∀ grapheme ∈ metrics.segment segment, visibleWidth metrics grapheme ≤ maxWidth) →
      wrapSegment segment = some subChunks → FitsInGroups metrics maxWidth segment subChunks)
    (hgraphemes : ∀ grapheme ∈ metrics.segment line, visibleWidth metrics grapheme ≤ maxWidth)
    {segs : List TextSegment} {t : WrapState} (hline : metrics.segment line = seen ++ rest)
    (h : s.Grouped metrics maxWidth seen groups current)
    (hcover : SegmentsCover seen.flatten.length rest segs)
    (hloop : AcademicAgent.wrapLoop metrics line maxWidth wrapSegment segs s = some t) :
    ∃ groups' current', t.Grouped metrics maxWidth (metrics.segment line) groups' current' := by
  induction segs generalizing s seen rest groups current with
  | nil =>
    cases hloop
    obtain rfl : rest = [] := hcover
    rw [hline, append_nil]
    exact ⟨groups, current, h⟩
  | cons seg segs ih =>
    obtain ⟨hindex, own, rest', rfl, hown, hkind, hrest⟩ := hcover
    have hownWidth : graphemesWidth metrics own = visibleWidth metrics seg.segment :=
      graphemesWidth_own hown hkind
    have hseen : (seen ++ own).flatten.length = seen.flatten.length + seg.segment.length := by
      rw [flatten_append, length_append, hown]
    rw [← hseen] at hrest
    have hline' : metrics.segment line = (seen ++ own) ++ rest' := by
      rw [hline, append_assoc]
    obtain ⟨groups', current', hchecked, hfits, hnothing⟩ :=
      h.checkOverflow hm hline (visibleWidth metrics seg.segment)
    rw [AcademicAgent.wrapLoop, hindex] at hloop
    generalize AcademicAgent.checkOverflow line maxWidth s (visibleWidth metrics seg.segment)
      seen.flatten.length = s' at hchecked hfits hloop
    split at hloop
    · rename_i hwide
      obtain ⟨subChunks, hsub, hloop⟩ := bind_eq_some_iff.mp hloop
      obtain ⟨last, hlast, hloop⟩ := bind_eq_some_iff.mp hloop
      have hmem : ∀ grapheme ∈ own, grapheme ∈ metrics.segment line := fun grapheme hg => by
        rw [hline']
        exact mem_append_left _ (mem_append_right _ hg)
      have hascii : isPrintableAscii seg.segment := by
        rcases hkind with rfl | hascii
        · have hle := hgraphemes _ (hmem _ (mem_singleton_self _))
          omega
        · exact hascii
      have hsegment : metrics.segment seg.segment = own := by
        rw [← hown]
        exact hm.segment_run line own ⟨seen, rest', hline'.symm⟩
      have hsubFits := hwrap _ _ hascii
        (fun grapheme hg => hgraphemes _ (hmem _ (hsegment ▸ hg))) hsub
      obtain ⟨subGroups, hne, hflatten, rfl, hsubGroups⟩ := hsubFits
      obtain ⟨init, group, rfl⟩ : ∃ init group, subGroups = init ++ [group] :=
        ⟨_, _, (dropLast_append_getLast hne).symm⟩
      rw [groupChunks_append, Nat.zero_add] at hlast hloop
      obtain rfl : _ = last := some.inj (getLast?_concat.symm.trans hlast)
      rw [groupChunks, groupChunks, dropLast_concat, map_shift_groupChunks, Nat.add_zero] at hloop
      obtain ⟨hinit, hgroup⟩ := forall_mem_append.mp hsubGroups
      obtain rfl := hnothing hwide
      rw [← hsegment, ← hflatten] at hline' hrest
      have hlastAscii : isPrintableAscii group.flatten := by
        rw [← hown, ← hsegment, ← hflatten, flatten_append, flatten_append,
          isPrintableAscii, all_append, Bool.and_eq_true] at hascii
        rw [isPrintableAscii, ← hascii.2, flatten_singleton]
      refine ih hline' (hchecked.wrapped hinit (hgroup group (mem_singleton_self _)) ?_) hrest hloop
      rw [graphemesWidth_of_printable hlastAscii, visibleWidth_of_printable hlastAscii]
    · rename_i hnarrow
      have hnext := nextWrapOpp_eq seg segs (s'.currentWidth + visibleWidth metrics seg.segment)
        s'.wrapOpp
      refine ih hline' (hchecked.advance hownWidth (hfits (Nat.not_lt.mp hnarrow)) ?_) hrest hloop
      refine hnext.imp_right fun hfound => ?_
      obtain ⟨next, hnext, heq⟩ := hfound
      cases segs with
      | nil => cases hnext
      | cons first segs =>
        obtain rfl := some.inj hnext
        rw [heq, hrest.1]

theorem segmentsCover_indexed (index : Nat) (parts : List JsString) :
    SegmentsCover index parts (indexed index parts) := by
  induction parts generalizing index with
  | nil => rfl
  | cons part parts ih =>
    exact ⟨rfl, [part], parts, rfl, flatten_singleton, .inl rfl, ih _⟩

theorem fitsInGroups_wordWrapLine (hm : metrics.Measures) (hpos : 0 < maxWidth) {fuel : Nat}
    {segments : List TextSegment} {chunks : List TextChunk}
    (hcover : SegmentsCover 0 (metrics.segment line) segments)
    (hgraphemes : ∀ grapheme ∈ metrics.segment line, visibleWidth metrics grapheme ≤ maxWidth)
    (h : wordWrapLine metrics maxWidth fuel line segments = some chunks) :
    FitsInGroups metrics maxWidth line chunks := by
  induction fuel generalizing line segments chunks with
  | zero => cases h
  | succ fuel ih =>
    rw [wordWrapLine] at h
    split_ifs at h with hempty hfits
    · cases h
      obtain rfl := hempty.resolve_right (by omega)
      refine ⟨[[]], cons_ne_nil _ _, hm.segment_nil.symm, rfl, ?_⟩
      exact forall_mem_singleton.mpr (Nat.zero_le _)
    · cases h
      have hline := metrics.flatten_segment line
      refine ⟨[metrics.segment line], cons_ne_nil _ _, flatten_singleton, ?_, ?_⟩
      · rw [groupChunks, groupChunks, hline, Nat.zero_add]
      · rw [forall_mem_singleton, hline]
        exact hfits
    · obtain ⟨s, hloop, rfl⟩ := map_eq_some_iff.mp h
      have hstart : WrapState.Grouped metrics maxWidth [] {} [] [] :=
        ⟨rfl, rfl, rfl, rfl, Nat.zero_le _, fun _ h => absurd h not_mem_nil,
          fun _ _ hopp => by cases hopp⟩
      obtain ⟨groups, current, hend⟩ := hstart.wrapLoop hm (fun segment subChunks _ hfit hsub =>
          ih (segmentsCover_indexed 0 _) hfit hsub) hgraphemes rfl hcover hloop
      have hclosed := hend.close hm (append_nil _).symm (append_nil current).symm
      refine ⟨groups ++ [current], by simp, ?_, ?_, hclosed.groups_fit⟩
      · have hseen := hclosed.seen_eq
        rw [append_nil] at hseen
        exact hseen.symm
      · have hlength : s.chunkStart + current.flatten.length = line.length := by
          rw [← metrics.flatten_segment line, hend.seen_eq, hend.chunkStart_eq,
            flatten_append, length_append]
        have hchunks := hclosed.chunks_eq
        rwa [hlength] at hchunks

end Loop

theorem isPrintableAscii_append (s t : JsString) :
    isPrintableAscii (s ++ t) = (isPrintableAscii s && isPrintableAscii t) := all_append

theorem isPrintableAscii_digits {digits : JsString} (h : ∀ c ∈ digits, isDigit c = true) :
    isPrintableAscii digits := by
  refine all_eq_true.mpr fun c hc => ?_
  have hdigit := h c hc
  rw [isDigit, Bool.and_eq_true, decide_eq_true_iff, decide_eq_true_iff] at hdigit
  rw [Bool.and_eq_true, decide_eq_true_iff, decide_eq_true_iff]
  exact ⟨UInt16.le_trans (show (0x20 : CodeUnit) ≤ 0x30 by decide) hdigit.1,
    UInt16.le_trans hdigit.2 (show (0x39 : CodeUnit) ≤ 0x7E by decide)⟩

theorem isPrintableAscii_digitsThen {literal : JsString} {n : Nat}
    (hliteral : isPrintableAscii literal) (h : digitsThen literal s = some n) :
    isPrintableAscii (s.take n) := by
  obtain ⟨digits, -, hdigits, hprefix, rfl⟩ := digitsThen_eq_some h
  rw [← prefix_iff_eq_take.mp hprefix, isPrintableAscii_append,
    isPrintableAscii_digits hdigits, hliteral]
  rfl

theorem take_add_of_prefix {literal : JsString} (h : literal <+: s) (n : Nat) :
    s.take (literal.length + n) = literal ++ (s.drop literal.length).take n := by
  obtain ⟨rest, rfl⟩ := h
  rw [take_length_add_append, drop_left]

theorem isPrintableAscii_markerEnding {rest : JsString} {n : Nat}
    (h : markerEnding rest = some n) : isPrintableAscii (rest.take n) := by
  unfold markerEnding at h
  split_ifs at h with hclose hlines hchars
  · cases h
    have htake := take_add_of_prefix hclose 0
    rw [take_zero] at htake
    rw [show 1 = (js "]").length + 0 by decide, htake]
    decide
  · obtain ⟨m, hm, rfl⟩ := map_eq_some_iff.mp h
    have htake := take_add_of_prefix hlines m
    have hdigits := isPrintableAscii_digitsThen (by decide) hm
    rw [show (js " +").length = 2 by decide] at htake
    rw [htake, isPrintableAscii_append, hdigits]
    decide
  · obtain ⟨m, hm, rfl⟩ := map_eq_some_iff.mp h
    have htake := take_add_of_prefix hchars m
    have hdigits := isPrintableAscii_digitsThen (by decide) hm
    rw [show (js " ").length = 1 by decide] at htake
    rw [htake, isPrintableAscii_append, hdigits]
    decide

theorem isPrintableAscii_markerAt {id n : Nat} (h : markerAt s = some (id, n)) :
    isPrintableAscii (s.take n) := by
  simp only [markerAt] at h
  split_ifs at h with hopening
  obtain ⟨m, hm, hpair⟩ := map_eq_some_iff.mp h
  obtain ⟨-, rfl⟩ := Prod.mk.inj hpair
  have hending := isPrintableAscii_markerEnding hm
  have hdigits : ((s.drop (js "[paste #").length).takeWhile isDigit) <+:
      s.drop (js "[paste #").length := takeWhile_prefix _
  rw [Nat.add_assoc, take_add_of_prefix hopening.1, take_add_of_prefix hdigits, drop_drop,
    isPrintableAscii_append, isPrintableAscii_append, hending,
    isPrintableAscii_digits fun c hc => mem_takeWhile_imp hc]
  decide

theorem markerSpans_spec (validIds : List Nat) (skip : Nat) (hs : text.drop index = s) :
    (markerSpans validIds skip index s).Pairwise (fun m m' => m.2 ≤ m'.1) ∧
      ∀ m ∈ markerSpans validIds skip index s, index + skip ≤ m.1 ∧ m.1 < m.2 ∧
        isPrintableAscii ((text.take m.2).drop m.1) := by
  induction s generalizing skip index with
  | nil => exact ⟨.nil, fun _ h => nomatch h⟩
  | cons c cs ih =>
    have hcs : text.drop (index + 1) = cs := by rw [← drop_drop, hs]; rfl
    cases skip with
    | succ skip =>
      rw [markerSpans]
      obtain ⟨hpairwise, hspans⟩ := ih skip hcs
      refine ⟨hpairwise, fun m hm => ?_⟩
      obtain ⟨hlow, hrest⟩ := hspans m hm
      exact ⟨by omega, hrest⟩
    | zero =>
      rw [markerSpans]
      split
      · rename_i id length hmarker
        obtain ⟨hpairwise, hspans⟩ := ih (length - 1) hcs
        obtain ⟨hpos, -⟩ := markerAt_length hmarker
        have hascii := isPrintableAscii_markerAt hmarker
        rw [← hs] at hascii
        refine ⟨pairwise_append.mpr ⟨?_, hpairwise, ?_⟩, fun m hm => ?_⟩
        · split
          · exact pairwise_singleton _ _
          · exact .nil
        · intro m hm m' hm'
          obtain ⟨hlow, -⟩ := hspans m' hm'
          split at hm
          · rw [mem_singleton.mp hm]
            omega
          · cases hm
        · rcases mem_append.mp hm with hm | hm
          · split at hm
            · rw [mem_singleton.mp hm]
              rw [drop_take, Nat.add_sub_cancel_left]
              exact ⟨by omega, by omega, hascii⟩
            · cases hm
          · obtain ⟨hlow, hrest⟩ := hspans m hm
            exact ⟨by omega, hrest⟩
      · obtain ⟨hpairwise, hspans⟩ := ih 0 hcs
        refine ⟨hpairwise, fun m hm => ?_⟩
        obtain ⟨hlow, hrest⟩ := hspans m hm
        exact ⟨by omega, hrest⟩

def BetweenParts (parts : List JsString) (place : Nat) : Prop :=
  ∃ before after, parts = before ++ after ∧ before.flatten.length = place

theorem BetweenParts.drop {before after : List JsString} {place : Nat}
    (hne : ∀ part ∈ before, part ≠ []) (h : BetweenParts (before ++ after) place)
    (hplace : before.flatten.length ≤ place) :
    BetweenParts after (place - before.flatten.length) := by
  obtain ⟨first, last, hsplit, rfl⟩ := h
  rcases append_eq_append_iff.mp hsplit with ⟨more, rfl, rfl⟩ | ⟨more, rfl, rfl⟩
  · refine ⟨more, last, rfl, ?_⟩
    rw [flatten_append, length_append, Nat.add_sub_cancel_left]
  · cases more with
    | nil =>
      rw [append_nil]
      exact ⟨[], after, rfl, by rw [Nat.sub_self]; rfl⟩
    | cons part more =>
      have hpos := length_pos_iff.mpr (hne part (by simp))
      rw [flatten_append, flatten_cons, length_append, length_append] at hplace
      omega

theorem BetweenParts.length_le {part : JsString} {place : Nat}
    (h : BetweenParts (part :: parts) place) (hpos : 0 < place) : part.length ≤ place := by
  obtain ⟨before, after, hsplit, rfl⟩ := h
  cases before with
  | nil => cases hpos
  | cons first before =>
    obtain ⟨rfl, -⟩ := List.cons.inj hsplit
    rw [flatten_cons, length_append]
    omega

theorem mergeSegments_inside {marker : Nat × Nat} {markers : List (Nat × Nat)}
    {inside after : List JsString} (hne : ∀ part ∈ inside, part ≠ []) (hstart : marker.1 < index)
    (hend : index + inside.flatten.length = marker.2) :
    mergeSegments text (marker :: markers) (indexed index (inside ++ after)) =
      mergeSegments text (marker :: markers) (indexed marker.2 after) := by
  induction inside generalizing index with
  | nil =>
    rw [← hend]
    rfl
  | cons part inside ih =>
    obtain ⟨hpart, hinside⟩ := forall_mem_cons.mp hne
    have hpos := length_pos_iff.mpr hpart
    rw [flatten_cons, length_append, ← Nat.add_assoc] at hend
    have hnotEnded : ¬ marker.2 ≤ index := by omega
    rw [cons_append, indexed, mergeSegments, dropWhile_cons, if_neg (by simpa using hnotEnded)]
    dsimp only
    rw [if_pos (Nat.le_of_lt hstart), if_neg (by omega), nil_append]
    exact ih hinside (by omega) hend

theorem segmentsCover_mergeSegments {markers : List (Nat × Nat)} (hne : ∀ part ∈ parts, part ≠ [])
    (htext : text.drop index = parts.flatten) (hdisjoint : markers.Pairwise fun m m' => m.2 ≤ m'.1)
    (hspans : ∀ m ∈ markers, m.1 < m.2 ∧ isPrintableAscii ((text.take m.2).drop m.1))
    (hbetween : ∀ m ∈ markers, index < m.2 → index ≤ m.1 ∧ BetweenParts parts (m.1 - index) ∧ BetweenParts parts (m.2 - index))
    : SegmentsCover index parts (mergeSegments text markers (indexed index parts)) := by
  induction hlength : parts.length using Nat.strong_induction_on generalizing parts index markers
    with
  | _ n ih =>
    subst hlength
    cases parts with
    | nil => rfl
    | cons part parts =>
      obtain ⟨hpart, hparts⟩ := forall_mem_cons.mp hne
      have hpos := length_pos_iff.mpr hpart
      have hnext : text.drop (index + part.length) = parts.flatten := by
        rw [← drop_drop, htext, flatten_cons, drop_left]
      have hsublist : (markers.dropWhile fun m => decide (m.2 ≤ index)).Sublist markers :=
        dropWhile_sublist _
      have hdisjoint' := hdisjoint.sublist hsublist
      rw [indexed, mergeSegments]
      cases hmarkers : markers.dropWhile fun m => decide (m.2 ≤ index) with
      | nil =>
        refine ⟨rfl, [part], parts, rfl, flatten_singleton, .inl rfl, ?_⟩
        exact ih _ (Nat.lt_succ_self _) hparts hnext .nil (fun _ h => by cases h)
          (fun _ h => by cases h) rfl
      | cons m ms =>
        rw [hmarkers] at hsublist hdisjoint'
        have hm := hsublist.mem mem_cons_self
        have hahead : ¬ m.2 ≤ index := by
          have hhead := head_dropWhile_not (fun m : Nat × Nat => decide (m.2 ≤ index))
            (l := markers) (by rw [hmarkers]; exact cons_ne_nil _ _)
          simp only [hmarkers, head_cons] at hhead
          exact of_decide_eq_false hhead
        obtain ⟨hlow, hstart, hend⟩ := hbetween m hm (Nat.not_le.mp hahead)
        obtain ⟨hspan, hascii⟩ := hspans m hm
        have hlater : ∀ m' ∈ ms, m.2 ≤ m'.1 := (pairwise_cons.mp hdisjoint').1
        dsimp only
        by_cases hfirst : index = m.1
        · obtain ⟨inside, after, hsplit, hinside⟩ := hend
          have hspanned : index + inside.flatten.length = m.2 := by omega
          have hinsideNe : ∀ p ∈ inside, p ≠ [] := fun p hp =>
            hne p (hsplit ▸ mem_append_left _ hp)
          have hslice : inside.flatten = (text.take m.2).drop m.1 := by
            rw [← hfirst, drop_take, htext, hsplit, flatten_append, ← hinside, take_left]
          have hafter : text.drop m.2 = after.flatten := by
            rw [← hspanned, ← drop_drop, htext, hsplit, flatten_append, drop_left]
          rw [if_pos hfirst.symm.le, if_pos hfirst, singleton_append]
          refine ⟨hfirst.symm, inside, after, hsplit, hslice, .inr hascii, ?_⟩
          dsimp only
          rw [← hslice, hspanned]
          cases inside with
          | nil =>
            rw [flatten_nil, length_nil] at hspanned
            omega
          | cons first inside =>
            rw [cons_append] at hsplit
            obtain ⟨rfl, rfl⟩ := List.cons.inj hsplit
            rw [flatten_cons, length_append, ← Nat.add_assoc] at hspanned
            rw [mergeSegments_inside (forall_mem_cons.mp hinsideNe).2 (by omega) hspanned]
            refine ih _ ?_ (fun p hp => hparts p (mem_append_right _ hp)) hafter hdisjoint'
              (fun m' hm' => hspans m' (hsublist.mem hm')) (fun m' hm' hlt => ?_) rfl
            · rw [length_cons, length_append]
              omega
            · have hlater' : m.2 ≤ m'.1 := by
                rcases mem_cons.mp hm' with rfl | hm'
                · omega
                · exact hlater m' hm'
              obtain ⟨-, hstart', hend'⟩ := hbetween m' (hsublist.mem hm') (by omega)
              have hdrop : ∀ place, m.2 ≤ place →
                  BetweenParts (part :: (inside ++ after)) (place - index) →
                  BetweenParts after (place - m.2) := fun place hplace h => by
                have hbehind := BetweenParts.drop hinsideNe h (by omega)
                rwa [hinside, show place - index - (m.2 - index) = place - m.2 by omega] at hbehind
              exact ⟨hlater', hdrop _ hlater' hstart', hdrop _ (by omega) hend'⟩
        · rw [if_neg (by omega)]
          refine ⟨rfl, [part], parts, rfl, flatten_singleton, .inl rfl, ?_⟩
          refine ih _ (Nat.lt_succ_self _) hparts hnext hdisjoint'
            (fun m' hm' => hspans m' (hsublist.mem hm')) (fun m' hm' hlt => ?_) rfl
          obtain ⟨hlow', hstart', hend'⟩ := hbetween m' (hsublist.mem hm') (by omega)
          have hbehind : index < m'.1 := by
            rcases mem_cons.mp hm' with rfl | hm'
            · omega
            · have hle := hlater m' hm'
              omega
          have hdrop : ∀ place, index < place → BetweenParts (part :: parts) (place - index) →
              index + part.length ≤ place ∧ BetweenParts parts (place - (index + part.length)) :=
            fun place hplace h => by
              have hle := h.length_le (by omega)
              have hbehindPart : BetweenParts ([part] ++ parts) (place - index) := h
              have hrest := hbehindPart.drop (forall_mem_singleton.mpr hpart)
                (by rwa [flatten_singleton])
              rw [flatten_singleton, Nat.sub_sub] at hrest
              exact ⟨by omega, hrest⟩
          have hspan' := (hspans m' (hsublist.mem hm')).1
          exact ⟨(hdrop _ hbehind hstart').1, (hdrop _ hbehind hstart').2,
            (hdrop _ (by omega) hend').2⟩

/-- The markers of a text begin and end between graphemes. -/
def MarkersAligned (metrics : TextMetrics) (text : JsString) (validIds : List Nat) : Prop :=
  ∀ m ∈ markerSpans validIds 0 0 text,
    BetweenParts (metrics.segment text) m.1 ∧ BetweenParts (metrics.segment text) m.2

theorem segmentsCover_segmentWithMarkers {metrics : TextMetrics} (hm : metrics.Measures)
    {validIds : List Nat} (haligned : MarkersAligned metrics text validIds) :
    SegmentsCover 0 (metrics.segment text) (segmentWithMarkers metrics text validIds) := by
  have hbase : SegmentsCover 0 (metrics.segment text) (baseSegments metrics text) :=
    segmentsCover_indexed 0 _
  unfold segmentWithMarkers
  dsimp only
  split_ifs with hfast hnone
  · exact hbase
  · exact hbase
  · obtain ⟨hdisjoint, hspans⟩ :=
      markerSpans_spec validIds 0 (show text.drop 0 = text from rfl)
    refine segmentsCover_mergeSegments (fun _ => hm.grapheme_ne_nil)
      (metrics.flatten_segment text).symm hdisjoint (fun m h => (hspans m h).2) fun m h _ => ?_
    exact ⟨Nat.zero_le _, haligned m h⟩

theorem segment_subset_of_cover {metrics : TextMetrics} (hm : metrics.Measures)
    {before graphemes : List JsString} {segs : List TextSegment}
    (htext : metrics.segment text = before ++ graphemes)
    (hcover : SegmentsCover index graphemes segs) :
    ∀ seg ∈ segs, metrics.segment seg.segment ⊆ metrics.segment text := by
  induction segs generalizing index before graphemes with
  | nil => exact fun _ h => nomatch h
  | cons seg segs ih =>
    obtain ⟨-, own, rest, rfl, hown, -, hrest⟩ := hcover
    rw [← append_assoc] at htext
    refine forall_mem_cons.mpr ⟨?_, ih htext hrest⟩
    rw [← hown, hm.segment_run text own ⟨before, rest, htext.symm⟩, htext]
    exact fun grapheme h => mem_append_left _ (mem_append_right _ h)

/-- When a line is as wide as each grapheme, the wrap comes to an end, and its chunks follow each
other from the start of the line to its end, are the slices of the line, and fit. -/
def PartitionsLine (metrics : TextMetrics) (maxWidth : Nat) (line : JsString)
    (validIds : List Nat) : Prop :=
  (∀ grapheme ∈ metrics.segment line, visibleWidth metrics grapheme ≤ maxWidth) →
    (∃ fuel, (wordWrapLine metrics maxWidth fuel line
      (segmentWithMarkers metrics line validIds)).isSome) ∧
    ∀ fuel chunks, wordWrapLine metrics maxWidth fuel line
        (segmentWithMarkers metrics line validIds) = some chunks →
      chunks ≠ [] ∧ Contiguous line.length 0 chunks ∧ ∀ chunk ∈ chunks,
        chunk.text = (line.take chunk.endIndex).drop chunk.startIndex ∧
        visibleWidth metrics chunk.text ≤ maxWidth

/-- The wrap partitions a line whose markers begin and end between graphemes. -/
theorem wordWrapLine_partitions {metrics : TextMetrics} (hm : metrics.Measures) {maxWidth : Nat}
    (hpos : 0 < maxWidth) (line : JsString) (validIds : List Nat)
    (haligned : MarkersAligned metrics line validIds) :
    PartitionsLine metrics maxWidth line validIds := by
  intro hgraphemes
  have hcover := segmentsCover_segmentWithMarkers hm haligned
  refine ⟨⟨2, ?_⟩, fun fuel chunks h => ?_⟩
  · refine (isSome_wordWrapLine_succ 1 _ _).mpr (.inr (.inr fun seg hseg hwide => ?_))
    refine (wrapsWithin_iff (fun _ _ => hm.segment_grapheme) (by omega) hwide 0).mpr ?_
    intro grapheme hgrapheme
    exact hgraphemes grapheme (segment_subset_of_cover hm (nil_append _).symm hcover seg hseg
      hgrapheme)
  · obtain ⟨groups, hne, hflatten, rfl, hfit⟩ :=
      fitsInGroups_wordWrapLine hm hpos hcover hgraphemes h
    have hline : line.drop 0 = groups.flatten.flatten := by
      rw [hflatten, metrics.flatten_segment]
      rfl
    refine ⟨ne_nil_of_wordWrapLine h, ?_, fun chunk hchunk => ?_⟩
    · have hcontiguous := contiguous_groupChunks 0 groups
      rwa [← hline, Nat.zero_add] at hcontiguous
    · obtain ⟨hslice, group, hgroup, htext⟩ := mem_groupChunks hline hchunk
      exact ⟨hslice, htext ▸ hfit group hgroup⟩

def signMarker : JsString := 0x0600 :: js "[paste #1]"

theorem segmentWithMarkers_signMarker :
    segmentWithMarkers signMetrics signMarker [1] = [⟨[0x0600, 0x5B], 0⟩] := by
  have hinfix : js "[paste #" <:+: signMarker := ⟨[0x0600], js "1]", by decide⟩
  have hspans : markerSpans [1] 0 0 signMarker = [(1, 11)] := by decide
  rw [segmentWithMarkers, if_neg (not_or.mpr ⟨cons_ne_nil _ _, not_not.mpr hinfix⟩), hspans]
  decide

/-- With no width, the chunk of a line of no width is empty; and behind a number sign the segments
of a marker are lost, so that the chunk is too wide. -/
theorem wordWrapLine_not_partition :
    ¬ PartitionsLine signMetrics 0 [0x200B] [] ∧ ¬ PartitionsLine signMetrics 5 signMarker [1] := by
  refine ⟨fun h => ?_, fun h => ?_⟩
  · obtain ⟨-, hends, -⟩ := (h (by decide)).2 1 [⟨[], 0, 0⟩] rfl
    have hend : 0 = 1 := hends.2.2
    cases hend
  · have hchunks := (h (by decide)).2 1 [⟨signMarker, 0, 11⟩]
    rw [segmentWithMarkers_signMarker] at hchunks
    obtain ⟨-, -, hfit⟩ := hchunks (by decide)
    have hwide := (hfit _ (mem_singleton_self _)).2
    revert hwide
    decide

theorem wordWrapLine_partitions_marker : PartitionsLine signMetrics 5 (js "[paste #1]") [1] := by
  have hspans : markerSpans [1] 0 0 (js "[paste #1]") = [(0, 10)] := by decide
  have haligned : MarkersAligned signMetrics (js "[paste #1]") [1] := by
    intro m hm
    rw [hspans] at hm
    rw [mem_singleton.mp hm]
    exact ⟨⟨[], _, rfl, rfl⟩, ⟨_, [], (append_nil _).symm, by decide⟩⟩
  exact wordWrapLine_partitions signMetrics_measures (by decide) (js "[paste #1]") [1] haligned

end AcademicAgent
