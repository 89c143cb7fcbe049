import AcademicAgent.Tui.PasteExpansion
import AcademicAgent.Tui.WrapText

/-!
# Segments of the text in the editor

The editor moves over graphemes, and over the markers of its pastes as a whole.
-/

namespace AcademicAgent

open List

open AnsiText (TextMetrics visibleWidth)

structure TextSegment where
  segment : JsString
  index : Nat
  deriving DecidableEq

/-- Parts of a text with the places where they start, the first one at `index`. -/
def indexed (index : Nat) : List JsString → List TextSegment
  | [] => []
  | s :: ss => ⟨s, index⟩ :: indexed (index + s.length) ss

/-- `baseSegmenter.segment(text)`. -/
def baseSegments (metrics : TextMetrics) (text : JsString) : List TextSegment :=
  indexed 0 (metrics.segment text)

/-- The length of a match of `( (\+\d+ lines|\d+ chars))?\]` at the head of a text. -/
def markerEnding (rest : JsString) : Option Nat :=
  if js "]" <+: rest then some 1
  else if js " +" <+: rest then (digitsThen (js " lines]") (rest.drop 2)).map (2 + ·)
  else if js " " <+: rest then (digitsThen (js " chars]") (rest.drop 1)).map (1 + ·)
  else none

/-- A match of `\[paste #(\d+)( (\+\d+ lines|\d+ chars))?\]` at the head of a text: the number
and the length. -/
def markerAt (s : JsString) : Option (Nat × Nat) :=
  let opening := js "[paste #"
  let digits := (s.drop opening.length).takeWhile isDigit
  if opening <+: s ∧ digits ≠ [] then
    (markerEnding (s.drop (opening.length + digits.length))).map fun n =>
      (digitsValue digits, opening.length + digits.length + n)
  else none

def isPasteMarker (segment : JsString) : Bool :=
  decide (10 ≤ segment.length) && (markerAt segment).any fun m => m.2 = segment.length

/-- The markers of a text with valid numbers: where they start and end. The first `skip` code
units are those of a match. -/
def markerSpans (validIds : List Nat) : Nat → Nat → JsString → List (Nat × Nat)
  | _, _, [] => []
  | skip + 1, index, _ :: cs => markerSpans validIds skip (index + 1) cs
  | 0, index, c :: cs =>
    match markerAt (c :: cs) with
    | some (id, length) =>
      (if id ∈ validIds then [(index, index + length)] else []) ++
        markerSpans validIds (length - 1) (index + 1) cs
    | none => markerSpans validIds 0 (index + 1) cs

/-- The loop of `segmentWithMarkers`: the segments inside a marker are merged. -/
def mergeSegments (text : JsString) : List (Nat × Nat) → List TextSegment → List TextSegment
  | _, [] => []
  | markers, seg :: segs =>
    match markers.dropWhile fun marker => decide (marker.2 ≤ seg.index) with
    | [] => seg :: mergeSegments text [] segs
    | marker :: markers =>
      if marker.1 ≤ seg.index then
        (if seg.index = marker.1 then
          [⟨(text.take marker.2).drop marker.1, marker.1⟩] else []) ++
          mergeSegments text (marker :: markers) segs
      else seg :: mergeSegments text (marker :: markers) segs

def segmentWithMarkers (metrics : TextMetrics) (text : JsString) (validIds : List Nat) :
    List TextSegment :=
  if validIds = [] ∨ ¬ js "[paste #" <:+: text then baseSegments metrics text
  else
    let markers := markerSpans validIds 0 0 text
    if markers = [] then baseSegments metrics text
    else mergeSegments text markers (baseSegments metrics text)

def isWhitespaceChar (char : JsString) : Bool := char.any isWhitespace

def isPunctuationChar (char : JsString) : Bool :=
  char.any fun c => decide (c ∈ js "()\x7b\x7d[]<>.,;:'\"!?+-=*/\\|&%^$#@~`")

/-- Segments stand in order from `low` on, without overlaps, and end by `high`. -/
def SegmentsInOrder (high : Nat) : Nat → List TextSegment → Prop
  | low, [] => low ≤ high
  | low, seg :: segs =>
    low ≤ seg.index ∧ SegmentsInOrder high (seg.index + seg.segment.length) segs

section

variable {high low : Nat} {segs : List TextSegment} (h : SegmentsInOrder high low segs)
include segs h

theorem SegmentsInOrder.le : low ≤ high := by
  induction segs generalizing low with
  | nil => exact h
  | cons seg segs ih =>
    have hrest := ih h.2
    have hlow := h.1
    omega

theorem SegmentsInOrder.sum_le : low + (segs.map fun seg => seg.segment.length).sum ≤ high := by
  induction segs generalizing low with
  | nil => exact h
  | cons seg segs ih =>
    have hrest := ih h.2
    have hlow := h.1
    rw [map_cons, sum_cons]
    omega

theorem SegmentsInOrder.mem {seg : TextSegment} (hseg : seg ∈ segs) :
    low ≤ seg.index ∧ seg.index + seg.segment.length ≤ high := by
  induction segs generalizing low with
  | nil => cases hseg
  | cons first segs ih =>
    rcases mem_cons.mp hseg with rfl | hseg
    · exact ⟨h.1, h.2.le⟩
    · obtain ⟨hlow, hhigh⟩ := ih h.2 hseg
      have hfirst := h.1
      omega

end

theorem segmentsInOrder_indexed (low : Nat) (parts : List JsString) :
    SegmentsInOrder (low + parts.flatten.length) low (indexed low parts) := by
  induction parts generalizing low with
  | nil => exact Nat.le_refl _
  | cons part parts ih =>
    refine ⟨Nat.le_refl _, ?_⟩
    have hrest := ih (low + part.length)
    rw [flatten_cons, length_append, ← Nat.add_assoc]
    exact hrest

theorem segmentsInOrder_baseSegments (metrics : TextMetrics) (text : JsString) :
    SegmentsInOrder text.length 0 (baseSegments metrics text) := by
  have h := segmentsInOrder_indexed 0 (metrics.segment text)
  rw [metrics.flatten_segment, Nat.zero_add] at h
  exact h

theorem digitsThen_le {literal s : JsString} {n : Nat} (h : digitsThen literal s = some n) :
    n ≤ s.length := by
  obtain ⟨digits, -, -, hprefix, rfl⟩ := digitsThen_eq_some h
  exact hprefix.length_le

theorem markerEnding_length {rest : JsString} {n : Nat} (h : markerEnding rest = some n) :
    0 < n ∧ n ≤ rest.length := by
  unfold markerEnding at h
  split_ifs at h with hclose hlines hchars
  · cases h
    have hlength := hclose.length_le
    exact ⟨Nat.one_pos, hlength⟩
  · obtain ⟨m, hm, rfl⟩ := Option.map_eq_some_iff.mp h
    have hle := digitsThen_le hm
    have hlength := hlines.length_le
    rw [show (js " +").length = 2 by decide] at hlength
    rw [length_drop] at hle
    omega
  · obtain ⟨m, hm, rfl⟩ := Option.map_eq_some_iff.mp h
    have hle := digitsThen_le hm
    have hlength := hchars.length_le
    rw [show (js " ").length = 1 by decide] at hlength
    rw [length_drop] at hle
    omega

theorem markerAt_length {s : JsString} {id length : Nat} (h : markerAt s = some (id, length)) :
    0 < length ∧ length ≤ s.length := by
  simp only [markerAt] at h
  split_ifs at h with hopening
  obtain ⟨n, hn, hpair⟩ := Option.map_eq_some_iff.mp h
  obtain ⟨-, rfl⟩ := Prod.mk.inj hpair
  obtain ⟨hpos, hle⟩ := markerEnding_length hn
  rw [length_drop] at hle
  omega

theorem markerSpans_bounds (validIds : List Nat) {skip index : Nat} {s : JsString}
    (hskip : skip ≤ s.length) : ∀ span ∈ markerSpans validIds skip index s,
      span.1 < span.2 ∧ span.2 ≤ index + s.length := by
  induction s generalizing skip index with
  | nil => exact fun span hspan => nomatch hspan
  | cons c cs ih =>
    intro span hspan
    rw [length_cons] at hskip ⊢
    cases skip with
    | succ skip =>
      rw [markerSpans] at hspan
      have hrest := ih (Nat.le_of_succ_le_succ hskip) span hspan
      omega
    | zero =>
      rw [markerSpans] at hspan
      split at hspan
      · rename_i id length hmarker
        obtain ⟨hpos, hlength⟩ := markerAt_length hmarker
        rw [length_cons] at hlength
        rcases mem_append.mp hspan with hspan | hspan
        · split at hspan
          · rw [mem_singleton.mp hspan]
            omega
          · cases hspan
        · have hrest := ih (by omega) span hspan
          omega
      · have hrest := ih (Nat.zero_le _) span hspan
        omega

theorem segmentsInOrder_mergeSegments {text : JsString} {parts : List JsString} {index low : Nat}
    {markers : List (Nat × Nat)} (hparts : ∀ part ∈ parts, part ≠ [])
    (hend : index + parts.flatten.length = text.length)
    (hmarkers : ∀ marker ∈ markers, marker.1 < marker.2 ∧ marker.2 ≤ text.length)
    (hlow : low ≤ index ∨
      ∃ marker rest, markers = marker :: rest ∧ low = marker.2 ∧ marker.1 < index) :
    SegmentsInOrder text.length low (mergeSegments text markers (indexed index parts)) := by
  induction parts generalizing index low markers with
  | nil =>
    rw [indexed, mergeSegments]
    rw [flatten_nil, length_nil] at hend
    rcases hlow with hle | ⟨marker, rest, rfl, rfl, -⟩
    · exact hle.trans hend.le
    · exact (hmarkers marker mem_cons_self).2
  | cons part parts ih =>
    obtain ⟨hpart, hparts⟩ := forall_mem_cons.mp hparts
    have hpos := length_pos_iff.mpr hpart
    rw [flatten_cons, length_append, ← Nat.add_assoc] at hend
    have hdropped : ∀ marker ∈ markers.dropWhile fun marker => decide (marker.2 ≤ index),
        marker.1 < marker.2 ∧ marker.2 ≤ text.length := fun marker hmem =>
      hmarkers marker ((dropWhile_sublist _).mem hmem)
    have hlow' : low ≤ index ∨ ∃ marker rest,
        markers.dropWhile (fun marker => decide (marker.2 ≤ index)) = marker :: rest ∧
          low = marker.2 ∧ marker.1 < index := by
      rcases hlow with hle | ⟨marker, rest, rfl, rfl, hbefore⟩
      · exact .inl hle
      · by_cases hended : marker.2 ≤ index
        · exact .inl hended
        · refine .inr ⟨marker, rest, ?_, rfl, hbefore⟩
          rw [dropWhile_cons, if_neg (by simpa using hended)]
    rw [indexed, mergeSegments]
    dsimp only
    generalize (markers.dropWhile fun marker => decide (marker.2 ≤ index)) = markers'
      at hdropped hlow'
    cases markers' with
    | nil =>
      have hle : low ≤ index := by
        rcases hlow' with hle | ⟨_, _, hcons, -⟩
        · exact hle
        · cases hcons
      exact ⟨hle, ih hparts hend hdropped (.inl (Nat.le_refl _))⟩
    | cons marker markers' =>
      have hsame : low ≤ index ∨ low = marker.2 ∧ marker.1 < index := by
        rcases hlow' with hle | ⟨_, _, hcons, heq, hbefore⟩
        · exact .inl hle
        · cases hcons
          exact .inr ⟨heq, hbefore⟩
      obtain ⟨hspan, hinside⟩ := hdropped marker mem_cons_self
      dsimp only
      split
      · rename_i hstarted
        split
        · rename_i hstart
          have hslice : ((text.take marker.2).drop marker.1).length = marker.2 - marker.1 := by
            rw [length_drop, length_take, Nat.min_eq_left hinside]
          refine ⟨by dsimp only; omega, ?_⟩
          dsimp only
          rw [hslice, show marker.1 + (marker.2 - marker.1) = marker.2 by omega]
          exact ih hparts hend hdropped (.inr ⟨marker, markers', rfl, rfl, by omega⟩)
        · rename_i hstart
          rw [nil_append]
          refine ih hparts hend hdropped ?_
          rcases hsame with hle | ⟨heq, hbefore⟩
          · exact .inl (by omega)
          · exact .inr ⟨marker, markers', rfl, heq, by omega⟩
      · rename_i hstarted
        refine ⟨by dsimp only; omega, ?_⟩
        exact ih hparts hend hdropped (.inl (Nat.le_refl _))

theorem segmentsInOrder_segmentWithMarkers {metrics : TextMetrics}
    (hsegment : ∀ s, ∀ part ∈ metrics.segment s, part ≠ []) (text : JsString)
    (validIds : List Nat) :
    SegmentsInOrder text.length 0 (segmentWithMarkers metrics text validIds) := by
  unfold segmentWithMarkers
  split
  · exact segmentsInOrder_baseSegments metrics text
  · dsimp only
    split
    · exact segmentsInOrder_baseSegments metrics text
    · refine segmentsInOrder_mergeSegments (hsegment text) ?_ (fun marker hmarker => ?_)
        (.inl (Nat.le_refl 0))
      · rw [metrics.flatten_segment, Nat.zero_add]
      · have hbounds := markerSpans_bounds validIds (Nat.zero_le _) marker hmarker
        rwa [Nat.zero_add] at hbounds

end AcademicAgent
