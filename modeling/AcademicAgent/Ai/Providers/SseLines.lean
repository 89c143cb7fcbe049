import AcademicAgent.Ai.Providers.AnthropicSse
import AcademicAgent.Core.Pieces

/-!
# The lines of a server-sent event body

The buffer loop takes a line wherever a piece of a chunk ends one.
-/

namespace AcademicAgent

open List Option Piece

variable {c : CodeUnit} {line : JsString}

variable {text : JsString}

/-- The lines that pieces complete, from a line already begun, and the line left
open. -/
def pieceLines (line : JsString) : List Piece → List JsString × JsString
  | [] => ([], line)
  | piece :: ps =>
    if piece.isLineEnd then (line :: (pieceLines [] ps).1, (pieceLines [] ps).2)
    else pieceLines (line ++ piece.text) ps

/-- The lines of a body: an open line at the end is one, and the end itself dispatches
as an empty line does. -/
def bodyLines (line : JsString) (ps : List Piece) : List JsString :=
  (pieceLines line ps).1 ++
    if (pieceLines line ps).2 = [] then [[]] else [(pieceLines line ps).2, []]

/-- The lines of pieces that are followed by a line end. -/
def closedLines (line : JsString) (ps : List Piece) : List JsString :=
  (pieceLines line ps).1 ++ [(pieceLines line ps).2]

def decodeLines (state : SseDecoderState) : List JsString →
    SseDecoderState × List ServerSentEvent
  | [] => (state, [])
  | line :: lines =>
    ((decodeLines (decodeSseLine line state).2 lines).1,
      (decodeSseLine line state).1.toList ++ (decodeLines (decodeSseLine line state).2 lines).2)

def Unbroken (text : JsString) : Prop := cr ∉ text ∧ lf ∉ text

theorem unbroken_nil : Unbroken [] := ⟨not_mem_nil, not_mem_nil⟩

theorem Unbroken.concat (h : Unbroken text) (hc : ¬ (unit c).isLineEnd) :
    Unbroken (text ++ [c]) := by
  have hlf : c ≠ lf := by
    rintro rfl
    exact hc (by decide)
  have hcr : c ≠ cr := by
    rintro rfl
    exact hc (by decide)
  constructor
  · intro hmem
    rcases mem_append.mp hmem with hmem | hmem
    · exact h.1 hmem
    · exact hcr (mem_singleton.mp hmem).symm
  · intro hmem
    rcases mem_append.mp hmem with hmem | hmem
    · exact h.2 hmem
    · exact hlf (mem_singleton.mp hmem).symm

section

variable (line : JsString) (piece : Piece) (ps : List Piece)

theorem bodyLines_cons : bodyLines line (piece :: ps) =
      if piece.isLineEnd then line :: bodyLines [] ps else bodyLines (line ++ piece.text) ps := by
  simp only [bodyLines, pieceLines]
  split <;> rfl

theorem closedLines_cons : closedLines line (piece :: ps) =
      if piece.isLineEnd then line :: closedLines [] ps
      else closedLines (line ++ piece.text) ps := by
  simp only [closedLines, pieceLines]
  split <;> rfl

end

theorem bodyLines_append (line : JsString) (ps : List Piece) {piece : Piece}
    (hpiece : piece.isLineEnd) (qs : List Piece) :
    bodyLines line (ps ++ piece :: qs) = closedLines line ps ++ bodyLines [] qs := by
  induction ps generalizing line with
  | nil =>
    rw [nil_append, bodyLines_cons, if_pos hpiece]
    rfl
  | cons p ps ih =>
    rw [cons_append, bodyLines_cons, closedLines_cons]
    split
    · rw [ih, cons_append]
    · exact ih _

section

variable (state : SseDecoderState) (xs ys : List JsString)

theorem decodeLines_append :
    decodeLines state (xs ++ ys) = ((decodeLines (decodeLines state xs).1 ys).1,
      (decodeLines state xs).2 ++ (decodeLines (decodeLines state xs).1 ys).2) := by
  induction xs generalizing state with
  | nil => rfl
  | cons line xs ih =>
    rw [cons_append, decodeLines, ih, decodeLines]
    simp only [append_assoc]

theorem decodeLines_snd_append :
    (decodeLines state xs).2 ++ (decodeLines (decodeLines state xs).1 ys).2 =
      (decodeLines state (xs ++ ys)).2 :=
  congrArg Prod.snd (decodeLines_append state xs ys).symm

end

theorem pieceLines_append (line : JsString) (ps qs : List Piece) : pieceLines line (ps ++ qs) =
      ((pieceLines line ps).1 ++ (pieceLines (pieceLines line ps).2 qs).1,
        (pieceLines (pieceLines line ps).2 qs).2) := by
  induction ps generalizing line with
  | nil => rfl
  | cons piece ps ih =>
    rw [cons_append, pieceLines, pieceLines]
    split
    · rw [ih]
      rfl
    · exact ih _

theorem unbroken_pieceLines (h : Unbroken line) (ps : List Piece) :
    Unbroken (pieceLines line ps).2 := by
  induction ps generalizing line with
  | nil => exact h
  | cons piece ps ih =>
    rw [pieceLines]
    split
    · exact ih unbroken_nil
    · rename_i hpiece
      cases piece with
      | unit c => exact ih (h.concat hpiece)
      | crlf => exact absurd rfl hpiece

theorem indexOf?_append_of_notMem {xs ys : JsString} (h : c ∉ xs) :
    indexOf? [c] (xs ++ ys) = (indexOf? [c] ys).map (· + xs.length) := by
  induction xs with
  | nil => simp
  | cons x xs ih =>
    have hne : ¬ [c] <+: x :: (xs ++ ys) := by
      rw [cons_prefix_cons]
      rintro ⟨rfl, -⟩
      exact h mem_cons_self
    rw [cons_append, indexOf?, if_neg hne, ih fun hmem => h (mem_cons_of_mem x hmem),
      Option.map_map]
    rfl

theorem nextLineBreakIndex_append {xs ys : JsString} (h : Unbroken xs) :
    nextLineBreakIndex (xs ++ ys) = (nextLineBreakIndex ys).map (· + xs.length) := by
  simp only [nextLineBreakIndex, indexOf?_append_of_notMem h.1, indexOf?_append_of_notMem h.2]
  cases indexOf? [cr] ys with
  | none => rfl
  | some i =>
    cases indexOf? [lf] ys with
    | none => rfl
    | some j =>
      simp only [map_some, some.injEq]
      omega

theorem nextLineBreakIndex_cons (hc : (unit c).isLineEnd) (ys : JsString) :
    nextLineBreakIndex (c :: ys) = some 0 := by
  have hcases : c = cr ∨ c = lf := by
    by_cases h : c = cr
    · exact .inl h
    · rw [isLineEnd, normalized, if_neg h] at hc
      exact .inr hc
  have hfirst (d : CodeUnit) : indexOf? [d] (d :: ys) = some 0 := by
    rw [indexOf?, if_pos (cons_prefix_cons.mpr ⟨rfl, nil_prefix⟩)]
  rcases hcases with rfl | rfl
  · rw [nextLineBreakIndex, hfirst]
    split
    · contradiction
    · rename_i h _
      exact h.symm
    · rename_i h _
      cases h
      simp only [Nat.zero_min]
  · rw [nextLineBreakIndex, hfirst]
    split
    · rfl
    · contradiction
    · rename_i _ h
      cases h
      simp only [Nat.min_zero]

theorem consumeLine_eq_none (h : Unbroken text) : consumeLine text = none := by
  have hnone := @nextLineBreakIndex_append text [] h
  rw [append_nil] at hnone
  rw [consumeLine, hnone]
  rfl

theorem consumeLine_eq_some (h : Unbroken line) (hc : (unit c).isLineEnd) (ys : JsString) :
    consumeLine (line ++ c :: ys) =
      some (line, if c = cr ∧ ys.head? = some lf then ys.tail else ys) := by
  rw [consumeLine, nextLineBreakIndex_append h, nextLineBreakIndex_cons hc]
  have hunit : (line ++ c :: ys)[line.length]? = some c := by simp
  have hnext : (line ++ c :: ys)[line.length + 1]? = ys.head? := by
    rw [getElem?_append_right (Nat.le_succ _), head?_eq_getElem?]
    simp
  simp only [map_some, Nat.zero_add, hunit, hnext, some.injEq, take_left]
  split
  · simp
  · simp

theorem consumeLines_line {buffer rest : JsString} (h : consumeLine buffer = some (line, rest))
    {fuel : Nat} (hfuel : 0 < fuel) (state : SseDecoderState) : consumeLines fuel buffer state =
      ((consumeLines (fuel - 1) rest (decodeSseLine line state).2).1,
        (consumeLines (fuel - 1) rest (decodeSseLine line state).2).2.1,
        (decodeSseLine line state).1.toList ++
          (consumeLines (fuel - 1) rest (decodeSseLine line state).2).2.2) := by
  cases fuel with
  | zero => contradiction
  | succ fuel =>
    rw [consumeLines, h]
    rfl

theorem consumeLines_eq (h : Unbroken line) {fuel : Nat} (hfuel : (line ++ text).length ≤ fuel)
    (state : SseDecoderState) : consumeLines fuel (line ++ text) state =
      ((pieceLines line (pieces text)).2, decodeLines state (pieceLines line (pieces text)).1) := by
  have hround (line : JsString) (h : Unbroken line) (c : CodeUnit)
      (hc : (unit c).isLineEnd) (ys rest : JsString)
      (hrest : (if c = cr ∧ ys.head? = some lf then ys.tail else ys) = rest) (fuel : Nat)
      (hfuel : (line ++ c :: ys).length ≤ fuel) (state : SseDecoderState)
      (ih : ∀ fuel state, ([] ++ rest).length ≤ fuel → consumeLines fuel ([] ++ rest) state =
        ((pieceLines [] (pieces rest)).2, decodeLines state (pieceLines [] (pieces rest)).1)) :
      consumeLines fuel (line ++ c :: ys) state = ((pieceLines [] (pieces rest)).2,
        decodeLines state (line :: (pieceLines [] (pieces rest)).1)) := by
    have hlength : rest.length ≤ ys.length := by
      rw [← hrest]
      split
      · exact ys.length_tail ▸ Nat.sub_le _ _
      · exact Nat.le_refl _
    simp only [length_append, length_cons] at hfuel
    rw [consumeLines_line (hrest ▸ consumeLine_eq_some h hc ys) (by omega)]
    have hih := ih (fuel - 1) (decodeSseLine line state).2 (by
      rw [nil_append]
      omega)
    rw [nil_append] at hih
    rw [hih, decodeLines]
  fun_induction pieces text generalizing line fuel state with
  | case1 a b rest hab ih =>
    obtain ⟨rfl, rfl⟩ := hab
    exact hround line h cr (by decide) (lf :: rest) rest (if_pos ⟨rfl, rfl⟩) fuel hfuel state
      fun fuel state hfuel => ih unbroken_nil hfuel state
  | case2 a b rest hab ih =>
    by_cases ha : (unit a).isLineEnd
    · have hrest : (if a = cr ∧ (b :: rest).head? = some lf then (b :: rest).tail
          else b :: rest) = b :: rest :=
        if_neg fun h => hab ⟨h.1, some.inj h.2⟩
      rw [pieceLines, if_pos ha]
      exact hround line h a ha (b :: rest) (b :: rest) hrest fuel hfuel state
        fun fuel state hfuel => ih unbroken_nil hfuel state
    · have hshift : line ++ a :: b :: rest = (line ++ [a]) ++ b :: rest := by
        rw [append_assoc]
        rfl
      rw [pieceLines, if_neg ha, hshift]
      exact ih (h.concat ha) (hshift ▸ hfuel) state
  | case3 a =>
    by_cases ha : (unit a).isLineEnd
    · rw [pieceLines, if_pos ha]
      refine hround line h a ha [] [] ?_ fuel hfuel state fun fuel state _ => ?_
      · exact if_neg fun h => by cases h.2
      · cases fuel with
        | zero => rfl
        | succ fuel =>
          rw [consumeLines, nil_append, consumeLine_eq_none unbroken_nil]
          rfl
    · rw [pieceLines, if_neg ha]
      cases fuel with
      | zero => rfl
      | succ fuel =>
        rw [consumeLines, consumeLine_eq_none (h.concat ha)]
        rfl
  | case4 =>
    rw [append_nil]
    cases fuel with
    | zero => rfl
    | succ fuel =>
      rw [consumeLines, consumeLine_eq_none h]
      rfl

/-- Reads texts one after another, from a buffer on. -/
def readTexts (buffer : JsString) (state : SseDecoderState) : List JsString →
    List ServerSentEvent
  | [] => endOfBody buffer state
  | text :: texts =>
    (readText buffer state text).2.2 ++
      readTexts (readText buffer state text).1 (readText buffer state text).2.1 texts

theorem readTexts_eq {buffer : JsString} (h : Unbroken buffer) (state : SseDecoderState)
    (texts : List JsString) : readTexts buffer state texts =
      (decodeLines state (bodyLines buffer (texts.flatMap pieces))).2 := by
  unfold bodyLines
  induction texts generalizing buffer state with
  | nil =>
    have hblank (state : SseDecoderState) : (decodeLines state [[]]).2 =
        (flushSseEvent state).1.toList := by
      rw [decodeLines, decodeSseLine, if_pos rfl]
      exact append_nil _
    have hlines : pieceLines buffer [] = ([], buffer) := rfl
    rw [readTexts, endOfBody, flatMap_nil, hlines, nil_append]
    by_cases hbuffer : buffer = []
    · rw [if_pos hbuffer, if_pos hbuffer, hblank]
      rfl
    · rw [if_neg hbuffer, if_neg hbuffer, decodeLines, hblank]
  | cons text texts ih =>
    have hread : readText buffer state text = _ := consumeLines_eq h (Nat.le_refl _) state
    rw [readTexts, hread, flatMap_cons, pieceLines_append]
    rw [ih (unbroken_pieceLines h _), append_assoc, decodeLines_snd_append]

theorem iterateSseMessages_eq (chunks : List (List UInt8)) :
    iterateSseMessages (fun _ => false) ⟨chunks, none⟩ = ((decodeLines .initial
        (bodyLines [] ((TextDecoder.decodeChunks chunks).flatMap pieces))).2, none) := by
  have hchunks (i : Nat) (decoder : TextDecoder) (buffer : JsString) (state : SseDecoderState)
      (chunks : List (List UInt8)) :
      readChunks (fun _ => false) none i decoder buffer state chunks =
        (readTexts buffer state ((TextDecoder.transducer.feedChunks decoder chunks).2 ++
          [(TextDecoder.transducer.feedChunks decoder chunks).1.flush]), none) := by
    induction chunks generalizing i decoder buffer state with
    | nil => rfl
    | cons chunk chunks ih =>
      rw [readChunks, if_neg Bool.false_ne_true]
      dsimp only
      rw [ih]
      rfl
  rw [iterateSseMessages, hchunks, ← readTexts_eq unbroken_nil]
  rfl

/-- The same pieces, with some line ends of two units cut in two. -/
inductive Cuts : List Piece → List Piece → Prop where
  | nil : Cuts [] []
  | keep {ps qs : List Piece} (piece : Piece) : Cuts ps qs → Cuts (piece :: ps) (piece :: qs)
  | cut {ps qs : List Piece} : Cuts ps qs → Cuts (.crlf :: ps) (.unit cr :: .unit lf :: qs)

theorem Cuts.append {ps qs : List Piece} (h : Cuts ps qs) (rs : List Piece) :
    Cuts (rs ++ ps) (rs ++ qs) := by
  induction rs with
  | nil => exact h
  | cons piece rs ih => exact .keep piece ih

theorem cuts_flatten (texts : List JsString) :
    Cuts (pieces texts.flatten) (texts.flatMap pieces) := by
  induction texts with
  | nil => exact .nil
  | cons text texts ih =>
    rw [flatten_cons, flatMap_cons]
    by_cases hcut : text.getLast? = some cr ∧ texts.flatten.head? = some lf
    · obtain ⟨hlast, hhead⟩ := hcut
      obtain ⟨front, rfl⟩ := getLast?_eq_some_iff.mp hlast
      obtain ⟨rest, hrest⟩ := head?_eq_some_iff.mp hhead
      rw [hrest, pieces_lf_cons] at ih
      rw [hrest, append_assoc, singleton_append, pieces_append_crlf, pieces_append_cr, append_assoc]
      generalize texts.flatMap pieces = qs at ih
      cases ih with
      | keep _ ih => exact (Cuts.cut ih).append _
    · rw [pieces_append hcut]
      exact ih.append _

/-- The lines of a body with a mark on those that a line end of two units closes. -/
def markedLines (line : JsString) : List Piece → List (JsString × Bool)
  | [] => if line = [] then [([], false)] else [(line, false), ([], false)]
  | piece :: ps =>
    if piece.isLineEnd then (line, decide (piece = .crlf)) :: markedLines [] ps
    else markedLines (line ++ piece.text) ps

theorem map_fst_markedLines (line : JsString) (ps : List Piece) :
    (markedLines line ps).map Prod.fst = bodyLines line ps := by
  induction ps generalizing line with
  | nil =>
    rw [markedLines, bodyLines, pieceLines, nil_append]
    split <;> rfl
  | cons piece ps ih =>
    rw [markedLines, bodyLines_cons]
    split
    · rw [map_cons, ih]
    · exact ih _

/-- The same lines, with empty lines added behind some of the marked ones. -/
inductive Added {α : Type} (blank : α) : List (α × Bool) → List α → Prop where
  | nil : Added blank [] []
  | keep {ms : List (α × Bool)} {ls : List α} (line : α) (mark : Bool) :
      Added blank ms ls → Added blank ((line, mark) :: ms) (line :: ls)
  | add {ms : List (α × Bool)} {ls : List α} (line : α) :
      Added blank ms ls → Added blank ((line, true) :: ms) (line :: blank :: ls)

theorem Added.map {α β : Type} {blank : α} (f : α → β) {ms : List (α × Bool)} {ls : List α}
    (h : Added blank ms ls) : Added (f blank) (ms.map (Prod.map f id)) (ls.map f) := by
  induction h with
  | nil => exact .nil
  | keep line mark _ ih => exact .keep (f line) mark ih
  | add line _ ih => exact .add (f line) ih

theorem added_self (line : JsString) (ps : List Piece) :
    Added [] (markedLines line ps) (bodyLines line ps) := by
  rw [← map_fst_markedLines]
  induction markedLines line ps with
  | nil => exact .nil
  | cons m ms ih => exact .keep m.1 m.2 ih

theorem Cuts.added {ps qs : List Piece} (h : Cuts ps qs) (line : JsString) :
    Added [] (markedLines line ps) (bodyLines line qs) := by
  induction h generalizing line with
  | nil => exact added_self line []
  | keep piece _ ih =>
    rw [markedLines, bodyLines_cons]
    split
    · exact .keep _ _ (ih [])
    · exact ih _
  | cut _ ih =>
    have hcrlf : crlf.isLineEnd := rfl
    have hcr : (unit cr).isLineEnd := rfl
    have hlf : (unit lf).isLineEnd := rfl
    rw [markedLines, if_pos hcrlf, bodyLines_cons, if_pos hcr, bodyLines_cons, if_pos hlf]
    exact .add _ (ih [])

end AcademicAgent
