import AcademicAgent.Core.JsString

/-!
# Line ends

A text is read as pieces: a carriage return with its line feed is one piece, every other code
unit is one.
-/

namespace AcademicAgent

open List

inductive Piece where
  | unit (c : CodeUnit)
  | crlf
  deriving DecidableEq

namespace Piece

def text : Piece → JsString
  | .unit c => [c]
  | .crlf => [cr, lf]

/-- What becomes of a piece when line endings are normalized. -/
def normalized : Piece → CodeUnit
  | .unit c => if c = cr then lf else c
  | .crlf => lf

def isLineEnd (piece : Piece) : Prop := piece.normalized = lf

instance (piece : Piece) : Decidable piece.isLineEnd := inferInstanceAs (Decidable (_ = _))

end Piece

def pieces : JsString → List Piece
  | a :: b :: rest =>
    if a = cr ∧ b = lf then .crlf :: pieces rest else .unit a :: pieces (b :: rest)
  | [a] => [.unit a]
  | [] => []

def piecesText (ps : List Piece) : JsString := ps.flatMap Piece.text

theorem piecesText_pieces (text : JsString) : piecesText (pieces text) = text := by
  fun_induction pieces text with
  | case1 a b rest h ih =>
    obtain ⟨rfl, rfl⟩ := h
    rw [piecesText, flatMap_cons, ← piecesText, ih]
    rfl
  | case2 a b rest h ih =>
    rw [piecesText, flatMap_cons, ← piecesText, ih]
    rfl
  | case3 a => rfl
  | case4 => rfl

theorem pieces_append {x y : JsString} (h : ¬ (x.getLast? = some cr ∧ y.head? = some lf)) :
    pieces (x ++ y) = pieces x ++ pieces y := by
  fun_induction pieces x with
  | case1 a b rest hab ih =>
    have hrest : ¬ (rest.getLast? = some cr ∧ y.head? = some lf) := by
      rintro ⟨hlast, hhead⟩
      refine h ⟨?_, hhead⟩
      rw [getLast?_cons, getLast?_cons, hlast]
      rfl
    rw [cons_append, cons_append, pieces, if_pos hab, ih hrest, cons_append]
  | case2 a b rest hab ih =>
    have hrest : ¬ ((b :: rest).getLast? = some cr ∧ y.head? = some lf) := by
      rintro ⟨hlast, hhead⟩
      refine h ⟨?_, hhead⟩
      rw [getLast?_cons, hlast]
      rfl
    have htail := ih hrest
    rw [cons_append] at htail
    rw [cons_append, cons_append, pieces, if_neg hab, htail, cons_append]
  | case3 a =>
    cases y with
    | nil => rfl
    | cons b y =>
      have hab : ¬ (a = cr ∧ b = lf) := by
        rintro ⟨rfl, rfl⟩
        exact h ⟨rfl, rfl⟩
      rw [cons_append, nil_append, pieces, if_neg hab]
      rfl
  | case4 => rfl

theorem pieces_append_crlf (x y : JsString) :
    pieces (x ++ cr :: lf :: y) = pieces x ++ .crlf :: pieces y := by
  have hhead : ¬ (x.getLast? = some cr ∧ (cr :: lf :: y).head? = some lf) := by
    rintro ⟨-, hlf⟩
    have hne : cr ≠ lf := by decide
    exact hne (Option.some.inj hlf)
  rw [pieces_append hhead, pieces, if_pos ⟨rfl, rfl⟩]

theorem pieces_append_cr (x : JsString) : pieces (x ++ [cr]) = pieces x ++ [.unit cr] := by
  have hhead : ¬ (x.getLast? = some cr ∧ [cr].head? = some lf) := by
    rintro ⟨-, hlf⟩
    exact absurd hlf (by decide)
  rw [pieces_append hhead]
  rfl

theorem pieces_lf_cons (y : JsString) : pieces (lf :: y) = .unit lf :: pieces y := by
  have hhead : ¬ ([lf].getLast? = some cr ∧ y.head? = some lf) := by
    rintro ⟨hcr, -⟩
    exact absurd hcr (by decide)
  exact pieces_append hhead

theorem pieces_piecesText {text : JsString} {ps qs : List Piece} (h : pieces text = ps ++ qs) :
    pieces (piecesText ps) = ps ∧ pieces (piecesText qs) = qs := by
  fun_induction pieces text generalizing ps with
  | case1 a b rest hab ih =>
    obtain ⟨rfl, rfl⟩ := hab
    cases ps with
    | nil =>
      rw [nil_append] at h
      refine ⟨rfl, ?_⟩
      rw [← h, piecesText, flatMap_cons, ← piecesText, piecesText_pieces]
      exact if_pos ⟨rfl, rfl⟩
    | cons p ps =>
      obtain ⟨rfl, hrest⟩ := List.cons.inj h
      obtain ⟨hps, hqs⟩ := ih hrest
      refine ⟨?_, hqs⟩
      have hcut : pieces (cr :: lf :: piecesText ps) = .crlf :: pieces (piecesText ps) :=
        if_pos ⟨rfl, rfl⟩
      rwa [hps] at hcut
  | case2 a b rest hab ih =>
    cases ps with
    | nil =>
      rw [nil_append] at h
      refine ⟨rfl, ?_⟩
      rw [← h, piecesText, flatMap_cons, ← piecesText, piecesText_pieces]
      exact if_neg hab
    | cons p ps =>
      obtain ⟨rfl, hrest⟩ := List.cons.inj h
      obtain ⟨hps, hqs⟩ := ih hrest
      refine ⟨?_, hqs⟩
      rw [piecesText, flatMap_cons, ← piecesText]
      have hnext : ¬ ([a].getLast? = some cr ∧ (piecesText ps).head? = some lf) := by
        rintro ⟨hcr, hlf⟩
        have htext : piecesText (pieces (b :: rest)) = piecesText (ps ++ qs) :=
          congrArg piecesText hrest
        rw [piecesText_pieces, piecesText, flatMap_append, ← piecesText] at htext
        obtain ⟨more, hmore⟩ := head?_eq_some_iff.mp hlf
        rw [hmore] at htext
        exact hab ⟨Option.some.inj hcr, (List.cons.inj htext).1⟩
      have hcut := pieces_append hnext
      rw [hps] at hcut
      exact hcut
  | case3 a =>
    cases ps with
    | nil =>
      rw [nil_append] at h
      rw [← h]
      exact ⟨rfl, rfl⟩
    | cons p ps =>
      obtain ⟨rfl, hrest⟩ := List.cons.inj h
      obtain ⟨rfl, rfl⟩ := append_eq_nil_iff.mp hrest.symm
      exact ⟨rfl, rfl⟩
  | case4 =>
    obtain ⟨rfl, rfl⟩ := append_eq_nil_iff.mp h.symm
    exact ⟨rfl, rfl⟩

end AcademicAgent
