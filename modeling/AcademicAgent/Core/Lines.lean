import AcademicAgent.Core.JsString

/-!
# Newline-delimited records

A text file with one record a line.
-/

namespace AcademicAgent

open List

/-- `s.split("\n")`. -/
def splitLines (s : JsString) : List JsString := s.splitOn lf

structure LineCodec (α : Type) where
  /-- The line of a record, without its terminator. -/
  stringify : α → JsString
  /-- The record of a line, if it is one. -/
  parse : JsString → Option α
  /-- A written record reads back. -/
  parse_stringify : ∀ a, parse (stringify a) = some a
  /-- A line is not empty. -/
  stringify_ne_nil : ∀ a, stringify a ≠ []
  /-- A line holds no line feed. -/
  lf_notMem : ∀ a, lf ∉ stringify a
  /-- A line does not start with whitespace. -/
  head_stringify : ∀ a, isWhitespace ((stringify a).head (stringify_ne_nil a)) = false
  /-- A line does not end with whitespace. -/
  getLast_stringify : ∀ a, isWhitespace ((stringify a).getLast (stringify_ne_nil a)) = false

namespace LineCodec

variable {α : Type} (codec : LineCodec α)

/-- The record of one line: blank lines are skipped, and so are malformed ones. -/
def parseLine (line : JsString) : Option α :=
  if trim line = [] then none else codec.parse line

/-- The records of a text, `content.trim().split("\n")` line by line. -/
def parseLines (content : JsString) : List α :=
  (splitLines (trim content)).filterMap codec.parseLine

/-- The text of some records, each line terminated. -/
def serialize (records : List α) : JsString :=
  records.flatMap fun a => codec.stringify a ++ [lf]

@[simp] theorem serialize_nil : codec.serialize [] = [] := rfl

theorem serialize_cons (a : α) (as : List α) :
    codec.serialize (a :: as) = codec.stringify a ++ lf :: codec.serialize as := by
  simp [serialize]

theorem serialize_append (as bs : List α) :
    codec.serialize (as ++ bs) = codec.serialize as ++ codec.serialize bs :=
  flatMap_append

theorem intercalate_append_lf {as : List α} (h : as ≠ []) :
    [lf].intercalate (as.map codec.stringify) ++ [lf] = codec.serialize as := by
  induction as with
  | nil => contradiction
  | cons a as ih =>
    cases as with
    | nil => simp [serialize, intercalate]
    | cons b bs =>
      rw [serialize_cons, ← ih (by simp)]
      simp [intercalate]

theorem parseLine_stringify (a : α) : codec.parseLine (codec.stringify a) = some a := by
  have htrim : trim (codec.stringify a) = codec.stringify a :=
    trim_eq_self (codec.stringify_ne_nil a) (codec.head_stringify a) (codec.getLast_stringify a)
  rw [parseLine, htrim, if_neg (codec.stringify_ne_nil a), codec.parse_stringify]

section

variable {as : List α} (h : as ≠ [])
include h

/-- Lines joined by line feeds start with the first line and end with the last. -/
theorem intercalate_ends : ∃ hne : [lf].intercalate (as.map codec.stringify) ≠ [],
      isWhitespace (([lf].intercalate (as.map codec.stringify)).head hne) = false ∧
        isWhitespace (([lf].intercalate (as.map codec.stringify)).getLast hne) = false := by
  induction as with
  | nil => contradiction
  | cons a as ih =>
    have ha := codec.stringify_ne_nil a
    cases as with
    | nil =>
      simp only [map_cons, map_nil, intercalate_singleton]
      exact ⟨ha, codec.head_stringify a, codec.getLast_stringify a⟩
    | cons b bs =>
      simp only [map_cons] at ih ⊢
      obtain ⟨hne, _, hlast⟩ := ih (cons_ne_nil b bs)
      simp only [intercalate_cons_cons]
      refine ⟨by simp [ha], ?_, ?_⟩
      · rw [head_append_of_ne_nil (by simp [ha]), head_append_of_ne_nil ha]
        exact codec.head_stringify a
      · rw [getLast_append_of_ne_nil _ hne]
        exact hlast

theorem trim_serialize : trim (codec.serialize as) = [lf].intercalate (as.map codec.stringify) := by
  obtain ⟨hne, hhead, hlast⟩ := codec.intercalate_ends h
  have hlf : isWhitespace lf = true := by decide
  have hself := trim_eq_self hne hhead hlast
  have hdrop : ([lf].intercalate (as.map codec.stringify) ++ [lf]).dropWhile isWhitespace =
      [lf].intercalate (as.map codec.stringify) ++ [lf] := by
    obtain ⟨c, cs, hc⟩ := exists_cons_of_ne_nil hne
    simp only [hc, head_cons] at hhead
    simp only [hc, cons_append, dropWhile_cons, hhead, Bool.false_eq_true, ite_false]
  rw [← codec.intercalate_append_lf h, trim, hdrop, trimEnd,
    rdropWhile_concat_pos _ _ _ hlf, rdropWhile_eq_self_iff]
  intro _
  simp only [hlast, Bool.false_eq_true, not_false_eq_true]

theorem parseLines_serialize : codec.parseLines (codec.serialize as) = as := by
  have hlines : splitLines (trim (codec.serialize as)) = as.map codec.stringify := by
    rw [codec.trim_serialize h]
    refine splitOn_intercalate lf ?_ (by simpa using h)
    intro line hline
    obtain ⟨a, _, rfl⟩ := mem_map.mp hline
    exact codec.lf_notMem a
  rw [parseLines, hlines, filterMap_map]
  calc
    as.filterMap (codec.parseLine ∘ codec.stringify) = as.filterMap some :=
      congrArg (as.filterMap ·) (funext codec.parseLine_stringify)
    _ = as := filterMap_some

end

end LineCodec

end AcademicAgent
