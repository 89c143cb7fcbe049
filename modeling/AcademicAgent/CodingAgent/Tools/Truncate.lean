import AcademicAgent.Core.Lines
import AcademicAgent.Core.Utf8

/-!
# Truncation of tool output

`truncateTail` keeps the last lines of a text that fit both limits, or the end of
the last line where not even that fits.
-/

namespace AcademicAgent

open List

open Utf8 (byteLength)

namespace Truncate

def DEFAULT_MAX_LINES : Nat := 2000

def DEFAULT_MAX_BYTES : Nat := 50 * 1024

inductive TruncatedBy where
  | lines
  | bytes
  deriving DecidableEq

structure TruncationResult where
  content : JsString
  truncated : Bool
  truncatedBy : Option TruncatedBy
  totalLines : Nat
  totalBytes : Nat
  outputLines : Nat
  outputBytes : Nat
  lastLinePartial : Bool
  firstLineExceedsLimit : Bool
  maxLines : Nat
  maxBytes : Nat
  deriving DecidableEq

structure TruncationOptions where
  maxLines : Option Nat
  maxBytes : Option Nat

/-- `lines.join("\n")`. -/
def joinLines (lines : List JsString) : JsString := [lf].intercalate lines

/-- The end of a string that fits a number of bytes. -/
def truncateStringToBytesFromEnd (str : JsString) (maxBytes : Nat) : JsString :=
  let buf := Utf8.encode str
  if buf.length ≤ maxBytes then str
  else Utf8.toText (buf.drop (Utf8.charBoundary buf (buf.length - maxBytes)))

structure Collected where
  outputLinesArr : List JsString
  outputBytesCount : Nat
  truncatedBy : TruncatedBy
  lastLinePartial : Bool

def collectTail (maxLines maxBytes : Nat) (acc : Collected) : List JsString → Collected
  | [] => acc
  | line :: rest =>
    if maxLines ≤ acc.outputLinesArr.length then acc
    else
      let lineBytes := byteLength line + if 0 < acc.outputLinesArr.length then 1 else 0
      if maxBytes < acc.outputBytesCount + lineBytes then
        if acc.outputLinesArr.length = 0 then
          let truncatedLine := truncateStringToBytesFromEnd line maxBytes
          { outputLinesArr := [truncatedLine]
            outputBytesCount := byteLength truncatedLine
            truncatedBy := .bytes
            lastLinePartial := true }
        else { acc with truncatedBy := .bytes }
      else
        collectTail maxLines maxBytes
          { acc with
            outputLinesArr := line :: acc.outputLinesArr
            outputBytesCount := acc.outputBytesCount + lineBytes } rest

def truncateTail (content : JsString) (options : TruncationOptions) : TruncationResult :=
  let maxLines := options.maxLines.getD DEFAULT_MAX_LINES
  let maxBytes := options.maxBytes.getD DEFAULT_MAX_BYTES
  let totalBytes := byteLength content
  let lines := splitLines content
  let totalLines := lines.length
  if totalLines ≤ maxLines ∧ totalBytes ≤ maxBytes then
    { content, truncated := false, truncatedBy := none, totalLines, totalBytes
      outputLines := totalLines, outputBytes := totalBytes, lastLinePartial := false
      firstLineExceedsLimit := false, maxLines, maxBytes }
  else
    let out := collectTail maxLines maxBytes ⟨[], 0, .lines, false⟩ lines.reverse
    let truncatedBy :=
      if maxLines ≤ out.outputLinesArr.length ∧ out.outputBytesCount ≤ maxBytes then .lines
      else out.truncatedBy
    let outputContent := joinLines out.outputLinesArr
    { content := outputContent, truncated := true, truncatedBy := some truncatedBy, totalLines
      totalBytes, outputLines := out.outputLinesArr.length
      outputBytes := byteLength outputContent, lastLinePartial := out.lastLinePartial
      firstLineExceedsLimit := false, maxLines, maxBytes }

@[simp] theorem splitLines_append_lf (x y : JsString) :
    splitLines (x ++ lf :: y) = splitLines x ++ splitLines y :=
  splitOn_append_cons_self x y

theorem splitLines_line {x : JsString} (h : lf ∉ x) : splitLines x = [x] :=
  splitOn_eq_singleton h

theorem splitLines_ne_nil (x : JsString) : splitLines x ≠ [] := splitOn_ne_nil lf x

theorem joinLines_splitLines (x : JsString) : joinLines (splitLines x) = x :=
  intercalate_splitOn lf

/-- The bytes of some lines, each with a line feed. -/
def weight (lines : List JsString) : Nat := (lines.map fun line => byteLength line + 1).sum

@[simp] theorem weight_nil : weight [] = 0 := rfl

@[simp] theorem weight_cons (line : JsString) (lines : List JsString) :
    weight (line :: lines) = byteLength line + 1 + weight lines := rfl

@[simp] theorem weight_append (front back : List JsString) :
    weight (front ++ back) = weight front + weight back := by
  rw [weight, map_append, sum_append]
  rfl

theorem weight_reverse (lines : List JsString) : weight lines.reverse = weight lines := by
  rw [weight, map_reverse, sum_reverse]
  rfl

theorem joinLines_singleton (line : JsString) : joinLines [line] = line :=
  intercalate_singleton

theorem joinLines_cons_cons (line next : JsString) (lines : List JsString) :
    joinLines (line :: next :: lines) = line ++ lf :: joinLines (next :: lines) := by
  rw [joinLines, intercalate_cons_cons, append_assoc]
  rfl

theorem byteLength_joinLines {lines : List JsString} (h : lines ≠ []) :
    byteLength (joinLines lines) + 1 = weight lines := by
  induction lines with
  | nil => contradiction
  | cons line lines ih =>
    cases lines with
    | nil =>
      rw [joinLines_singleton]
      rfl
    | cons next lines =>
      rw [joinLines_cons_cons, Utf8.byteLength_lf, weight_cons, ← ih (cons_ne_nil _ _)]
      omega

theorem weight_splitLines (text : JsString) : weight (splitLines text) = byteLength text + 1 := by
  rw [← byteLength_joinLines (splitLines_ne_nil text), joinLines_splitLines]

/-- The bytes of the last `n` lines, each with a line feed. -/
def lastWeight (n : Nat) (lines : List JsString) : Nat := weight (lines.drop (lines.length - n))

theorem lastWeight_append (front back : List JsString) :
    lastWeight back.length (front ++ back) = weight back := by
  rw [lastWeight, length_append, Nat.add_sub_cancel, drop_left]

theorem lastWeight_mono {m n : Nat} (h : m ≤ n) (lines : List JsString) :
    lastWeight m lines ≤ lastWeight n lines := by
  have hdrop : lines.drop (lines.length - m) =
      (lines.drop (lines.length - n)).drop (lines.length - m - (lines.length - n)) := by
    rw [drop_drop]
    congr 1
    omega
  have hsplit := take_append_drop (lines.length - m - (lines.length - n))
    (lines.drop (lines.length - n))
  rw [lastWeight, lastWeight, hdrop]
  conv => rhs; rw [← hsplit, weight_append]
  exact Nat.le_add_left _ _

def fitting (lines : List JsString) : Collected := ⟨lines, weight lines - 1, .lines, false⟩

theorem collectTail_fitting (maxLines maxBytes : Nat) (lines rest : List JsString)
    (line : JsString) :
    collectTail maxLines maxBytes (fitting lines) (line :: rest) =
      if maxLines ≤ lines.length then fitting lines
      else if maxBytes + 1 < weight (line :: lines) then
        if lines = [] then
          ⟨[truncateStringToBytesFromEnd line maxBytes],
            byteLength (truncateStringToBytesFromEnd line maxBytes), .bytes, true⟩
        else { fitting lines with truncatedBy := .bytes }
      else collectTail maxLines maxBytes (fitting (line :: lines)) rest := by
  have hbytes : (fitting lines).outputBytesCount + (byteLength line +
      if 0 < (fitting lines).outputLinesArr.length then 1 else 0) = weight (line :: lines) - 1 := by
    cases lines with
    | nil => simp [fitting]
    | cons next lines =>
      rw [if_pos (by simp [fitting]), fitting]
      simp only [weight_cons]
      omega
  have hpos : 0 < weight (line :: lines) := by
    rw [weight_cons]
    omega
  rw [collectTail]
  dsimp only
  rw [hbytes]
  simp only [fitting, length_eq_zero_iff]
  split_ifs <;> first | rfl | omega

section

variable {maxLines maxBytes : Nat} {lines xs : List JsString}

theorem collectTail_of_fits (hlines : lines.length + xs.length ≤ maxLines)
    (hbytes : weight lines + weight xs ≤ maxBytes + 1) (ys : List JsString) :
    collectTail maxLines maxBytes (fitting lines) (xs ++ ys) =
      collectTail maxLines maxBytes (fitting (xs.reverse ++ lines)) ys := by
  induction xs generalizing lines with
  | nil => rfl
  | cons x xs ih =>
    rw [length_cons] at hlines
    rw [weight_cons] at hbytes
    have hmore : ¬ maxLines ≤ lines.length := by omega
    have hfits : ¬ maxBytes + 1 < weight (x :: lines) := by
      rw [weight_cons]
      omega
    rw [cons_append, collectTail_fitting, if_neg hmore, if_neg hfits, ih
      (by rw [length_cons]; omega) (by rw [weight_cons]; omega), reverse_cons,
      append_assoc, singleton_append]

theorem collectTail_of_stops (hfits : weight lines ≤ maxBytes + 1)
    (hstops : maxLines ≤ lines.length + xs.length ∨ maxBytes + 1 < weight lines + weight xs)
    (ys : List JsString) : collectTail maxLines maxBytes (fitting lines) (xs ++ ys) =
      collectTail maxLines maxBytes (fitting lines) xs := by
  induction xs generalizing lines with
  | nil =>
    have hfull : maxLines ≤ lines.length := by
      rw [length_nil, weight_nil] at hstops
      omega
    cases ys with
    | nil => rfl
    | cons y ys =>
      rw [nil_append, collectTail_fitting, if_pos hfull]
      rfl
  | cons x xs ih =>
    rw [length_cons, weight_cons] at hstops
    rw [cons_append, collectTail_fitting, collectTail_fitting]
    by_cases hin : maxBytes + 1 < weight (x :: lines)
    · rw [if_pos hin, if_pos hin]
    · rw [if_neg hin, if_neg hin, ih (Nat.not_lt.mp hin) ?_]
      rw [length_cons, weight_cons]
      omega

end

section

variable (maxLines maxBytes : Nat)

def collected (text : JsString) : Collected :=
  collectTail maxLines maxBytes (fitting []) (splitLines text).reverse

def Fits (text : JsString) : Prop :=
  (splitLines text).length ≤ maxLines ∧ byteLength text ≤ maxBytes

def hit (out : Collected) : TruncatedBy :=
  if maxLines ≤ out.outputLinesArr.length ∧ out.outputBytesCount ≤ maxBytes then .lines
  else out.truncatedBy

end

section

variable {maxLines maxBytes : Nat} {text : JsString}

theorem truncateTail_of_fits (h : Fits maxLines maxBytes text) :
    (truncateTail text ⟨some maxLines, some maxBytes⟩).content = text ∧
      (truncateTail text ⟨some maxLines, some maxBytes⟩).truncatedBy = none := by
  have hfits : (splitLines text).length ≤ maxLines ∧ byteLength text ≤ maxBytes := h
  rw [truncateTail]
  simp only [Option.getD_some, if_pos hfits, and_self]

theorem truncateTail_of_not_fits (h : ¬ Fits maxLines maxBytes text) :
    (truncateTail text ⟨some maxLines, some maxBytes⟩).content =
        joinLines (collected maxLines maxBytes text).outputLinesArr ∧
      (truncateTail text ⟨some maxLines, some maxBytes⟩).truncatedBy =
        some (hit maxLines maxBytes (collected maxLines maxBytes text)) := by
  have hfits : ¬ ((splitLines text).length ≤ maxLines ∧ byteLength text ≤ maxBytes) := h
  rw [truncateTail]
  simp only [Option.getD_some, if_neg hfits]
  exact ⟨rfl, rfl⟩

theorem truncateTail_totals (maxLines maxBytes : Nat) (text : JsString) :
    (truncateTail text ⟨some maxLines, some maxBytes⟩).totalLines = (splitLines text).length ∧
      (truncateTail text ⟨some maxLines, some maxBytes⟩).totalBytes = byteLength text := by
  rw [truncateTail]
  split <;> exact ⟨rfl, rfl⟩

end

end Truncate

end AcademicAgent
