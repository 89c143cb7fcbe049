import AcademicAgent.CodingAgent.Tools.TruncateLimits

/-!
# Truncation from the end in two packages

The host truncates output as the coding agent does, but cuts a line that is too long by a
search over its code units, with a limit on their bytes.
-/

namespace AcademicAgent

open Utf8 (IsScalar Whole byteLength)
open TextDecoder (codeUnits)

variable {line : JsString}

namespace HostTruncate

open Json Truncate List

variable {maxBytes : Nat} {content : JsString} {options : TruncationOptions}

def search (content : JsString) (maxBytes : Nat) (start stop : Int) (best : JsString) : JsString :=
  if start ≤ stop then
    let middle := (start + stop) / 2
    let candidate := content.drop middle.toNat
    let candidateBytes := byteLength candidate
    if candidateBytes ≤ maxBytes then search content maxBytes start (middle - 1) candidate
    else search content maxBytes (middle + 1) stop best
  else best
termination_by (stop + 1 - start).toNat

/-- The end of a string that fits a number of bytes. -/
def truncateStringToBytesFromEnd (content : JsString) (maxBytes : Nat) : JsString :=
  search content maxBytes 0 content.length []

/-- The loop over the lines, from the last on, with a way to cut a line. -/
def collectTailWith (cut : JsString → Nat → JsString) (maxLines maxBytes : Nat) (acc : Collected) :
    List JsString → Collected
  | [] => acc
  | line :: rest =>
    if maxLines ≤ acc.outputLinesArr.length then acc
    else
      let lineBytes := byteLength line + if 0 < acc.outputLinesArr.length then 1 else 0
      if maxBytes < acc.outputBytesCount + lineBytes then
        if acc.outputLinesArr.length = 0 then
          let truncatedLine := cut line maxBytes
          { outputLinesArr := [truncatedLine]
            outputBytesCount := byteLength truncatedLine
            truncatedBy := .bytes
            lastLinePartial := true }
        else { acc with truncatedBy := .bytes }
      else
        collectTailWith cut maxLines maxBytes
          { acc with
            outputLinesArr := line :: acc.outputLinesArr
            outputBytesCount := acc.outputBytesCount + lineBytes } rest

/-- Truncates a text from its start, with a way to cut a line. -/
def truncateTailWith (cut : JsString → Nat → JsString) (content : JsString)
    (options : TruncationOptions) : TruncationResult :=
  let maxLines := options.maxLines.getD DEFAULT_MAX_LINES
  let maxBytes := options.maxBytes.getD DEFAULT_MAX_BYTES
  let totalBytes := byteLength content
  let lines := splitLines content
  let totalLines := lines.length
  if totalLines ≤ maxLines ∧ totalBytes ≤ maxBytes then
    { content, truncated := false, truncatedBy := none, totalLines, totalBytes
      outputLines := totalLines, outputBytes := totalBytes, lastLinePartial := false
      firstLineExceedsLimit := false, maxLines, maxBytes }
  else
    let out := collectTailWith cut maxLines maxBytes ⟨[], 0, .lines, false⟩ lines.reverse
    let truncatedBy :=
      if maxLines ≤ out.outputLinesArr.length ∧ out.outputBytesCount ≤ maxBytes then .lines
      else out.truncatedBy
    let outputContent := joinLines out.outputLinesArr
    { content := outputContent, truncated := true, truncatedBy := some truncatedBy, totalLines
      totalBytes, outputLines := out.outputLinesArr.length
      outputBytes := byteLength outputContent, lastLinePartial := out.lastLinePartial
      firstLineExceedsLimit := false, maxLines, maxBytes }

section

variable (content : JsString) (options : TruncationOptions)

def truncateTail : TruncationResult :=
  truncateTailWith truncateStringToBytesFromEnd content options

theorem collectTailWith_cut (maxLines maxBytes : Nat) (acc : Collected) (lines : List JsString) :
    collectTailWith Truncate.truncateStringToBytesFromEnd maxLines maxBytes acc lines =
      collectTail maxLines maxBytes acc lines := by
  induction lines generalizing acc with
  | nil => rfl
  | cons line lines ih =>
    rw [collectTailWith, collectTail]
    dsimp only
    rw [ih]

theorem truncateTailWith_cut :
    truncateTailWith Truncate.truncateStringToBytesFromEnd content options =
      Truncate.truncateTail content options := by
  rw [truncateTailWith, Truncate.truncateTail]
  rw [collectTailWith_cut]

end

theorem collectTailWith_congr {cut cut' : JsString → Nat → JsString} {maxLines : Nat}
    {acc : Collected} {lines : List JsString}
    (h : acc.outputLinesArr = [] → 0 < maxLines → ∀ line ∈ lines.head?, maxBytes < acc.outputBytesCount + byteLength line → cut line maxBytes = cut' line maxBytes)
    : collectTailWith cut maxLines maxBytes acc lines =
      collectTailWith cut' maxLines maxBytes acc lines := by
  induction lines generalizing acc with
  | nil => rfl
  | cons line lines ih =>
    rw [collectTailWith, collectTailWith]
    by_cases hfull : maxLines ≤ acc.outputLinesArr.length
    · rw [if_pos hfull, if_pos hfull]
    rw [if_neg hfull, if_neg hfull]
    by_cases hlong : maxBytes < acc.outputBytesCount + (byteLength line +
        if 0 < acc.outputLinesArr.length then 1 else 0)
    · rw [if_pos hlong, if_pos hlong]
      by_cases hnil : acc.outputLinesArr.length = 0
      · rw [hnil, if_neg (Nat.lt_irrefl 0)] at hlong
        rw [if_pos hnil, if_pos hnil, h (length_eq_zero_iff.mp hnil) (by omega) line rfl hlong]
      · rw [if_neg hnil, if_neg hnil]
    · rw [if_neg hlong, if_neg hlong]
      exact ih fun hnil => absurd hnil (cons_ne_nil _ _)

theorem search_eq {n : Nat} (hfits : ∀ m, n ≤ m → byteLength (content.drop m) ≤ maxBytes)
    (hlong : ∀ m, m < n → maxBytes < byteLength (content.drop m)) (start stop : Int)
    (best : JsString) (hstart : 0 ≤ start) (hlow : start ≤ n) (hhigh : n ≤ stop + 1)
    (hbest : best = content.drop (stop + 1).toNat) :
    search content maxBytes start stop best = content.drop n := by
  fun_induction search content maxBytes start stop best with
  | case1 start stop best hle middle candidate candidateBytes hfit ih =>
    have hmiddle : n ≤ middle.toNat := by
      by_contra hlt
      exact absurd hfit (Nat.not_le.mpr (hlong _ (Nat.lt_of_not_le hlt)))
    have hmid : middle = (start + stop) / 2 := rfl
    refine ih hstart hlow (by omega) ?_
    rw [Int.sub_add_cancel]
  | case2 start stop best hle middle candidate candidateBytes hfit ih =>
    have hmiddle : middle.toNat < n := by
      by_contra hge
      exact absurd (hfits _ (Nat.le_of_not_lt hge)) hfit
    have hmid : middle = (start + stop) / 2 := rfl
    exact ih (by omega) (by omega) hhigh hbest
  | case3 start stop best hgt =>
    rw [hbest]
    congr 1
    omega

theorem truncateStringToBytesFromEnd_eq (x : JsString) (c : CodeUnit) {y : JsString}
    (hlong : maxBytes < byteLength (c :: y)) (hfits : byteLength y ≤ maxBytes) :
    truncateStringToBytesFromEnd (x ++ c :: y) maxBytes = y := by
  have hdrop : (x ++ c :: y).drop (x.length + 1) = y := by
    rw [drop_append, drop_eq_nil_of_le (Nat.le_succ _), Nat.add_sub_cancel_left]
    rfl
  have hback (m : Nat) (hm : x.length + 1 ≤ m) : byteLength ((x ++ c :: y).drop m) ≤ maxBytes := by
    refine Nat.le_trans (Utf8.byteLength_drop_le _ hm) ?_
    rw [hdrop]
    exact hfits
  have hfront (m : Nat) (hm : m < x.length + 1) : maxBytes < byteLength ((x ++ c :: y).drop m) := by
    refine Nat.lt_of_lt_of_le hlong ?_
    have hmono := Utf8.byteLength_drop_le (x ++ c :: y) (Nat.le_of_lt_succ hm)
    rw [drop_left] at hmono
    exact hmono
  have hend : (x ++ c :: y).drop (((x ++ c :: y).length : Int) + 1).toNat = [] :=
    drop_eq_nil_of_le (by omega)
  rw [truncateStringToBytesFromEnd, search_eq hback hfront 0 _ [] (Int.le_refl 0) (by omega)
    (by rw [length_append, length_cons]; omega) hend.symm, hdrop]

theorem truncateStringToBytesFromEnd_whole (h : Whole line) (hlong : maxBytes < byteLength line) :
    ∃ x cp back, line = x ++ (codeUnits cp ++ back) ∧ IsScalar cp ∧
      Whole back ∧ Truncate.truncateStringToBytesFromEnd line maxBytes = back ∧
      byteLength back ≤ maxBytes ∧
      maxBytes < byteLength (codeUnits cp ++ back) := by
  obtain ⟨front, back, rfl, ⟨cps, hcps, rfl⟩, hback, hcut, hfits, -⟩ := h.cut (Nat.le_of_lt hlong)
  have hkept : Truncate.truncateStringToBytesFromEnd (cps.flatMap codeUnits ++ back)
      maxBytes = back := by
    have hbytes : ¬ (Utf8.encode (cps.flatMap codeUnits ++ back)).length ≤ maxBytes :=
      Nat.not_le.mpr hlong
    rw [← byteLength] at hbytes
    rw [Truncate.truncateStringToBytesFromEnd, ← byteLength, if_neg hbytes, hcut,
      Utf8.encode_append hback.head, byteLength, drop_left, Utf8.toText_encode hback]
  rcases eq_nil_or_concat cps with rfl | ⟨init, cp, rfl⟩
  · exact absurd hfits (Nat.not_le.mpr hlong)
  rw [concat_eq_append] at hcps hkept hlong ⊢
  have hcp : IsScalar cp := hcps cp (by simp)
  have hchar : Whole (codeUnits cp ++ back) :=
    Utf8.Whole.append ⟨[cp], by simpa using hcp, by simp⟩ hback
  have hline : (init ++ [cp]).flatMap codeUnits ++ back =
      init.flatMap codeUnits ++ (codeUnits cp ++ back) := by
    rw [flatMap_append, flatMap_singleton, append_assoc]
  refine ⟨_, cp, back, hline, hcp, hback, hkept, hfits, ?_⟩
  by_contra hle
  rw [hline] at hkept hlong
  have hmax := byteLength_le_truncateStringToBytesFromEnd hlong
    (by rw [Utf8.encode_append hchar.head]; exact suffix_append _ _) (Nat.not_lt.mp hle)
  rw [hkept] at hmax
  refine absurd hmax (Nat.not_le.mpr ?_)
  rcases TextDecoder.codeUnits_cases cp with ⟨c, hunits⟩ | ⟨c, d, hunits, -⟩
  · rw [hunits]
    exact Utf8.byteLength_lt_cons c back
  · rw [hunits]
    exact Nat.lt_trans (Utf8.byteLength_lt_cons d back) (Utf8.byteLength_lt_cons c (d :: back))

/-- The last line is longer than the limit, which ends between the units of one of its
characters. -/
def Splits (content : JsString) (options : TruncationOptions) : Prop :=
  0 < options.maxLines.getD DEFAULT_MAX_LINES ∧
    ∃ x hi lo y, (splitLines content).getLast (splitLines_ne_nil content) = x ++ hi :: lo :: y ∧
      isHighSurrogate hi = true ∧ isLowSurrogate lo = true ∧
      byteLength y + 3 = options.maxBytes.getD DEFAULT_MAX_BYTES

/-- Both copies return the same well-formed text and the same numbers. -/
structure Agree (text : JsString) (options : TruncationOptions) : Prop where
  content : (truncateTail text options).content = (Truncate.truncateTail text options).content
  whole : Whole (truncateTail text options).content
  truncated : (truncateTail text options).truncated =
    (Truncate.truncateTail text options).truncated
  totalLines : (truncateTail text options).totalLines =
    (Truncate.truncateTail text options).totalLines
  totalBytes : (truncateTail text options).totalBytes =
    (Truncate.truncateTail text options).totalBytes
  outputLines : (truncateTail text options).outputLines =
    (Truncate.truncateTail text options).outputLines
  outputBytes : (truncateTail text options).outputBytes =
    (Truncate.truncateTail text options).outputBytes

theorem cut_agree (h : Whole line) (hlong : maxBytes < byteLength line)
    (hsplit : ∀ x hi lo y, line = x ++ hi :: lo :: y → isHighSurrogate hi = true → isLowSurrogate lo = true → byteLength y + 3 ≠ maxBytes)
    : truncateStringToBytesFromEnd line maxBytes =
      Truncate.truncateStringToBytesFromEnd line maxBytes := by
  obtain ⟨x, cp, back, rfl, hcp, -, hkept, hfits, hnext⟩ :=
    truncateStringToBytesFromEnd_whole h hlong
  rw [hkept]
  by_cases hbmp : cp < 0x10000
  · rw [Utf8.codeUnits_bmp hbmp, singleton_append] at hnext ⊢
    exact truncateStringToBytesFromEnd_eq x _ hnext hfits
  · obtain ⟨hi, lo, hunits, hhi, hlo, -⟩ := Utf8.codeUnits_pair hcp hbmp
    rw [hunits, cons_append, singleton_append] at hnext hsplit ⊢
    have hne := hsplit x hi lo back rfl hhi hlo
    rw [Utf8.byteLength_pair hhi hlo] at hnext
    rw [append_cons]
    refine truncateStringToBytesFromEnd_eq (x ++ [hi]) lo ?_ hfits
    rw [Utf8.byteLength_low hlo]
    omega

theorem whole_joinLines {lines : List JsString} (h : ∀ line ∈ lines, Whole line) :
    Whole (joinLines lines) := by
  have hlf : Whole [lf] := ⟨[0x0A], by simp [IsScalar], rfl⟩
  induction lines with
  | nil => exact Utf8.whole_nil
  | cons line lines ih =>
    obtain ⟨hline, hrest⟩ := forall_mem_cons.mp h
    cases lines with
    | nil =>
      rw [joinLines_singleton]
      exact hline
    | cons next lines =>
      rw [joinLines_cons_cons]
      exact hline.append (hlf.append (ih hrest))

theorem whole_truncateTail (h : Whole content) (options : TruncationOptions) :
    Whole (Truncate.truncateTail content options).content := by
  by_cases hfits : Fits (options.maxLines.getD DEFAULT_MAX_LINES)
    (options.maxBytes.getD DEFAULT_MAX_BYTES) content
  · have hin : (splitLines content).length ≤ options.maxLines.getD DEFAULT_MAX_LINES ∧
      byteLength content ≤ options.maxBytes.getD DEFAULT_MAX_BYTES := hfits
    rw [Truncate.truncateTail]
    rw [if_pos hin]
    exact h
  rw [truncateTail_eq hfits]
  obtain ⟨xs, ys, hreverse, -, -, hstop⟩ := @collectTail_stopped _ _ []
    (Nat.zero_le (options.maxLines.getD DEFAULT_MAX_LINES))
    (Nat.zero_le (options.maxBytes.getD DEFAULT_MAX_BYTES + 1)) (splitLines content).reverse
  rw [← collected, append_nil] at hstop
  have hlines (line : JsString) (hline : line ∈ xs ++ ys) : Whole line :=
    h.splitOn_lf line (mem_reverse.mp (hreverse ▸ hline))
  refine whole_joinLines ?_
  generalize collected _ _ content = out at hstop ⊢
  generalize hkept : xs.reverse = kept at hstop
  cases hstop with
  | full | tooLong =>
    intro line hline
    exact hlines line (mem_append_left _ (mem_reverse.mp (hkept ▸ hline)))
  | @cut hidden line hroom hlong =>
    obtain ⟨x, cp, back, -, -, hback, hkept, -⟩ := truncateStringToBytesFromEnd_whole
      (hlines line (mem_append_right _ mem_cons_self)) hlong
    intro other hother
    rw [mem_singleton.mp hother, hkept]
    exact hback

theorem truncateTail_eq_of_cut
    (h : 0 < options.maxLines.getD DEFAULT_MAX_LINES → options.maxBytes.getD DEFAULT_MAX_BYTES < byteLength ((splitLines content).getLast (splitLines_ne_nil content)) → truncateStringToBytesFromEnd ((splitLines content).getLast (splitLines_ne_nil content)) (options.maxBytes.getD DEFAULT_MAX_BYTES) = Truncate.truncateStringToBytesFromEnd ((splitLines content).getLast (splitLines_ne_nil content)) (options.maxBytes.getD DEFAULT_MAX_BYTES))
    : truncateTail content options = Truncate.truncateTail content options := by
  rw [← truncateTailWith_cut, truncateTail, truncateTailWith, truncateTailWith]
  rw [collectTailWith_congr]
  intro _ hroom line hline hlong
  rw [head?_reverse, getLast?_eq_some_getLast (splitLines_ne_nil content),
    Option.mem_some_iff] at hline
  subst hline
  exact h hroom (by simpa using hlong)

theorem truncateTail_content_of_long
    (hline : (splitLines content).getLast (splitLines_ne_nil content) = line)
    (hroom : 0 < options.maxLines.getD DEFAULT_MAX_LINES)
    (hlong : options.maxBytes.getD DEFAULT_MAX_BYTES < byteLength line) :
    (truncateTail content options).content =
      truncateStringToBytesFromEnd line (options.maxBytes.getD DEFAULT_MAX_BYTES) := by
  have hsplit := dropLast_append_getLast (splitLines_ne_nil content)
  rw [hline] at hsplit
  have hmore : ¬ ((splitLines content).length ≤ options.maxLines.getD DEFAULT_MAX_LINES ∧
      byteLength content ≤ options.maxBytes.getD DEFAULT_MAX_BYTES) := by
    have hweight := weight_splitLines content
    rw [← hsplit, weight_append, weight_cons, weight_nil] at hweight
    omega
  rw [truncateTail, truncateTailWith]
  rw [if_neg hmore, ← hsplit, reverse_append, reverse_singleton, singleton_append, collectTailWith]
  dsimp only
  rw [length_nil, if_neg (Nat.not_le.mpr hroom), if_neg (Nat.lt_irrefl 0), Nat.add_zero,
    Nat.zero_add, if_pos hlong, if_pos rfl, joinLines_singleton]

theorem not_whole_of_splits (h : Splits content options) :
    ¬ Whole (truncateTail content options).content := by
  obtain ⟨hroom, x, hi, lo, y, hline, hhi, hlo, hbytes⟩ := h
  have hpair := Utf8.byteLength_pair hhi hlo y
  have hend := Utf8.byteLength_low hlo y
  have hlong : options.maxBytes.getD DEFAULT_MAX_BYTES < byteLength (x ++ hi :: lo :: y) := by
    have hdrop := Utf8.byteLength_drop_le (x ++ hi :: lo :: y) (Nat.zero_le x.length)
    rw [drop_left, drop_zero] at hdrop
    omega
  rw [truncateTail_content_of_long hline hroom hlong, truncateStringToBytesFromEnd_eq x hi
    (by omega) (by omega)]
  intro hwhole
  have hhead := hwhole.head lo rfl
  rw [hlo] at hhead
  cases hhead

/-- The two copies agree on whole characters unless a character of a last line that is too long is
split. -/
theorem truncateTail_agree_iff {content : JsString} (h : Whole content)
    (options : TruncationOptions) : Agree content options ↔ ¬ Splits content options := by
  refine ⟨fun hagree hsplits => not_whole_of_splits hsplits hagree.whole, fun hsplits => ?_⟩
  have hsame : truncateTail content options = Truncate.truncateTail content options :=
    truncateTail_eq_of_cut fun hroom hlong =>
      cut_agree (h.splitOn_lf _ (getLast_mem _)) hlong fun x hi lo y hline hhi hlo hbytes =>
        hsplits ⟨hroom, x, hi, lo, y, hline, hhi, hlo, hbytes⟩
  have hwhole := whole_truncateTail h options
  constructor <;> rw [hsame]
  exact hwhole

/-- A text of one byte characters has no character to split. -/
theorem truncateTail_agree_ascii : Agree (replicate 4 0x61) ⟨some 1, some 2⟩ := by
  have hwhole : Whole (replicate 4 0x61) :=
    ⟨replicate 4 0x61, by simp [IsScalar], rfl⟩
  refine (truncateTail_agree_iff hwhole _).mpr ?_
  rintro ⟨-, x, hi, lo, y, hline, hhi, -⟩
  have hmem : hi ∈ replicate 4 (0x61 : CodeUnit) := by
    rw [show replicate 4 0x61 = x ++ hi :: lo :: y from hline]
    simp
  rw [eq_of_mem_replicate hmem] at hhi
  cases hhi

/-- Half of a character of four bytes is kept. -/
theorem truncateTail_disagree : ¬ ∀ (content : JsString) (maxLines maxBytes : Nat), Whole content →
      Agree content ⟨some maxLines, some maxBytes⟩ := by
  intro h
  have hagree := h [0xD83D, 0xDE00] 1 3 ⟨[0x1F600], by simp [IsScalar], by decide⟩
  exact not_whole_of_splits ⟨by decide, [], 0xD83D, 0xDE00, [], rfl, rfl, rfl, rfl⟩ hagree.whole

end HostTruncate

end AcademicAgent
