import AcademicAgent.CodingAgent.Tools.Truncate

/-!
# What truncation keeps and reports

Truncation keeps as many whole lines as the limits allow, at either end of a text, and reports
their numbers and the limit that the next line exceeds.
-/

namespace AcademicAgent

open List

open Utf8 (byteLength bytesOf charBoundary encode)

namespace Truncate

/-- The variables of the loop of `truncateHead`. -/
structure HeadCollected where
  outputLinesArr : List JsString
  outputBytesCount : Nat
  truncatedBy : TruncatedBy

/-- The loop of `truncateHead`, whose index is the number of lines so far. -/
def collectHead (maxLines maxBytes : Nat) (acc : HeadCollected) : List JsString → HeadCollected
  | [] => acc
  | line :: rest =>
    if maxLines ≤ acc.outputLinesArr.length then acc
    else
      let lineBytes := byteLength line + if 0 < acc.outputLinesArr.length then 1 else 0
      if maxBytes < acc.outputBytesCount + lineBytes then { acc with truncatedBy := .bytes }
      else
        collectHead maxLines maxBytes
          { acc with
            outputLinesArr := acc.outputLinesArr ++ [line]
            outputBytesCount := acc.outputBytesCount + lineBytes } rest

section

variable (content : JsString)

def truncateHead (options : TruncationOptions) : TruncationResult :=
  let maxLines := options.maxLines.getD DEFAULT_MAX_LINES
  let maxBytes := options.maxBytes.getD DEFAULT_MAX_BYTES
  let totalBytes := byteLength content
  let lines := splitLines content
  let totalLines := lines.length
  if totalLines ≤ maxLines ∧ totalBytes ≤ maxBytes then
    { content, truncated := false, truncatedBy := none, totalLines, totalBytes
      outputLines := totalLines, outputBytes := totalBytes, lastLinePartial := false
      firstLineExceedsLimit := false, maxLines, maxBytes }
  else
    let firstLineBytes := byteLength (lines.headD [])
    if maxBytes < firstLineBytes then
      { content := [], truncated := true, truncatedBy := some .bytes, totalLines, totalBytes
        outputLines := 0, outputBytes := 0, lastLinePartial := false
        firstLineExceedsLimit := true, maxLines, maxBytes }
    else
      let out := collectHead maxLines maxBytes ⟨[], 0, .lines⟩ lines
      let truncatedBy :=
        if maxLines ≤ out.outputLinesArr.length ∧ out.outputBytesCount ≤ maxBytes then .lines
        else out.truncatedBy
      let outputContent := joinLines out.outputLinesArr
      { content := outputContent, truncated := true, truncatedBy := some truncatedBy, totalLines
        totalBytes, outputLines := out.outputLinesArr.length
        outputBytes := byteLength outputContent, lastLinePartial := false
        firstLineExceedsLimit := false, maxLines, maxBytes }

def headLines (n : Nat) : JsString := joinLines ((splitLines content).take n)

def tailLines (n : Nat) : JsString :=
  joinLines ((splitLines content).drop ((splitLines content).length - n))

end

/-- The reason for keeping `n` of all lines: there are no more, or the next one exceeds the
limit that is named. `part` has the text of a number of lines. -/
def ReasonHonest (part : Nat → JsString) (total maxLines maxBytes n : Nat) :
    Option TruncatedBy → Prop
  | none => n = total
  | some .lines => n < total ∧ maxLines < n + 1
  | some .bytes => n < total ∧ maxBytes < byteLength (part (n + 1))

/-- The most lines that respect both limits are kept, and reported as they are. -/
structure LinesHonest (part : Nat → JsString) (total maxLines maxBytes : Nat)
    (r : TruncationResult) : Prop where
  content : r.content = part r.outputLines
  outputLines_le : r.outputLines ≤ total
  fits : r.outputLines ≤ maxLines ∧ byteLength r.content ≤ maxBytes
  maximal : ∀ n, r.outputLines < n → n ≤ total →
    ¬ (n ≤ maxLines ∧ byteLength (part n) ≤ maxBytes)
  outputBytes : r.outputBytes = byteLength r.content
  reason : ReasonHonest part total maxLines maxBytes r.outputLines r.truncatedBy

/-- The reason for keeping the end of the last line: that line or another one exceeds the limit
that is named. -/
def PartialReasonHonest (total maxLines maxBytes : Nat) (line : JsString) :
    Option TruncatedBy → Prop
  | none => False
  | some .lines => 1 < total ∧ maxLines < 2
  | some .bytes => maxBytes < byteLength line

/-- The longest end of the last line, which does not fit, is kept and reported. -/
structure PartialHonest (total maxLines maxBytes : Nat) (line : JsString) (r : TruncationResult) :
    Prop where
  too_long : maxBytes < byteLength line
  suffix : encode r.content <:+ encode line
  fits : 1 ≤ maxLines ∧ byteLength r.content ≤ maxBytes
  maximal : ∀ text, encode text <:+ encode line → byteLength text ≤ maxBytes →
    byteLength text ≤ byteLength r.content
  outputLines : r.outputLines = 1
  outputBytes : r.outputBytes = byteLength r.content
  reason : PartialReasonHonest total maxLines maxBytes line r.truncatedBy

/-- The totals are those of the text, and it is truncated for a reason. -/
structure TotalsHonest (content : JsString) (r : TruncationResult) : Prop where
  totalLines : r.totalLines = (splitLines content).length
  totalBytes : r.totalBytes = byteLength content
  truncated : r.truncated = r.truncatedBy.isSome

section

variable (content : JsString)

/-- A result of `truncateHead`. -/
def HeadHonest (options : TruncationOptions) : Prop :=
  TotalsHonest content (truncateHead content options) ∧
    LinesHonest (headLines content) (splitLines content).length
      (options.maxLines.getD DEFAULT_MAX_LINES) (options.maxBytes.getD DEFAULT_MAX_BYTES)
      (truncateHead content options)

/-- A result of `truncateTail`. -/
def TailHonest (options : TruncationOptions) : Prop :=
  TotalsHonest content (truncateTail content options) ∧
    ((truncateTail content options).lastLinePartial = true →
      PartialHonest (splitLines content).length (options.maxLines.getD DEFAULT_MAX_LINES)
        (options.maxBytes.getD DEFAULT_MAX_BYTES)
        ((splitLines content).getLast (splitLines_ne_nil content))
        (truncateTail content options)) ∧
    ((truncateTail content options).lastLinePartial = false →
      LinesHonest (tailLines content) (splitLines content).length
        (options.maxLines.getD DEFAULT_MAX_LINES) (options.maxBytes.getD DEFAULT_MAX_BYTES)
        (truncateTail content options))

def Grows (part : Nat → JsString) (total : Nat) : Prop :=
  ∀ m n, 1 ≤ m → m ≤ n → n ≤ total → byteLength (part m) ≤ byteLength (part n)

theorem weight_le_of_sublist {lines lines' : List JsString} (h : lines.Sublist lines') :
    weight lines ≤ weight lines' := by
  induction h with
  | slnil => exact le_refl _
  | cons line _ ih =>
    rw [weight_cons]
    omega
  | cons_cons line _ ih =>
    rw [weight_cons, weight_cons]
    omega

theorem grows_headLines : Grows (headLines content) (splitLines content).length := by
  intro m n hm hmn hn
  have hle := weight_le_of_sublist (take_sublist_take_left (l := splitLines content) hmn)
  have hm' := @byteLength_joinLines ((splitLines content).take m) (by
    rw [← length_pos_iff, length_take]; omega)
  have hn' := @byteLength_joinLines ((splitLines content).take n) (by
    rw [← length_pos_iff, length_take]; omega)
  rw [headLines, headLines]
  omega

theorem grows_tailLines : Grows (tailLines content) (splitLines content).length := by
  intro m n hm hmn hn
  have hle := lastWeight_mono hmn (splitLines content)
  have hm' := @byteLength_joinLines ((splitLines content).drop ((splitLines content).length - m))
    (by rw [← length_pos_iff, length_drop]; omega)
  have hn' := @byteLength_joinLines ((splitLines content).drop ((splitLines content).length - n))
    (by rw [← length_pos_iff, length_drop]; omega)
  rw [tailLines, tailLines]
  rw [lastWeight, lastWeight] at hle
  omega

theorem ReasonHonest.maximal {part : Nat → JsString} {total maxLines maxBytes n : Nat}
    {reason : Option TruncatedBy} (h : ReasonHonest part total maxLines maxBytes n reason)
    (hgrows : Grows part total) {k : Nat} (hk : n < k) (htotal : k ≤ total) :
    ¬ (k ≤ maxLines ∧ byteLength (part k) ≤ maxBytes) := by
  rintro ⟨hlines, hbytes⟩
  match reason, h with
  | none, h =>
    have heq : n = total := h
    omega
  | some .lines, h =>
    have hmore : maxLines < n + 1 := h.2
    omega
  | some .bytes, h =>
    have hlong : maxBytes < byteLength (part (n + 1)) := h.2
    have hmono := hgrows (n + 1) k (Nat.le_add_left 1 n) hk htotal
    omega

theorem headLines_all : headLines content (splitLines content).length = content := by
  rw [headLines, take_length, joinLines_splitLines]

theorem tailLines_all : tailLines content (splitLines content).length = content := by
  rw [tailLines, Nat.sub_self, drop_zero, joinLines_splitLines]

end

/-- The end of the loop with some lines kept in front of others: there is no other line or no room
for one, or the next line is too long, which is cut when it is the first one. -/
inductive Stopped (maxLines maxBytes : Nat) : List JsString → List JsString → Collected → Prop
  | full {kept hidden : List JsString} (h : hidden = [] ∨ maxLines ≤ kept.length) :
    Stopped maxLines maxBytes kept hidden (fitting kept)
  | tooLong {kept hidden : List JsString} {line : JsString} (hkept : kept ≠ [])
    (hroom : kept.length < maxLines) (hline : maxBytes + 1 < weight (line :: kept)) :
    Stopped maxLines maxBytes kept (line :: hidden) { fitting kept with truncatedBy := .bytes }
  | cut {hidden : List JsString} {line : JsString} (hroom : 0 < maxLines)
    (hline : maxBytes < byteLength line) :
    Stopped maxLines maxBytes [] (line :: hidden) ⟨[truncateStringToBytesFromEnd line maxBytes],
      byteLength (truncateStringToBytesFromEnd line maxBytes), .bytes, true⟩

theorem collectTail_stopped {maxLines maxBytes : Nat} {lines : List JsString}
    (hlines : lines.length ≤ maxLines) (hbytes : weight lines ≤ maxBytes + 1)
    (rest : List JsString) : ∃ xs ys, rest = xs ++ ys ∧ xs.length + lines.length ≤ maxLines ∧
      weight (xs.reverse ++ lines) ≤ maxBytes + 1 ∧
      Stopped maxLines maxBytes (xs.reverse ++ lines) ys
        (collectTail maxLines maxBytes (fitting lines) rest) := by
  induction rest generalizing lines with
  | nil => exact ⟨[], [], rfl, by simpa using hlines, hbytes, .full (.inl rfl)⟩
  | cons line rest ih =>
    rw [collectTail_fitting]
    by_cases hfull : maxLines ≤ lines.length
    · rw [if_pos hfull]
      exact ⟨[], line :: rest, rfl, by simpa using hlines, hbytes, .full (.inr hfull)⟩
    rw [if_neg hfull]
    by_cases hlong : maxBytes + 1 < weight (line :: lines)
    · rw [if_pos hlong]
      refine ⟨[], line :: rest, rfl, by simpa using hlines, hbytes, ?_⟩
      by_cases hnil : lines = []
      · subst hnil
        rw [if_pos rfl]
        rw [weight_cons, weight_nil] at hlong
        exact .cut (Nat.lt_of_not_le hfull) (by omega)
      · rw [if_neg hnil]
        exact .tooLong hnil (Nat.lt_of_not_le hfull) hlong
    · rw [if_neg hlong]
      obtain ⟨xs, ys, rfl, hlen, hweight, hstop⟩ := @ih (line :: lines)
        (by rw [length_cons]; omega) (Nat.not_lt.mp hlong)
      rw [length_cons] at hlen
      refine ⟨line :: xs, ys, rfl, by rw [length_cons]; omega, ?_, ?_⟩
      · simpa using hweight
      · simpa using hstop

/-- The same lines in the order of the loop of `truncateHead`. -/
def HeadCollected.ofTail (out : Collected) : HeadCollected :=
  ⟨out.outputLinesArr.reverse, out.outputBytesCount, out.truncatedBy⟩

theorem collectHead_eq (maxLines maxBytes : Nat) (lines rest : List JsString) (bytes : Nat)
    (truncatedBy : TruncatedBy)
    (h : lines = [] → ∀ line ∈ rest.head?, bytes + byteLength line ≤ maxBytes) :
    collectHead maxLines maxBytes ⟨lines.reverse, bytes, truncatedBy⟩ rest =
      .ofTail (collectTail maxLines maxBytes ⟨lines, bytes, truncatedBy, false⟩ rest) := by
  induction rest generalizing lines bytes with
  | nil => rfl
  | cons line rest ih =>
    rw [collectHead, collectTail]
    rw [length_reverse]
    by_cases hfull : maxLines ≤ lines.length
    · rw [if_pos hfull, if_pos hfull]
      rfl
    rw [if_neg hfull, if_neg hfull]
    by_cases hlong : maxBytes < bytes + (byteLength line + if 0 < lines.length then 1 else 0)
    · have hne : ¬ lines.length = 0 := by
        intro hzero
        have hfits := h (length_eq_zero_iff.mp hzero) line rfl
        rw [if_neg (by omega)] at hlong
        omega
      rw [if_pos hlong, if_pos hlong, if_neg hne]
      rfl
    · rw [if_neg hlong, if_neg hlong, ← reverse_cons]
      exact ih (line :: lines) _ (fun hnil => absurd hnil (cons_ne_nil _ _))


section

variable {part : Nat → JsString} {total maxLines maxBytes : Nat} {r : TruncationResult}

theorem LinesHonest.of_reason (hgrows : Grows part total)
    (hcontent : r.content = part r.outputLines) (hle : r.outputLines ≤ total)
    (hfits : r.outputLines ≤ maxLines ∧ byteLength r.content ≤ maxBytes)
    (hbytes : r.outputBytes = byteLength r.content)
    (hreason : ReasonHonest part total maxLines maxBytes r.outputLines r.truncatedBy) :
    LinesHonest part total maxLines maxBytes r where
  content := hcontent
  outputLines_le := hle
  fits := hfits
  maximal _ hn htotal := hreason.maximal hgrows hn htotal
  outputBytes := hbytes
  reason := hreason

end

theorem byteLength_joinLines_le {lines : List JsString} {maxBytes : Nat}
    (h : weight lines ≤ maxBytes + 1) : byteLength (joinLines lines) ≤ maxBytes := by
  by_cases hnil : lines = []
  · subst hnil
    exact Nat.zero_le maxBytes
  · have := byteLength_joinLines hnil
    omega

theorem reasonHonest_hit (part : Nat → JsString) {total maxLines maxBytes : Nat}
    {kept hidden : List JsString} {out : Collected}
    (hstop : Stopped maxLines maxBytes kept hidden out) (hwhole : out.lastLinePartial = false)
    (htotal : total = kept.length + hidden.length) (hlines : kept.length ≤ maxLines)
    (hbytes : weight kept ≤ maxBytes + 1) (hall : ¬ (kept.length = total))
    (hnext : ∀ line ys, hidden = line :: ys →
      weight (line :: kept) = byteLength (part (kept.length + 1)) + 1) : out.outputLinesArr = kept ∧
      ReasonHonest part total maxLines maxBytes kept.length (some (hit maxLines maxBytes out)) := by
  have hmore : kept.length < total := by omega
  cases hstop with
  | full h =>
    have hfull : maxLines ≤ kept.length := by
      rcases h with rfl | hfull
      · rw [length_nil] at htotal
        omega
      · exact hfull
    have hfits : weight kept - 1 ≤ maxBytes := by omega
    refine ⟨rfl, ?_⟩
    rw [hit, if_pos ⟨hfull, hfits⟩]
    exact ⟨hmore, by omega⟩
  | @tooLong _ hidden line hkept hroom hline =>
    refine ⟨rfl, ?_⟩
    rw [hit, if_neg (fun h => absurd h.1 (Nat.not_le.mpr hroom))]
    have := hnext line hidden rfl
    exact ⟨hmore, by omega⟩
  | cut => cases hwhole

theorem encode_head (text : JsString) :
    ∀ byte, (encode text).head? = some byte → Utf8.isContinuation byte = false := by
  have hscalars := Utf8.isScalar_scalars text
  rw [encode]
  generalize Utf8.scalars text = cps at hscalars
  intro byte hbyte
  cases cps with
  | nil => cases hbyte
  | cons cp cps =>
    obtain ⟨lead, rest, hbytes, hlead, -⟩ := Utf8.bytesOf_eq (hscalars cp mem_cons_self)
    rw [flatMap_cons, hbytes] at hbyte
    cases hbyte
    exact hlead

section

variable {line : JsString} {maxBytes : Nat}

section

variable (h : maxBytes < byteLength line)
include h

theorem encode_truncateStringToBytesFromEnd : encode (truncateStringToBytesFromEnd line maxBytes) =
      (encode line).drop (charBoundary (encode line) (byteLength line - maxBytes)) := by
  have hlong : ¬ (encode line).length ≤ maxBytes := Nat.not_le.mpr h
  have hscalars := Utf8.isScalar_scalars line
  obtain ⟨before, after, hcps, hcut, -⟩ := Utf8.charBoundary_flatMap hscalars
    (n := (encode line).length - maxBytes) (Nat.sub_le _ _)
  have hafter : ∀ cp ∈ after, Utf8.IsScalar cp := fun cp hcp =>
    hscalars cp (hcps ▸ mem_append_right _ hcp)
  have hline : encode line = before.flatMap bytesOf ++ after.flatMap bytesOf := by
    rw [encode, hcps, flatMap_append]
  have hdrop : (encode line).drop (charBoundary (encode line) ((encode line).length - maxBytes)) =
      after.flatMap bytesOf := by
    rw [show charBoundary (encode line) _ = _ from hcut, hline, drop_left]
  rw [truncateStringToBytesFromEnd, if_neg hlong, hdrop, Utf8.encode_toText hafter, ← hdrop]
  rfl

theorem byteLength_truncateStringToBytesFromEnd_le :
    byteLength (truncateStringToBytesFromEnd line maxBytes) ≤ maxBytes := by
  have hstart : byteLength line - maxBytes ≤
      charBoundary (encode line) (byteLength line - maxBytes) := Nat.le_add_right _ _
  rw [byteLength, encode_truncateStringToBytesFromEnd h, length_drop]
  rw [byteLength] at h hstart ⊢
  omega

theorem byteLength_le_truncateStringToBytesFromEnd
    {text : JsString} (hsuffix : encode text <:+ encode line) (hfits : byteLength text ≤ maxBytes) :
    byteLength text ≤ byteLength (truncateStringToBytesFromEnd line maxBytes) := by
  obtain ⟨front, hline⟩ := hsuffix
  have hlen : front.length + byteLength text = byteLength line := by
    rw [byteLength, byteLength, ← hline, length_append]
  have hcut : charBoundary (encode line) (byteLength line - maxBytes) ≤ front.length := by
    refine Utf8.charBoundary_le (by omega) fun byte hbyte => encode_head text byte ?_
    rw [← hline, getElem?_append_right (Nat.le_refl _), Nat.sub_self] at hbyte
    rw [head?_eq_getElem?]
    exact hbyte
  rw [Utf8.byteLength.eq_def (truncateStringToBytesFromEnd line maxBytes),
    encode_truncateStringToBytesFromEnd h, length_drop]
  have hsame : (encode line).length = byteLength line := rfl
  omega

end

end


section

variable {content : JsString} {options : TruncationOptions}

theorem kept_length_ne {maxLines maxBytes : Nat} (hfits : ¬ Fits maxLines maxBytes content)
    {kept : List JsString} (hperm : kept.length = (splitLines content).length →
      weight kept = weight (splitLines content))
    (hlines : kept.length ≤ maxLines) (hbytes : weight kept ≤ maxBytes + 1) :
    ¬ kept.length = (splitLines content).length := by
  intro hall
  have hweight := hperm hall
  rw [weight_splitLines] at hweight
  exact hfits ⟨hall ▸ hlines, by omega⟩

theorem linesHonest_of_fits {part : Nat → JsString} {maxLines maxBytes : Nat}
    {r : TruncationResult} (hfits : Fits maxLines maxBytes content)
    (hpart : part (splitLines content).length = content) (hcontent : r.content = content)
    (hlines : r.outputLines = (splitLines content).length)
    (hbytes : r.outputBytes = byteLength content) (hreason : r.truncatedBy = none) :
    LinesHonest part (splitLines content).length maxLines maxBytes r where
  content := by rw [hlines, hpart, hcontent]
  outputLines_le := Nat.le_of_eq hlines
  fits := ⟨hlines ▸ hfits.1, hcontent ▸ hfits.2⟩
  maximal n hn htotal := absurd hn (Nat.not_lt.mpr (hlines ▸ htotal))
  outputBytes := by rw [hbytes, hcontent]
  reason := by
    rw [hreason]
    exact hlines

theorem truncateTail_eq
    (h : ¬ Fits (options.maxLines.getD DEFAULT_MAX_LINES) (options.maxBytes.getD DEFAULT_MAX_BYTES)
      content) :
    truncateTail content options = let maxLines := options.maxLines.getD DEFAULT_MAX_LINES
      let maxBytes := options.maxBytes.getD DEFAULT_MAX_BYTES
      let out := collected maxLines maxBytes content
      { content := joinLines out.outputLinesArr, truncated := true
        truncatedBy := some (hit maxLines maxBytes out)
        totalLines := (splitLines content).length, totalBytes := byteLength content
        outputLines := out.outputLinesArr.length
        outputBytes := byteLength (joinLines out.outputLinesArr)
        lastLinePartial := out.lastLinePartial, firstLineExceedsLimit := false
        maxLines, maxBytes } := by
  rw [Fits] at h
  rw [truncateTail]
  rw [if_neg h]
  rfl

theorem headLines_length {xs ys : List JsString} (h : splitLines content = xs ++ ys) :
    headLines content xs.length = joinLines xs := by
  rw [headLines, h, take_left]

theorem tailLines_length {xs ys : List JsString} (h : splitLines content = ys ++ xs) :
    tailLines content xs.length = joinLines xs := by
  rw [tailLines, h, length_append, Nat.add_sub_cancel, drop_left]

section

variable (content : JsString) (options : TruncationOptions)

theorem headHonest : HeadHonest content options := by
  rw [HeadHonest, truncateHead]
  generalize options.maxLines.getD DEFAULT_MAX_LINES = maxLines
  generalize options.maxBytes.getD DEFAULT_MAX_BYTES = maxBytes
  by_cases hfits : (splitLines content).length ≤ maxLines ∧ byteLength content ≤ maxBytes
  · rw [if_pos hfits]
    exact ⟨⟨rfl, rfl, rfl⟩, linesHonest_of_fits hfits (headLines_all content) rfl rfl rfl rfl⟩
  rw [if_neg hfits]
  by_cases hfirst : maxBytes < byteLength ((splitLines content).headD [])
  · have hpos := length_pos_iff.mpr (splitLines_ne_nil content)
    have hone : headLines content 1 = (splitLines content).headD [] := by
      rw [headLines, joinLines]
      cases splitLines content with
      | nil => rfl
      | cons line lines => simp
    rw [if_pos hfirst]
    exact ⟨⟨rfl, rfl, rfl⟩, .of_reason (grows_headLines content) rfl (Nat.zero_le _)
      ⟨Nat.zero_le _, Nat.zero_le _⟩ rfl ⟨hpos, hone.symm ▸ hfirst⟩⟩
  have hloop := collectHead_eq maxLines maxBytes []
    (splitLines content) 0 .lines (fun _ line hline => by
      rw [Option.mem_def] at hline
      rw [headD_eq_head?_getD, hline] at hfirst
      exact (Nat.zero_add _).symm ▸ Nat.not_lt.mp hfirst)
  obtain ⟨xs, ys, hsplit, hlines, hbytes, hstop⟩ := @collectTail_stopped _ _ []
    (Nat.zero_le maxLines) (Nat.zero_le (maxBytes + 1)) (splitLines content)
  rw [if_neg hfirst, show (⟨[], 0, .lines⟩ : HeadCollected) = ⟨[].reverse, 0, .lines⟩ from rfl,
    hloop, HeadCollected.ofTail]
  rw [append_nil] at hbytes hstop
  rw [show fitting [] = ⟨[], 0, .lines, false⟩ from rfl] at hstop
  generalize collectTail maxLines maxBytes ⟨[], 0, .lines, false⟩ (splitLines content) = out
    at hstop ⊢
  have hlen : (splitLines content).length = xs.reverse.length + ys.length := by
    rw [hsplit, length_append, length_reverse]
  have hwhole : out.lastLinePartial = false := by
    generalize hkept : xs.reverse = kept at hstop
    cases hstop with
    | full | tooLong => rfl
    | cut hroom hline =>
      rw [reverse_eq_nil_iff] at hkept
      rw [hsplit, hkept] at hfirst
      exact absurd hline hfirst
  have hrest := @kept_length_ne _ _ _ hfits xs.reverse (fun hall => by
      have hys : ys = [] := eq_nil_of_length_eq_zero (by omega)
      rw [hsplit, hys, append_nil, weight_reverse])
    (by rw [length_reverse]; exact hlines) hbytes
  obtain ⟨hkept, hreason⟩ := reasonHonest_hit (headLines content) hstop hwhole hlen
    (by rw [length_reverse]; exact hlines) hbytes hrest (fun line zs hys => by
      have hnext : splitLines content = (xs ++ [line]) ++ zs := by
        rw [hsplit, hys, append_cons]
      have hjoin := headLines_length hnext
      rw [length_append, length_singleton] at hjoin
      rw [length_reverse, hjoin, byteLength_joinLines (by simp), weight_append, weight_cons,
        weight_reverse, weight_cons, weight_nil]
      omega)
  have hsame : out.outputLinesArr.reverse = xs := by
    rw [hkept, reverse_reverse]
  rw [weight_reverse] at hbytes
  rw [hit, hkept, length_reverse] at hreason
  rw [hsame]
  exact ⟨⟨rfl, rfl, rfl⟩, .of_reason (grows_headLines content) (headLines_length hsplit).symm
    (by rw [hsplit, length_append]; exact Nat.le_add_right _ _)
    ⟨hlines, byteLength_joinLines_le hbytes⟩ rfl hreason⟩

theorem tailHonest_iff : TailHonest content options ↔
      ¬ (options.maxLines.getD DEFAULT_MAX_LINES = 1 ∧ lf ∉ content ∧
        options.maxBytes.getD DEFAULT_MAX_BYTES < byteLength content) := by
  by_cases hfits : Fits (options.maxLines.getD DEFAULT_MAX_LINES)
    (options.maxBytes.getD DEFAULT_MAX_BYTES) content
  · refine iff_of_true ?_ (fun h => absurd hfits.2 (Nat.not_le.mpr h.2.2))
    have hin : (splitLines content).length ≤ options.maxLines.getD DEFAULT_MAX_LINES ∧
      byteLength content ≤ options.maxBytes.getD DEFAULT_MAX_BYTES := hfits
    rw [TailHonest, truncateTail]
    dsimp only
    rw [if_pos hin]
    exact ⟨⟨rfl, rfl, rfl⟩, (by rintro ⟨⟩),
      fun _ => linesHonest_of_fits hfits (tailLines_all content) rfl rfl rfl rfl⟩
  rw [TailHonest, truncateTail_eq hfits]
  generalize options.maxLines.getD DEFAULT_MAX_LINES = maxLines at hfits ⊢
  generalize options.maxBytes.getD DEFAULT_MAX_BYTES = maxBytes at hfits ⊢
  dsimp only
  obtain ⟨xs, ys, hreverse, hlines, hbytes, hstop⟩ := @collectTail_stopped _ _ []
    (Nat.zero_le maxLines) (Nat.zero_le (maxBytes + 1)) (splitLines content).reverse
  rw [← collected] at hstop
  rw [append_nil] at hbytes hstop
  generalize collected maxLines maxBytes content = out at hstop ⊢
  rw [length_nil, Nat.add_zero, ← length_reverse] at hlines
  generalize hkept : xs.reverse = kept at hlines hbytes hstop
  have hsplit : splitLines content = ys.reverse ++ kept := by
    rw [← reverse_reverse (splitLines content), hreverse, reverse_append, hkept]
  have hlen : (splitLines content).length = kept.length + ys.length := by
    rw [hsplit, length_append, length_reverse, Nat.add_comm]
  have hrest := kept_length_ne hfits (fun hall => by
    have hys : ys = [] := eq_nil_of_length_eq_zero (by omega)
    rw [hsplit, hys, reverse_nil, nil_append]) hlines hbytes
  have hnext (line : JsString) (zs : List JsString) (hys : ys = line :: zs) :
      weight (line :: kept) = byteLength (tailLines content (kept.length + 1)) + 1 := by
    have hline : splitLines content = zs.reverse ++ (line :: kept) := by
      rw [hsplit, hys, reverse_cons, append_assoc, singleton_append]
    have hjoin := tailLines_length hline
    rw [length_cons] at hjoin
    rw [hjoin, byteLength_joinLines (cons_ne_nil _ _)]
  have hwhole (hpart : out.lastLinePartial = false) :
      LinesHonest (tailLines content) (splitLines content).length maxLines maxBytes
        ⟨joinLines out.outputLinesArr, true, some (hit maxLines maxBytes out),
          (splitLines content).length, byteLength content, out.outputLinesArr.length,
          byteLength (joinLines out.outputLinesArr), out.lastLinePartial, false, maxLines,
          maxBytes⟩ := by
    obtain ⟨hsame, hreason⟩ := reasonHonest_hit (tailLines content) hstop hpart hlen hlines hbytes hrest hnext
    rw [hsame]
    exact .of_reason (grows_tailLines content) (tailLines_length hsplit).symm
      (by rw [hsplit, length_append]; exact Nat.le_add_left _ _)
      ⟨hlines, byteLength_joinLines_le hbytes⟩ rfl hreason
  have honly (hlf : lf ∉ content) : kept = [] ∧ ys ≠ [] := by
    rw [splitLines_line hlf, length_singleton] at hrest hlen
    exact ⟨eq_nil_of_length_eq_zero (by omega), fun hys => hrest (by simp [hlen, hys])⟩
  cases hstop with
  | full hfull =>
    refine iff_of_true ⟨⟨rfl, rfl, rfl⟩, (by rintro ⟨⟩), hwhole⟩ fun hcond => ?_
    obtain ⟨hone, hlf, -⟩ := hcond
    obtain ⟨rfl, hys⟩ := honly hlf
    rcases hfull with hnil | hroom
    · exact hys hnil
    · rw [hone] at hroom
      exact absurd hroom (by decide)
  | tooLong hne =>
    exact iff_of_true ⟨⟨rfl, rfl, rfl⟩, (by rintro ⟨⟩), hwhole⟩ fun hcond =>
      hne (honly hcond.2.1).1
  | @cut hidden line hroom hline =>
    have hlast : (splitLines content).getLast (splitLines_ne_nil content) = line := by
      simp [hsplit]
    have hfit := byteLength_truncateStringToBytesFromEnd_le hline
    have hreason (hcond : ¬ (maxLines = 1 ∧ lf ∉ content ∧ maxBytes < byteLength content)) :
        PartialReasonHonest (splitLines content).length maxLines maxBytes line
          (some (hit maxLines maxBytes ⟨[truncateStringToBytesFromEnd line maxBytes],
            byteLength (truncateStringToBytesFromEnd line maxBytes), .bytes, true⟩)) := by
      rw [hit]
      split_ifs with h
      · have hone : maxLines = 1 := by
          rw [length_singleton] at h
          omega
        refine ⟨?_, by omega⟩
        by_contra htotal
        have hnil : hidden = [] := by
          rw [length_cons, length_nil] at hlen
          exact eq_nil_of_length_eq_zero (by omega)
        rw [hnil, append_nil, reverse_singleton] at hsplit
        have hcontent : content = line := by rw [← joinLines_splitLines content, hsplit, joinLines_singleton]
        refine hcond ⟨hone, ?_, hcontent ▸ hline⟩
        exact separator_notMem_splitOn lf content content (by
          rw [← splitLines, hsplit, hcontent, mem_singleton])
      · exact hline
    rw [hlast]
    refine ⟨fun hhonest hcond => ?_,
      fun hcond => ⟨⟨rfl, rfl, rfl⟩, fun _ => ?_, by rintro ⟨⟩⟩⟩
    · obtain ⟨-, hpart, -⟩ := hhonest
      obtain ⟨hone, hlf, -⟩ := hcond
      have hby := (hpart rfl).reason
      rw [hit, if_pos ⟨Nat.le_of_eq hone, hfit⟩] at hby
      have htotal : 1 < (splitLines content).length := hby.1
      rw [splitLines_line hlf] at htotal
      exact absurd htotal (by simp)
    · rw [joinLines_singleton]
      exact {
        too_long := hline
        suffix := by
          rw [encode_truncateStringToBytesFromEnd hline]
          exact drop_suffix _ _
        fits := ⟨hroom, hfit⟩
        maximal _ hsuffix hle := byteLength_le_truncateStringToBytesFromEnd hline hsuffix hle
        outputLines := rfl
        outputBytes := rfl
        reason := hreason hcond }

/-- Truncation keeps the most lines that respect both limits and reports them as they are, unless
the only line is cut where one line is wanted: the limit reported is that of the lines. -/
theorem truncation_honest_iff : HeadHonest content options ∧ TailHonest content options ↔
      ¬ (options.maxLines.getD DEFAULT_MAX_LINES = 1 ∧ lf ∉ content ∧
        options.maxBytes.getD DEFAULT_MAX_BYTES < byteLength content) :=
  (and_iff_right (headHonest content options)).trans (tailHonest_iff content options)

end

end

/-- The only line is cut for its bytes, but the lines are named. -/
theorem truncation_names_lines :
    ¬ ∀ (content : JsString) (maxLines maxBytes : Nat), 1 ≤ maxLines → 1 ≤ maxBytes →
      HeadHonest content ⟨some maxLines, some maxBytes⟩ ∧
        TailHonest content ⟨some maxLines, some maxBytes⟩ := by
  intro h
  have hline := (h (replicate 4 0x61) 1 2 (by decide) (by decide)).2
  exact (tailHonest_iff _ _).mp hline ⟨rfl, by decide, by decide⟩

end Truncate

end AcademicAgent
