import AcademicAgent.CodingAgent.Tools.OutputTail

/-!
# Runs of the output accumulator

However the output is cut into chunks, what is counted and kept is that of all of it
so far, and the temporary file has every byte of it once.
-/

namespace AcademicAgent

open Truncate List

open Utf8 (Whole byteLength byteLength_append encode)

variable {text : JsString} {self : OutputAccumulator}

namespace OutputAccumulator

def lastLine (text : JsString) : JsString := (splitLines text).getLastD []

/-- The text so far, and how many bytes are cut off in front of it: once more than four
times `maxBytes` bytes are kept, all go but the characters of the last two times
`maxBytes`. -/
def cutOff (maxBytes : Nat) (p : JsString × Nat) (part : JsString) : JsString × Nat :=
  let text := p.1 ++ part
  (text, if byteLength text - p.2 > 4 * maxBytes then
    Utf8.charBoundary (encode text) (byteLength text - 2 * maxBytes) else p.2)

section

variable (maxBytes : Nat) (parts : List JsString)

/-- The text of some parts, and what is cut off of it. -/
def progress : JsString × Nat :=
  parts.foldl (cutOff maxBytes) ([], 0)

/-- How many bytes of a text that comes in parts are kept. -/
def keptBytes : Nat :=
  byteLength parts.flatten - (progress maxBytes parts).2

theorem progress_concat (part : JsString) :
    progress maxBytes (parts ++ [part]) = cutOff maxBytes (progress maxBytes parts) part := by
  rw [progress, foldl_append]
  rfl

theorem progress_text : (progress maxBytes parts).1 = parts.flatten := by
  induction parts using reverseRecOn with
  | nil => rfl
  | append_singleton parts part ih =>
    rw [progress_concat, flatten_append, flatten_singleton, ← ih]
    rfl

end

theorem length_splitLines_append (x y : JsString) :
    (splitLines (x ++ y)).length + 1 = (splitLines x).length + (splitLines y).length := by
  obtain ⟨init, line, -, hline, hsplit⟩ := exists_lastLine x
  have hx : splitLines x = init ++ [line] := by
    have h := hsplit []
    rwa [append_nil, append_nil, splitLines_line hline] at h
  have hy : (splitLines (line ++ y)).length = (splitLines y).length := by
    clear hsplit hx
    induction line with
    | nil => rfl
    | cons c line ih =>
      rw [mem_cons, not_or] at hline
      have hc : (c == lf) = false := beq_eq_false_iff_ne.mpr (Ne.symm hline.1)
      rw [cons_append, splitLines, splitOn_cons_eq_if_modifyHead, hc]
      rw [if_neg (by decide), length_modifyHead]
      exact ih hline.2
  rw [hsplit, hx, length_append, length_append, hy, length_singleton]
  omega

theorem lastLine_of_splitLines {line : JsString} {init : List JsString}
    (h : splitLines text = init ++ [line]) : lastLine text = line := by
  rw [lastLine, h, getLastD_concat]

theorem lastLine_append {x y : JsString} (h : lf ∉ y) : lastLine (x ++ y) = lastLine x ++ y := by
  obtain ⟨init, line, -, hline, hsplit⟩ := exists_lastLine x
  have hx : splitLines x = init ++ [line] := by
    have h := hsplit []
    rwa [append_nil, append_nil, splitLines_line hline] at h
  have hall : lf ∉ line ++ y := by
    rw [mem_append, not_or]
    exact ⟨hline, h⟩
  have hxy : splitLines (x ++ y) = init ++ [line ++ y] := by rw [hsplit, splitLines_line hall]
  rw [lastLine_of_splitLines hx, lastLine_of_splitLines hxy]

theorem lastLine_append_lf (x : JsString) {y : JsString} (h : lf ∉ y) :
    lastLine (x ++ lf :: y) = y :=
  lastLine_of_splitLines (by rw [splitLines_append_lf, splitLines_line h])

theorem countNewlines_line (h : lf ∉ text) (i n : Nat) (last : Option Nat) :
    countNewlines i n last text = (n, last) := by
  induction text generalizing i with
  | nil => rfl
  | cons c text ih =>
    rw [mem_cons, not_or] at h
    rw [countNewlines, if_neg (Ne.symm h.1), ih h.2]

theorem countNewlines_append {x y : JsString} (h : lf ∉ y) (i n : Nat) (last : Option Nat) :
    countNewlines i n last (x ++ lf :: y) = (n + (splitLines x).length, some (i + x.length)) := by
  induction x generalizing i n last with
  | nil =>
    rw [nil_append, countNewlines, if_pos rfl, countNewlines_line h]
    rfl
  | cons c x ih =>
    have hlength := length_splitLines_append [c] x
    rw [singleton_append] at hlength
    rw [cons_append, countNewlines, length_cons]
    by_cases hc : c = lf
    · have hone : (splitLines [c]).length = 2 := by
        rw [hc]
        rfl
      rw [if_pos hc, ih]
      congr 1
      · omega
      · congr 1
        omega
    · have hone : (splitLines [c]).length = 1 := by
        rw [splitLines_line (by simpa using Ne.symm hc)]
        rfl
      rw [if_neg hc, ih]
      congr 1
      · omega
      · congr 1
        omega

theorem lf_cases (text : JsString) : lf ∉ text ∨ ∃ x y, text = x ++ lf :: y ∧ lf ∉ y := by
  by_cases h : lf ∈ text
  · obtain ⟨x, y, hsplit, hno⟩ := eq_append_cons_of_mem (mem_reverse.mpr h)
    refine .inr ⟨y.reverse, x.reverse, ?_, by simpa using hno⟩
    rw [← reverse_reverse text, hsplit]
    simp
  · exact .inl h

/-- The tail is the text behind `front`, and starts with a line as noted. -/
structure Kept (maxBytes : Nat) (acc : OutputAccumulator) (text front : JsString) : Prop where
  text_eq : text = front ++ acc.tailText
  whole : Whole acc.tailText
  boundary : acc.tailStartsAtLineBoundary = true ↔ front = [] ∨ front.getLast? = some lf
  long : front = [] ∨ maxBytes < byteLength acc.tailText
  tailBytes : acc.tailBytes = byteLength acc.tailText

structure Counts (maxLines maxBytes : Nat) (acc : OutputAccumulator) (text : JsString) : Prop where
  maxLines_eq : acc.maxLines = maxLines
  maxBytes_eq : acc.maxBytes = maxBytes
  rolling_eq : acc.maxRollingBytes = 2 * maxBytes
  totalDecodedBytes : acc.totalDecodedBytes = byteLength text
  totalLines : acc.totalLines = (splitLines text).length
  currentLineBytes : acc.currentLineBytes = byteLength (lastLine text)

section

variable (self : OutputAccumulator)

/-- The accumulator with some text behind its tail, before its lines are counted. -/
def rolled (text : JsString) : OutputAccumulator :=
  let added := { self with
    totalDecodedBytes := self.totalDecodedBytes + byteLength text
    tailText := self.tailText ++ text
    tailBytes := self.tailBytes + byteLength text }
  if added.tailBytes > added.maxRollingBytes * 2 then added.trimTail else added

theorem appendDecodedText_nil : self.appendDecodedText [] = self := rfl

theorem appendDecodedText_of_ne_nil (h : text ≠ []) : self.appendDecodedText text =
      if (countNewlines 0 0 none text).1 = 0 then { self.rolled text with
        currentLineBytes := (self.rolled text).currentLineBytes + byteLength text }
      else { self.rolled text with
        totalLines := (self.rolled text).totalLines + (countNewlines 0 0 none text).1
        currentLineBytes :=
          byteLength (afterNewline text (countNewlines 0 0 none text).2) } := by
  rw [appendDecodedText, if_neg (by simpa using h)]
  rfl

theorem trimTail_eq : ∃ tailText tailBytes tailStartsAtLineBoundary,
    self.trimTail = { self with tailText, tailBytes, tailStartsAtLineBoundary } := by
  rw [trimTail]
  split
  all_goals exact ⟨_, _, _, rfl⟩

theorem rolled_eq (text : JsString) :
    ∃ tailText tailBytes tailStartsAtLineBoundary, self.rolled text = { self with
      totalDecodedBytes := self.totalDecodedBytes + byteLength text
      tailText, tailBytes, tailStartsAtLineBoundary } := by
  rw [rolled]
  split
  · obtain ⟨tailText, tailBytes, boundary, htrim⟩ := trimTail_eq { self with
      totalDecodedBytes := self.totalDecodedBytes + byteLength text
      tailText := self.tailText ++ text
      tailBytes := self.tailBytes + byteLength text }
    exact ⟨tailText, tailBytes, boundary, htrim⟩
  · exact ⟨_, _, _, rfl⟩

end

theorem Counts.appendDecodedText {maxLines maxBytes : Nat} {more : JsString}
    (h : Counts maxLines maxBytes self text) (hwhole : Whole more) :
    Counts maxLines maxBytes (self.appendDecodedText more) (text ++ more) := by
  by_cases hnil : more = []
  · subst hnil
    rwa [appendDecodedText_nil, append_nil]
  obtain ⟨hlines, hbytes, hrolling, htotal, hcount, hlast⟩ := h
  have hadd : byteLength (text ++ more) = byteLength text + byteLength more :=
    byteLength_append hwhole.head
  have hsum := length_splitLines_append text more
  obtain ⟨tailText, tailBytes, boundary, hrolled⟩ := rolled_eq self more
  rw [appendDecodedText_of_ne_nil self hnil, hrolled]
  rcases lf_cases more with hno | ⟨x, y, rfl, hy⟩
  · have hone : (splitLines more).length = 1 := by
      rw [splitLines_line hno]
      rfl
    rw [countNewlines_line hno, if_pos rfl]
    refine ⟨hlines, hbytes, hrolling, by rw [hadd, ← htotal], ?_, ?_⟩
    · dsimp only
      omega
    · dsimp only
      rw [lastLine_append hno, byteLength_append hwhole.head, hlast]
  · have hpos : 0 < (splitLines x).length := length_pos_of_ne_nil (splitLines_ne_nil x)
    have hfeed : (splitLines (x ++ lf :: y)).length = (splitLines x).length + 1 := by
      rw [splitLines_append_lf, splitLines_line hy, length_append]
      rfl
    have hafter : afterNewline (x ++ lf :: y) (some (0 + x.length)) = y := by
      rw [afterNewline, Nat.zero_add, ← singleton_append, ← append_assoc]
      exact drop_left' (by simp)
    rw [countNewlines_append hy, if_neg (by dsimp only; omega)]
    refine ⟨hlines, hbytes, hrolling, by rw [hadd, ← htotal], ?_, ?_⟩
    · dsimp only
      omega
    · dsimp only
      rw [hafter, ← append_assoc, lastLine_append_lf _ hy]

theorem Kept.trimTail {maxBytes : Nat} {front : JsString} (h : Kept maxBytes self text front)
    (hbytes : 4 ≤ maxBytes) (hrolling : self.maxRollingBytes = 2 * maxBytes)
    (hover : 2 * maxBytes < byteLength self.tailText) :
    ∃ front', Kept maxBytes self.trimTail text front' ∧ byteLength front' =
        Utf8.charBoundary (encode text) (byteLength text - 2 * maxBytes) ∧
          byteLength self.trimTail.tailText ≤ 4 * maxBytes := by
  obtain ⟨cut, tail, htail, hcut, hwhole, hstart, hlow, hhigh⟩ := h.whole.cut (Nat.le_of_lt hover)
  have hsum : byteLength self.tailText = byteLength cut + byteLength tail := by
    rw [htail, byteLength_append hwhole.head]
  have hencode : encode self.tailText = encode cut ++ encode tail := by
    rw [htail, Utf8.encode_append hwhole.head]
  have hne : cut ≠ [] := by
    rintro rfl
    have hnil : byteLength [] = 0 := rfl
    omega
  have hpos : 0 < byteLength cut := Utf8.byteLength_pos hne
  have hbefore : (encode self.tailText)[byteLength cut - 1]? = (encode cut).getLast? := by
    have hlt : byteLength cut - 1 < (encode cut).length := Nat.sub_lt hpos Nat.one_pos
    rw [hencode, getLast?_eq_getElem?, getElem?_append_left hlt]
    rfl
  have htext : Utf8.toText ((encode self.tailText).drop (byteLength cut)) = tail := by
    have hlen : byteLength cut = (encode cut).length := rfl
    rw [hencode, hlen, drop_left, Utf8.toText_encode hwhole]
  have htrim : self.trimTail = { self with
      tailStartsAtLineBoundary := (encode cut).getLast? == some 0x0A
      tailText := tail
      tailBytes := byteLength tail } := by
    have hlong : ¬ (encode self.tailText).length ≤ 2 * maxBytes := Nat.not_le.mpr hover
    have hstart' : Utf8.charBoundary (encode self.tailText)
        ((encode self.tailText).length - 2 * maxBytes) = byteLength cut := hstart
    rw [OutputAccumulator.trimTail, hrolling]
    dsimp only
    rw [if_neg hlong, hstart', if_neg (Nat.pos_iff_ne_zero.mp hpos), hbefore, htext]
  rw [htrim]
  refine ⟨front ++ cut, ⟨?_, hwhole, ?_, .inr ?_, rfl⟩, ?_, ?_⟩
  · rw [h.text_eq, htail, append_assoc]
  · dsimp only
    rw [beq_iff_eq, hcut.getLast_encode, getLast?_append_of_ne_nil _ hne]
    exact (or_iff_right (append_ne_nil_of_right_ne_nil _ hne)).symm
  · dsimp only
    omega
  · have hfront : byteLength text - 2 * maxBytes =
        byteLength front + (byteLength self.tailText - 2 * maxBytes) := by
      rw [h.text_eq, byteLength_append h.whole.head]
      omega
    rw [hfront, byteLength_append hcut.head, h.text_eq, Utf8.encode_append h.whole.head,
      show byteLength front = (encode front).length from rfl, Utf8.charBoundary_append,
      hstart]
  · dsimp only
    omega

theorem Kept.appendDecodedText {maxBytes : Nat} {front more : JsString}
    (h : Kept maxBytes self text front) (hbytes : 4 ≤ maxBytes)
    (hrolling : self.maxRollingBytes = 2 * maxBytes)
    (hshort : byteLength self.tailText ≤ 4 * maxBytes) (hwhole : Whole more) :
    ∃ front', Kept maxBytes (self.appendDecodedText more) (text ++ more) front' ∧
      byteLength front' = (cutOff maxBytes (text, byteLength front) more).2 ∧
        byteLength (self.appendDecodedText more).tailText ≤ 4 * maxBytes := by
  have htextBytes : byteLength text = byteLength front + byteLength self.tailText := by
    rw [h.text_eq, byteLength_append h.whole.head]
  have hadd : byteLength (text ++ more) = byteLength text + byteLength more :=
    byteLength_append hwhole.head
  have htailAdd : byteLength (self.tailText ++ more) =
      byteLength self.tailText + byteLength more := byteLength_append hwhole.head
  by_cases hnil : more = []
  · subst hnil
    refine ⟨front, ?_, ?_, hshort⟩
    · rwa [appendDecodedText_nil, append_nil]
    · rw [cutOff]
      dsimp only
      rw [append_nil, if_neg (by omega)]
  · let added : OutputAccumulator := { self with
      totalDecodedBytes := self.totalDecodedBytes + byteLength more
      tailText := self.tailText ++ more
      tailBytes := self.tailBytes + byteLength more }
    have hkept : Kept maxBytes added (text ++ more) front := by
      refine ⟨?_, h.whole.append hwhole, h.boundary, ?_, ?_⟩
      · rw [← append_assoc, ← h.text_eq]
      · rcases h.long with hfront | hlong
        · exact .inl hfront
        · refine .inr ?_
          rw [htailAdd]
          omega
      · rw [htailAdd, ← h.tailBytes]
    have hrolled : ∃ front', Kept maxBytes (self.rolled more) (text ++ more) front' ∧
        byteLength front' = (cutOff maxBytes (text, byteLength front) more).2 ∧
          byteLength (self.rolled more).tailText ≤ 4 * maxBytes := by
      have hcond : added.tailBytes > added.maxRollingBytes * 2 ↔
          4 * maxBytes < byteLength (self.tailText ++ more) := by
        rw [show added.maxRollingBytes = 2 * maxBytes from hrolling,
          show added.tailBytes = self.tailBytes + byteLength more from rfl, h.tailBytes,
          htailAdd]
        omega
      by_cases hover : 4 * maxBytes < byteLength (self.tailText ++ more)
      · have hrolledEq : self.rolled more = added.trimTail := if_pos (hcond.mpr hover)
        obtain ⟨front', hkept', hcut, hbound⟩ := hkept.trimTail hbytes hrolling
          (show 2 * maxBytes < byteLength (self.tailText ++ more) by omega)
        rw [hrolledEq]
        refine ⟨front', hkept', ?_, hbound⟩
        rw [hcut, cutOff, if_pos (by dsimp only; omega)]
      · have hrolledEq : self.rolled more = added := if_neg fun hc => hover (hcond.mp hc)
        rw [hrolledEq]
        refine ⟨front, hkept, ?_, Nat.not_lt.mp hover⟩
        rw [cutOff, if_neg (by dsimp only; omega)]
    obtain ⟨front', ⟨htext', hwhole', hboundary', hlong', htail'⟩, hcut, hbound⟩ := hrolled
    refine ⟨front', ?_⟩
    rw [appendDecodedText_of_ne_nil self hnil]
    split
    all_goals exact ⟨⟨htext', hwhole', hboundary', hlong', htail'⟩, hcut, hbound⟩

end OutputAccumulator

end AcademicAgent
