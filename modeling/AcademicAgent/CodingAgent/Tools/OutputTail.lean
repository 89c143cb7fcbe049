import AcademicAgent.CodingAgent.Tools.Truncate

/-!
# The output accumulator

Output is decoded as it comes, counted, and kept only at its end, which is cut when it has
grown too long.
-/

namespace AcademicAgent

open Truncate

structure OutputAccumulator where
  maxLines : Nat
  maxBytes : Nat
  maxRollingBytes : Nat
  decoder : TextDecoder
  rawChunks : List (List UInt8)
  tailText : JsString
  tailBytes : Nat
  tailStartsAtLineBoundary : Bool
  totalRawBytes : Nat
  totalDecodedBytes : Nat
  totalLines : Nat
  currentLineBytes : Nat
  finished : Bool
  /-- The chunks written to the temporary file, if it was opened. -/
  tempFile : Option (List (List UInt8))
  deriving DecidableEq

structure OutputSnapshot where
  content : JsString
  truncation : TruncationResult
  /-- `fullOutputPath !== undefined`. -/
  persisted : Bool
  deriving DecidableEq

namespace OutputAccumulator

/-- `new OutputAccumulator(options)`. -/
def new (options : TruncationOptions) : OutputAccumulator where
  maxLines := options.maxLines.getD DEFAULT_MAX_LINES
  maxBytes := options.maxBytes.getD DEFAULT_MAX_BYTES
  maxRollingBytes := max (options.maxBytes.getD DEFAULT_MAX_BYTES * 2) 1
  decoder := .new
  rawChunks := []
  tailText := []
  tailBytes := 0
  tailStartsAtLineBoundary := true
  totalRawBytes := 0
  totalDecodedBytes := 0
  totalLines := 1
  currentLineBytes := 0
  finished := false
  tempFile := none

section

variable (self : OutputAccumulator)

def trimTail : OutputAccumulator :=
  let buffer := Utf8.encode self.tailText
  if buffer.length ≤ self.maxRollingBytes then { self with tailBytes := buffer.length }
  else
    let start := Utf8.charBoundary buffer (buffer.length - self.maxRollingBytes)
    let tailText := Utf8.toText (buffer.drop start)
    { self with
      tailStartsAtLineBoundary :=
        if start = 0 then self.tailStartsAtLineBoundary else buffer[start - 1]? == some 0x0A
      tailText
      tailBytes := Utf8.byteLength tailText }

/-- The loop over the line feeds of a text: how many there are, and where the last is. -/
def countNewlines (i newlines : Nat) (lastNewline : Option Nat) : JsString → Nat × Option Nat
  | [] => (newlines, lastNewline)
  | c :: text =>
    if c = lf then countNewlines (i + 1) (newlines + 1) (some i) text
    else countNewlines (i + 1) newlines lastNewline text

/-- `text.slice(lastNewline + 1)`. -/
def afterNewline (text : JsString) : Option Nat → JsString
  | some lastNewline => text.drop (lastNewline + 1)
  | none => text

def appendDecodedText (text : JsString) : OutputAccumulator :=
  if text.length = 0 then self
  else
    let bytes := Utf8.byteLength text
    let added := { self with
      totalDecodedBytes := self.totalDecodedBytes + bytes
      tailText := self.tailText ++ text
      tailBytes := self.tailBytes + bytes }
    let kept := if added.tailBytes > added.maxRollingBytes * 2 then added.trimTail else added
    let (newlines, lastNewline) := countNewlines 0 0 none text
    if newlines = 0 then { kept with currentLineBytes := kept.currentLineBytes + bytes }
    else
      { kept with
        totalLines := kept.totalLines + newlines
        currentLineBytes := Utf8.byteLength (afterNewline text lastNewline) }

def shouldUseTempFile : Bool :=
  self.totalRawBytes > self.maxBytes || self.totalDecodedBytes > self.maxBytes ||
    self.totalLines > self.maxLines

/-- Opens the temporary file with what was held back. -/
def ensureTempFile : OutputAccumulator :=
  match self.tempFile with
  | some _ => self
  | none => { self with tempFile := some self.rawChunks, rawChunks := [] }

end

def append (self : OutputAccumulator) (data : List UInt8) : Except JsString OutputAccumulator :=
  if self.finished then .error (js "Cannot append to a finished output accumulator")
  else
    let (decoder, text) := TextDecoder.transducer.feed self.decoder data
    let counted := { self with totalRawBytes := self.totalRawBytes + data.length, decoder }
    let decoded := counted.appendDecodedText text
    if decoded.tempFile.isSome || decoded.shouldUseTempFile then
      let opened := decoded.ensureTempFile
      .ok { opened with tempFile := opened.tempFile.map (· ++ [data]) }
    else if data.length > 0 then .ok { decoded with rawChunks := decoded.rawChunks ++ [data] }
    else .ok decoded

section

variable (self : OutputAccumulator)

def finish : OutputAccumulator :=
  if self.finished then self
  else
    let decoded := { self with finished := true }.appendDecodedText self.decoder.flush
    if decoded.shouldUseTempFile then decoded.ensureTempFile else decoded

def getSnapshotText : JsString :=
  if self.tailStartsAtLineBoundary then self.tailText
  else
    match self.tailText.idxOf? lf with
    | none => self.tailText
    | some firstNewline => self.tailText.drop (firstNewline + 1)

/-- What there is to show, and the accumulator behind it. -/
def snapshot (persistIfTruncated : Bool) : OutputSnapshot × OutputAccumulator :=
  let tailTruncation := truncateTail self.getSnapshotText ⟨some self.maxLines, some self.maxBytes⟩
  let truncated := self.totalLines > self.maxLines || self.totalDecodedBytes > self.maxBytes
  let truncatedBy :=
    if truncated then
      some (tailTruncation.truncatedBy.getD
        (if self.totalDecodedBytes > self.maxBytes then .bytes else .lines))
    else none
  let truncation := { tailTruncation with
    truncated, truncatedBy
    totalLines := self.totalLines
    totalBytes := self.totalDecodedBytes
    maxLines := self.maxLines
    maxBytes := self.maxBytes }
  let persisted := if persistIfTruncated && truncation.truncated then self.ensureTempFile else self
  (⟨truncation.content, truncation, persisted.tempFile.isSome⟩, persisted)

def getLastLineBytes : Nat := self.currentLineBytes

end

inductive Call where
  | append (data : List UInt8)
  | snapshot (persistIfTruncated : Bool)
  | finish

/-- The accumulator after a call; one that throws leaves it as it was. -/
def call (self : OutputAccumulator) : Call → OutputAccumulator
  | .append data =>
    match self.append data with
    | .ok after => after
    | .error _ => self
  | .snapshot persistIfTruncated => (self.snapshot persistIfTruncated).2
  | .finish => self.finish

def run (options : TruncationOptions) (calls : List Call) : OutputAccumulator :=
  calls.foldl call (new options)

def chunks : List Call → List (List UInt8)
  | .append data :: calls => data :: chunks calls
  | .snapshot _ :: calls => chunks calls
  | .finish :: _ => []
  | [] => []

end OutputAccumulator

end AcademicAgent

/-!
# What the kept tail shows

Truncating the kept end of the output gives what truncating all of it gives, also where the
line that the cut went through is dropped.
-/

namespace AcademicAgent

open Truncate List

variable {line : JsString} {init : List JsString}

namespace OutputAccumulator

def lastLines (n : Nat) (text : JsString) : JsString :=
  joinLines ((splitLines text).drop ((splitLines text).length - n))

/-- All lines that may be shown fit, and of the line before them not all is kept. -/
def Masked (maxLines maxBytes : Nat) (text : JsString) (kept : Nat) : Prop :=
  maxLines < (splitLines text).length ∧
    Utf8.byteLength (lastLines maxLines text) ≤ maxBytes ∧
      kept < Utf8.byteLength (lastLines (maxLines + 1) text)

instance (maxLines maxBytes : Nat) (text : JsString) (kept : Nat) :
    Decidable (Masked maxLines maxBytes text kept) :=
  inferInstanceAs (Decidable (_ ∧ _ ∧ _))

theorem byteLength_lastLines {n : Nat} (hn : 1 ≤ n) (text : JsString) :
    Utf8.byteLength (lastLines n text) + 1 = lastWeight n (splitLines text) := by
  have hpos : 0 < (splitLines text).length := length_pos_of_ne_nil (splitLines_ne_nil text)
  refine byteLength_joinLines fun hnil => ?_
  rw [drop_eq_nil_iff] at hnil
  omega

theorem exists_lastLine (text : JsString) :
    ∃ init line, (line = [] ↔ text = [] ∨ text.getLast? = some lf) ∧ lf ∉ line ∧
      ∀ y, splitLines (text ++ y) = init ++ splitLines (line ++ y) := by
  induction text using List.reverseRecOn with
  | nil => exact ⟨[], [], by simp, by simp, fun y => rfl⟩
  | append_singleton text c ih =>
    by_cases hc : c = lf
    · subst hc
      refine ⟨splitLines text, [], by simp, by simp, fun y => ?_⟩
      rw [append_assoc, singleton_append, splitLines_append_lf, nil_append]
    · obtain ⟨init, line, -, hline, hsplit⟩ := ih
      refine ⟨init, line ++ [c], by simp [hc], by simp [hline, Ne.symm hc], fun y => ?_⟩
      rw [append_assoc, hsplit, append_assoc]

section

variable {maxLines maxBytes : Nat} {text tail : JsString} {init back : List JsString}

theorem collected_of_stops (hsplit : splitLines text = init ++ splitLines tail)
    (hstops : ¬ Fits maxLines maxBytes tail) :
    collected maxLines maxBytes text = collected maxLines maxBytes tail := by
  rw [Fits, Decidable.not_and_iff_not_or_not] at hstops
  have hweight := weight_splitLines tail
  rw [collected, hsplit, reverse_append]
  refine collectTail_of_stops (by simp) ?_ _
  rw [weight_reverse, length_reverse, weight_nil, length_nil]
  omega

theorem collected_of_long (hlines : 1 ≤ maxLines) (hsplit : splitLines text = init ++ [line])
    (hlong : maxBytes < Utf8.byteLength line) :
    collected maxLines maxBytes text = ⟨[truncateStringToBytesFromEnd line maxBytes],
      Utf8.byteLength (truncateStringToBytesFromEnd line maxBytes), .bytes, true⟩ := by
  have hmore : ¬ maxLines ≤ ([] : List JsString).length := by
    rw [length_nil]
    omega
  have hweight : maxBytes + 1 < weight [line] := by
    rw [weight_cons, weight_nil]
    omega
  rw [collected, hsplit, reverse_append, reverse_singleton, singleton_append,
    collectTail_fitting, if_neg hmore, if_pos hweight, if_pos rfl]

theorem collected_of_fits (hsplit : splitLines text = init ++ line :: splitLines tail)
    (hfits : Fits maxLines maxBytes tail) (hlong : maxBytes + 1 < weight (line :: splitLines tail))
    :
    (collected maxLines maxBytes text).outputLinesArr = splitLines tail ∧
      hit maxLines maxBytes (collected maxLines maxBytes text) =
        if maxLines = (splitLines tail).length then .lines else .bytes := by
  obtain ⟨hcount, hbytes⟩ := hfits
  have hweight := weight_splitLines tail
  have hcollected : collected maxLines maxBytes text = collectTail maxLines maxBytes
      (fitting (splitLines tail)) (line :: init.reverse) := by
    have hreverse : (init ++ line :: splitLines tail).reverse =
        (splitLines tail).reverse ++ line :: init.reverse := by simp
    rw [collected, hsplit, hreverse, collectTail_of_fits (by simpa using hcount)
      (by rw [weight_reverse, weight_nil]; omega), reverse_reverse, append_nil]
  rw [hcollected, collectTail_fitting]
  by_cases hfull : maxLines = (splitLines tail).length
  · have hall : maxLines ≤ (fitting (splitLines tail)).outputLinesArr.length ∧
        (fitting (splitLines tail)).outputBytesCount ≤ maxBytes :=
      ⟨Nat.le_of_eq hfull, by rw [fitting]; dsimp only; omega⟩
    rw [if_pos (Nat.le_of_eq hfull), if_pos hfull, hit, if_pos hall]
    exact ⟨rfl, rfl⟩
  · have hmore : ¬ maxLines ≤ (splitLines tail).length := by omega
    rw [if_neg hmore, if_pos hlong, if_neg (splitLines_ne_nil tail), if_neg hfull, hit,
      if_neg fun hall => hmore hall.1]
    exact ⟨rfl, rfl⟩

theorem not_masked_of_lines {kept : Nat} (hlines : 1 ≤ maxLines)
    (hsplit : splitLines text = init ++ back)
    (hlong : back.length ≤ maxLines → maxBytes + 1 < weight back)
    (hkept : maxLines < back.length → weight back ≤ kept + 1) :
    ¬ Masked maxLines maxBytes text kept := by
  rintro ⟨-, hfits, hcut⟩
  have hlast := byteLength_lastLines hlines text
  have hnext := byteLength_lastLines (Nat.le_add_left 1 maxLines) text
  have hback : lastWeight back.length (splitLines text) = weight back := by
    rw [hsplit, lastWeight_append]
  by_cases hcount : back.length ≤ maxLines
  · have hmono := lastWeight_mono hcount (splitLines text)
    have := hlong hcount
    omega
  · have hmono := lastWeight_mono (Nat.succ_le_of_lt (Nat.not_le.mp hcount)) (splitLines text)
    have := hkept (Nat.not_le.mp hcount)
    rw [Nat.succ_eq_add_one] at hmono
    omega

theorem truncateStringToBytesFromEnd_append (x : JsString) (hwhole : Utf8.Whole tail)
    (hlong : maxBytes < Utf8.byteLength tail) : truncateStringToBytesFromEnd (x ++ tail) maxBytes =
      truncateStringToBytesFromEnd tail maxBytes := by
  have hencode := Utf8.encode_append (x := x) hwhole.head
  have hlen : maxBytes < (Utf8.encode tail).length := hlong
  have hstart : (Utf8.encode x).length + (Utf8.encode tail).length - maxBytes =
      (Utf8.encode x).length + ((Utf8.encode tail).length - maxBytes) := by omega
  rw [truncateStringToBytesFromEnd, truncateStringToBytesFromEnd, hencode, length_append,
    if_neg (by omega), if_neg (by omega), hstart, Utf8.charBoundary_append,
    drop_length_add_append]

end

/-- The reason that a snapshot gives, from the totals and the reason for its tail. -/
def reason (maxLines maxBytes totalLines totalBytes : Nat) (tail : Option TruncatedBy) :
    Option TruncatedBy :=
  if totalLines > maxLines || totalBytes > maxBytes then
    some (tail.getD (if totalBytes > maxBytes then .bytes else .lines))
  else none

section

variable {maxLines maxBytes : Nat} {text tail : JsString}

theorem reason_of_not_fits (h : ¬ Fits maxLines maxBytes text) (tail : Option TruncatedBy) :
    reason maxLines maxBytes (splitLines text).length (Utf8.byteLength text) tail =
      some (tail.getD (if Utf8.byteLength text > maxBytes then .bytes else .lines)) := by
  rw [Fits, Decidable.not_and_iff_not_or_not] at h
  have hover : ((splitLines text).length > maxLines || Utf8.byteLength text > maxBytes) = true := by
    rw [Bool.or_eq_true, decide_eq_true_iff, decide_eq_true_iff]
    omega
  rw [reason, if_pos hover]

/-- The tail is cut to the content that the text is cut to. -/
def SameContent (maxLines maxBytes : Nat) (text tail : JsString) : Prop :=
  (truncateTail tail ⟨some maxLines, some maxBytes⟩).content =
    (truncateTail text ⟨some maxLines, some maxBytes⟩).content

/-- The reason that is told of the cut tail is that of the text. -/
def SameReason (maxLines maxBytes : Nat) (text tail : JsString) : Prop :=
  reason maxLines maxBytes (splitLines text).length (Utf8.byteLength text)
      (truncateTail tail ⟨some maxLines, some maxBytes⟩).truncatedBy =
    (truncateTail text ⟨some maxLines, some maxBytes⟩).truncatedBy

theorem same_of_collected (htext : ¬ Fits maxLines maxBytes text)
    (htail : ¬ Fits maxLines maxBytes tail)
    (h : collected maxLines maxBytes text = collected maxLines maxBytes tail) :
    SameContent maxLines maxBytes text tail ∧ SameReason maxLines maxBytes text tail := by
  obtain ⟨hcontent, hreason⟩ := truncateTail_of_not_fits htext
  obtain ⟨hcontent', hreason'⟩ := truncateTail_of_not_fits htail
  rw [SameContent, SameReason, reason_of_not_fits htext, hcontent, hcontent', hreason, hreason', h]
  exact ⟨rfl, rfl⟩

theorem same_of_whole (text : JsString) : SameReason maxLines maxBytes text text := by
  by_cases hfits : Fits maxLines maxBytes text
  · have hover : ¬ ((splitLines text).length > maxLines || Utf8.byteLength text > maxBytes) =
        true := by
      rw [Bool.or_eq_true, decide_eq_true_iff, decide_eq_true_iff]
      obtain ⟨hcount, hbytes⟩ := hfits
      omega
    rw [SameReason, (truncateTail_of_fits hfits).2, reason, if_neg hover]
  · exact (same_of_collected hfits hfits rfl).2

theorem not_masked_of_whole : ¬ Masked maxLines maxBytes text (Utf8.byteLength text) := by
  rintro ⟨hcount, -, hcut⟩
  have hnext := byteLength_lastLines (Nat.le_add_left 1 maxLines) text
  have hmono := lastWeight_mono hcount (splitLines text)
  have hall : lastWeight (splitLines text).length (splitLines text) = weight (splitLines text) :=
    lastWeight_append [] (splitLines text)
  have hweight := weight_splitLines text
  rw [Nat.succ_eq_add_one] at hmono
  omega

theorem agrees_of_boundary (hlines : 1 ≤ maxLines) (htext : maxBytes < Utf8.byteLength text)
    (htail : maxBytes < Utf8.byteLength tail) (hsplit : splitLines text = init ++ splitLines tail) :
    (SameContent maxLines maxBytes text tail ∧ SameReason maxLines maxBytes text tail) ∧
      ¬ Masked maxLines maxBytes text (Utf8.byteLength tail) := by
  have hnot : ¬ Fits maxLines maxBytes tail := fun h => absurd h.2 (Nat.not_le.mpr htail)
  have hnot' : ¬ Fits maxLines maxBytes text := fun h => absurd h.2 (Nat.not_le.mpr htext)
  have hweight := weight_splitLines tail
  exact ⟨same_of_collected hnot' hnot (collected_of_stops hsplit hnot),
    not_masked_of_lines hlines hsplit (fun _ => by omega) (fun _ => by omega)⟩

theorem agrees_of_line (hlines : 1 ≤ maxLines) (htext : maxBytes < Utf8.byteLength text)
    (htail : maxBytes < Utf8.byteLength tail) (hwhole : Utf8.Whole tail) (hlf : lf ∉ tail)
    (hsplit : splitLines text = init ++ [line ++ tail]) :
    (SameContent maxLines maxBytes text tail ∧ SameReason maxLines maxBytes text tail) ∧
      ¬ Masked maxLines maxBytes text (Utf8.byteLength tail) := by
  have hnot : ¬ Fits maxLines maxBytes tail := fun h => absurd h.2 (Nat.not_le.mpr htail)
  have hnot' : ¬ Fits maxLines maxBytes text := fun h => absurd h.2 (Nat.not_le.mpr htext)
  have hbytes : Utf8.byteLength (line ++ tail) = Utf8.byteLength line + Utf8.byteLength tail :=
    Utf8.byteLength_append hwhole.head
  have hlong : maxBytes < Utf8.byteLength (line ++ tail) := by omega
  have htailSplit : splitLines tail = [] ++ [tail] := splitLines_line hlf
  have hsame : collected maxLines maxBytes text = collected maxLines maxBytes tail := by
    rw [collected_of_long hlines hsplit hlong, collected_of_long hlines htailSplit htail,
      truncateStringToBytesFromEnd_append line hwhole htail]
  refine ⟨same_of_collected hnot' hnot hsame, not_masked_of_lines hlines hsplit (fun _ => ?_)
    fun hcount => ?_⟩
  · rw [weight_cons, weight_nil]
    omega
  · rw [length_singleton] at hcount
    omega

theorem agrees_of_dropped {part rest : JsString} (hlines : 1 ≤ maxLines)
    (htext : maxBytes < Utf8.byteLength text)
    (htail : maxBytes < Utf8.byteLength (part ++ lf :: rest))
    (hpart : ∀ d, part.head? = some d → Json.isLowSurrogate d = false)
    (hline : 0 < Utf8.byteLength line)
    (hsplit : splitLines text = init ++ (line ++ part) :: splitLines rest) :
    SameContent maxLines maxBytes text rest ∧ (SameReason maxLines maxBytes text rest ↔
        ¬ Masked maxLines maxBytes text (Utf8.byteLength (part ++ lf :: rest))) := by
  have hnot' : ¬ Fits maxLines maxBytes text := fun h => absurd h.2 (Nat.not_le.mpr htext)
  have hbytes : Utf8.byteLength (part ++ lf :: rest) =
      Utf8.byteLength part + 1 + Utf8.byteLength rest := Utf8.byteLength_lf part rest
  have hcut : Utf8.byteLength (line ++ part) = Utf8.byteLength line + Utf8.byteLength part :=
    Utf8.byteLength_append hpart
  have hweight := weight_splitLines rest
  have hlong : maxBytes + 1 < weight ((line ++ part) :: splitLines rest) := by
    rw [weight_cons]
    omega
  have hsplit' : splitLines text = (init ++ [line ++ part]) ++ splitLines rest := by
    rw [hsplit, append_assoc, singleton_append]
  by_cases hfits : Fits maxLines maxBytes rest
  · obtain ⟨hcontent, hreason⟩ := truncateTail_of_not_fits hnot'
    obtain ⟨hcontent', hreason'⟩ := truncateTail_of_fits hfits
    obtain ⟨hout, hhit⟩ := collected_of_fits hsplit hfits hlong
    rw [SameContent, SameReason, hcontent, hcontent', hreason, hreason', hout, hhit,
      joinLines_splitLines, reason_of_not_fits hnot', Option.getD_none, if_pos htext,
      Option.some_inj]
    refine ⟨rfl, ?_⟩
    by_cases hfull : maxLines = (splitLines rest).length
    · rw [if_pos hfull]
      refine iff_of_false (fun h => TruncatedBy.noConfusion h) (not_not_intro ⟨?_, ?_, ?_⟩)
      · rw [hsplit, length_append, length_cons]
        omega
      · have hlast := byteLength_lastLines hlines text
        have hrest : lastWeight maxLines (splitLines text) = weight (splitLines rest) := by
          rw [hfull, hsplit', lastWeight_append]
        have := hfits.2
        omega
      · have hlast := byteLength_lastLines (Nat.le_add_left 1 maxLines) text
        have hrest : lastWeight (maxLines + 1) (splitLines text) =
            weight ((line ++ part) :: splitLines rest) := by
          rw [hfull, hsplit, ← length_cons (a := line ++ part), lastWeight_append]
        rw [weight_cons] at hrest
        omega
    · rw [if_neg hfull]
      refine iff_of_true rfl (not_masked_of_lines hlines hsplit (fun _ => hlong) fun hcount => ?_)
      have := hfits.1
      rw [length_cons] at hcount
      omega
  · obtain ⟨hcontent, hreason⟩ := same_of_collected hnot' hfits (collected_of_stops hsplit' hfits)
    refine ⟨hcontent, iff_of_true hreason (not_masked_of_lines hlines hsplit' (fun hcount => ?_)
      fun _ => by omega)⟩
    rw [Fits, Decidable.not_and_iff_not_or_not] at hfits
    omega

end

theorem snapshot_tail {self : OutputAccumulator} {text front : JsString} {maxLines maxBytes : Nat}
    (hlines : 1 ≤ maxLines) (htext : text = front ++ self.tailText)
    (hwhole : Utf8.Whole self.tailText)
    (hboundary : self.tailStartsAtLineBoundary = true ↔ front = [] ∨ front.getLast? = some lf)
    (hlong : front = [] ∨ maxBytes < Utf8.byteLength self.tailText) :
    (truncateTail self.getSnapshotText ⟨some maxLines, some maxBytes⟩).content =
        (truncateTail text ⟨some maxLines, some maxBytes⟩).content ∧
      (reason maxLines maxBytes (splitLines text).length (Utf8.byteLength text)
          (truncateTail self.getSnapshotText ⟨some maxLines, some maxBytes⟩).truncatedBy =
        (truncateTail text ⟨some maxLines, some maxBytes⟩).truncatedBy ↔
      ¬ Masked maxLines maxBytes text (Utf8.byteLength self.tailText)) := by
  rcases hlong with rfl | htail
  · have hall : text = self.tailText := htext
    rw [getSnapshotText, if_pos (hboundary.mpr (.inl rfl)), ← hall]
    exact ⟨rfl, iff_of_true (same_of_whole text) not_masked_of_whole⟩
  have hbytes : Utf8.byteLength text = Utf8.byteLength front + Utf8.byteLength self.tailText := by
    rw [htext, Utf8.byteLength_append hwhole.head]
  have hover : maxBytes < Utf8.byteLength text := by omega
  obtain ⟨init, line, hnil, hno, hsplit⟩ := exists_lastLine front
  by_cases hstart : self.tailStartsAtLineBoundary = true
  · have hline : line = [] := hnil.mpr (hboundary.mp hstart)
    have htextSplit : splitLines text = init ++ splitLines self.tailText := by
      rw [htext, hsplit, hline, nil_append]
    obtain ⟨⟨hcontent, hreason⟩, hmasked⟩ := agrees_of_boundary hlines hover htail htextSplit
    rw [getSnapshotText, if_pos hstart]
    exact ⟨hcontent, iff_of_true hreason hmasked⟩
  · have hline : line ≠ [] := fun h => hstart (hboundary.mpr (hnil.mp h))
    rw [getSnapshotText, if_neg hstart]
    cases hidx : self.tailText.idxOf? lf with
    | none =>
      have hlf : lf ∉ self.tailText := idxOf?_eq_none_iff.mp hidx
      have hall : lf ∉ line ++ self.tailText := by
        rw [mem_append, not_or]
        exact ⟨hno, hlf⟩
      have htextSplit : splitLines text = init ++ [line ++ self.tailText] := by
        rw [htext, hsplit, splitLines_line hall]
      obtain ⟨⟨hcontent, hreason⟩, hmasked⟩ :=
        agrees_of_line hlines hover htail hwhole hlf htextSplit
      exact ⟨hcontent, iff_of_true hreason hmasked⟩
    | some firstNewline =>
      obtain ⟨part, htailSplit, hlf⟩ : ∃ part, self.tailText =
          part ++ lf :: self.tailText.drop (firstNewline + 1) ∧ lf ∉ part := by
        obtain ⟨hlt, hget, hfirst⟩ := idxOf?_eq_some_iff.mp hidx
        refine ⟨self.tailText.take firstNewline, ?_, fun hmem => ?_⟩
        · conv => lhs; rw [← take_append_drop firstNewline self.tailText]
          rw [drop_eq_getElem_cons hlt, hget]
        · obtain ⟨j, hj, hgetj⟩ := mem_iff_getElem.mp hmem
          rw [length_take] at hj
          rw [getElem_take] at hgetj
          exact hfirst j (by omega) hgetj
      dsimp only
      generalize hrest : self.tailText.drop (firstNewline + 1) = rest at htailSplit
      have hall : lf ∉ line ++ part := by
        rw [mem_append, not_or]
        exact ⟨hno, hlf⟩
      have htextSplit : splitLines text = init ++ (line ++ part) :: splitLines rest := by
        rw [htext, hsplit, htailSplit, ← append_assoc, splitLines_append_lf, splitLines_line hall]
        rfl
      have hpart (d : CodeUnit) (hd : part.head? = some d) : Json.isLowSurrogate d = false := by
        refine hwhole.head d ?_
        rw [htailSplit, head?_append, hd]
        rfl
      rw [htailSplit] at htail ⊢
      exact agrees_of_dropped hlines hover htail hpart (Utf8.byteLength_pos hline) htextSplit

end OutputAccumulator

end AcademicAgent
