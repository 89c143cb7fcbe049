import AcademicAgent.CodingAgent.Tools.TruncateLimits

/-!
# Pages of the read tool

The read tool gives the lines of a text file from an offset on, as many as its limits allow, and
says in a notice where the next page starts.
-/

namespace AcademicAgent

open List

namespace ReadTool

open Truncate

/-- The parameters of a call, as far as text files go; offsets count from one. -/
structure ReadParams where
  path : JsString
  offset : Option Nat
  limit : Option Nat

/-- A quotient with one decimal, halves rounded up. -/
def toFixed1 (n d : Nat) : JsString :=
  let tenths := (20 * n + d) / (2 * d)
  decimalText (tenths / 10) ++ js "." ++ decimalText (tenths % 10)

def formatSize (bytes : Nat) : JsString :=
  if bytes < 1024 then decimalText bytes ++ js "B"
  else if bytes < 1024 * 1024 then toFixed1 bytes 1024 ++ js "KB"
  else toFixed1 bytes (1024 * 1024) ++ js "MB"

/-- The branches in which the text of an answer is made, with what its notice says. -/
inductive ReadPage where
  | firstLineExceeds (line size : Nat) (path : JsString)
  | truncated (content : JsString) (startLine endLine totalFileLines : Nat) 
      (truncatedBy : Option TruncatedBy) (nextOffset : Nat)
  | limited (content : JsString) (remaining nextOffset : Nat)
  | whole (content : JsString)
  deriving DecidableEq

/-- The lines of the file on a page. -/
def ReadPage.content : ReadPage → JsString
  | .firstLineExceeds .. => []
  | .truncated content .. | .limited content .. | .whole content => content

/-- The offset in the notice of a page. -/
def ReadPage.nextOffset : ReadPage → Option Nat
  | .truncated _ _ _ _ _ nextOffset | .limited _ _ nextOffset => some nextOffset
  | _ => none

/-- `outputText`. -/
def ReadPage.outputText : ReadPage → JsString
  | .firstLineExceeds line size path =>
    js "[Line " ++ decimalText line ++ js " is " ++ formatSize size ++ js ", exceeds " ++
      formatSize DEFAULT_MAX_BYTES ++ js " limit. Use bash: sed -n '" ++ decimalText line ++
      js "p' " ++ path ++ js " | head -c " ++ decimalText DEFAULT_MAX_BYTES ++ js "]"
  | .truncated content startLine endLine totalFileLines truncatedBy nextOffset =>
    content ++ js "\n\n[Showing lines " ++ decimalText startLine ++ js "-" ++
      decimalText endLine ++ js " of " ++ decimalText totalFileLines ++
      (if truncatedBy = some .lines then []
        else js " (" ++ formatSize DEFAULT_MAX_BYTES ++ js " limit)") ++
      js ". Use offset=" ++ decimalText nextOffset ++ js " to continue.]"
  | .limited content remaining nextOffset =>
    content ++ js "\n\n[" ++ decimalText remaining ++ js " more lines in file. Use offset=" ++
      decimalText nextOffset ++ js " to continue.]"
  | .whole content => content

/-- The text of an answer, and the truncation its details hold. -/
structure ReadResult where
  page : ReadPage
  truncation : Option TruncationResult

/-- The answer for a truncation of the selected lines. -/
def answer (allLines : List JsString) (path : JsString) (startLine : Nat)
    (userLimitedLines : Option Nat) (truncation : TruncationResult) : ReadResult :=
  let startLineDisplay := startLine + 1
  if truncation.firstLineExceedsLimit then
    ⟨.firstLineExceeds startLineDisplay (Utf8.byteLength (allLines.getD startLine [])) path,
      some truncation⟩
  else if truncation.truncated then
    let endLineDisplay := startLineDisplay + truncation.outputLines - 1
    ⟨.truncated truncation.content startLineDisplay endLineDisplay allLines.length
      truncation.truncatedBy (endLineDisplay + 1), some truncation⟩
  else match userLimitedLines with
    | some lines =>
      if startLine + lines < allLines.length then
        ⟨.limited truncation.content (allLines.length - (startLine + lines))
          (startLine + lines + 1), none⟩
      else ⟨.whole truncation.content, none⟩
    | none => ⟨.whole truncation.content, none⟩

/-- `execute`, once the text of the file is read. -/
def execute (textContent : JsString) (params : ReadParams) : Except JsString ReadResult :=
  let allLines := splitLines textContent
  let startLine := params.offset.getD 0 - 1
  if allLines.length ≤ startLine then
    .error (js "Offset " ++ decimalText (params.offset.getD 0) ++ js " is beyond end of file (" ++
      decimalText allLines.length ++ js " lines total)")
  else
    match params.limit with
    | some limit =>
      let endLine := min (startLine + limit) allLines.length
      let selectedContent := joinLines ((allLines.drop startLine).take (endLine - startLine))
      .ok (answer allLines params.path startLine (some (endLine - startLine))
        (truncateHead selectedContent ⟨none, none⟩))
    | none =>
      let selectedContent := joinLines (allLines.drop startLine)
      .ok (answer allLines params.path startLine none (truncateHead selectedContent ⟨none, none⟩))

/-- The pages from an offset on, each call with a limit of its own; no value when the calls run
out. -/
def followNotices (textContent path : JsString) (limits : Nat → Option Nat) :
    Nat → Nat → Nat → Option (Except JsString (List ReadPage))
  | 0, _, _ => none
  | calls + 1, call, offset =>
    match execute textContent ⟨path, some offset, limits call⟩ with
    | .error e => some (.error e)
    | .ok result =>
      match result.page.nextOffset with
      | none => some (.ok [result.page])
      | some next => (followNotices textContent path limits calls (call + 1) next).map
          (Except.map (result.page :: ·))

/-- The page has `n` of the lines, after the first `done`, and its notice says which and where
the next page starts. -/
structure PageExact (lines : List JsString) (done n : Nat) (page : ReadPage) : Prop where
  content : page.content = joinLines ((lines.drop done).take n)
  pos : 0 < n
  le : done + n ≤ lines.length
  notice : match page with
    | .firstLineExceeds .. => False
    | .truncated _ startLine endLine totalFileLines _ nextOffset =>
      startLine = done + 1 ∧ endLine = done + n ∧ totalFileLines = lines.length ∧
        nextOffset = endLine + 1 ∧ endLine < lines.length
    | .limited _ remaining nextOffset =>
      0 < remaining ∧ done + n + remaining = lines.length ∧ nextOffset = done + n + 1
    | .whole _ => done + n = lines.length

/-- Every page continues the one before it, until all lines are read. -/
inductive PagesExact (lines : List JsString) : Nat → List ReadPage → Prop where
  | nil {done : Nat} (all : done = lines.length) : PagesExact lines done []
  | cons {done n : Nat} {page : ReadPage} {pages : List ReadPage}
      (exact_page : PageExact lines done n page) (rest : PagesExact lines (done + n) pages) :
      PagesExact lines done (page :: pages)

theorem splitLines_joinLines {lines : List JsString} (hlf : ∀ line ∈ lines, lf ∉ line)
    (hne : lines ≠ []) : splitLines (joinLines lines) = lines :=
  splitOn_intercalate lf hlf hne

theorem joinLines_append {xs ys : List JsString} (hx : xs ≠ []) (hy : ys ≠ []) :
    joinLines (xs ++ ys) = joinLines xs ++ lf :: joinLines ys := by
  induction xs with
  | nil => contradiction
  | cons x xs ih =>
    cases xs with
    | nil =>
      obtain ⟨y, ys, rfl⟩ := exists_cons_of_ne_nil hy
      rw [singleton_append, joinLines_cons_cons, joinLines_singleton]
    | cons x' xs =>
      rw [cons_append, cons_append, joinLines_cons_cons, joinLines_cons_cons, append_assoc,
        cons_append, ← ih (cons_ne_nil _ _), cons_append]

/-- No first line is reported too long where lines are kept. -/
theorem outputLines_of_firstLineExceedsLimit {content : JsString} {options : TruncationOptions}
    (h : (truncateHead content options).firstLineExceedsLimit = true) :
    (truncateHead content options).outputLines = 0 := by
  rw [truncateHead] at h ⊢
  dsimp only at h ⊢
  split_ifs at h ⊢
  rfl

/-- A positive number of the lines is kept, all of them exactly where no truncation is reported. -/
structure Kept (lines : List JsString) (r : TruncationResult) : Prop where
  pos : 0 < r.outputLines
  le : r.outputLines ≤ lines.length
  content : r.content = joinLines (lines.take r.outputLines)
  firstLineExceedsLimit : r.firstLineExceedsLimit = false
  truncated_iff : r.truncated = true ↔ r.outputLines < lines.length

theorem truncateHead_kept {lines : List JsString} (hlf : ∀ line ∈ lines, lf ∉ line)
    (hne : lines ≠ []) (hshort : ∀ line ∈ lines, Utf8.byteLength line ≤ DEFAULT_MAX_BYTES) :
    Kept lines (truncateHead (joinLines lines) ⟨none, none⟩) := by
  obtain ⟨htotals, hlines⟩ := headHonest (joinLines lines) ⟨none, none⟩
  rw [splitLines_joinLines hlf hne] at hlines
  have hpos : 0 < (truncateHead (joinLines lines) ⟨none, none⟩).outputLines := by
    by_contra hzero
    obtain ⟨line, rest, rfl⟩ := exists_cons_of_ne_nil hne
    refine hlines.maximal 1 (by omega) (by rw [length_cons]; omega) ⟨by decide, ?_⟩
    rw [headLines, splitLines_joinLines hlf hne, take_succ_cons, take_zero, joinLines_singleton]
    exact hshort line mem_cons_self
  refine ⟨hpos, hlines.outputLines_le, ?_, ?_, ?_⟩
  · rw [hlines.content, headLines, splitLines_joinLines hlf hne]
  · by_contra hfirst
    rw [Bool.not_eq_false] at hfirst
    exact absurd (outputLines_of_firstLineExceedsLimit hfirst) (by omega)
  · have hreason := hlines.reason
    rw [htotals.truncated]
    cases hwhy : (truncateHead (joinLines lines) ⟨none, none⟩).truncatedBy with
    | none =>
      rw [hwhy] at hreason
      exact ⟨fun h => absurd h Bool.false_ne_true, fun h => absurd hreason (Nat.ne_of_lt h)⟩
    | some why =>
      rw [hwhy] at hreason
      cases why with
      | lines | bytes => exact ⟨fun _ => hreason.1, fun _ => rfl⟩

section

variable {lines : List JsString} {done : Nat}

/-- The answer for what is kept of `k` lines is exact. -/
theorem answer_exact {r : TruncationResult} {k : Nat} {userLimitedLines : Option Nat}
    (hkept : Kept ((lines.drop done).take k) r) (hk : done + k ≤ lines.length)
    (hlimited : userLimitedLines = some k ∨ userLimitedLines = none ∧ done + k = lines.length)
    (path : JsString) :
    PageExact lines done r.outputLines (answer lines path done userLimitedLines r).page ∧
      (answer lines path done userLimitedLines r).page.nextOffset =
        if done + r.outputLines < lines.length then some (done + r.outputLines + 1) else none := by
  have hlength : ((lines.drop done).take k).length = k := by
    rw [length_take, length_drop]
    omega
  obtain ⟨hpos, hle, hcontent, hfirst, htruncated⟩ := hkept
  rw [hlength] at hle htruncated
  rw [take_take, Nat.min_eq_left hle] at hcontent
  unfold answer
  rw [hfirst, if_neg Bool.false_ne_true]
  by_cases htrunc : r.truncated = true
  · have hlt := htruncated.mp htrunc
    rw [if_pos htrunc, if_pos (by omega)]
    refine ⟨⟨hcontent, hpos, by omega, ?_⟩, ?_⟩
    · exact ⟨rfl, by omega, rfl, rfl, by omega⟩
    · exact congrArg some (by omega)
  · have heq : r.outputLines = k := by
      have := mt htruncated.mpr htrunc
      omega
    rw [heq] at hcontent hpos ⊢
    rw [if_neg htrunc]
    rcases hlimited with rfl | ⟨rfl, hall⟩
    · dsimp only
      split
      all_goals next hmore => exact ⟨⟨hcontent, hpos, hk, by dsimp only; omega⟩, rfl⟩
    · rw [if_neg (by omega)]
      exact ⟨⟨hcontent, hpos, hk, hall⟩, rfl⟩

end

section

variable {textContent : JsString}
  (hshort : ∀ line ∈ splitLines textContent, Utf8.byteLength line ≤ DEFAULT_MAX_BYTES)
include hshort

/-- A page within the file is exact, and names the next one until the file is read. -/
theorem execute_exact {limit : Option Nat} {done : Nat} (hlimit : ∀ l, limit = some l → 0 < l)
    (hdone : done < (splitLines textContent).length) (path : JsString) :
    ∃ result n, execute textContent ⟨path, some (done + 1), limit⟩ = .ok result ∧
      PageExact (splitLines textContent) done n result.page ∧
      result.page.nextOffset =
        if done + n < (splitLines textContent).length then some (done + n + 1) else none := by
  have hkept : ∀ k, 0 < k → done + k ≤ (splitLines textContent).length →
      Kept (((splitLines textContent).drop done).take k)
        (truncateHead (joinLines (((splitLines textContent).drop done).take k)) ⟨none, none⟩) := by
    intro k hk hle
    have hmem : ∀ line ∈ ((splitLines textContent).drop done).take k,
        line ∈ splitLines textContent := fun line h => mem_of_mem_drop (mem_of_mem_take h)
    refine truncateHead_kept
      (fun line h => separator_notMem_splitOn lf textContent line (hmem line h))
      (ne_nil_of_length_pos ?_) (fun line h => hshort line (hmem line h))
    rw [length_take, length_drop]
    omega
  have hstart : (some (done + 1)).getD 0 - 1 = done := rfl
  cases limit with
  | some l =>
    have hl := hlimit l rfl
    have h := answer_exact (hkept (min (done + l) (splitLines textContent).length - done)
      (by omega) (by omega)) (by omega) (.inl rfl) path
    refine ⟨_, _, ?_, h⟩
    rw [execute]
    rw [hstart, if_neg (by omega)]
  | none =>
    have h := answer_exact (hkept ((splitLines textContent).length - done) (by omega) (by omega))
      (by omega) (.inr ⟨rfl, by omega⟩) path
    refine ⟨_, _, ?_, h⟩
    rw [execute]
    rw [hstart, if_neg (by omega), take_of_length_le (by rw [length_drop])]

/-- The calls that follow the notices end within the number of lines left, and their pages are
exact. -/
theorem followNotices_exact {limits : Nat → Option Nat} (hlimits : ∀ i l, limits i = some l → 0 < l)
    (path : JsString) (calls : Nat) :
    ∀ call done, done < (splitLines textContent).length →
      (splitLines textContent).length ≤ done + calls →
      ∃ pages, followNotices textContent path limits calls call (done + 1) = some (.ok pages) ∧
        PagesExact (splitLines textContent) done pages := by
  induction calls with
  | zero => omega
  | succ calls ih =>
    intro call done hdone hcalls
    obtain ⟨result, n, hresult, hpage, hnext⟩ :=
      execute_exact hshort (hlimits call) hdone path
    rw [followNotices, hresult]
    dsimp only
    rw [hnext]
    by_cases hmore : done + n < (splitLines textContent).length
    · obtain ⟨pages, hpages, hexact⟩ := ih (call + 1) (done + n) hmore (by
        have := hpage.pos
        omega)
      rw [if_pos hmore]
      dsimp only
      exact ⟨result.page :: pages, by rw [hpages]; rfl, .cons hpage hexact⟩
    · rw [if_neg hmore]
      have hall : done + n = (splitLines textContent).length := by
        have := hpage.le
        omega
      exact ⟨[result.page], rfl, .cons hpage (.nil hall)⟩

end

theorem PagesExact.joinLines_content {lines : List JsString} {done : Nat} {pages : List ReadPage}
    (h : PagesExact lines done pages) (hdone : done < lines.length) :
    joinLines (pages.map ReadPage.content) = joinLines (lines.drop done) := by
  induction h with
  | nil hall => omega
  | @cons done n page pages hpage hrest ih =>
    rw [map_cons, hpage.content]
    cases hrest with
    | nil hall =>
      rw [map_nil, joinLines_singleton, take_of_length_le]
      rw [length_drop]
      omega
    | cons hnext hrest =>
      have hmore : done + n < lines.length := by
        have := hnext.pos
        have := hnext.le
        omega
      have hsplit : (lines.drop done).take n ++ lines.drop (done + n) = lines.drop done := by
        rw [← drop_drop, take_append_drop]
      rw [map_cons, joinLines_cons_cons, ← map_cons, ih hmore, ← joinLines_append, hsplit]
      · refine ne_nil_of_length_pos ?_
        have := hpage.pos
        rw [length_take, length_drop]
        omega
      · refine ne_nil_of_length_pos ?_
        rw [length_drop]
        omega

/-- Following the notices from the first line ends with no error, the pages are the text of the
file, and what the notices say of lines is exact. -/
theorem paging_lossless (textContent path : JsString) (limits : Nat → Option Nat)
    (hshort : ∀ line ∈ splitLines textContent, Utf8.byteLength line ≤ DEFAULT_MAX_BYTES)
    (hlimits : ∀ i l, limits i = some l → 0 < l) : ∃ pages,
      followNotices textContent path limits (splitLines textContent).length 0 1 = some (.ok pages) ∧
      joinLines (pages.map ReadPage.content) = textContent ∧
      PagesExact (splitLines textContent) 0 pages := by
  have hpos : 0 < (splitLines textContent).length :=
    length_pos_iff.mpr (splitLines_ne_nil textContent)
  obtain ⟨pages, hpages, hexact⟩ := followNotices_exact hshort hlimits path _ 0 0 hpos
    (by rw [Nat.zero_add])
  refine ⟨pages, hpages, ?_, hexact⟩
  rw [hexact.joinLines_content hpos, drop_zero, joinLines_splitLines]

theorem paging_lossless_one_line_pages : ∃ pages,
      followNotices (js "a\nb\n") (js "notes.txt") (fun _ => some 1)
          (splitLines (js "a\nb\n")).length 0 1 = some (.ok pages) ∧
        joinLines (pages.map ReadPage.content) = js "a\nb\n" ∧
        PagesExact (splitLines (js "a\nb\n")) 0 pages :=
  paging_lossless (js "a\nb\n") (js "notes.txt") (fun _ => some 1) (by decide)
    (fun _ _ h => Option.some.inj h ▸ Nat.one_pos)

end ReadTool

end AcademicAgent
