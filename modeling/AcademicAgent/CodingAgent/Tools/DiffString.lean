import AcademicAgent.CodingAgent.Tools.Truncate

/-!
# The diff of an edit

`generateDiffString` prints the parts of a line diff with line numbers: changed lines with
those of their own side, and some unchanged lines around them with those of the old side.
-/

namespace AcademicAgent

variable {line : JsString}

namespace DiffString

open Truncate List

/-- A part of the result of `Diff.diffLines`. -/
structure Change where
  value : JsString
  added : Bool
  removed : Bool
  deriving DecidableEq

def Change.changed (part : Change) : Bool := part.added || part.removed

inductive Entry where
  | added (lineNum : Nat) (line : JsString)
  | removed (lineNum : Nat) (line : JsString)
  | context (lineNum : Nat) (line : JsString)
  | ellipsis
  deriving DecidableEq

/-- `text.padStart(width, " ")`. -/
def padStart (text : JsString) (width : Nat) : JsString :=
  replicate (width - text.length) 0x20 ++ text

def Entry.text (lineNumWidth : Nat) : Entry → JsString
  | .added lineNum line => js "+" ++ padStart (decimalText lineNum) lineNumWidth ++ js " " ++ line
  | .removed lineNum line => js "-" ++ padStart (decimalText lineNum) lineNumWidth ++ js " " ++ line
  | .context lineNum line => js " " ++ padStart (decimalText lineNum) lineNumWidth ++ js " " ++ line
  | .ellipsis => js " " ++ padStart [] lineNumWidth ++ js " ..."

/-- The variables of `generateDiffString`. -/
structure DiffState where
  output : List Entry
  oldLineNum : Nat
  newLineNum : Nat
  lastWasChange : Bool
  firstChangedLine : Option Nat

def rawLines (value : JsString) : List JsString :=
  let raw := splitLines value
  if raw.getLast? = some [] then raw.dropLast else raw

def pushChange (added : Bool) (s : DiffState) (line : JsString) : DiffState :=
  if added then
    { s with output := s.output ++ [.added s.newLineNum line], newLineNum := s.newLineNum + 1 }
  else { s with output := s.output ++ [.removed s.oldLineNum line], oldLineNum := s.oldLineNum + 1 }

def pushContext (s : DiffState) (line : JsString) : DiffState :=
  { s with
    output := s.output ++ [.context s.oldLineNum line]
    oldLineNum := s.oldLineNum + 1
    newLineNum := s.newLineNum + 1 }

def skip (s : DiffState) (skippedLines : Nat) : DiffState :=
  { s with
    output := s.output ++ [.ellipsis]
    oldLineNum := s.oldLineNum + skippedLines
    newLineNum := s.newLineNum + skippedLines }

/-- The unchanged lines between what comes before and behind them. -/
def contextStep (contextLines : Nat) (hasLeadingChange hasTrailingChange : Bool)
    (raw : List JsString) (s : DiffState) : DiffState :=
  if hasLeadingChange && hasTrailingChange then
    if raw.length ≤ contextLines * 2 then raw.foldl pushContext s
    else
      let leadingLines := raw.take contextLines
      let trailingLines := raw.drop (raw.length - contextLines)
      let skippedLines := raw.length - leadingLines.length - trailingLines.length
      trailingLines.foldl pushContext (skip (leadingLines.foldl pushContext s) skippedLines)
  else if hasLeadingChange then
    let shownLines := raw.take contextLines
    let skippedLines := raw.length - shownLines.length
    let s := shownLines.foldl pushContext s
    if 0 < skippedLines then skip s skippedLines else s
  else if hasTrailingChange then
    let skippedLines := raw.length - contextLines
    let s := if 0 < skippedLines then skip s skippedLines else s
    (raw.drop skippedLines).foldl pushContext s
  else
    { s with
      oldLineNum := s.oldLineNum + raw.length
      newLineNum := s.newLineNum + raw.length }

def step (contextLines : Nat) (s : DiffState) (part : Change) (next : Option Change) : DiffState :=
  let raw := rawLines part.value
  if part.changed then
    let firstChangedLine := s.firstChangedLine.or (some s.newLineNum)
    { raw.foldl (pushChange part.added) { s with firstChangedLine } with lastWasChange := true }
  else
    { contextStep contextLines s.lastWasChange (next.any Change.changed) raw s with
      lastWasChange := false }

def run (contextLines : Nat) (s : DiffState) : List Change → DiffState
  | [] => s
  | part :: rest => run contextLines (step contextLines s part rest.head?) rest

def printed (parts : List Change) (contextLines : Nat) : DiffState :=
  run contextLines ⟨[], 1, 1, false, none⟩ parts

def lineNumWidth (oldContent newContent : JsString) : Nat :=
  (decimalText (max (splitLines oldContent).length (splitLines newContent).length)).length

/-- The diff of two contents and its first changed line. -/
def generateDiffString (diffLines : JsString → JsString → List Change)
    (oldContent newContent : JsString) (contextLines : Nat) : JsString × Option Nat :=
  let s := printed (diffLines oldContent newContent) contextLines
  (joinLines (s.output.map (Entry.text (lineNumWidth oldContent newContent))), s.firstChangedLine)

def LineAt (content : JsString) (lineNum : Nat) (line : JsString) : Prop :=
  1 ≤ lineNum ∧ (splitLines content)[lineNum - 1]? = some line

section

variable (other changed : Change → Bool) (parts : List Change)

/-- The lines of the parts on one side, each with whether it is changed. -/
def labels : List (Bool × JsString) :=
  (parts.filter fun part => !other part).flatMap fun part =>
    (rawLines part.value).map fun line => (changed part, line)

/-- The changed lines of one side with their numbers. -/
def changedLines : List (Nat × JsString) :=
  ((labels other changed parts).zipIdx 1).filterMap fun p => if p.1.1 then some (p.2, p.1.2) else none

end

/-- The number, on the new side, of the first line that is changed. -/
def firstChange (parts : List Change) : Option Nat :=
  if parts.any Change.changed then
    some ((labels Change.removed Change.added
      (parts.takeWhile fun part => !part.changed)).length + 1)
  else none

/-- An ordered partition of the lines of both contents. -/
structure IsLineDiff (parts : List Change) (oldContent newContent : JsString) : Prop where
  exclusive : ∀ part ∈ parts, part.added = true → part.removed = false
  old : (parts.filter fun part => !part.added).flatMap Change.value = oldContent
  new : (parts.filter fun part => !part.removed).flatMap Change.value = newContent
  oldLines : ∀ part ∈ (parts.filter fun part => !part.added).dropLast, [lf] <:+ part.value
  newLines : ∀ part ∈ (parts.filter fun part => !part.removed).dropLast, [lf] <:+ part.value

def Entry.added? : Entry → Option (Nat × JsString)
  | .added lineNum line => some (lineNum, line)
  | _ => none

def Entry.removed? : Entry → Option (Nat × JsString)
  | .removed lineNum line => some (lineNum, line)
  | _ => none

/-- The printed lines have the numbers they have in the contents, and no changed line is left
out. -/
structure NumbersRight (parts : List Change) (oldContent newContent : JsString)
    (entries : List Entry) : Prop where
  added : ∀ lineNum line, .added lineNum line ∈ entries → LineAt newContent lineNum line
  removed : ∀ lineNum line, .removed lineNum line ∈ entries → LineAt oldContent lineNum line
  context : ∀ lineNum line, .context lineNum line ∈ entries → LineAt oldContent lineNum line
  allAdded : entries.filterMap Entry.added? = changedLines Change.removed Change.added parts
  allRemoved : entries.filterMap Entry.removed? = changedLines Change.added Change.removed parts

/-- The text of a diff is that of printed lines, which have no line feeds, with the right numbers,
and the first changed line is reported. -/
def DiffRight (parts : List Change) (oldContent newContent : JsString)
    (result : JsString × Option Nat) : Prop :=
  ∃ entries : List Entry, NumbersRight parts oldContent newContent entries ∧
    (∀ e ∈ entries, lf ∉ e.text (lineNumWidth oldContent newContent)) ∧
    result.1 = joinLines (entries.map (Entry.text (lineNumWidth oldContent newContent))) ∧
    result.2 = firstChange parts

section

variable (lines : List JsString) (s : DiffState)

theorem foldl_pushContext : lines.foldl pushContext s =
      { s with
        output := s.output ++ (lines.zipIdx s.oldLineNum).map fun p => .context p.2 p.1
        oldLineNum := s.oldLineNum + lines.length
        newLineNum := s.newLineNum + lines.length } := by
  induction lines generalizing s with
  | nil => simp
  | cons line lines ih =>
    rw [foldl_cons, ih, pushContext, zipIdx_cons, length_cons]
    simp [Nat.add_assoc, Nat.add_comm 1]

theorem foldl_pushChange_added : lines.foldl (pushChange true) s =
      { s with
        output := s.output ++ (lines.zipIdx s.newLineNum).map fun p => .added p.2 p.1
        newLineNum := s.newLineNum + lines.length } := by
  induction lines generalizing s with
  | nil => simp
  | cons line lines ih =>
    rw [foldl_cons, ih, pushChange, if_pos rfl, zipIdx_cons, length_cons]
    simp [Nat.add_assoc, Nat.add_comm 1]

theorem foldl_pushChange_removed : lines.foldl (pushChange false) s =
      { s with
        output := s.output ++ (lines.zipIdx s.oldLineNum).map fun p => .removed p.2 p.1
        oldLineNum := s.oldLineNum + lines.length } := by
  induction lines generalizing s with
  | nil => simp
  | cons line lines ih =>
    rw [foldl_cons, ih, pushChange, if_neg Bool.false_ne_true, zipIdx_cons, length_cons]
    simp [Nat.add_assoc, Nat.add_comm 1]

end

/-- Entries for some of a part's lines, numbered from the first one. -/
def Shows (start : Nat) (raw : List JsString) (entries : List Entry) : Prop :=
  ∀ e ∈ entries, e = .ellipsis ∨ ∃ i line, raw[i]? = some line ∧ e = .context (start + i) line

/-- Both numbers move on from one of a part's lines to another, and some of the lines between are
shown. -/
structure Advances (start : Nat) (raw : List JsString) (i j : Nat) (s s' : DiffState) : Prop where
  output : ∃ entries, Shows start raw entries ∧ s'.output = s.output ++ entries
  oldLineNum : s'.oldLineNum + i = s.oldLineNum + j
  newLineNum : s'.newLineNum + i = s.newLineNum + j
  firstChangedLine : s'.firstChangedLine = s.firstChangedLine

section

variable {start i j k : Nat} {raw : List JsString} {s s' s'' : DiffState}

theorem Advances.trans (h : Advances start raw i j s s') (h' : Advances start raw j k s' s'') :
    Advances start raw i k s s'' := by
  obtain ⟨⟨xs, hxs, hout⟩, hold, hnew, hfirst⟩ := h
  obtain ⟨⟨ys, hys, hout'⟩, hold', hnew', hfirst'⟩ := h'
  refine ⟨⟨xs ++ ys, forall_mem_append.mpr ⟨hxs, hys⟩, ?_⟩, by omega, by omega, ?_⟩
  · rw [hout', hout, append_assoc]
  · rw [hfirst', hfirst]

theorem advances_skip (skippedLines : Nat) :
    Advances start raw i (i + skippedLines) s (skip s skippedLines) where
  output := ⟨[.ellipsis], fun _ he => .inl (mem_singleton.mp he), rfl⟩
  oldLineNum := by
    rw [skip]
    dsimp only
    omega
  newLineNum := by
    rw [skip]
    dsimp only
    omega
  firstChangedLine := rfl

theorem advances_pushContext (hs : s.oldLineNum = start + i) {lines : List JsString}
    (h : ∀ j line, lines[j]? = some line → raw[i + j]? = some line) :
    Advances start raw i (i + lines.length) s (lines.foldl pushContext s) := by
  rw [foldl_pushContext]
  refine ⟨⟨_, fun e he => ?_, rfl⟩, by dsimp only; omega, by dsimp only; omega, rfl⟩
  obtain ⟨⟨line, m⟩, hmem, rfl⟩ := mem_map.mp he
  obtain ⟨hle, hget⟩ := mk_mem_zipIdx_iff_le_and_getElem?_sub.mp hmem
  refine .inr ⟨i + (m - s.oldLineNum), line, h _ _ hget, ?_⟩
  congr 1
  omega

theorem advances_drop {k : Nat} (hs : s.oldLineNum = start + k) (hk : k ≤ raw.length) :
    Advances start raw k raw.length s ((raw.drop k).foldl pushContext s) := by
  have hget : ∀ j line, (raw.drop k)[j]? = some line → raw[k + j]? = some line := by
    intro j line h
    rwa [getElem?_drop] at h
  have hall := advances_pushContext hs hget
  rwa [length_drop, Nat.add_sub_of_le hk] at hall

end

theorem contextStep_advances (contextLines : Nat) (hasLeadingChange hasTrailingChange : Bool)
    (raw : List JsString) (s : DiffState) : Advances s.oldLineNum raw 0 raw.length s
      (contextStep contextLines hasLeadingChange hasTrailingChange raw s) := by
  have htake (j : Nat) (line : JsString) (h : (raw.take contextLines)[j]? = some line) :
      raw[0 + j]? = some line := by
    rw [getElem?_take] at h
    split at h
    · rwa [Nat.zero_add]
    · cases h
  have hleading := advances_pushContext (s := s) (i := 0) rfl htake
  rw [Nat.zero_add, length_take] at hleading
  rw [contextStep]
  by_cases hboth : (hasLeadingChange && hasTrailingChange) = true
  · rw [if_pos hboth]
    by_cases hshort : raw.length ≤ contextLines * 2
    · rw [if_pos hshort]
      have hall := @advances_pushContext _ 0 raw s rfl raw (fun j line h => by rwa [Nat.zero_add])
      rwa [Nat.zero_add] at hall
    · rw [if_neg hshort]
      dsimp only
      have hcount : raw.length - (raw.take contextLines).length -
          (raw.drop (raw.length - contextLines)).length = raw.length - 2 * contextLines := by
        rw [length_take, length_drop]
        omega
      rw [hcount]
      have hskip := hleading.trans (advances_skip (raw.length - 2 * contextLines))
      have hplace : min contextLines raw.length + (raw.length - 2 * contextLines) =
          raw.length - contextLines := by omega
      rw [hplace] at hskip
      have hnum := hskip.oldLineNum
      exact hskip.trans (advances_drop (by omega) (by omega))
  rw [if_neg hboth]
  by_cases hafter : hasLeadingChange = true
  · rw [if_pos hafter]
    dsimp only
    rw [length_take]
    by_cases hmore : 0 < raw.length - min contextLines raw.length
    · rw [if_pos hmore]
      have hskip := hleading.trans (advances_skip (raw.length - min contextLines raw.length))
      rwa [show min contextLines raw.length + (raw.length - min contextLines raw.length) =
        raw.length by omega] at hskip
    · rw [if_neg hmore]
      rwa [show min contextLines raw.length = raw.length by omega] at hleading
  rw [if_neg hafter]
  by_cases hbefore : hasTrailingChange = true
  · rw [if_pos hbefore]
    have hskip : Advances s.oldLineNum raw 0 (raw.length - contextLines) s
        (if 0 < raw.length - contextLines then skip s (raw.length - contextLines) else s) := by
      split
      · have h := @advances_skip s.oldLineNum 0 raw s (raw.length - contextLines)
        rwa [Nat.zero_add] at h
      · rename_i hnone
        rw [Nat.eq_zero_of_not_pos hnone]
        exact ⟨⟨[], forall_mem_nil _, (append_nil _).symm⟩, rfl, rfl, rfl⟩
    have hnum := hskip.oldLineNum
    exact hskip.trans (advances_drop (by omega) (by omega))
  · rw [if_neg hbefore]
    exact ⟨⟨[], forall_mem_nil _, (append_nil _).symm⟩, rfl, rfl, rfl⟩

section

variable {other changed : Change → Bool} {parts : List Change} {part : Change}

theorem labels_append (other changed : Change → Bool) (parts : List Change) (part : Change) :
    labels other changed (parts ++ [part]) = labels other changed parts ++
      if other part then [] else (rawLines part.value).map fun line => (changed part, line) := by
  rw [labels, filter_append, flatMap_append, ← labels]
  cases ho : other part <;> simp [ho]

theorem changedLines_append_of_not (h : other part = true ∨ changed part = false) :
    changedLines other changed (parts ++ [part]) = changedLines other changed parts := by
  rw [changedLines, labels_append, zipIdx_append, filterMap_append, ← changedLines]
  rcases h with ho | hc
  · simp [ho]
  · cases ho : other part <;> simp [hc, zipIdx_map, filterMap_map]

theorem changedLines_append_of_changed (ho : other part = false) (hc : changed part = true) :
    changedLines other changed (parts ++ [part]) = changedLines other changed parts ++
      ((rawLines part.value).zipIdx ((labels other changed parts).length + 1)).map
        fun p => (p.2, p.1) := by
  rw [changedLines, labels_append, zipIdx_append, filterMap_append, ← changedLines]
  simp [ho, hc, zipIdx_map, filterMap_map, Nat.add_comm 1]

theorem mem_changedLines {n : Nat} : (n, line) ∈ changedLines other changed parts ↔
      1 ≤ n ∧ (labels other changed parts)[n - 1]? = some (true, line) := by
  rw [changedLines, mem_filterMap, ← mk_mem_zipIdx_iff_le_and_getElem?_sub]
  constructor
  · rintro ⟨⟨⟨label, line'⟩, m⟩, hmem, heq⟩
    cases label with
    | false => cases heq
    | true =>
      cases heq
      exact hmem
  · exact fun hmem => ⟨_, hmem, rfl⟩

theorem firstChange_append (parts : List Change) (part : Change) :
    firstChange (parts ++ [part]) = (firstChange parts).or
      (if part.changed then some ((labels Change.removed Change.added parts).length + 1)
        else none) := by
  have hone : [part].any Change.changed = part.changed := Bool.or_false _
  rw [firstChange, firstChange, any_append, hone]
  cases hany : parts.any Change.changed with
  | true =>
    have hfirst : (parts ++ [part]).takeWhile (fun part => !part.changed) =
        parts.takeWhile fun part => !part.changed := by
      obtain ⟨p, hp, hchanged⟩ := any_eq_true.mp hany
      rw [takeWhile_append, if_neg]
      intro hlen
      have hall := ( takeWhile_prefix fun part : Change => !part.changed).eq_of_length hlen
      rw [← hall] at hp
      have hkept := mem_takeWhile_imp hp
      simp [hchanged] at hkept
    rw [Bool.true_or, if_pos rfl, hfirst]
    rfl
  | false =>
    have hall : ∀ p ∈ parts, (!p.changed) = true := by
      simpa using hany
    rw [takeWhile_append_of_pos hall]
    cases hc : part.changed <;> simp [hc]

end

/-- The parts that the loop has seen, in its variables. -/
structure Inv (done : List Change) (s : DiffState) : Prop where
  oldLineNum : s.oldLineNum = (labels Change.added Change.removed done).length + 1
  newLineNum : s.newLineNum = (labels Change.removed Change.added done).length + 1
  context : ∀ lineNum line, .context lineNum line ∈ s.output →
    1 ≤ lineNum ∧ ∃ label, (labels Change.added Change.removed done)[lineNum - 1]? =
      some (label, line)
  added : s.output.filterMap Entry.added? = changedLines Change.removed Change.added done
  removed : s.output.filterMap Entry.removed? = changedLines Change.added Change.removed done
  firstChangedLine : s.firstChangedLine = firstChange done

theorem inv_nil : Inv [] ⟨[], 1, 1, false, none⟩ := by
  constructor <;> first | rfl | exact fun _ _ h => nomatch h

section

variable {done : List Change} {s : DiffState} {part : Change}

theorem Inv.context_append (h : Inv done s) {lineNum : Nat}
    (hmem : .context lineNum line ∈ s.output) :
    1 ≤ lineNum ∧ ∃ label, (labels Change.added Change.removed (done ++ [part]))[lineNum - 1]? =
      some (label, line) := by
  obtain ⟨hpos, label, hget⟩ := h.context lineNum line hmem
  refine ⟨hpos, label, ?_⟩
  rw [labels_append]
  rw [getElem?_append_left (List.getElem?_eq_some_iff.mp hget).1, hget]

theorem Inv.unchanged (h : Inv done s) (contextLines : Nat) (next : Option Change)
    (hpart : part.changed = false) :
    Inv (done ++ [part]) (step contextLines s part next) := by
  obtain ⟨ha, hr⟩ := Bool.or_eq_false_iff.mp hpart
  obtain ⟨⟨entries, hshows, hout⟩, hold, hnew, hfirst⟩ := contextStep_advances contextLines
    s.lastWasChange (next.any Change.changed) (rawLines part.value) s
  have hstep : step contextLines s part next =
      { contextStep contextLines s.lastWasChange (next.any Change.changed) (rawLines part.value) s
        with lastWasChange := false } := by
    rw [step, hpart, if_neg Bool.false_ne_true]
  have hlabels (other changed : Change → Bool) (ho : other part = false) :
      (labels other changed (done ++ [part])).length =
        (labels other changed done).length + (rawLines part.value).length := by
    rw [labels_append, ho, if_neg Bool.false_ne_true, length_append, length_map]
  have hnone {β : Type} (f : Entry → Option β) (he : f .ellipsis = none)
      (hc : ∀ lineNum line, f (.context lineNum line) = none) : entries.filterMap f = [] := by
    rw [filterMap_eq_nil_iff]
    intro e hmem
    rcases hshows e hmem with rfl | ⟨i, line, -, rfl⟩
    · exact he
    · exact hc _ _
  rw [hstep]
  constructor
  · rw [hlabels _ _ ha, show DiffState.oldLineNum _ = _ from hold, h.oldLineNum]
    omega
  · rw [hlabels _ _ hr, show DiffState.newLineNum _ = _ from hnew, h.newLineNum]
    omega
  · intro lineNum line hmem
    rw [show DiffState.output _ = _ from hout] at hmem
    rcases mem_append.mp hmem with hmem | hmem
    · exact h.context_append hmem
    · rcases hshows _ hmem with heq | ⟨i, line', hget, heq⟩
      · cases heq
      · cases heq
        rw [h.oldLineNum]
        refine ⟨by omega, part.removed, ?_⟩
        have hindex : (labels Change.added Change.removed done).length + 1 + i - 1 =
            (labels Change.added Change.removed done).length + i := by omega
        rw [labels_append, ha, if_neg Bool.false_ne_true, hindex, getElem?_append_right
          (Nat.le_add_right _ _), Nat.add_sub_cancel_left, getElem?_map, hget]
        rfl
  · rw [show DiffState.output _ = _ from hout, filterMap_append, h.added,
      hnone _ rfl fun _ _ => rfl, append_nil, changedLines_append_of_not (.inr ha)]
  · rw [show DiffState.output _ = _ from hout, filterMap_append, h.removed,
      hnone _ rfl fun _ _ => rfl, append_nil, changedLines_append_of_not (.inr hr)]
  · rw [show DiffState.firstChangedLine _ = _ from hfirst, h.firstChangedLine, firstChange_append,
      hpart, if_neg Bool.false_ne_true, Option.or_none]

theorem Inv.changed (h : Inv done s) (contextLines : Nat) (next : Option Change)
    (hpart : part.changed = true) (hexclusive : part.added = true → part.removed = false) :
    Inv (done ++ [part]) (step contextLines s part next) := by
  have hfirst : s.firstChangedLine.or (some s.newLineNum) = firstChange (done ++ [part]) := by
    rw [firstChange_append, hpart, if_pos rfl, h.firstChangedLine, h.newLineNum]
  cases ha : part.added with
  | true =>
    have hr := hexclusive ha
    rw [step, hpart, if_pos rfl, ha]
    dsimp only
    rw [foldl_pushChange_added]
    constructor
    · rw [labels_append, ha, if_pos rfl, append_nil]
      exact h.oldLineNum
    · rw [labels_append, hr, if_neg Bool.false_ne_true, length_append, length_map]
      have := h.newLineNum
      dsimp only
      omega
    · intro lineNum line hmem
      rcases mem_append.mp hmem with hmem | hmem
      · exact h.context_append hmem
      · obtain ⟨_, -, heq⟩ := mem_map.mp hmem
        cases heq
    · rw [changedLines_append_of_changed hr ha, ← h.newLineNum, filterMap_append, h.added,
        filterMap_map]
      congr 1
      exact filterMap_eq_map_iff_forall_eq_some.mpr fun p _ => rfl
    · rw [changedLines_append_of_not (.inl ha), filterMap_append, h.removed, filterMap_map]
      refine (congrArg _ ?_).trans (append_nil _)
      exact filterMap_eq_nil_iff.mpr fun p _ => rfl
    · exact hfirst
  | false =>
    have hr : part.removed = true := by
      rw [Change.changed, ha, Bool.false_or] at hpart
      exact hpart
    rw [step, hpart, if_pos rfl, ha]
    dsimp only
    rw [foldl_pushChange_removed]
    constructor
    · rw [labels_append, ha, if_neg Bool.false_ne_true, length_append, length_map]
      have := h.oldLineNum
      dsimp only
      omega
    · rw [labels_append, hr, if_pos rfl, append_nil]
      exact h.newLineNum
    · intro lineNum line hmem
      rcases mem_append.mp hmem with hmem | hmem
      · exact h.context_append hmem
      · obtain ⟨_, -, heq⟩ := mem_map.mp hmem
        cases heq
    · rw [changedLines_append_of_not (.inl hr), filterMap_append, h.added, filterMap_map]
      refine (congrArg _ ?_).trans (append_nil _)
      exact filterMap_eq_nil_iff.mpr fun p _ => rfl
    · rw [changedLines_append_of_changed ha hr, ← h.oldLineNum, filterMap_append, h.removed,
        filterMap_map]
      congr 1
      exact filterMap_eq_map_iff_forall_eq_some.mpr fun p _ => rfl
    · exact hfirst

end

theorem Inv.run {done : List Change} {s : DiffState} (h : Inv done s) (contextLines : Nat)
    {rest : List Change} (hrest : ∀ part ∈ rest, part.added = true → part.removed = false) :
    Inv (done ++ rest) (run contextLines s rest) := by
  induction rest generalizing done s with
  | nil =>
    rw [append_nil]
    exact h
  | cons part rest ih =>
    obtain ⟨hpart, hrest⟩ := forall_mem_cons.mp hrest
    have hstep : Inv (done ++ [part]) (step contextLines s part rest.head?) := by
      cases hchanged : part.changed with
      | false => exact h.unchanged contextLines _ hchanged
      | true => exact h.changed contextLines _ hchanged hpart
    have hrun := ih hstep hrest
    rwa [append_assoc, singleton_append] at hrun

theorem rawLines_prefix (parts : List Change) (h : ∀ part ∈ parts.dropLast, [lf] <:+ part.value) :
    (parts.flatMap fun part => rawLines part.value) <+: splitLines (parts.flatMap Change.value) := by
  have hone (value : JsString) : rawLines value <+: splitLines value := by
    rw [rawLines]
    split
    · exact dropLast_prefix _
    · exact prefix_rfl
  induction parts with
  | nil => exact nil_prefix
  | cons part parts ih =>
    cases parts with
    | nil => simpa using hone part.value
    | cons next parts =>
      rw [dropLast_cons_cons] at h
      obtain ⟨hpart, hrest⟩ := forall_mem_cons.mp h
      obtain ⟨x, hx⟩ := hpart
      have hraw : rawLines part.value = splitLines x := by
        have hlines : splitLines part.value = splitLines x ++ [[]] := by
          rw [← hx, splitLines_append_lf]
          rfl
        rw [rawLines, hlines, getLast?_concat, if_pos rfl, dropLast_concat]
      have hcat : (part :: next :: parts).flatMap Change.value =
          x ++ lf :: (next :: parts).flatMap Change.value := by
        rw [flatMap_cons, ← hx, append_assoc, singleton_append]
      rw [hcat, splitLines_append_lf, flatMap_cons, hraw]
      exact (prefix_append_right_inj _).mpr (ih hrest)

theorem labels_lines (other changed : Change → Bool) (parts : List Change) :
    (labels other changed parts).map Prod.snd =
      (parts.filter fun part => !other part).flatMap fun part => rawLines part.value := by
  rw [labels, map_flatMap]
  simp [Function.comp_def]

theorem lineAt_of_label {other changed : Change → Bool} {parts : List Change} {content : JsString}
    (hcontent : (parts.filter fun part => !other part).flatMap Change.value = content)
    (hlines : ∀ part ∈ (parts.filter fun part => !other part).dropLast, [lf] <:+ part.value)
    {lineNum : Nat} {label : Bool} (hpos : 1 ≤ lineNum)
    (h : (labels other changed parts)[lineNum - 1]? = some (label, line)) :
    LineAt content lineNum line := by
  have hprefix := rawLines_prefix _ hlines
  rw [← labels_lines other changed, hcontent] at hprefix
  obtain ⟨rest, hrest⟩ := hprefix
  have hget : ((labels other changed parts).map Prod.snd)[lineNum - 1]? = some line := by
    rw [getElem?_map, h]
    rfl
  refine ⟨hpos, ?_⟩
  rw [← hrest, getElem?_append_left (List.getElem?_eq_some_iff.mp hget).1, hget]

theorem lf_notMem_text {parts : List Change} {oldContent newContent : JsString}
    {entries : List Entry} (h : NumbersRight parts oldContent newContent entries) (width : Nat) :
    ∀ e ∈ entries, lf ∉ e.text width := by
  have hpad {text : JsString} (ht : lf ∉ text) : lf ∉ padStart text width :=
    not_mem_append (fun hmem => absurd (eq_of_mem_replicate hmem) (by decide)) ht
  have hnum (n : Nat) : lf ∉ padStart (decimalText n) width :=
    hpad fun hmem => absurd (isDigit_of_mem_decimalText lf hmem) (by decide)
  have hline {content line : JsString} {n : Nat} (hat : LineAt content n line) : lf ∉ line :=
    separator_notMem_splitOn lf content line (mem_of_getElem? hat.2)
  have hentry {sign : JsString} (hsign : lf ∉ sign) {content line : JsString} {n : Nat}
      (hat : LineAt content n line) :
      lf ∉ sign ++ padStart (decimalText n) width ++ js " " ++ line :=
    not_mem_append (not_mem_append (not_mem_append hsign (hnum n)) (by decide)) (hline hat)
  intro e he
  match e, he with
  | .added n line, he => exact hentry (by decide) (h.added n line he)
  | .removed n line, he => exact hentry (by decide) (h.removed n line he)
  | .context n line, he => exact hentry (by decide) (h.context n line he)
  | .ellipsis, _ =>
    exact not_mem_append (not_mem_append (by decide) (hpad not_mem_nil)) (by decide)

/-- With a correct diff the printed lines have their numbers, all changed lines are printed, and
the first changed line is the one reported. -/
theorem generateDiffString_numbers
    {diffLines : JsString → JsString → List Change} {oldContent newContent : JsString}
    (h : IsLineDiff (diffLines oldContent newContent) oldContent newContent) (contextLines : Nat) :
    DiffRight (diffLines oldContent newContent) oldContent newContent
      (generateDiffString diffLines oldContent newContent contextLines) := by
  have hinv := inv_nil.run contextLines h.exclusive
  rw [nil_append] at hinv
  have hnumbers : NumbersRight (diffLines oldContent newContent) oldContent newContent
      (printed (diffLines oldContent newContent) contextLines).output := by
    constructor
    · intro lineNum line hmem
      have hline := mem_filterMap.mpr ⟨_, hmem, (rfl : Entry.added? _ = some (lineNum, line))⟩
      rw [printed, hinv.added] at hline
      obtain ⟨hpos, hget⟩ := mem_changedLines.mp hline
      exact lineAt_of_label h.new h.newLines hpos hget
    · intro lineNum line hmem
      have hline := mem_filterMap.mpr ⟨_, hmem, (rfl : Entry.removed? _ = some (lineNum, line))⟩
      rw [printed, hinv.removed] at hline
      obtain ⟨hpos, hget⟩ := mem_changedLines.mp hline
      exact lineAt_of_label h.old h.oldLines hpos hget
    · intro lineNum line hmem
      obtain ⟨hpos, label, hget⟩ := hinv.context lineNum line hmem
      exact lineAt_of_label h.old h.oldLines hpos hget
    · exact hinv.added
    · exact hinv.removed
  exact ⟨_, hnumbers, lf_notMem_text hnumbers _, rfl, hinv.firstChangedLine⟩

def replacedLine : List Change :=
  [⟨[0x61, lf], false, false⟩, ⟨[0x62, lf], false, true⟩, ⟨[0x63, lf], true, false⟩]

theorem isLineDiff_replacedLine :
    IsLineDiff replacedLine [0x61, lf, 0x62, lf] [0x61, lf, 0x63, lf] :=
  ⟨by decide, by decide, by decide, by decide, by decide⟩

theorem generateDiffString_numbers_replaced :
    DiffRight replacedLine [0x61, lf, 0x62, lf] [0x61, lf, 0x63, lf]
      (generateDiffString (fun _ _ => replacedLine) [0x61, lf, 0x62, lf] [0x61, lf, 0x63, lf] 4) :=
  @generateDiffString_numbers (fun _ _ => replacedLine) _ _ isLineDiff_replacedLine 4

end DiffString

end AcademicAgent
