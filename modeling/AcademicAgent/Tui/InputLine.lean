import AcademicAgent.Core.Run
import AcademicAgent.Tui.EditorEdits

/-!
# The input line

The operations of the single-line input on its text, its cursor, its kill ring and its undo
stack. A pop of the kill ring takes what was yanked last to be before the cursor, which every
operation keeps but a value set from outside.
-/

namespace AcademicAgent

open List

open AnsiText (TextMetrics)

structure Input where
  value : JsString := []
  /-- An integer, as the code may compute a negative one. -/
  cursor : Int := 0
  killRing : List JsString := []
  lastAction : Option EditorAction := none
  /-- Values and cursors, the most recent one last. -/
  undoStack : List (JsString × Int) := []

namespace Input

variable (metrics : TextMetrics) (s : Input)

/-- `this.value.slice(0, this.cursor)`. -/
def beforeCursor : JsString := sliceText s.value 0 s.cursor

/-- `this.value.slice(this.cursor)`. -/
def afterCursor : JsString := sliceFrom s.value s.cursor

def setValue (value : JsString) : Input :=
  { s with value, cursor := min s.cursor value.length }

def pushUndo : Input := { s with undoStack := s.undoStack ++ [(s.value, s.cursor)] }

def insert (text : JsString) : Input :=
  { s with
    value := s.beforeCursor ++ text ++ s.afterCursor
    cursor := s.cursor + text.length }

def insertCharacter (char : JsString) : Input :=
  let s := if isWhitespaceChar char ∨ s.lastAction ≠ some .typeWord then s.pushUndo else s
  { s.insert char with lastAction := some .typeWord }

def graphemeLength (grapheme : Option JsString) : Nat := (grapheme.map length).getD 1

def handleBackspace : Input :=
  let s : Input := { s with lastAction := none }
  if 0 < s.cursor then
    let deleteFrom := s.cursor - graphemeLength (metrics.segment s.beforeCursor).getLast?
    { s.pushUndo with
      value := sliceText s.value 0 deleteFrom ++ s.afterCursor
      cursor := deleteFrom }
  else s

def handleForwardDelete : Input :=
  let s : Input := { s with lastAction := none }
  if s.cursor < s.value.length then
    let deleteTo := s.cursor + graphemeLength (metrics.segment s.afterCursor).head?
    { s.pushUndo with value := s.beforeCursor ++ sliceFrom s.value deleteTo }
  else s

/-- Push a text on the kill ring, to the entry of the last action if that was a kill. -/
def kill (text : JsString) (prepend : Bool) : Input :=
  { s with
    killRing := pushKill s.killRing text prepend (decide (s.lastAction = some .kill))
    lastAction := some .kill }

def deleteToLineStart : Input :=
  if s.cursor = 0 then s
  else { s.pushUndo.kill s.beforeCursor true with value := s.afterCursor, cursor := 0 }

def deleteToLineEnd : Input :=
  if s.value.length ≤ s.cursor then s
  else { s.pushUndo.kill s.afterCursor false with value := s.beforeCursor }

/-- The graphemes that a move by a word passes: white space, and then a run of punctuation or
a word. -/
def wordRun (graphemes : List JsString) : List JsString :=
  let blanks := graphemes.takeWhile isWhitespaceChar
  let rest := graphemes.drop blanks.length
  blanks ++
    match rest with
    | [] => []
    | first :: _ =>
      if isPunctuationChar first then rest.takeWhile isPunctuationChar
      else rest.takeWhile fun s => !isWhitespaceChar s && !isPunctuationChar s

def moveWordBackwards : Input :=
  if s.cursor = 0 then s
  else { s with
    lastAction := none
    cursor := s.cursor - (wordRun (metrics.segment s.beforeCursor).reverse).flatten.length }

def moveWordForwards : Input :=
  if s.value.length ≤ s.cursor then s
  else { s with
    lastAction := none
    cursor := s.cursor + (wordRun (metrics.segment s.afterCursor)).flatten.length }

def deleteWordBackwards : Input :=
  if s.cursor = 0 then s
  else
    let deleteFrom := (s.moveWordBackwards metrics).cursor
    { s.pushUndo.kill (sliceText s.value deleteFrom s.cursor) true with
      value := sliceText s.value 0 deleteFrom ++ s.afterCursor
      cursor := deleteFrom }

def deleteWordForward : Input :=
  if s.value.length ≤ s.cursor then s
  else
    let deleteTo := (s.moveWordForwards metrics).cursor
    { s.pushUndo.kill (sliceText s.value s.cursor deleteTo) false with
      value := s.beforeCursor ++ sliceFrom s.value deleteTo }

def yank : Input :=
  match s.killRing.getLast? with
  | none => s
  | some text =>
    if text = [] then s else { s.pushUndo.insert text with lastAction := some .yank }

def yankPop : Input :=
  if s.lastAction ≠ some .yank ∨ s.killRing.length ≤ 1 then s
  else
    let prevText := s.killRing.getLast?.getD []
    let s := { s.pushUndo with
      value := sliceText s.value 0 (s.cursor - prevText.length) ++ s.afterCursor
      cursor := s.cursor - prevText.length
      killRing := rotateRing s.killRing }
    { s.insert (s.killRing.getLast?.getD []) with lastAction := some .yank }

def undo : Input :=
  match s.undoStack.getLast? with
  | none => s
  | some snapshot =>
    { s with
      undoStack := s.undoStack.dropLast
      value := snapshot.1
      cursor := snapshot.2
      lastAction := none }

/-- The text of a paste without line breaks, and with four spaces for a tab. -/
def cleanText (pastedText : JsString) : JsString :=
  pastedText.flatMap fun c =>
    if c = 0x0D ∨ c = 0x0A then [] else if c = 0x09 then js "    " else [c]

def handlePaste (pastedText : JsString) : Input :=
  ({ s with lastAction := none } : Input).pushUndo.insert (cleanText pastedText)

def cursorLeft : Input :=
  { s with
    lastAction := none
    cursor :=
      if 0 < s.cursor then
        s.cursor - graphemeLength (metrics.segment s.beforeCursor).getLast?
      else s.cursor }

def cursorRight : Input :=
  { s with
    lastAction := none
    cursor :=
      if s.cursor < s.value.length then
        s.cursor + graphemeLength (metrics.segment s.afterCursor).head?
      else s.cursor }

/-- What the input is asked to do, by a key, a paste or its owner. -/
inductive Operation where
  | setValue (value : JsString)
  | insertCharacter (char : JsString)
  | handlePaste (pastedText : JsString)
  | handleBackspace
  | handleForwardDelete
  | deleteWordBackwards
  | deleteWordForward
  | deleteToLineStart
  | deleteToLineEnd
  | yank
  | yankPop
  | undo
  | cursorLeft
  | cursorRight
  | cursorLineStart
  | cursorLineEnd
  | moveWordBackwards
  | moveWordForwards

def apply : Operation → Input
  | .setValue value => s.setValue value
  | .insertCharacter char => s.insertCharacter char
  | .handlePaste pastedText => s.handlePaste pastedText
  | .handleBackspace => s.handleBackspace metrics
  | .handleForwardDelete => s.handleForwardDelete metrics
  | .deleteWordBackwards => s.deleteWordBackwards metrics
  | .deleteWordForward => s.deleteWordForward metrics
  | .deleteToLineStart => s.deleteToLineStart
  | .deleteToLineEnd => s.deleteToLineEnd
  | .yank => s.yank
  | .yankPop => s.yankPop
  | .undo => s.undo
  | .cursorLeft => s.cursorLeft metrics
  | .cursorRight => s.cursorRight metrics
  | .cursorLineStart => { s with lastAction := none, cursor := 0 }
  | .cursorLineEnd => { s with lastAction := none, cursor := s.value.length }
  | .moveWordBackwards => s.moveWordBackwards metrics
  | .moveWordForwards => s.moveWordForwards metrics

def Pops : Prop := s.lastAction = some .yank ∧ 1 < s.killRing.length

instance : Decidable s.Pops := inferInstanceAs (Decidable (_ ∧ _))

def insertedBy : Operation → Option JsString
  | .yank => s.killRing.getLast?.filter (· ≠ [])
  | .yankPop => if s.Pops then (rotateRing s.killRing).getLast? else none
  | _ => none

/-- A value that is set right after a yank ends in the yanked text up to the cursor. -/
def keeps : Operation → Prop
  | .setValue value => s.lastAction = some .yank →
    s.killRing.getLast?.getD [] <:+ (s.setValue value).beforeCursor
  | _ => True

instance decidableKeeps : ∀ operation, Decidable (s.keeps operation)
  | .setValue _ => inferInstanceAs (Decidable (_ → _))
  | .insertCharacter _ | .handlePaste _ | .handleBackspace | .handleForwardDelete
  | .deleteWordBackwards | .deleteWordForward | .deleteToLineStart | .deleteToLineEnd | .yank
  | .yankPop | .undo | .cursorLeft | .cursorRight | .cursorLineStart | .cursorLineEnd
  | .moveWordBackwards | .moveWordForwards => isTrue trivial

/-- An input, and the text of its last yank or pop. -/
structure Session where
  input : Input := {}
  inserted : Option JsString := none

def step (s : Session) (operation : Operation) : Option Session :=
  some ⟨s.input.apply metrics operation, (s.input.insertedBy operation).or s.inserted⟩

/-- The cursor is in the value, and those of the snapshots are in theirs. -/
structure InRange : Prop where
  cursor : 0 ≤ s.cursor ∧ s.cursor ≤ s.value.length
  undoStack : ∀ snapshot ∈ s.undoStack, 0 ≤ snapshot.2 ∧ snapshot.2 ≤ snapshot.1.length

variable {metrics s}

theorem le_length_append {before after : JsString} {cursor : Int}
    (h : (before.length : Int) = cursor) : cursor ≤ (before ++ after).length := by
  rw [← h, length_append]
  exact Int.ofNat_le.mpr (Nat.le_add_right _ _)

theorem sliceText_append (before after : JsString) :
    sliceText (before ++ after) 0 before.length = before := by
  rw [sliceText, relativeIndex_eq (Int.natCast_nonneg _) (le_length_append rfl), Int.toNat_natCast,
    take_left]
  rfl

theorem sliceFrom_append (before after : JsString) :
    sliceFrom (before ++ after) before.length = after := by
  rw [sliceFrom, relativeIndex_eq (Int.natCast_nonneg _) (le_length_append rfl), Int.toNat_natCast,
    drop_left]

theorem wordRun_prefix (graphemes : List JsString) : wordRun graphemes <+: graphemes := by
  obtain ⟨rest, hrest⟩ := takeWhile_prefix isWhitespaceChar (l := graphemes)
  rw [wordRun]
  generalize graphemes.takeWhile isWhitespaceChar = blanks at hrest ⊢
  subst hrest
  simp only [drop_left, prefix_append_right_inj]
  cases rest with
  | nil => exact prefix_rfl
  | cons first rest =>
    dsimp only
    split <;> exact takeWhile_prefix _

theorem length_wordRun_le {graphemes : List JsString} {text : JsString}
    (h : graphemes.flatten.length = text.length) :
    (wordRun graphemes).flatten.length ≤ text.length := by
  obtain ⟨rest, hrest⟩ := wordRun_prefix graphemes
  rw [← h, ← congrArg flatten hrest, flatten_append, length_append]
  exact Nat.le_add_right _ _

theorem graphemeLength_le {graphemes : List JsString} {text : JsString}
    (h : graphemes.flatten = text) (hne : text ≠ []) {grapheme : Option JsString}
    (hmem : ∀ g, grapheme = some g → g ∈ graphemes) : graphemeLength grapheme ≤ text.length := by
  cases grapheme with
  | none => exact length_pos_iff.mpr hne
  | some g => exact h ▸ (sublist_flatten_of_mem (hmem g rfl)).length_le

namespace InRange

variable (h : s.InRange)
include h

theorem length_beforeCursor : (s.beforeCursor.length : Int) = s.cursor :=
  length_sliceText h.cursor.1 h.cursor.2

theorem length_afterCursor : (s.afterCursor.length : Int) = s.value.length - s.cursor :=
  length_sliceFrom h.cursor.1 h.cursor.2

theorem beforeCursor_append_afterCursor : s.beforeCursor ++ s.afterCursor = s.value := by
  rw [beforeCursor, afterCursor, sliceText, sliceFrom, relativeIndex_eq h.cursor.1 h.cursor.2]
  exact take_append_drop _ _

theorem pushUndo : s.pushUndo.InRange :=
  ⟨h.cursor, forall_mem_append.mpr ⟨h.undoStack, forall_mem_singleton.mpr h.cursor⟩⟩

theorem insert (text : JsString) : (s.insert text).InRange := by
  refine ⟨⟨?_, ?_⟩, h.undoStack⟩
  · exact Int.add_nonneg h.cursor.1 (Int.natCast_nonneg _)
  · have hbefore := h.length_beforeCursor
    simp only [Input.insert, length_append]
    omega

theorem lengthOf_last_le (hpos : 0 < s.cursor) :
    (graphemeLength (metrics.segment s.beforeCursor).getLast? : Int) ≤ s.cursor := by
  have hlength := h.length_beforeCursor
  have hle := graphemeLength_le (metrics.flatten_segment s.beforeCursor)
    (length_pos_iff.mp (by omega)) fun g hg => mem_of_getLast? hg
  omega

theorem lengthOf_first_le (hlt : s.cursor < s.value.length) :
    (graphemeLength (metrics.segment s.afterCursor).head? : Int) ≤ s.value.length - s.cursor := by
  have hlength := h.length_afterCursor
  have hle := graphemeLength_le (metrics.flatten_segment s.afterCursor)
    (length_pos_iff.mp (by omega)) fun g hg => mem_of_head? hg
  omega

theorem moveWordBackwards_le : 0 ≤ (s.moveWordBackwards metrics).cursor ∧
    (s.moveWordBackwards metrics).cursor ≤ s.cursor := by
  have hlow := h.cursor.1
  rw [Input.moveWordBackwards]
  split
  · exact ⟨hlow, le_refl _⟩
  · have hlength := h.length_beforeCursor
    have hle := @length_wordRun_le (metrics.segment s.beforeCursor).reverse s.beforeCursor (by
      rw [length_flatten, map_reverse, sum_reverse, ← length_flatten, metrics.flatten_segment])
    dsimp only
    omega

theorem le_moveWordForwards : s.cursor ≤ (s.moveWordForwards metrics).cursor ∧
    (s.moveWordForwards metrics).cursor ≤ s.value.length := by
  have hhigh := h.cursor.2
  rw [Input.moveWordForwards]
  split
  · exact ⟨le_refl _, hhigh⟩
  · have hlength := h.length_afterCursor
    have hle := @length_wordRun_le (metrics.segment s.afterCursor) s.afterCursor (by
      rw [metrics.flatten_segment])
    dsimp only
    omega

end InRange

theorem InRange.apply (h : s.InRange) {operation : Operation} (hpop : operation ≠ .yankPop) :
    (s.apply metrics operation).InRange := by
  obtain ⟨hlow, hhigh⟩ := h.cursor
  have hundo := h.pushUndo.undoStack
  have hbefore := h.length_beforeCursor
  have hafter := h.length_afterCursor
  cases operation with
  | setValue value => exact ⟨⟨le_min hlow (Int.natCast_nonneg _), min_le_right _ _⟩, h.undoStack⟩
  | insertCharacter char =>
    rw [Input.apply, insertCharacter]
    split
    · exact ⟨(h.pushUndo.insert char).cursor, hundo⟩
    · exact ⟨(h.insert char).cursor, h.undoStack⟩
  | handlePaste pastedText => exact ⟨(h.pushUndo.insert (cleanText pastedText)).cursor, hundo⟩
  | handleBackspace =>
    rw [Input.apply, handleBackspace]
    split
    · rename_i hpos
      have hle := @lengthOf_last_le metrics s h hpos
      generalize hdeleted : s.cursor - graphemeLength (metrics.segment s.beforeCursor).getLast? =
        deleteFrom
      have hfrom : 0 ≤ deleteFrom := by omega
      have hto : deleteFrom ≤ s.value.length := by omega
      exact hdeleted ▸ ⟨⟨hfrom, le_length_append (length_sliceText hfrom hto)⟩, hundo⟩
    · exact ⟨h.cursor, h.undoStack⟩
  | handleForwardDelete =>
    rw [Input.apply, handleForwardDelete]
    split
    · exact ⟨⟨hlow, le_length_append hbefore⟩, hundo⟩
    · exact ⟨h.cursor, h.undoStack⟩
  | deleteWordBackwards =>
    rw [Input.apply, deleteWordBackwards]
    obtain ⟨hfrom, hto⟩ := @moveWordBackwards_le metrics s h
    split
    · exact h
    · exact ⟨⟨hfrom, le_length_append (length_sliceText hfrom (by omega))⟩, hundo⟩
  | deleteWordForward =>
    rw [Input.apply, deleteWordForward]
    split
    · exact h
    · exact ⟨⟨hlow, le_length_append hbefore⟩, hundo⟩
  | deleteToLineStart =>
    rw [Input.apply, deleteToLineStart]
    split
    · exact h
    · exact ⟨⟨le_refl _, Int.natCast_nonneg _⟩, hundo⟩
  | deleteToLineEnd =>
    rw [Input.apply, deleteToLineEnd]
    split
    · exact h
    · exact ⟨⟨hlow, hbefore.ge⟩, hundo⟩
  | yank =>
    rw [Input.apply, yank]
    split
    · exact h
    · split
      · exact h
      · exact ⟨(h.pushUndo.insert _).cursor, hundo⟩
  | yankPop => exact absurd rfl hpop
  | undo =>
    rw [Input.apply, undo]
    split
    · exact h
    · rename_i hlast
      exact ⟨h.undoStack _ (mem_of_getLast? hlast),
        fun snapshot hmem => h.undoStack snapshot ((dropLast_sublist _).subset hmem)⟩
  | cursorLeft =>
    rw [Input.apply, cursorLeft]
    refine ⟨?_, h.undoStack⟩
    dsimp only
    split
    · rename_i hpos
      have hle := @lengthOf_last_le metrics s h hpos
      omega
    · exact h.cursor
  | cursorRight =>
    rw [Input.apply, cursorRight]
    refine ⟨?_, h.undoStack⟩
    dsimp only
    split
    · rename_i hlt
      have hle := @lengthOf_first_le metrics s h hlt
      omega
    · exact h.cursor
  | cursorLineStart => exact ⟨⟨le_refl _, Int.natCast_nonneg _⟩, h.undoStack⟩
  | cursorLineEnd => exact ⟨⟨Int.natCast_nonneg _, le_refl _⟩, h.undoStack⟩
  | moveWordBackwards =>
    obtain ⟨hfrom, hto⟩ := @moveWordBackwards_le metrics s h
    rw [Input.apply]
    rw [Input.moveWordBackwards] at hfrom hto ⊢
    split
    · exact h
    · rename_i hzero
      rw [if_neg hzero] at hfrom hto
      exact ⟨⟨hfrom, hto.trans hhigh⟩, h.undoStack⟩
  | moveWordForwards =>
    obtain ⟨hfrom, hto⟩ := @le_moveWordForwards metrics s h
    rw [Input.apply]
    rw [Input.moveWordForwards] at hfrom hto ⊢
    split
    · exact h
    · rename_i hend
      rw [if_neg hend] at hfrom hto
      exact ⟨⟨hlow.trans hfrom, hto⟩, h.undoStack⟩

theorem apply_quiet {operation : Operation} (hvalue : ∀ value, operation ≠ .setValue value)
    (hyank : operation ≠ .yank) (hpop : operation ≠ .yankPop) :
    s.apply metrics operation = s ∨ (s.apply metrics operation).lastAction ≠ some .yank := by
  cases operation with
  | setValue value => exact absurd rfl (hvalue value)
  | yank => exact absurd rfl hyank
  | yankPop => exact absurd rfl hpop
  | insertCharacter | handlePaste | cursorLeft | cursorRight | cursorLineStart | cursorLineEnd =>
    exact .inr nofun
  | _ =>
    simp only [Input.apply, handleBackspace, handleForwardDelete, deleteWordBackwards,
      deleteWordForward, deleteToLineStart, deleteToLineEnd, undo, Input.moveWordBackwards,
      Input.moveWordForwards]
    split
    · first | exact .inl rfl | exact .inr nofun
    · exact .inr nofun

theorem InRange.insert_cursors (h : s.InRange) (text : JsString) :
    (s.insert text).beforeCursor = s.beforeCursor ++ text ∧
      (s.insert text).afterCursor = s.afterCursor := by
  have hcursor : (s.insert text).cursor = ((s.beforeCursor ++ text).length : Nat) := by
    rw [length_append]
    push_cast
    rw [h.length_beforeCursor]
    rfl
  rw [beforeCursor, afterCursor, hcursor]
  exact ⟨sliceText_append _ _, sliceFrom_append _ _⟩

/-- What was yanked last is the last entry of the kill ring, and is before the cursor. -/
structure Sound (t : Session) : Prop where
  inRange : t.input.InRange
  yanked : t.input.lastAction = some .yank → ∃ before text,
    t.input.killRing.getLast? = some text ∧ t.inserted = some text ∧
      t.input.beforeCursor = before ++ text

theorem getLast?_rotateRing {ring : List JsString} {text : JsString}
    (hlast : ring.getLast? = some text) (h : 1 < ring.length) :
    ∃ next, ring.dropLast.getLast? = some next ∧ (rotateRing ring).getLast? = some next := by
  have hne : ring.dropLast ≠ [] := length_pos_iff.mp (by rw [length_dropLast]; omega)
  refine ⟨_, getLast?_eq_some_getLast hne, ?_⟩
  rw [rotateRing, hlast, getLast?_cons_of_ne_nil hne, getLast?_eq_some_getLast hne]

/-- A pop takes the yanked text out and puts the entry before it in. -/
theorem yankPop_eq (hpops : s.Pops) {before text : JsString} (h : s.InRange)
    (hlast : s.killRing.getLast? = some text) (hbefore : s.beforeCursor = before ++ text) :
    ∃ next, s.killRing.dropLast.getLast? = some next ∧
      (rotateRing s.killRing).getLast? = some next ∧
        s.yankPop = ⟨before ++ next ++ s.afterCursor, (before ++ next).length,
          rotateRing s.killRing, some .yank, s.pushUndo.undoStack⟩ := by
  obtain ⟨next, hnext, hrotated⟩ := getLast?_rotateRing hlast hpops.2
  have hvalue : s.value = before ++ (text ++ s.afterCursor) := by
    rw [← append_assoc, ← hbefore, h.beforeCursor_append_afterCursor]
  have hcursor : s.cursor - text.length = before.length := by
    have hlength := h.length_beforeCursor
    rw [hbefore, length_append] at hlength
    push_cast at hlength
    omega
  have hdeleted : sliceText s.value 0 before.length = before := by
    rw [hvalue, sliceText_append]
  refine ⟨next, hnext, hrotated, ?_⟩
  rw [yankPop, if_neg (not_or.mpr ⟨not_not.mpr hpops.1, Nat.not_le.mpr hpops.2⟩)]
  simp only [hlast, Option.getD_some, hcursor, hdeleted, hrotated]
  generalize s.afterCursor = after
  simp only [Input.insert, beforeCursor, afterCursor, sliceText_append, sliceFrom_append,
    length_append, Nat.cast_add]

section

variable {t : Session} (h : Sound t)
include h

theorem Sound.yankPop (hpops : t.input.Pops) :
    Sound ⟨t.input.yankPop, (rotateRing t.input.killRing).getLast?⟩ := by
  obtain ⟨before, text, hlast, -, hbefore⟩ := h.yanked hpops.1
  obtain ⟨next, -, hrotated, hpop⟩ := yankPop_eq hpops h.inRange hlast hbefore
  rw [hpop]
  refine ⟨⟨⟨Int.natCast_nonneg _, le_length_append rfl⟩, h.inRange.pushUndo.undoStack⟩,
    fun _ => ⟨before, next, hrotated, hrotated, ?_⟩⟩
  exact sliceText_append _ _

theorem Sound.yank (hrange : t.input.yank.InRange) :
    Sound ⟨t.input.yank, (t.input.insertedBy .yank).or t.inserted⟩ := by
  refine ⟨hrange, ?_⟩
  rw [insertedBy, Input.yank]
  cases hlast : t.input.killRing.getLast? with
  | none => exact h.yanked
  | some text =>
    by_cases hempty : text = []
    · subst hempty
      exact h.yanked
    · rw [Option.filter_some, if_pos (decide_eq_true hempty)]
      simp only [if_neg hempty]
      exact fun _ => ⟨_, text, hlast, rfl, (h.inRange.pushUndo.insert_cursors text).1⟩

theorem Sound.setValue {value : JsString}
    (hkeeps : t.input.keeps (.setValue value)) (hrange : (t.input.setValue value).InRange) :
    Sound ⟨t.input.setValue value, t.inserted⟩ := by
  refine ⟨hrange, fun haction => ?_⟩
  obtain ⟨before, text, hlast, hinserted, -⟩ := h.yanked haction
  have hkept := hkeeps haction
  rw [hlast] at hkept
  obtain ⟨before, hbefore⟩ := hkept
  exact ⟨before, text, hlast, hinserted, hbefore.symm⟩

/-- An operation that keeps a yanked text before the cursor keeps the rest. -/
theorem Sound.step {operation : Operation}
    (hkeeps : t.input.keeps operation) {u : Session} (hstep : step metrics t operation = some u) :
    Sound u := by
  obtain rfl := Option.some.inj hstep
  by_cases hpop : operation = .yankPop
  · subst hpop
    rw [insertedBy]
    split
    · rename_i hpops
      obtain ⟨next, -, hrotated⟩ :=
        (h.yanked hpops.1).elim fun _ ⟨_, hlast, _⟩ => getLast?_rotateRing hlast hpops.2
      have hsound := h.yankPop hpops
      rw [hrotated] at hsound ⊢
      exact hsound
    · rename_i hpops
      rw [Input.apply, Input.yankPop, if_pos]
      · exact h
      · exact (not_and_or.mp hpops).imp id Nat.not_lt.mp
  · have hrange : (t.input.apply metrics operation).InRange := h.inRange.apply hpop
    by_cases hyank : operation = .yank
    · subst hyank
      exact h.yank hrange
    · by_cases hvalue : ∃ value, operation = .setValue value
      · obtain ⟨value, rfl⟩ := hvalue
        exact h.setValue hkeeps hrange
      · have hnone : t.input.insertedBy operation = none := by
          cases operation <;> first | rfl | contradiction
        rw [hnone, Option.none_or]
        rcases @apply_quiet metrics t.input operation (fun value hv => hvalue ⟨value, hv⟩) hyank
          hpop with hsame | hquiet
        · rw [hsame]
          exact h
        · exact ⟨hrange, fun haction => absurd haction hquiet⟩

end

theorem sound_new : Sound {} := by
  refine ⟨⟨⟨le_refl _, le_refl _⟩, forall_mem_nil _⟩, fun haction => ?_⟩
  cases haction

/-- In every run in which a value that is set right after a yank ends in the yanked text up to
the cursor, the cursor stays in the value, and a pop replaces what was yanked last. -/
theorem yankPop_replaces (operations : List Operation) (t : Session)
    (hkeeps : Along (step metrics) (fun t operation => t.input.keeps operation) {} operations)
    (hrun : run (step metrics) {} operations = some t) :
    (0 ≤ t.input.cursor ∧ t.input.cursor ≤ t.input.value.length) ∧
      (t.input.Pops → ∃ before text next, t.inserted = some text ∧
        t.input.value = before ++ text ++ t.input.afterCursor ∧
        t.input.cursor = (before ++ text).length ∧
        t.input.killRing.dropLast.getLast? = some next ∧
        t.input.yankPop.value = before ++ next ++ t.input.afterCursor ∧
        t.input.yankPop.cursor = (before ++ next).length) := by
  have hsound : Sound t :=
    run_invariant (fun _ _ _ hs hp ht => hs.step hp ht) sound_new hkeeps hrun
  refine ⟨hsound.inRange.cursor, fun hpops => ?_⟩
  obtain ⟨before, text, hlast, hinserted, hbefore⟩ := hsound.yanked hpops.1
  obtain ⟨next, hnext, -, hpop⟩ := yankPop_eq hpops hsound.inRange hlast hbefore
  refine ⟨before, text, next, hinserted, ?_, ?_, hnext, by rw [hpop], by rw [hpop]⟩
  · rw [← hbefore, hsound.inRange.beforeCursor_append_afterCursor]
  · rw [← hbefore, hsound.inRange.length_beforeCursor]

def unitGraphemes : TextMetrics where
  segment s := s.map ([·])
  graphemeWidth _ := 1
  flatten_segment := flatMap_singleton'

def yanked : List Operation :=
  [.insertCharacter (js "a"), .deleteToLineStart, .insertCharacter (js "bcd"),
    .deleteToLineStart, .yank]

theorem yankPop_replaces_kept : ∃ t, run (step unitGraphemes) {}
    (yanked ++ [.setValue (js "bcd!")]) = some t ∧
      (0 ≤ t.input.cursor ∧ t.input.cursor ≤ t.input.value.length) ∧
      (t.input.Pops → ∃ before text next, t.inserted = some text ∧
        t.input.value = before ++ text ++ t.input.afterCursor ∧
        t.input.cursor = (before ++ text).length ∧
        t.input.killRing.dropLast.getLast? = some next ∧
        t.input.yankPop.value = before ++ next ++ t.input.afterCursor ∧
        t.input.yankPop.cursor = (before ++ next).length) :=
  ⟨_, rfl, @yankPop_replaces unitGraphemes (yanked ++ [.setValue (js "bcd!")]) _ (by decide) rfl⟩

/-- A pop after the value was emptied leaves the cursor left of the value. -/
theorem cursor_left_of_value :
    ¬ ∀ metrics operations t, run (step metrics) {} operations = some t → 0 ≤ t.input.cursor := by
  intro h
  have hcursor := h unitGraphemes (yanked ++ [.setValue [], .yankPop]) _ rfl
  exact absurd hcursor (by decide)

end Input

end AcademicAgent
