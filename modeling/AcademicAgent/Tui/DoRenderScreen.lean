import AcademicAgent.Core.Run
import AcademicAgent.Tui.DoRender

/-!
# What the terminal shows after a render

The program and its terminal take one step per render.
-/

namespace AcademicAgent

open List

open Terminal (blankRows drawLines execute_synchronized overwrite write_append write_cons
  write_nil)

variable {lines new : List JsString} {first : Nat} {pos? : Option CursorPosition}

namespace TUI

variable {Cell : Type} {cells : JsString → List Cell}

theorem applyLineResets_ne_nil {line : JsString} (hline : line ∈ applyLineResets lines) :
    line ≠ [] := by
  obtain ⟨source, -, rfl⟩ := mem_map.mp hline
  split_ifs with himage
  · rintro rfl
    exact absurd himage (by decide)
  · intro hnil
    exact absurd (append_eq_nil_iff.mp hnil).2 (by decide)

theorem newLines_ne_nil {render : Render} {height : Nat} {line : JsString}
    (hline : line ∈ newLines cells render height) : line ≠ [] :=
  applyLineResets_ne_nil hline

theorem findMarker_row {viewportTop count row markerIndex : Nat}
    (h : findMarker lines viewportTop count = some (row, markerIndex)) :
    viewportTop ≤ row ∧ row < count := by
  induction count with
  | zero => cases h
  | succ count ih =>
    rw [findMarker] at h
    split_ifs at h with hbelow
    split at h
    · cases h
      omega
    · have := ih h
      omega

theorem newLines_length (cells : JsString → List Cell) (render : Render) (height : Nat) :
    (newLines cells render height).length = render.lines.length := by
  rw [newLines, applyLineResets, length_map, extractCursorPosition]
  split <;> simp

theorem cursorPos_row {render : Render} {height : Nat} {pos : CursorPosition}
    (h : cursorPos cells render height = some pos) :
    (newLines cells render height).length - height ≤ pos.row ∧
      pos.row < (newLines cells render height).length := by
  rw [newLines_length]
  rw [cursorPos, extractCursorPosition] at h
  split at h
  · cases h
  · rename_i row markerIndex hmarker
    cases h
    exact findMarker_row hmarker

section Changes

variable {previous new : List JsString}

/-- A list whose lines have content; a missing line differs from each of them. -/
def HasContent (lines : List JsString) : Prop := ∀ line ∈ lines, line ≠ []

theorem getD_eq_iff (hprevious : HasContent previous) (hnew : HasContent new) (i : Nat) :
    previous.getD i [] = new.getD i [] ↔ previous[i]? = new[i]? := by
  rw [getD_eq_getElem?_getD, getD_eq_getElem?_getD]
  refine ⟨fun h => ?_, fun h => by rw [h]⟩
  cases hp : previous[i]? with
  | none =>
    cases hn : new[i]? with
    | none => rfl
    | some line =>
      rw [hp, hn] at h
      exact absurd h.symm (hnew line (mem_of_getElem? hn))
  | some old =>
    cases hn : new[i]? with
    | none =>
      rw [hp, hn] at h
      exact absurd h (hprevious old (mem_of_getElem? hp))
    | some line =>
      rw [hp, hn] at h
      exact congrArg some h

theorem mem_changedRows (hprevious : HasContent previous) (hnew : HasContent new) {i : Nat} :
    i ∈ changedRows previous new ↔ previous[i]? ≠ new[i]? := by
  rw [changedRows, mem_filter, mem_range, decide_eq_true_iff, ne_eq, getD_eq_iff hprevious hnew]
  refine ⟨And.right, fun h => ⟨?_, h⟩⟩
  by_contra hout
  rw [getElem?_eq_none (by omega), getElem?_eq_none (by omega)] at h
  exact h rfl

theorem changedRows_pairwise (previous new : List JsString) :
    (changedRows previous new).Pairwise (· < ·) :=
  pairwise_lt_range.filter _

section

variable (hprevious : HasContent previous) (hnew : HasContent new)
include hprevious hnew

theorem last_mem_changedRows (hlength : previous.length ≠ new.length) :
    max previous.length new.length - 1 ∈ changedRows previous new := by
  rw [mem_changedRows hprevious hnew]
  rcases Nat.lt_or_gt_of_ne hlength with hlt | hgt
  · rw [getElem?_eq_none (by omega), getElem?_eq_getElem (by omega)]
    exact fun h => by cases h
  · rw [getElem?_eq_getElem (by omega), getElem?_eq_none (l := new) (by omega)]
    exact fun h => by cases h

theorem firstChanged_eq : firstChanged previous new = (changedRows previous new).head? := by
  rw [firstChanged]
  split_ifs with hlonger
  · cases hhead : (changedRows previous new).head? with
    | none =>
      have hmem := last_mem_changedRows hprevious hnew (by omega)
      rw [head?_eq_none_iff.mp hhead] at hmem
      cases hmem
    | some first => rfl
  · rfl

theorem firstChanged_eq_none (h : firstChanged previous new = none) : previous = new := by
  rw [firstChanged_eq hprevious hnew, head?_eq_none_iff] at h
  apply ext_getElem?
  intro i
  by_contra hdiffer
  have hmem := (mem_changedRows hprevious hnew).mpr hdiffer
  rw [h] at hmem
  cases hmem

theorem firstChanged_eq_some (h : firstChanged previous new = some first) :
    first ∈ changedRows previous new ∧ ∀ i < first, previous[i]? = new[i]? := by
  rw [firstChanged_eq hprevious hnew] at h
  obtain ⟨rest, hrows⟩ := head?_eq_some_iff.mp h
  refine ⟨hrows ▸ mem_cons_self, fun i hi => ?_⟩
  by_contra hdiffer
  have hmem := (mem_changedRows hprevious hnew).mpr hdiffer
  have hsorted := changedRows_pairwise previous new
  rw [hrows] at hmem hsorted
  rcases mem_cons.mp hmem with rfl | hrest
  · omega
  · have := rel_of_pairwise_cons hsorted hrest
    omega

end

theorem le_lastChanged {i : Nat} (hi : i ∈ changedRows previous new) :
    i ≤ lastChanged previous new := by
  have hrange : i < max new.length previous.length :=
    mem_range.mp (mem_of_mem_filter hi)
  rw [lastChanged]
  split_ifs with hlonger
  · omega
  · have hne : changedRows previous new ≠ [] := ne_nil_of_mem hi
    rw [getLast?_eq_some_getLast hne, Option.getD_some]
    have hsplit := dropLast_append_getLast hne
    have hsorted := changedRows_pairwise previous new
    rw [← hsplit] at hi hsorted
    rcases mem_append.mp hi with hfront | hlast
    · exact ((pairwise_append.mp hsorted).2.2 i hfront _ (mem_singleton_self _)).le
    · exact (mem_singleton.mp hlast).le

end Changes

def canvas (cells : JsString → List Cell) (lines : List JsString) : Nat → ScreenRow Cell :=
  fun v => (lines[v]?).elim blankRow fun line => rowOf (cells line)

theorem canvas_nil : canvas cells [] = fun _ => blankRow := rfl

theorem canvas_of_le {v : Nat} (h : lines.length ≤ v) : canvas cells lines v = blankRow := by
  rw [canvas, getElem?_eq_none h]
  rfl

theorem overwrite_blank (lines : List JsString) :
    overwrite cells (fun _ => blankRow) 0 lines = canvas cells lines := by
  funext v
  rw [overwrite, if_pos (Nat.zero_le v), Nat.sub_zero, canvas]

section Drawing

variable {width height : Nat} {t : Terminal Cell width height} {top row : Nat}
  {shown : Nat → ScreenRow Cell}

theorem moveRows_shows (cells : JsString → List Cell) (h : t.Shows top shown row) (target : Nat)
    (htop : top ≤ target) (hbottom : target < top + height) :
    (t.write cells (moveRows ((target : Int) - row))).Shows top shown target := by
  rw [moveRows]
  split_ifs with hdown hup
  · have hn : row + ((target : Int) - row).toNat = target := by omega
    have := h.down cells (n := ((target : Int) - row).toNat) (by omega) (by omega)
    rw [hn] at this
    exact this
  · have hn : row - (-((target : Int) - row)).toNat = target := by omega
    have := h.up cells (n := (-((target : Int) - row)).toNat) (by omega) (by omega)
    rw [hn] at this
    exact this
  · have hn : row = target := by omega
    rw [← hn]
    exact h

theorem positionHardwareCursor_shows (cells : JsString → List Cell) {tui : TUI} {cursorPos : Option CursorPosition}
    {totalLines : Nat} (h : t.Shows top shown tui.hardwareCursorRow)
    (hpos : ∀ pos, cursorPos = some pos → top ≤ pos.row ∧ pos.row < totalLines)
    (htotal : totalLines ≤ top + height) :
    (t.write cells (tui.positionHardwareCursor cursorPos totalLines).2).Shows top shown
      (tui.positionHardwareCursor cursorPos totalLines).1.hardwareCursorRow := by
  cases cursorPos with
  | none => exact h
  | some pos =>
    have hrow := hpos pos rfl
    have hne : totalLines ≠ 0 := by omega
    have hmin : min pos.row (totalLines - 1) = pos.row := by omega
    have hmoved := moveRows_shows cells h pos.row hrow.1 (by omega)
    simp only [positionHardwareCursor, hne, ite_false, hmin, write_append]
    exact ⟨hmoved.rows, hmoved.cursor⟩

theorem positionHardwareCursor_keeps {α : Type} (field : TUI → α)
    (hfield : ∀ tui row, field { tui with hardwareCursorRow := row } = field tui) (tui : TUI)
    (cursorPos : Option CursorPosition) (totalLines : Nat) :
    field (tui.positionHardwareCursor cursorPos totalLines).1 = field tui := by
  unfold positionHardwareCursor
  split
  · rfl
  · split_ifs
    · rfl
    · exact hfield tui _

theorem positionHardwareCursor_zero (tui : TUI) (cursorPos : Option CursorPosition) :
    tui.positionHardwareCursor cursorPos 0 = (tui, [.cursorVisible false]) := by
  unfold positionHardwareCursor
  split <;> rfl

end Drawing

end TUI

/-- The program, the terminal it draws on, and the lines of its last render. -/
structure Display (Cell : Type) (width height : Nat) where
  tui : TUI
  terminal : Terminal Cell width height
  lines : List JsString

namespace Display

open TUI

variable {Cell : Type} {width height : Nat} (cells : JsString → List Cell) (termux : Bool)

def start (clearOnShrink showHardwareCursor : Bool) (hheight : 0 < height) :
    Display Cell width height where
  tui := TUI.new clearOnShrink showHardwareCursor
  terminal := Terminal.clean hheight
  lines := []

def render (d : Display Cell width height) (r : Render) : Option (Display Cell width height) :=
  (d.tui.doRender cells termux width height r).map fun (tui, buffer) =>
    { tui, terminal := d.terminal.write cells buffer, lines := newLines cells r height }

/-- The screen shows the lines from the viewport's top on, and the cursor is on its row. -/
structure Displayed (d : Display Cell width height) : Prop where
  rows : ∀ r < height, d.terminal.screen r =
    (d.lines[d.tui.previousViewportTop + r]?).elim blankRow fun line => rowOf (cells line)
  cursor : (d.terminal.row : Int) = d.tui.hardwareCursorRow - d.tui.previousViewportTop

/-- The render draws everything, on a cleared screen or on one without lines. -/
def Redraws (tui : TUI) (r : Render) (height : Nat) : Prop :=
  tui.previousLines.length = 0 ∨
    (tui.clearOnShrink = true ∧ (newLines cells r height).length < tui.maxLinesRendered ∧
      r.overlays = false) ∨
    ∃ first, firstChanged tui.previousLines (newLines cells r height) = some first ∧
      (first ≥ (newLines cells r height).length ∧
          ((newLines cells r height).length - 1 < tui.previousViewportTop ∨
            tui.previousLines.length - (newLines cells r height).length > height) ∨
        first < (newLines cells r height).length ∧ first < tui.previousViewportTop)

def Fits (r : Render) (width height : Nat) : Prop :=
  (∀ line ∈ r.lines, isImageLine line = false) ∧
    ∀ line ∈ newLines cells r height, visibleWidth cells line ≤ width

/-- A render that keeps the viewport has lines, and no marker above the viewport. -/
def KeepsViewport (d : Display Cell width height) (r : Render) : Prop :=
  Redraws cells d.tui r height ∨
    newLines cells r height ≠ [] ∧
      ∀ pos, cursorPos cells r height = some pos → d.tui.previousViewportTop ≤ pos.row

instance decidableRedraws (tui : TUI) (r : Render) : Decidable (Redraws cells tui r height) :=
  have : Decidable (∃ first ∈ firstChanged tui.previousLines (newLines cells r height),
      first ≥ (newLines cells r height).length ∧
          ((newLines cells r height).length - 1 < tui.previousViewportTop ∨
            tui.previousLines.length - (newLines cells r height).length > height) ∨
        first < (newLines cells r height).length ∧ first < tui.previousViewportTop) := inferInstance
  inferInstanceAs (Decidable (_ ∨ _ ∨ _))

instance decidableFits (r : Render) (width height : Nat) : Decidable (Fits cells r width height) :=
  inferInstanceAs (Decidable (_ ∧ _))

instance decidableKeepsViewport (d : Display Cell width height) (r : Render) :
    Decidable (KeepsViewport cells d r) :=
  have : Decidable (∀ pos ∈ cursorPos cells r height, d.tui.previousViewportTop ≤ pos.row) :=
    inferInstance
  inferInstanceAs (Decidable (_ ∨ _ ∧ _))

/-- The program's record of the terminal is right. -/
structure Synced (d : Display Cell width height) : Prop where
  shows : d.terminal.Shows d.tui.previousViewportTop (canvas cells d.lines)
    d.tui.hardwareCursorRow
  lines : d.tui.previousLines = d.lines
  content : HasContent d.lines
  bottom : d.lines.length ≤ d.tui.previousViewportTop + height
  visible : d.lines ≠ [] → d.tui.previousViewportTop < d.lines.length
  empty : d.lines = [] → d.tui.previousViewportTop = 0 ∧ d.terminal.row = 0 ∧
    d.terminal.column = 0
  width_eq : d.tui.previousWidth = 0 ∨ d.tui.previousWidth = width
  height_eq : d.tui.previousHeight = 0 ∨ d.tui.previousHeight = height

variable {cells}

theorem synced_start (clearOnShrink showHardwareCursor : Bool) (hheight : 0 < height) :
    Synced cells (start clearOnShrink showHardwareCursor hheight : Display Cell width height) where
  shows := ⟨fun _ _ => rfl, rfl⟩
  lines := rfl
  content := fun _ h => by cases h
  bottom := Nat.zero_le _
  visible := fun h => absurd rfl h
  empty := fun _ => ⟨rfl, rfl, rfl⟩
  width_eq := .inl rfl
  height_eq := .inl rfl

theorem Synced.displayed {d : Display Cell width height} (hs : Synced cells d) :
    Displayed cells d where
  rows := hs.shows.rows
  cursor := by
    have := hs.shows.cursor
    omega

theorem synced_of_drawn {t : Terminal Cell width height} {tui after : TUI} {top : Nat}
    (hcontent : HasContent new) (hshows : t.Shows top (canvas cells new) tui.hardwareCursorRow)
    (hpos : ∀ pos, pos? = some pos → top ≤ pos.row ∧ pos.row < new.length)
    (hbottom : new.length ≤ top + height) (hvisible : new ≠ [] → top < new.length)
    (hempty : new = [] → top = 0 ∧ t.row = 0 ∧ t.column = 0) (hlines : after.previousLines = new)
    (htop : after.previousViewportTop = top)
    (hrow : after.hardwareCursorRow = (tui.positionHardwareCursor pos? new.length).1.hardwareCursorRow)
    (hwidth : after.previousWidth = 0 ∨ after.previousWidth = width)
    (hheight : after.previousHeight = 0 ∨ after.previousHeight = height) : Synced cells
      { tui := after
        terminal := t.write cells (tui.positionHardwareCursor pos? new.length).2
        lines := new } where
  shows := by
    have hplaced := positionHardwareCursor_shows cells hshows hpos hbottom
    rw [← hrow] at hplaced
    simp only [htop]
    exact hplaced
  lines := hlines
  content := hcontent
  bottom := by
    simp only [htop]
    exact hbottom
  visible := by
    simp only [htop]
    exact hvisible
  empty := by
    intro hnil
    simp only at hnil
    subst hnil
    rw [length_nil, positionHardwareCursor_zero]
    exact ⟨htop.trans (hempty rfl).1, (hempty rfl).2⟩
  width_eq := hwidth
  height_eq := hheight

theorem synced_fullRender {t : Terminal Cell width height} (tui : TUI) {clear : Bool}
    (hcontent : HasContent new) (hfit : ∀ line ∈ new, (cells line).length ≤ width)
    (hpos : ∀ pos, pos? = some pos → new.length - height ≤ pos.row ∧ pos.row < new.length)
    (hclear : clear = true ∨ t.Shows 0 (canvas cells []) 0 ∧ t.column = 0) : Synced cells
      { tui := (tui.fullRender clear new pos? width height).1
        terminal := t.write cells (tui.fullRender clear new pos? width height).2
        lines := new } := by
  obtain ⟨erased, herased, hshows, hcolumn⟩ : ∃ erased : Terminal Cell width height,
      t.write cells (if clear then [.eraseScreen, .home, .eraseScrollback] else []) = erased ∧
        erased.Shows 0 (canvas cells []) 0 ∧ erased.column = 0 := by
    cases clear with
    | false => exact ⟨t, rfl, by simpa using hclear⟩
    | true =>
      refine ⟨_, rfl, ⟨fun _ _ => rfl, ?_⟩, rfl⟩
      simp [Terminal.execute, Terminal.toRow]
  have hheight := t.row_lt
  have htop : max height new.length - height = new.length - height := by omega
  have hdrawn : (erased.write cells (drawLines false new)).Shows
        (max height new.length - height) (canvas cells new) (new.length - 1) ∧
      (new = [] → (erased.write cells (drawLines false new)).column = 0) := by
    rw [htop]
    by_cases hne : new = []
    · subst hne
      rw [length_nil, Nat.zero_sub]
      exact ⟨hshows, fun _ => hcolumn⟩
    · have hlines := hshows.drawLines false hne hcolumn (fun _ _ => rfl) (.inr fun _ _ => rfl) hfit
      rw [Nat.zero_add, Nat.zero_max, canvas_nil, overwrite_blank] at hlines
      exact ⟨hlines, fun h => absurd h hne⟩
  simp only [fullRender, write_append, write_cons, write_nil, execute_synchronized, herased]
  refine synced_of_drawn hcontent hdrawn.1 (fun pos h => ?_) (by omega) (fun hne => ?_)
    (fun hnil => ?_) rfl (positionHardwareCursor_keeps previousViewportTop (fun _ _ => rfl) _ _ _) rfl (.inr rfl) (.inr rfl)
  · rw [htop]
    exact hpos pos h
  · have := length_pos_iff.mpr hne
    omega
  · have hrow := hdrawn.1.cursor
    refine ⟨?_, ?_, hdrawn.2 hnil⟩
    · rw [hnil]
      simp
    · rw [hnil] at hrow ⊢
      simp at hrow
      omega

variable {termux : Bool} {d d' : Display Cell width height} {r : Render}

theorem synced_eraseDeleted (hs : Synced cells d) (hcontent : HasContent new) (hne : new ≠ [])
    (hsame : ∀ i < new.length, d.lines[i]? = new[i]?) (hshorter : new.length < d.lines.length)
    (htarget : d.tui.previousViewportTop ≤ new.length - 1)
    (hpos : ∀ pos, pos? = some pos → d.tui.previousViewportTop ≤ pos.row ∧ pos.row < new.length) :
    Synced cells
      { tui := (d.tui.eraseDeleted new pos? width height d.tui.previousViewportTop).1
        terminal := d.terminal.write cells
          (d.tui.eraseDeleted new pos? width height d.tui.previousViewportTop).2
        lines := new } := by
  have hpositive := length_pos_iff.mpr hne
  have hbottom := hs.bottom
  have hlonger : d.tui.previousLines.length > new.length := by
    rw [hs.lines]
    exact hshorter
  have hkept : ¬ (new.length - 1 < d.tui.previousViewportTop ∨
      d.tui.previousLines.length - new.length > height) := by
    rw [hs.lines]
    omega
  have hdelta : ((new.length - 1 : Nat) : Int) - d.tui.previousViewportTop -
      ((d.tui.hardwareCursorRow : Int) - d.tui.previousViewportTop) =
        ((new.length - 1 : Nat) : Int) - d.tui.hardwareCursorRow := by omega
  have hextra : d.tui.previousLines.length - new.length =
      (d.tui.previousLines.length - new.length - 1) + 1 := by omega
  -- the cursor goes to the last row that stays, down by one, over the erased rows, and back
  have hmoved := moveRows_shows cells hs.shows (new.length - 1) htarget (by omega)
  have hbelow := (hmoved.carriageReturn cells).down cells Nat.one_pos (by omega)
  have herased := hbelow.eraseRows cells (d.tui.previousLines.length - new.length - 1)
    (by rw [hs.lines]; omega)
  rw [← hextra] at herased
  have hback := herased.up cells (n := d.tui.previousLines.length - new.length)
    (by omega) (by omega)
  have hrow : new.length - 1 + 1 + (d.tui.previousLines.length - new.length - 1) -
      (d.tui.previousLines.length - new.length) = new.length - 1 := by omega
  rw [hrow] at hback
  have hcanvas := hback.congr (canvas cells new) fun v hv hlast => by
    simp only [blankRows]
    split_ifs with hin
    · exact canvas_of_le (by omega)
    · by_cases hbefore : v < new.length
      · rw [canvas, canvas, hsame v hbefore]
      · rw [canvas_of_le (by omega), canvas_of_le (by rw [← hs.lines]; omega)]
  simp only [eraseDeleted, hlonger, hkept, ite_true, ite_false, hdelta, write_append,
    write_cons, write_nil, execute_synchronized]
  exact synced_of_drawn hcontent hcanvas hpos (by omega) (fun _ => by omega)
    (fun h => absurd h hne) rfl rfl rfl (.inr rfl) (.inr rfl)

theorem firstChanged_le {old : List JsString} (hsame : ∀ i < first, old[i]? = new[i]?)
    (hfirst : first < new.length) : first ≤ old.length := by
  by_contra hbeyond
  have := hsame old.length (by omega)
  rw [getElem?_eq_none (Nat.le_refl _), getElem?_eq_getElem (by omega)] at this
  cases this

theorem start_shows (hs : Synced cells d) (hne : d.lines ≠ []) (hfirst : first < new.length)
    (hle : first ≤ d.lines.length) (htop : d.tui.previousViewportTop ≤ first) {target : Nat}
    {appendStart : Prop} [Decidable appendStart]
    (happend : appendStart ↔ new.length > d.lines.length ∧ first = d.lines.length ∧ 0 < first)
    (htarget : target = if appendStart then first - 1 else first) :
    target < d.tui.previousViewportTop + height ∧
      ((d.terminal.write cells (moveRows ((target : Int) - d.tui.hardwareCursorRow))).write cells
        (if appendStart then [.carriageReturn, .lineFeed] else [.carriageReturn])).Shows
          (max d.tui.previousViewportTop (first + 1 - height)) (canvas cells d.lines) first ∧
      ((d.terminal.write cells (moveRows ((target : Int) - d.tui.hardwareCursorRow))).write cells
        (if appendStart then [.carriageReturn, .lineFeed] else [.carriageReturn])).column = 0 := by
  have hpositive := length_pos_iff.mpr hne
  have hbottom := hs.bottom
  have hvisible := hs.visible hne
  by_cases hcase : appendStart
  · have hlast := happend.mp hcase
    rw [if_pos hcase] at htarget
    have hmoved := moveRows_shows cells hs.shows target (by omega) (by omega)
    have hfed := (hmoved.carriageReturn cells).lineFeed cells fun v hv => canvas_of_le (by omega)
    have hrow : target + 1 = first := by omega
    have hwindow : target + 2 - height = first + 1 - height := by omega
    rw [hrow, hwindow] at hfed
    rw [if_pos hcase]
    exact ⟨by omega, hfed, Terminal.lineFeed_column _⟩
  · have hinside : first < d.lines.length := by
      have hnot : ¬ (new.length > d.lines.length ∧ first = d.lines.length ∧ 0 < first) :=
        mt happend.mpr hcase
      omega
    rw [if_neg hcase] at htarget
    subst htarget
    have hmoved := moveRows_shows cells hs.shows target (by omega) (by omega)
    have hwindow : max d.tui.previousViewportTop (target + 1 - height) =
        d.tui.previousViewportTop := by omega
    rw [if_neg hcase, hwindow]
    exact ⟨by omega, hmoved.carriageReturn cells, rfl⟩

theorem overwrite_canvas {old : List JsString} {last v : Nat}
    (hbefore : ∀ i < first, old[i]? = new[i]?) (hlast : last < new.length)
    (hafter : last < v → old[v]? = new[v]?) :
    overwrite cells (canvas cells old) first ((new.drop first).take (last + 1 - first)) v =
      canvas cells new v := by
  rw [overwrite]
  split_ifs with hv
  · rw [getElem?_take]
    split_ifs with hin
    · have hindex : first + (v - first) = v := by omega
      rw [getElem?_drop, hindex, canvas, canvas, getElem?_eq_getElem (l := new) (by omega)]
      rfl
    · rw [Option.elim_none, canvas, canvas, hafter (by omega)]
  · rw [canvas, canvas, hbefore v (by omega)]

section

variable {t : Terminal Cell width height} {old new drawn : List JsString}

theorem drawn_shows {top last : Nat} (hdrawn : drawn = (new.drop first).take (last + 1 - first))
    (hshows : t.Shows (max top (first + 1 - height)) (canvas cells old) first)
    (hcolumn : t.column = 0) (hbottom : old.length ≤ top + height) (hrange : first ≤ last)
    (hlast : last < new.length) (hfit : ∀ line ∈ drawn, (cells line).length ≤ width) :
    (t.write cells (drawLines true drawn)).Shows (max top (last + 1 - height))
      (overwrite cells (canvas cells old) first drawn) last := by
  have hlength : drawn.length = last + 1 - first := by
    rw [hdrawn, length_take, length_drop]
    omega
  have hrows := hshows.drawLines true (ne_nil_of_length_pos (by omega : 0 < drawn.length))
    hcolumn (fun v hv => canvas_of_le (by omega)) (.inl rfl) hfit
  have hrow : first + drawn.length - 1 = last := by omega
  have hwindow : max (max top (first + 1 - height)) (first + drawn.length - height) =
      max top (last + 1 - height) := by omega
  rw [hrow, hwindow] at hrows
  exact hrows

theorem cleared_shows {top : Nat}
    (hdrawn : drawn = (new.drop first).take (new.length - 1 + 1 - first))
    (hshows : t.Shows top (overwrite cells (canvas cells old) first drawn) (new.length - 1))
    (hsame : ∀ i < first, old[i]? = new[i]?) (hfirst : first < new.length)
    (hshorter : new.length < old.length) (hbottom : old.length ≤ top + height) (htop : top ≤ first)
    : ((t.write cells (Terminal.eraseBelow (old.length - new.length))).write cells
      [.up (old.length - new.length)]).Shows top (canvas cells new) (new.length - 1) := by
  have hlength : drawn.length = new.length - 1 + 1 - first := by
    rw [hdrawn, length_take, length_drop]
    omega
  have hsum : new.length - 1 + (old.length - new.length) < top + height := by omega
  have herased := hshows.eraseBelow cells hsum fun v hv => by
    rw [overwrite, getElem?_eq_none (by omega)]
    split_ifs
    all_goals exact canvas_of_le (by omega)
  have hback := herased.up cells (by omega : 0 < old.length - new.length) (by omega)
  rw [Nat.add_sub_cancel] at hback
  refine hback.congr (canvas cells new) fun v _ hv => ?_
  rw [blankRows]
  split_ifs with hin
  · exact canvas_of_le (by omega)
  · rw [hdrawn]
    refine (overwrite_canvas hsame (by omega) fun hbelow => ?_).symm
    rw [getElem?_eq_none (by omega), getElem?_eq_none (by omega)]

end

theorem synced_drawChanged (hs : Synced cells d) (hne : d.lines ≠ []) (hcontent : HasContent new)
    (hfit : ∀ line ∈ new, visibleWidth cells line ≤ width)
    (hchanged : firstChanged d.lines new = some first) (hfirst : first < new.length)
    (htop : d.tui.previousViewportTop ≤ first)
    (hpos : ∀ pos, pos? = some pos → d.tui.previousViewportTop ≤ pos.row ∧ new.length - height ≤ pos.row ∧ pos.row < new.length)
    :
    ∃ after buffer, d.tui.drawChanged cells new pos? width height d.tui.previousViewportTop first =
        some (after, buffer) ∧
      Synced cells
        { tui := after, terminal := d.terminal.write cells buffer, lines := new } := by
  obtain ⟨hmem, hsame⟩ := firstChanged_eq_some hs.content hcontent hchanged
  have hbottom := hs.bottom
  have hnonempty : new ≠ [] := ne_nil_of_length_pos (Nat.zero_lt_of_lt hfirst)
  obtain ⟨last, hlasteq⟩ : ∃ last, last = min (lastChanged d.lines new) (new.length - 1) :=
    ⟨_, rfl⟩
  have hlast : last < new.length := by omega
  have hrange : first ≤ last := by
    have := le_lastChanged hmem
    omega
  obtain ⟨drawn, hdrawn⟩ : ∃ drawn, drawn = (new.drop first).take (last + 1 - first) := ⟨_, rfl⟩
  have hdrawnfit : ∀ line ∈ drawn, visibleWidth cells line ≤ width := fun line hline =>
    hfit line (mem_of_mem_drop (mem_of_mem_take (hdrawn ▸ hline)))
  have hwide : (drawn.any fun line =>
      !isImageLine line && decide (width < visibleWidth cells line)) = false := by
    rw [any_eq_false]
    intro line hline
    simp [Nat.not_lt.mpr (hdrawnfit line hline)]
  obtain ⟨target, htargeteq⟩ : ∃ target, target =
      if new.length > d.lines.length ∧ first = d.lines.length ∧ 0 < first then first - 1
      else first := ⟨_, rfl⟩
  obtain ⟨htarget, hstarted, hcolumn⟩ :=
    start_shows hs hne hfirst (firstChanged_le hsame hfirst) htop Iff.rfl htargeteq
  have hrows := drawn_shows hdrawn hstarted hcolumn hbottom hrange hlast hdrawnfit
  have hscroll : target - (d.tui.previousViewportTop + height - 1) = 0 := by
    clear htargeteq hlasteq
    omega
  have hnoscroll : ¬ target > d.tui.previousViewportTop + height - 1 := by
    clear htargeteq hlasteq
    omega
  have hdelta : ((target : Int) - d.tui.previousViewportTop) -
      ((d.tui.hardwareCursorRow : Int) - d.tui.previousViewportTop) =
        (target : Int) - d.tui.hardwareCursorRow := by
    clear htargeteq hlasteq
    omega
  by_cases hshorter : d.lines.length > new.length
  · have hend : last = new.length - 1 := by
      have := le_lastChanged (last_mem_changedRows hs.content hcontent (Nat.ne_of_gt hshorter))
      clear htargeteq
      omega
    have hkept : max d.tui.previousViewportTop (new.length - 1 + 1 - height) =
        d.tui.previousViewportTop := by
      clear htargeteq hlasteq
      omega
    rw [hend] at hrows hdrawn hlasteq
    rw [hkept] at hrows
    have hshown := cleared_shows hdrawn hrows hsame hfirst hshorter hbottom htop
    simp only [drawChanged, hs.lines, ← hlasteq, ← hdrawn, ← htargeteq, hwide, hnoscroll, hscroll,
      hdelta, hshorter, Nat.lt_irrefl, hkept, ite_true, ite_false, Bool.false_eq_true, Nat.add_zero,
      and_false]
    refine ⟨_, _, rfl, ?_⟩
    simp only [write_append, write_cons, write_nil, execute_synchronized]
    exact synced_of_drawn hcontent hshown (fun pos h => ⟨(hpos pos h).1, (hpos pos h).2.2⟩)
      (hshorter.le.trans hbottom) (fun _ => htop.trans_lt hfirst) (fun h => absurd h hnonempty) rfl
      (positionHardwareCursor_keeps previousViewportTop (fun _ _ => rfl) _ _ _) rfl (.inr rfl) (.inr rfl)
  · have hrest : ∀ v, last < v → d.lines[v]? = new[v]? := by
      intro v hv
      by_contra hdiffer
      have := le_lastChanged ((mem_changedRows hs.content hcontent).mpr hdiffer)
      clear htargeteq
      rw [getElem?_eq_none (by omega), getElem?_eq_none (by omega)] at hdiffer
      exact hdiffer rfl
    have hreaches : new.length ≤ max d.tui.previousViewportTop (last + 1 - height) + height := by
      clear htargeteq
      by_cases hlength : d.lines.length = new.length
      · omega
      · have := le_lastChanged (last_mem_changedRows hs.content hcontent hlength)
        omega
    have hshown := hrows.congr (canvas cells new) fun v _ _ => by
      rw [hdrawn]
      exact (overwrite_canvas hsame hlast (hrest v)).symm
    simp only [drawChanged, hs.lines, ← hlasteq, ← hdrawn, ← htargeteq, hwide, hnoscroll, hscroll,
      hdelta, hshorter, ite_false, Bool.false_eq_true, Nat.add_zero, false_and]
    refine ⟨_, _, rfl, ?_⟩
    simp only [write_append, write_cons, write_nil, execute_synchronized]
    clear htargeteq hlasteq
    have hheight := d.terminal.row_lt
    refine synced_of_drawn hcontent hshown (fun pos h => ?_) hreaches (fun _ => by omega)
      (fun h => absurd h hnonempty) rfl (positionHardwareCursor_keeps previousViewportTop (fun _ _ => rfl) _ _ _) rfl (.inr rfl)
      (.inr rfl)
    have := hpos pos h
    omega

theorem synced_render (hs : Synced cells d) (hfit : Fits cells r width height)
    (hkeep : KeepsViewport cells d r) :
    ∃ d', d.render cells termux r = some d' ∧ Synced cells d' := by
  have hcontent : HasContent (newLines cells r height) := fun _ => newLines_ne_nil
  have hmarker : ∀ pos, cursorPos cells r height = some pos →
      (newLines cells r height).length - height ≤ pos.row ∧
        pos.row < (newLines cells r height).length := fun _ => cursorPos_row
  have hwidth : ¬ (d.tui.previousWidth ≠ 0 ∧ d.tui.previousWidth ≠ width) := by
    have := hs.width_eq
    omega
  have hheight : ¬ (d.tui.previousHeight ≠ 0 ∧ d.tui.previousHeight ≠ height) := by
    have := hs.height_eq
    omega
  have hfull : Synced cells (⟨(d.tui.fullRender true (newLines cells r height)
      (cursorPos cells r height) width height).1, d.terminal.write cells (d.tui.fullRender true
        (newLines cells r height) (cursorPos cells r height) width height).2,
      newLines cells r height⟩ : Display Cell width height) :=
    synced_fullRender d.tui hcontent hfit.2 hmarker (.inl rfl)
  simp only [render, doRender, hwidth, hheight, not_false_eq_true, and_true, false_and, ite_false]
  split_ifs with hfirst hshrink
  · -- the first render, on a screen that is clean
    have hnil : d.lines = [] := by
      rw [← hs.lines]
      exact length_eq_zero_iff.mp hfirst
    obtain ⟨htop, hrow, hcolumn⟩ := hs.empty hnil
    have hclean : d.terminal.Shows 0 (canvas cells []) 0 := by
      have hshows := hs.shows
      have hcursor := hshows.cursor
      rw [hnil, htop] at hshows
      exact ⟨hshows.rows, by omega⟩
    exact ⟨_, rfl, synced_fullRender d.tui hcontent hfit.2 hmarker (.inr ⟨hclean, hcolumn⟩)⟩
  · exact ⟨_, rfl, hfull⟩
  · have hne : d.lines ≠ [] := by
      rw [← hs.lines]
      exact fun hnil => hfirst (length_eq_zero_iff.mpr hnil)
    rw [KeepsViewport, Redraws, hs.lines] at hkeep
    rw [hs.lines] at hfirst ⊢
    split
    · rename_i hchanged
      have hlines := firstChanged_eq_none hs.content hcontent hchanged
      have hkept : ∀ pos, cursorPos cells r height = some pos →
          d.tui.previousViewportTop ≤ pos.row := by
        rcases hkeep with (hempty | hclear | ⟨first, hsome, -⟩) | ⟨-, hkept⟩
        · exact absurd hempty hfirst
        · exact absurd hclear hshrink
        · rw [hchanged] at hsome
          cases hsome
        · exact hkept
      refine ⟨_, rfl, synced_of_drawn hcontent (hlines ▸ hs.shows)
        (fun pos h => ⟨hkept pos h, (hmarker pos h).2⟩) (hlines ▸ hs.bottom)
        (hlines ▸ hs.visible) (hlines ▸ hs.empty) ?_ rfl rfl ?_ (.inr rfl)⟩
      · exact (positionHardwareCursor_keeps previousLines (fun _ _ => rfl) _ _ _).trans
          (hs.lines.trans hlines)
      · have hsame : (d.tui.positionHardwareCursor (cursorPos cells r height)
            (newLines cells r height).length).1.previousWidth = d.tui.previousWidth :=
          positionHardwareCursor_keeps previousWidth (fun _ _ => rfl) _ _ _
        exact hsame ▸ hs.width_eq
    · rename_i first hchanged
      obtain ⟨hmem, hsame⟩ := firstChanged_eq_some hs.content hcontent hchanged
      split_ifs with hdeleted habove
      · have hshorter : (newLines cells r height).length < d.lines.length := by
          by_contra hlonger
          have hdiffer := (mem_changedRows hs.content hcontent).mp hmem
          rw [getElem?_eq_none (by omega), getElem?_eq_none (by omega)] at hdiffer
          exact hdiffer rfl
        by_cases hredraw : (newLines cells r height).length - 1 < d.tui.previousViewportTop ∨
            d.lines.length - (newLines cells r height).length > height
        · have hgone : d.lines.length > (newLines cells r height).length := hshorter
          refine ⟨_, rfl, ?_⟩
          simp only [eraseDeleted, hs.lines, hgone, hredraw, ite_true]
          exact hfull
        · have hkept : newLines cells r height ≠ [] ∧ ∀ pos, cursorPos cells r height = some pos →
              d.tui.previousViewportTop ≤ pos.row := by
            rcases hkeep with (hempty | hclear | ⟨first', hsome, hfirst'⟩) | hkept
            · exact absurd hempty hfirst
            · exact absurd hclear hshrink
            · rw [hchanged] at hsome
              cases hsome
              rcases hfirst' with hgone | hover
              · exact absurd hgone.2 hredraw
              · exact absurd hover.1 (Nat.not_lt.mpr hdeleted)
            · exact hkept
          refine ⟨_, rfl, synced_eraseDeleted hs hcontent hkept.1
            (fun i hi => hsame i (hi.trans_le hdeleted)) hshorter (by omega)
            fun pos h => ⟨hkept.2 pos h, (hmarker pos h).2⟩⟩
      · exact ⟨_, rfl, hfull⟩
      · have hkept : ∀ pos, cursorPos cells r height = some pos →
            d.tui.previousViewportTop ≤ pos.row := by
          rcases hkeep with (hempty | hclear | ⟨first', hsome, hredraw⟩) | ⟨-, hkept⟩
          · exact absurd hempty hfirst
          · exact absurd hclear hshrink
          · rw [hchanged] at hsome
            cases hsome
            rcases hredraw with hgone | hover
            · exact absurd hgone.1 hdeleted
            · exact absurd hover.2 habove
          · exact hkept
        obtain ⟨after, buffer, hdrawn, hsynced⟩ := synced_drawChanged hs hne hcontent hfit.2 hchanged
          (Nat.lt_of_not_le hdeleted) (Nat.le_of_not_lt habove)
          fun pos h => ⟨hkept pos h, hmarker pos h⟩
        exact ⟨_, by rw [hdrawn]; rfl, hsynced⟩

/-- A render whose lines fit, and which redraws the screen or keeps its viewport. -/
def Permitted (cells : JsString → List Cell) (d : Display Cell width height) (r : Render) : Prop :=
  Fits cells r width height ∧ KeepsViewport cells d r

instance decidablePermitted (d : Display Cell width height) (r : Render) :
    Decidable (Permitted cells d r) :=
  inferInstanceAs (Decidable (_ ∧ _))

theorem synced_run {rs : List Render} (hs : Synced cells d)
    (hp : Along (fun d r => render cells termux d r) (Permitted cells) d rs) :
    ∃ d', run (fun d r => render cells termux d r) d rs = some d' ∧ Synced cells d' := by
  induction rs generalizing d with
  | nil => exact ⟨d, rfl, hs⟩
  | cons r rs ih =>
    obtain ⟨next, hrender, hnext⟩ := synced_render hs hp.1.1 hp.1.2
    obtain ⟨last, hrun, hlast⟩ := ih hnext (hp.2 next hrender)
    exact ⟨last, run_cons_eq_some.mpr ⟨next, hrender, hrun⟩, hlast⟩

/-- After every run of renders that redraw the screen or keep their viewport, the screen shows
the lines of the last render and the cursor is where the program records it. -/
theorem last_render_displayed (cells : JsString → List Cell) (termux : Bool)
    (clearOnShrink showHardwareCursor : Bool) (hheight : 0 < height) (rs : List Render)
    (hp : Along (fun d r => render cells termux d r) (Permitted cells)
      (start clearOnShrink showHardwareCursor hheight : Display Cell width height) rs) :
    ∃ d, run (fun d r => render cells termux d r)
        (start clearOnShrink showHardwareCursor hheight : Display Cell width height) rs = some d ∧
      Displayed cells d := by
  obtain ⟨d, hrun, hs⟩ := synced_run (synced_start clearOnShrink showHardwareCursor hheight) hp
  exact ⟨d, hrun, hs.displayed⟩

/-- The cells of a line of plain characters: its characters without the reset at its end. -/
def plainCells (line : JsString) : List CodeUnit :=
  if SEGMENT_RESET <:+ line then line.take (line.length - SEGMENT_RESET.length) else line

def plain (lines : List String) : Render := { lines := lines.map js, overlays := false }

/-- A list that grows past the screen, changes in the middle, and shrinks above a marker. -/
theorem last_render_displayed_grown : ∃ d, run (fun d r => render plainCells false d r)
        (start false true (by decide) : Display CodeUnit 10 3)
        [plain ["a", "b"], plain ["a", "b", "c", "d\x1b_pi:c\x07", "e"],
          plain ["a", "b", "x", "d", "e"], plain ["a", "b", "x", "d\x1b_pi:c\x07"], plain ["a"],
          plain ["a", "f"]] = some d ∧
      Displayed plainCells d :=
  last_render_displayed plainCells false false true (by decide)
    [plain ["a", "b"], plain ["a", "b", "c", "d\x1b_pi:c\x07", "e"],
      plain ["a", "b", "x", "d", "e"], plain ["a", "b", "x", "d\x1b_pi:c\x07"], plain ["a"],
      plain ["a", "f"]] (by decide)

/-- A list that shrinks to nothing leaves its first line on the screen, and a marker above the
viewport of a list that shrank leaves the cursor in another row than the recorded one. -/
theorem last_render_not_displayed : (∀ r ∈ [plain ["a"], plain []], Fits plainCells r 10 3) ∧
      (¬ ∀ d, run (fun d r => render plainCells false d r)
          (start false true (by decide) : Display CodeUnit 10 3)
          [plain ["a"], plain []] = some d → Displayed plainCells d) ∧
      (∀ r ∈ [plain ["a", "b", "c", "d", "e", "f"], plain ["a", "b\x1b_pi:c\x07", "c", "d"]],
        Fits plainCells r 10 3) ∧
      ¬ ∀ d, run (fun d r => render plainCells false d r)
          (start false true (by decide) : Display CodeUnit 10 3)
          [plain ["a", "b", "c", "d", "e", "f"], plain ["a", "b\x1b_pi:c\x07", "c", "d"]] =
            some d → Displayed plainCells d := by
  refine ⟨by decide, fun h => ?_, by decide, fun h => ?_⟩
  · have hmap : (run (fun d r => render plainCells false d r)
        (start false true (by decide) : Display CodeUnit 10 3) [plain ["a"], plain []]).map
          (fun d => (d.terminal.screen 0 0, d.lines)) = some (some 97, []) := by decide
    obtain ⟨d, hrun, hd⟩ := Option.map_eq_some_iff.mp hmap
    obtain ⟨hcell, hlines⟩ := Prod.mk.inj hd
    have hrow := congrFun ((h d hrun).rows 0 (by decide)) 0
    rw [hcell, hlines] at hrow
    cases hrow
  · have hmap : (run (fun d r => render plainCells false d r)
        (start false true (by decide) : Display CodeUnit 10 3)
        [plain ["a", "b", "c", "d", "e", "f"], plain ["a", "b\x1b_pi:c\x07", "c", "d"]]).map
          (fun d => (d.terminal.row, d.tui.hardwareCursorRow, d.tui.previousViewportTop)) =
        some (0, 1, 3) := by decide
    obtain ⟨d, hrun, hd⟩ := Option.map_eq_some_iff.mp hmap
    obtain ⟨hrow, hrest⟩ := Prod.mk.inj hd
    obtain ⟨hrecorded, htop⟩ := Prod.mk.inj hrest
    have hcursor := (h d hrun).cursor
    rw [hrow, hrecorded, htop] at hcursor
    cases hcursor

end Display

end AcademicAgent
