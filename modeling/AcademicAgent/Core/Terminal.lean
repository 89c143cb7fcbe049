import Mathlib.Tactic.Common

/-!
# A terminal screen

The visible rows of a terminal, its cursor, and the control sequences a program draws with.
-/

namespace AcademicAgent

open List

open Function (update_idem update_of_ne update_self)

/-- The cells of one row; a column without a cell is blank. -/
abbrev ScreenRow (Cell : Type) := Nat → Option Cell

/-- The row that displays a list of cells from its first column on. -/
def rowOf {Cell : Type} (cells : List Cell) : ScreenRow Cell := fun c => cells[c]?

def blankRow {Cell : Type} : ScreenRow Cell := fun _ => none

/-- Printable text and the control sequences used for drawing. -/
inductive Command (Text : Type) where
  /-- Text without control of the cursor. -/
  | text (content : Text)
  /-- `CR` -/
  | carriageReturn
  /-- `LF` -/
  | lineFeed
  /-- `ESC [ n A` -/
  | up (n : Nat)
  /-- `ESC [ n B` -/
  | down (n : Nat)
  /-- `ESC [ n G`, with columns counted from one. -/
  | column (n : Nat)
  /-- `ESC [ 2 K` -/
  | eraseLine
  /-- `ESC [ 2 J` -/
  | eraseScreen
  /-- `ESC [ H` -/
  | home
  /-- `ESC [ 3 J` -/
  | eraseScrollback
  /-- `ESC [ ? 2026 h` and `ESC [ ? 2026 l` -/
  | synchronized (on : Bool)
  /-- `ESC [ ? 25 h` and `ESC [ ? 25 l` -/
  | cursorVisible (on : Bool)
  deriving DecidableEq, Repr

/-- The visible screen and the cursor of a terminal of fixed size. -/
structure Terminal (Cell : Type) (width height : Nat) where
  /-- The rows, counted from the top of the screen. -/
  screen : Nat → ScreenRow Cell
  /-- The row of the cursor. -/
  row : Nat
  /-- The column of the cursor, `width` while a wrap is pending. -/
  column : Nat
  /-- The cursor is on the screen. -/
  row_lt : row < height

namespace Terminal

variable {Cell Text : Type} {width height : Nat}

def clean (hheight : 0 < height) : Terminal Cell width height where
  screen := fun _ => blankRow
  row := 0
  column := 0
  row_lt := hheight

section

variable (t : Terminal Cell width height)

/-- The cursor moves down, and on the last row the screen scrolls. -/
def lineFeed : Terminal Cell width height :=
  if h : t.row + 1 < height then { t with row := t.row + 1, row_lt := h }
  else { t with screen := fun r => if r + 1 < height then t.screen (r + 1) else blankRow }

/-- One cell is written, after the wrap a full row asks for. -/
def put (cell : Cell) : Terminal Cell width height :=
  let t := if t.column = width then { t.lineFeed with column := 0 } else t
  { t with
    screen := Function.update t.screen t.row
      (Function.update (t.screen t.row) t.column (some cell))
    column := t.column + 1 }

/-- The cursor goes to a row, as far as the screen reaches. -/
def toRow (row : Nat) : Terminal Cell width height :=
  { t with
    row := min row (height - 1)
    row_lt := by
      have := t.row_lt
      omega }

end

section

variable (cells : Text → List Cell) (t : Terminal Cell width height)

/-- What one command does; a count of zero stands for one. -/
def execute :
    Command Text → Terminal Cell width height
  | .text content => (cells content).foldl put t
  | .carriageReturn => { t with column := 0 }
  | .lineFeed => t.lineFeed
  | .up n => t.toRow (t.row - max n 1)
  | .down n => t.toRow (t.row + max n 1)
  | .column n => { t with column := min (n - 1) (width - 1) }
  | .eraseLine => { t with screen := Function.update t.screen t.row blankRow }
  | .eraseScreen => { t with screen := fun _ => blankRow }
  | .home => { t.toRow 0 with column := 0 }
  | .eraseScrollback => t
  | .synchronized _ => t
  | .cursorVisible _ => t

def write (buffer : List (Command Text)) : Terminal Cell width height :=
  buffer.foldl (execute cells) t

@[simp] theorem write_nil : t.write cells [] = t := rfl

@[simp] theorem write_cons (command : Command Text) (buffer : List (Command Text)) :
    t.write cells (command :: buffer) = (t.execute cells command).write cells buffer := rfl

@[simp] theorem write_append (first second : List (Command Text)) :
    t.write cells (first ++ second) = (t.write cells first).write cells second :=
  foldl_append

@[simp] theorem execute_synchronized (on : Bool) : t.execute cells (.synchronized on) = t := rfl

end

/-- The screen is the window of a canvas that starts at row `top`, with the cursor on row
`row` of the canvas. -/
structure Shows (t : Terminal Cell width height) (top : Nat) (canvas : Nat → ScreenRow Cell)
    (row : Nat) : Prop where
  rows : ∀ r < height, t.screen r = canvas (top + r)
  cursor : top + t.row = row

namespace Shows

variable {t : Terminal Cell width height} {top row : Nat} {canvas : Nat → ScreenRow Cell}

section

variable (h : t.Shows top canvas row)
include h

theorem row_lt : row < top + height := by
  have := t.row_lt
  have := h.cursor
  omega

theorem congr (other : Nat → ScreenRow Cell)
    (hsame : ∀ v, top ≤ v → v < top + height → other v = canvas v) : t.Shows top other row where
  rows r hr := by rw [h.rows r hr, hsame (top + r) (by omega) (by omega)]
  cursor := h.cursor

theorem update {after : Terminal Cell width height}
    {content : ScreenRow Cell} (hscreen : after.screen = Function.update t.screen t.row content)
    (hrow : after.row = t.row) : after.Shows top (Function.update canvas row content) row where
  rows r hr := by
    have hcursor := h.cursor
    rw [hscreen]
    by_cases hcase : r = t.row
    · subst hcase
      rw [update_self, hcursor, update_self]
    · rw [update_of_ne hcase, update_of_ne (by omega), h.rows r hr]
  cursor := by rw [hrow, h.cursor]

end

section

variable (cells : Text → List Cell) (h : t.Shows top canvas row)
include h

theorem carriageReturn :
    (t.execute cells .carriageReturn).Shows top canvas row := ⟨h.rows, h.cursor⟩

theorem eraseLine :
    (t.execute cells .eraseLine).Shows top (Function.update canvas row blankRow) row :=
  h.update rfl rfl

theorem lineFeed (hblank : ∀ v, top + height ≤ v → canvas v = blankRow) :
    (t.execute cells .lineFeed).Shows (max top (row + 2 - height)) canvas (row + 1) := by
  have hcursor := h.cursor
  have hlt := t.row_lt
  rw [execute, Terminal.lineFeed]
  split_ifs with hcase
  · have htop : max top (row + 2 - height) = top := by omega
    rw [htop]
    exact ⟨h.rows, by simp only; omega⟩
  · have htop : max top (row + 2 - height) = top + 1 := by omega
    rw [htop]
    refine ⟨fun r hr => ?_, by simp only; omega⟩
    by_cases hnext : r + 1 < height
    · simp only [hnext, ite_true]
      rw [h.rows (r + 1) hnext]
      congr 1
      omega
    · simp only [hnext, ite_false]
      exact (hblank _ (by omega)).symm

theorem up {n : Nat} (hpos : 0 < n)
    (hn : top + n ≤ row) : (t.execute cells (.up n)).Shows top canvas (row - n) := by
  have hcursor := h.cursor
  have hlt := t.row_lt
  refine ⟨h.rows, ?_⟩
  simp only [execute, toRow]
  omega

theorem down {n : Nat} (hpos : 0 < n)
    (hn : row + n < top + height) :
    (t.execute cells (.down n)).Shows top canvas (row + n) := by
  have hcursor := h.cursor
  refine ⟨h.rows, ?_⟩
  simp only [execute, toRow]
  omega

end

end Shows

theorem foldl_put (content : List Cell) :
    ∀ t : Terminal Cell width height, t.column + content.length ≤ width →
      (content.foldl put t).row = t.row ∧
        (content.foldl put t).screen = Function.update t.screen t.row fun c =>
          if t.column ≤ c then (content[c - t.column]?).or (t.screen t.row c)
          else t.screen t.row c := by
  induction content with
  | nil =>
    intro t _
    refine ⟨rfl, ?_⟩
    simp
  | cons cell content ih =>
    intro t hfit
    rw [length_cons] at hfit
    have hput : t.put cell = { t with
        screen := Function.update t.screen t.row
          (Function.update (t.screen t.row) t.column (some cell))
        column := t.column + 1 } := by
      have hcolumn : t.column ≠ width := by omega
      simp only [put, hcolumn, ite_false]
    have hrest := ih (t.put cell) (by rw [hput]; simp only; omega)
    rw [foldl_cons]
    refine ⟨by rw [hrest.1, hput], ?_⟩
    rw [hrest.2, hput]
    simp only [update_self, update_idem]
    congr 1
    funext c
    by_cases hbefore : c < t.column
    · rw [if_neg (by omega), if_neg (by omega), update_of_ne (by omega)]
    · by_cases hat : c = t.column
      · subst hat
        rw [if_neg (by omega), if_pos (Nat.le_refl _), update_self, Nat.sub_self]
        rfl
      · have hsucc : c - t.column = c - (t.column + 1) + 1 := by omega
        rw [if_pos (by omega), if_pos (by omega), update_of_ne hat, hsucc, getElem?_cons_succ]

/-- Text that is written from the first column of a blank row is what the row displays. -/
theorem Shows.text {t : Terminal Cell width height} {top row : Nat}
    {canvas : Nat → ScreenRow Cell} {cells : Text → List Cell} (h : t.Shows top canvas row)
    (hcolumn : t.column = 0) (hblank : canvas row = blankRow) {content : Text}
    (hfit : (cells content).length ≤ width) : (t.execute cells (.text content)).Shows top
      (Function.update canvas row (rowOf (cells content))) row := by
  obtain ⟨hrow, hscreen⟩ := foldl_put (cells content) t (by omega)
  refine h.update ?_ hrow
  rw [execute, hscreen]
  congr 1
  have hold : t.screen t.row = blankRow := by
    rw [h.rows t.row t.row_lt, h.cursor, hblank]
  funext c
  simp [hcolumn, hold, rowOf, blankRow]

theorem lineFeed_column (t : Terminal Cell width height) : t.lineFeed.column = t.column := by
  rw [lineFeed]
  split_ifs <;> rfl

/-- One line of a drawing, whose row is erased first where it may have content. -/
def drawLine (clear : Bool) (content : Text) : List (Command Text) :=
  (if clear then [.eraseLine] else []) ++ [.text content]

def drawLines (clear : Bool) (contents : List Text) : List (Command Text) :=
  [.carriageReturn, .lineFeed].intercalate (contents.map (drawLine clear))

/-- Rows that are erased one below the other, with a line feed before each. -/
def eraseBelow (n : Nat) : List (Command Text) :=
  (replicate n [.carriageReturn, .lineFeed, .eraseLine]).flatten

/-- Rows that are erased one below the other without scrolling. -/
def eraseRows (n : Nat) : List (Command Text) :=
  [.down 1].intercalate (replicate n [.carriageReturn, .eraseLine])

def overwrite (cells : Text → List Cell) (canvas : Nat → ScreenRow Cell) (row : Nat)
    (contents : List Text) : Nat → ScreenRow Cell := fun v =>
  if row ≤ v then (contents[v - row]?).elim (canvas v) fun content => rowOf (cells content)
  else canvas v

def blankRows (canvas : Nat → ScreenRow Cell) (row n : Nat) : Nat → ScreenRow Cell := fun v =>
  if row ≤ v ∧ v < row + n then blankRow else canvas v

section

variable (cells : Text → List Cell) (canvas : Nat → ScreenRow Cell) (row : Nat)

theorem overwrite_cons
    (content : Text) (contents : List Text) : overwrite cells canvas row (content :: contents) =
      overwrite cells (Function.update canvas row (rowOf (cells content))) (row + 1) contents := by
  funext v
  simp only [overwrite]
  by_cases hbefore : v < row
  · rw [if_neg (by omega), if_neg (by omega), update_of_ne (by omega)]
  · by_cases hat : v = row
    · subst hat
      rw [if_pos (Nat.le_refl _), if_neg (by omega), Nat.sub_self, update_self]
      rfl
    · have hsucc : v - row = v - (row + 1) + 1 := by omega
      rw [if_pos (by omega), if_pos (by omega), update_of_ne hat, hsucc, getElem?_cons_succ]

theorem overwrite_nil : overwrite cells canvas row [] = canvas := by
  funext v
  simp [overwrite]

end

theorem blankRows_succ (canvas : Nat → ScreenRow Cell) (row n : Nat) :
    blankRows (Function.update canvas row blankRow) (row + 1) n = blankRows canvas row (n + 1) := by
  funext v
  simp only [blankRows]
  by_cases hat : v = row
  · subst hat
    rw [if_neg (by omega), if_pos (by omega), update_self]
  · rw [update_of_ne hat]
    by_cases hin : row + 1 ≤ v ∧ v < row + 1 + n
    · rw [if_pos hin, if_pos (by omega)]
    · rw [if_neg hin, if_neg (by omega)]

namespace Shows

variable {t : Terminal Cell width height} {top row : Nat} {canvas : Nat → ScreenRow Cell}
  {cells : Text → List Cell}

theorem drawLine (h : t.Shows top canvas row) (hcolumn : t.column = 0) {clear : Bool}
    (hclear : clear = true ∨ canvas row = blankRow) {content : Text}
    (hfit : (cells content).length ≤ width) :
    (t.write cells (Terminal.drawLine clear content)).Shows top
      (Function.update canvas row (rowOf (cells content))) row := by
  cases clear with
  | false =>
    have hblank : canvas row = blankRow := by simpa using hclear
    exact h.text hcolumn hblank hfit
  | true =>
    have herased := (h.eraseLine cells).text hcolumn (update_self ..) hfit
    rw [update_idem] at herased
    exact herased

theorem drawLines (clear : Bool) {contents : List Text} (hne : contents ≠ []) :
    ∀ {t : Terminal Cell width height} {top row : Nat} {canvas : Nat → ScreenRow Cell},
      t.Shows top canvas row → t.column = 0 → (∀ v, top + height ≤ v → canvas v = blankRow) →
        (clear = true ∨ ∀ v, row ≤ v → canvas v = blankRow) →
        (∀ content ∈ contents, (cells content).length ≤ width) →
        (t.write cells (Terminal.drawLines clear contents)).Shows
          (max top (row + contents.length - height)) (overwrite cells canvas row contents)
          (row + contents.length - 1) := by
  induction contents with
  | nil => exact absurd rfl hne
  | cons content contents ih =>
    intro t top row canvas h hcolumn hblank hclear hfit
    have hrow := h.row_lt
    have hdrawn := h.drawLine hcolumn (hclear.imp_right fun hrest => hrest row (Nat.le_refl _))
      (hfit content mem_cons_self)
    cases contents with
    | nil =>
      have htop : max top (row + 1 - height) = top := by omega
      have hsingle : Terminal.drawLines clear [content] = Terminal.drawLine clear content := by
        rw [Terminal.drawLines, map_singleton, intercalate_singleton]
      rw [hsingle, overwrite_cons, overwrite_nil, length_singleton, htop, Nat.add_sub_cancel]
      exact hdrawn
    | cons next contents =>
      have hother : ∀ v, v ≠ row → canvas v = blankRow →
          Function.update canvas row (rowOf (cells content)) v = blankRow := by
        intro v hv hcanvas
        rw [update_of_ne hv, hcanvas]
      have hfed := (hdrawn.carriageReturn cells).lineFeed cells fun v hv =>
        hother v (by omega) (hblank v hv)
      have hrest := ih (cons_ne_nil _ _) hfed (lineFeed_column _)
        (fun v hv => hother v (by omega) (hblank v (by omega)))
        (hclear.imp_right fun hrest v hv => hother v (by omega) (hrest v (by omega)))
        fun c hc => hfit c (mem_cons_of_mem _ hc)
      have hsplit : Terminal.drawLines clear (content :: next :: contents) =
          Terminal.drawLine clear content ++ [.carriageReturn, .lineFeed] ++
            Terminal.drawLines clear (next :: contents) := by
        rw [Terminal.drawLines, map_cons, map_cons, intercalate_cons_cons]
        rfl
      have htop : max top (row + (content :: next :: contents).length - height) =
          max (max top (row + 2 - height)) (row + 1 + (next :: contents).length - height) := by
        simp only [length_cons]
        omega
      have hlast : row + (content :: next :: contents).length - 1 =
          row + 1 + (next :: contents).length - 1 := by
        simp only [length_cons]
        omega
      rw [hsplit, write_append, write_append, overwrite_cons, htop, hlast]
      exact hrest

theorem eraseBelow (cells : Text → List Cell) {n : Nat} :
    ∀ {t : Terminal Cell width height} {row : Nat} {canvas : Nat → ScreenRow Cell},
      t.Shows top canvas row → row + n < top + height →
        (∀ v, top + height ≤ v → canvas v = blankRow) →
        (t.write cells (Terminal.eraseBelow n)).Shows top (blankRows canvas (row + 1) n)
          (row + n) := by
  induction n with
  | zero =>
    intro t row canvas h _ _
    refine h.congr _ fun v _ _ => ?_
    simp only [blankRows]
    rw [if_neg (by omega)]
  | succ n ih =>
    intro t row canvas h hn hblank
    have hfed := (h.carriageReturn cells).lineFeed cells hblank
    have htop : max top (row + 2 - height) = top := by omega
    rw [htop] at hfed
    have hrest := ih (hfed.eraseLine cells) (by omega) fun v hv => by
      rw [update_of_ne (by omega), hblank v hv]
    have hlast : row + (n + 1) = row + 1 + n := by omega
    rw [blankRows_succ] at hrest
    rw [hlast, Terminal.eraseBelow, replicate_succ, flatten_cons, write_append]
    exact hrest

theorem eraseRows (cells : Text → List Cell) (n : Nat) :
    ∀ {t : Terminal Cell width height} {row : Nat} {canvas : Nat → ScreenRow Cell},
      t.Shows top canvas row → row + n < top + height →
        (t.write cells (Terminal.eraseRows (n + 1))).Shows top (blankRows canvas row (n + 1))
          (row + n) := by
  induction n with
  | zero =>
    intro t row canvas h _
    refine ((h.carriageReturn cells).eraseLine cells).congr _ fun v _ _ => ?_
    simp only [blankRows]
    by_cases hat : v = row
    · subst hat
      rw [if_pos (by omega), update_self]
    · rw [if_neg (by omega), update_of_ne hat]
  | succ n ih =>
    intro t row canvas h hn
    have hnext := ((h.carriageReturn cells).eraseLine cells).down cells Nat.one_pos (by omega)
    have hrest := ih hnext (by omega)
    have hsplit : (Terminal.eraseRows (n + 1 + 1) : List (Command Text)) =
        [.carriageReturn, .eraseLine] ++ [.down 1] ++ Terminal.eraseRows (n + 1) := by
      rw [Terminal.eraseRows, replicate_succ, replicate_succ,
        intercalate_cons_cons, ← replicate_succ, append_assoc]
      rfl
    have hlast : row + (n + 1) = row + 1 + n := by omega
    rw [blankRows_succ] at hrest
    rw [hsplit, write_append, write_append, hlast]
    exact hrest

end Shows

end Terminal

end AcademicAgent
