import AcademicAgent.Tui.AnsiItems

/-!
# What a terminal shows of styled text

A terminal keeps a setting for each attribute and colour, and a hyperlink.
-/

namespace AcademicAgent.AnsiText

inductive Slot where
  | bold
  | faint
  | italic
  | underline
  | slowBlink
  | rapidBlink
  | inverse
  | conceal
  | crossedOut
  | framed
  | encircled
  | overline
  | foreground
  | background
  deriving DecidableEq

inductive Setting where
  | off
  | on
  | colour (parameters : List Nat)
  deriving DecidableEq

def attributeEffect (on : Nat) (off : List Nat) (parameter : Nat) : Option Setting :=
  if parameter = on then some .on
  else if parameter = 0 ∨ parameter ∈ off then some .off
  else none

/-- What a parameter does to a colour that is set by eight codes from `first` on, or
by eight bright ones from `bright` on. -/
def colourEffect (first bright parameter : Nat) : Option Setting :=
  if parameter = 0 ∨ parameter = first + 9 then some .off
  else if (first ≤ parameter ∧ parameter ≤ first + 7) ∨
      (bright ≤ parameter ∧ parameter ≤ bright + 7) then
    some (.colour [parameter])
  else none

theorem colourEffect_eq {first bright parameter : Nat}
    (h : (first ≤ parameter ∧ parameter ≤ first + 7) ∨
      (bright ≤ parameter ∧ parameter ≤ bright + 7))
    (hfirst : 0 < first := by decide) (hbright : first + 9 < bright := by decide) :
    colourEffect first bright parameter = some (.colour [parameter]) := by
  rw [colourEffect, if_neg (by omega), if_pos h]

/-- What a parameter sets a slot to, unless it leaves it. -/
def parameterEffect (parameter : Nat) : Slot → Option Setting
  | .bold => attributeEffect 1 [21, 22] parameter
  | .faint => attributeEffect 2 [22] parameter
  | .italic => attributeEffect 3 [23] parameter
  | .underline => attributeEffect 4 [24] parameter
  | .slowBlink => attributeEffect 5 [25] parameter
  | .rapidBlink => attributeEffect 6 [25] parameter
  | .inverse => attributeEffect 7 [27] parameter
  | .conceal => attributeEffect 8 [28] parameter
  | .crossedOut => attributeEffect 9 [29] parameter
  | .framed => attributeEffect 51 [54] parameter
  | .encircled => attributeEffect 52 [54] parameter
  | .overline => attributeEffect 53 [55] parameter
  | .foreground => colourEffect 30 90 parameter
  | .background => colourEffect 40 100 parameter

/-- A parameter, or `38` or `48` with the parameters of its colour. -/
inductive SgrOp where
  | parameter (part : JsString)
  | colour (part : JsString) (arguments : List JsString)
  deriving DecidableEq

/-- The operations of a code, when the first `skip` parameters belong to a colour. An
empty parameter counts as zero, and `38` or `48` without a colour stands for itself. -/
def sgrOps : Nat → List JsString → List SgrOp
  | _, [] => []
  | skip + 1, _ :: rest => sgrOps skip rest
  | 0, part :: rest =>
    match if digitsValue part = 38 ∨ digitsValue part = 48 then colorLength rest else none with
    | some length => .colour part (rest.take length) :: sgrOps length rest
    | none => .parameter part :: sgrOps 0 rest

/-- What an operation sets a slot to, unless it leaves it. -/
def SgrOp.effect : SgrOp → Slot → Option Setting
  | .parameter part, slot => parameterEffect (digitsValue part) slot
  | .colour part arguments, slot =>
    if slot = if digitsValue part = 38 then .foreground else .background then
      some (.colour ((part :: arguments).map digitsValue))
    else none

def settingAfter (slot : Slot) (setting : Setting) (ops : List SgrOp) : Setting :=
  ops.foldl (fun setting op => (op.effect slot).getD setting) setting

@[ext] structure Rendition where
  slots : Slot → Setting
  hyperlink : Option (JsString × JsString)

namespace Rendition

def reset : Rendition := ⟨fun _ => .off, none⟩

def read (r : Rendition) (code : JsString) : Rendition :=
  match parseOsc8Hyperlink code with
  | some hyperlink => { r with hyperlink := hyperlink.map fun h => (h.params, h.url) }
  | none =>
    match sgrParams code with
    | some params =>
      { r with slots := fun slot =>
          settingAfter slot (r.slots slot) (sgrOps 0 (params.splitOn semicolon)) }
    | none => r

def after (r : Rendition) : AnsiItem → Rendition
  | .code s => r.read s
  | .unit _ => r

/-- The visible characters of some items, each as it is shown. -/
def paint : Rendition → List AnsiItem → List (CodeUnit × Rendition)
  | _, [] => []
  | r, .code s :: items => (r.read s).paint items
  | r, .unit c :: items => if isWhitespace c then r.paint items else (c, r) :: r.paint items

theorem paint_append (r : Rendition) (a b : List AnsiItem) :
    r.paint (a ++ b) = r.paint a ++ (a.foldl after r).paint b := by
  induction a generalizing r with
  | nil => rfl
  | cons i a ih =>
    cases i with
    | code s => exact ih (r.read s)
    | unit c =>
      have htail := ih r
      simp only [List.cons_append, paint]
      split
      · exact htail
      · rw [htail]
        rfl

end Rendition

/-- The visible characters of a text that is drawn from the reset state. -/
def render (text : JsString) : List (CodeUnit × Rendition) := Rendition.reset.paint (ansiItems text)

def flag (b : Bool) : Setting := if b then .on else .off

/-- The colour that a code of the tracker stands for. -/
def colourOf (colorCode : Option JsString) : Setting :=
  (colorCode.map fun s => Setting.colour ((s.splitOn semicolon).map digitsValue)).getD .off

namespace AnsiCodeTracker

/-- What a terminal keeps that has read the active codes of a tracker. -/
def view (tracker : AnsiCodeTracker) : Rendition where
  slots
    | .bold => flag tracker.bold
    | .faint => flag tracker.dim
    | .italic => flag tracker.italic
    | .underline => flag tracker.underline
    | .slowBlink => flag tracker.blink
    | .inverse => flag tracker.inverse
    | .conceal => flag tracker.hidden
    | .crossedOut => flag tracker.strikethrough
    | .foreground => colourOf tracker.fgColor
    | .background => colourOf tracker.bgColor
    | .rapidBlink | .framed | .encircled | .overline => .off
  hyperlink := tracker.activeHyperlink.map fun h => (h.params, h.url)

def applyOp (tracker : AnsiCodeTracker) : SgrOp → AnsiCodeTracker
  | .parameter part =>
    match paramCode part with
    | some code => tracker.applyCode code
    | none => tracker
  | .colour part arguments =>
    tracker.setColor (digitsValue part) ([semicolon].intercalate (part :: arguments))

theorem applyParts_eq (parts : List JsString) (skip : Nat) (tracker : AnsiCodeTracker) :
    applyParts skip tracker parts = (sgrOps skip parts).foldl applyOp tracker := by
  induction parts generalizing skip tracker with
  | nil => cases skip <;> rfl
  | cons part rest ih =>
    cases skip with
    | succ skip => exact ih skip tracker
    | zero =>
      rw [applyParts, sgrOps]
      by_cases hempty : part = []
      · subst hempty
        exact ih 0 tracker
      · have hcode : paramCode part = some (digitsValue part) := if_neg hempty
        cases hlength : if digitsValue part = 38 ∨ digitsValue part = 48 then colorLength rest
          else none with
        | some length =>
          simp only [hcode, hlength]
          exact ih _ _
        | none =>
          simp only [hcode, hlength, List.foldl_cons, applyOp]
          exact ih _ _

theorem applyCode_view {tracker : AnsiCodeTracker} {code : Nat} {slot : Slot}
    (h : parameterEffect code slot = none) :
    (tracker.applyCode code).view.slots slot = tracker.view.slots slot := by
  unfold applyCode
  split
  case h_20 =>
    split
    · rename_i hrange
      cases slot <;> first | rfl | skip
      rw [parameterEffect, colourEffect_eq hrange] at h
      contradiction
    · split
      · rename_i hrange
        cases slot <;> first | rfl | skip
        rw [parameterEffect, colourEffect_eq hrange] at h
        contradiction
      · rfl
  all_goals
    cases slot <;> first | rfl | simp [parameterEffect, attributeEffect, colourEffect] at h

theorem applyOp_view {tracker : AnsiCodeTracker} {op : SgrOp} {slot : Slot}
    (h : op.effect slot = none) :
    (tracker.applyOp op).view.slots slot = tracker.view.slots slot := by
  cases op with
  | parameter part =>
    rw [applyOp]
    cases hcode : paramCode part with
    | none => rfl
    | some code =>
      have hvalue : digitsValue part = code := by
        unfold paramCode at hcode
        split at hcode
        · contradiction
        · exact Option.some.inj hcode
      rw [SgrOp.effect, hvalue] at h
      exact applyCode_view h
  | colour part arguments =>
    rw [SgrOp.effect, ite_eq_right_iff] at h
    have hslot := fun heq => Option.some_ne_none _ (h heq)
    rw [applyOp, setColor]
    split at hslot
    · rename_i hfirst
      rw [if_pos hfirst]
      cases slot <;> first | rfl | exact absurd rfl hslot
    · rename_i hfirst
      rw [if_neg hfirst]
      cases slot <;> first | rfl | exact absurd rfl hslot

end AnsiCodeTracker

end AcademicAgent.AnsiText
