import AcademicAgent.Tui.ActiveCodes
import AcademicAgent.Tui.WrapText

/-!
# Lines that carry a tracker

Wrapping puts the items of a text on lines, starts a line with the codes of the tracker and
drops spaces.
-/

namespace AcademicAgent.AnsiText

open AnsiCodeTracker List Rendition

variable {tracker : AnsiCodeTracker}

def AnsiItem.Quiet : AnsiItem → Prop
  | .code _ => True
  | .unit c => isWhitespace c = true

/-- What the tracker holds where visible characters stand is what a terminal shows
there, from a tracker and a terminal before the items. -/
def AgreesFrom (tracker : AnsiCodeTracker) (r : Rendition) (items : List AnsiItem) : Prop :=
  ∀ before c rest, items = before ++ .unit c :: rest → isWhitespace c = false →
    (before.foldl AnsiItem.track tracker).view = before.foldl Rendition.after r

/-- The visible characters of some items, each as the tracker holds it. -/
def paintTracked : AnsiCodeTracker → List AnsiItem → List (CodeUnit × Rendition)
  | _, [] => []
  | tracker, .code s :: items => paintTracked (tracker.process s) items
  | tracker, .unit c :: items =>
    if isWhitespace c then paintTracked tracker items
    else (c, tracker.view) :: paintTracked tracker items

theorem paintTracked_append (tracker : AnsiCodeTracker) (a b : List AnsiItem) :
    paintTracked tracker (a ++ b) =
      paintTracked tracker a ++ paintTracked (a.foldl AnsiItem.track tracker) b := by
  induction a generalizing tracker with
  | nil => rfl
  | cons i a ih =>
    cases i with
    | code s => exact ih (tracker.process s)
    | unit c =>
      have htail := ih tracker
      simp only [cons_append, paintTracked]
      split
      · exact htail
      · rw [htail]
        rfl

theorem agreesFrom_of_paint_eq {items : List AnsiItem} {r : Rendition}
    (h : paintTracked tracker items = r.paint items) : AgreesFrom tracker r items := by
  rintro before c rest rfl hvisible
  rw [paintTracked_append, r.paint_append] at h
  have hlength : ∀ (items : List AnsiItem) (t : AnsiCodeTracker) (r : Rendition),
      (paintTracked t items).length = (r.paint items).length := by
    intro items
    induction items with
    | nil => exact fun _ _ => rfl
    | cons i items ih =>
      intro t r
      cases i with
      | code s => exact ih _ _
      | unit c =>
        simp only [paintTracked, paint]
        split
        · exact ih t r
        · simp only [length_cons, ih t r]
  have htail := (append_inj h (hlength before tracker r)).2
  simp only [paintTracked, paint, hvisible, Bool.false_eq_true, ite_false] at htail
  exact (Prod.mk.inj (List.cons.inj htail).1).2

/-- Each setting of a line is that of the text or that of the tracker. -/
structure Compatible (line text held : Rendition) : Prop where
  slots : ∀ slot, line.slots slot = text.slots slot ∨ line.slots slot = held.slots slot
  hyperlink : line.hyperlink = text.hyperlink ∨ line.hyperlink = held.hyperlink

theorem Compatible.eq {line text : Rendition} (h : Compatible line text text) : line = text :=
  Rendition.ext (funext fun slot => (h.slots slot).elim id id) (h.hyperlink.elim id id)

theorem compatible_held (text held : Rendition) : Compatible held text held :=
  ⟨fun _ => .inr rfl, .inr rfl⟩

theorem applyOp_hyperlink (tracker : AnsiCodeTracker) (op : SgrOp) :
    (tracker.applyOp op).activeHyperlink = tracker.activeHyperlink := by
  cases op with
  | parameter part =>
    rw [applyOp]
    split
    · unfold applyCode
      split
      case h_20 => split_ifs <;> rfl
      all_goals rfl
    · rfl
  | colour part arguments =>
    rw [applyOp, setColor]
    split <;> rfl

theorem foldl_applyOp_hyperlink (tracker : AnsiCodeTracker) (ops : List SgrOp) :
    (ops.foldl applyOp tracker).activeHyperlink = tracker.activeHyperlink := by
  induction ops generalizing tracker with
  | nil => rfl
  | cons op ops ih => rw [foldl_cons, ih, applyOp_hyperlink]

theorem settingAfter_compatible {slot : Slot} {line text : Setting} {ops : List SgrOp}
    (h : line = text ∨ line = tracker.view.slots slot) :
    settingAfter slot line ops = settingAfter slot text ops ∨
      settingAfter slot line ops = (ops.foldl applyOp tracker).view.slots slot := by
  induction ops generalizing line text tracker with
  | nil => exact h
  | cons op ops ih =>
    refine ih ?_
    cases heffect : op.effect slot with
    | some setting => exact .inl (by simp only [heffect, Option.getD_some])
    | none =>
      simp only [applyOp_view heffect, heffect, Option.getD_none]
      exact h

section

variable {line text : Rendition}

theorem Compatible.read {tracker : AnsiCodeTracker} {s : JsString}
    (h : Compatible line text tracker.view) (hs : StyleCode s) :
    Compatible (line.read s) (text.read s) (tracker.process s).view := by
  cases hs with
  | @sgr params hparams =>
    rw [line.read_sgr hparams, text.read_sgr hparams, process_sgr tracker hparams]
    split
    · rename_i hnil
      subst hnil
      refine ⟨fun slot => .inl ?_, h.hyperlink⟩
      cases slot <;> rfl
    · rw [applyParts_eq]
      refine ⟨fun slot => settingAfter_compatible (h.slots slot), ?_⟩
      rw [view, foldl_applyOp_hyperlink]
      exact h.hyperlink
  | link terminator _ hsemicolon _ =>
    rw [line.read_link terminator hsemicolon, text.read_link terminator hsemicolon,
      process_link tracker terminator hsemicolon]
    exact ⟨h.slots, .inl rfl⟩

theorem Compatible.after {i : AnsiItem}
    (h : Compatible line text tracker.view) (hi : i.Good) :
    Compatible (line.after i) (text.after i) (i.track tracker).view := by
  cases i with
  | code s => exact h.read hi
  | unit c => exact h

theorem Compatible.paint_eq {items : List AnsiItem}
    (h : Compatible line text tracker.view) (hitems : Styled items)
    (hagrees : AgreesFrom tracker text items) :
    line.paint items = text.paint items ∧ AgreesFrom tracker line items := by
  induction items generalizing line text tracker with
  | nil => exact ⟨rfl, fun before c rest hsplit => by simp at hsplit⟩
  | cons i items ih =>
    have hgood := hitems i mem_cons_self
    obtain ⟨hpaint, hline⟩ := ih (h.after hgood) (fun j hj => hitems j (mem_cons_of_mem _ hj))
      fun before c rest hsplit hvisible =>
        hagrees (i :: before) c rest (congrArg (i :: ·) hsplit) hvisible
    have htail : ∀ before c rest, i :: items = before ++ .unit c :: rest → before ≠ [] →
        isWhitespace c = false →
        (before.foldl AnsiItem.track tracker).view = before.foldl Rendition.after line := by
      intro before c rest hsplit hne hvisible
      cases before with
      | nil => contradiction
      | cons j before =>
        cases hsplit
        exact hline before c rest rfl hvisible
    cases i with
    | code s =>
      refine ⟨hpaint, fun before c rest hsplit hvisible => ?_⟩
      cases before with
      | nil => cases hsplit
      | cons j before => exact htail _ c rest hsplit (cons_ne_nil _ _) hvisible
    | unit u =>
      have hhere : isWhitespace u = false → tracker.view = line ∧ line = text := by
        intro hvisible
        have heq := hagrees [] u items rfl hvisible
        change tracker.view = text at heq
        rw [heq] at h
        exact ⟨heq.trans h.eq.symm, h.eq⟩
      refine ⟨?_, fun before c rest hsplit hvisible => ?_⟩
      · cases hspace : isWhitespace u with
        | true =>
          simp only [paint, hspace, ite_true]
          exact hpaint
        | false =>
          simp only [paint, hspace, Bool.false_eq_true, ite_false, (hhere hspace).2]
      · cases before with
        | nil =>
          cases hsplit
          exact (hhere hvisible).1
        | cons j before => exact htail _ c rest hsplit (cons_ne_nil _ _) hvisible

end

/-- Lines that are done, the items of the line in the making, and the tracker. -/
structure Layout where
  lines : List (List AnsiItem)
  current : List AnsiItem
  tracker : AnsiCodeTracker

variable {t : Layout}

namespace Layout

def start : Layout := ⟨[], [], {}⟩

/-- What the lines show, each drawn from the reset state. -/
def ink (s : Layout) : List (CodeUnit × Rendition) :=
  s.lines.flatMap Rendition.reset.paint ++ Rendition.reset.paint s.current

/-- The state of a terminal at the end of the line in the making. -/
def pen (s : Layout) : Rendition := s.current.foldl Rendition.after Rendition.reset

end Layout

/-- Items go on the line in the making, or are dropped when they are spaces, and a
line ends with what it shows so far. With a negative width a visible character is put
only where the line shows what the tracker holds. -/
inductive Flow (width : Int) : Layout → List AnsiItem → Layout → Prop where
  | refl (s : Layout) : Flow width s [] s
  | item {s t : Layout} {items : List AnsiItem} {i : AnsiItem} : Flow width s items t → i.Good →
      (0 ≤ width ∨ i.Quiet ∨ t.pen = t.tracker.view) →
      Flow width s (items ++ [i]) ⟨t.lines, t.current ++ [i], i.track t.tracker⟩
  | drop {s t : Layout} {items : List AnsiItem} {c : CodeUnit} : Flow width s items t →
      isWhitespace c = true → c ≠ escape → Flow width s (items ++ [.unit c]) t
  | lineEnd {s t : Layout} {items line : List AnsiItem} : Flow width s items t → Styled line →
      Rendition.reset.paint line = Rendition.reset.paint t.current →
      Flow width s items ⟨t.lines ++ [line], t.tracker.activeItems, t.tracker⟩
  | restart {s t : Layout} {items : List AnsiItem} : Flow width s items t → t.current = [] →
      Flow width s items ⟨t.lines, t.tracker.activeItems, t.tracker⟩

namespace Flow

variable {width : Int}

theorem paint_activeItems (tracker : AnsiCodeTracker) (r : Rendition) :
    r.paint tracker.activeItems = [] := by
  rw [activeItems, codeItems]
  split <;> cases tracker.activeHyperlink <;> rfl

theorem agreesFrom_append {r : Rendition} {a b : List AnsiItem} (h : AgreesFrom tracker r (a ++ b))
    : AgreesFrom tracker r a := by
  rintro before c rest rfl hvisible
  exact h before c (rest ++ b) (by simp) hvisible

section

variable {items : List AnsiItem}

theorem styled_concat {i : AnsiItem} (hitems : Styled items)
    (hi : i.Good) : Styled (items ++ [i]) := by
  intro j hj
  rcases mem_append.mp hj with hj | hj
  · exact hitems j hj
  · exact mem_singleton.mp hj ▸ hi

theorem reads (h : Flow width .start items t) :
    Styled items ∧ t.tracker = items.foldl AnsiItem.track {} ∧ t.tracker.WellFormed := by
  induction h with
  | refl => exact ⟨fun i hi => absurd hi not_mem_nil, rfl, wellFormed_new⟩
  | @item t items i _ hgood _ ih =>
    obtain ⟨hstyled, htracker, hwell⟩ := ih
    refine ⟨styled_concat hstyled hgood, ?_, ?_⟩
    · rw [foldl_append, htracker]
      rfl
    · cases i with
      | code s => exact hwell.process hgood
      | unit c => exact hwell
  | drop _ _ hne ih =>
    obtain ⟨hstyled, htracker, hwell⟩ := ih
    exact ⟨styled_concat hstyled hne, by rw [foldl_append, htracker]; rfl, hwell⟩
  | lineEnd _ _ _ ih => exact ih
  | restart _ _ ih => exact ih

theorem ink_item (t : Layout) (i : AnsiItem) (tracker : AnsiCodeTracker) :
    Layout.ink ⟨t.lines, t.current ++ [i], tracker⟩ = t.ink ++ t.pen.paint [i] := by
  rw [Layout.ink, Layout.ink, paint_append, append_assoc]
  rfl

theorem ink_newLine (lines : List (List AnsiItem)) (tracker : AnsiCodeTracker) :
    Layout.ink ⟨lines, tracker.activeItems, tracker⟩ = lines.flatMap reset.paint := by
  rw [Layout.ink, paint_activeItems, append_nil]

theorem ink_lineEnd {line : List AnsiItem}
    (h : reset.paint line = reset.paint t.current) :
    Layout.ink ⟨t.lines ++ [line], t.tracker.activeItems, t.tracker⟩ = t.ink := by
  rw [ink_newLine, flatMap_append, flatMap_singleton, h]
  rfl

theorem ink_restart (h : t.current = []) :
    Layout.ink ⟨t.lines, t.tracker.activeItems, t.tracker⟩ = t.ink := by
  rw [ink_newLine, Layout.ink, h]
  exact (append_nil _).symm

theorem ink_eq (h : Flow width .start items t) (hagrees : AgreesFrom {} .reset items) :
    t.ink = reset.paint items ∧
      Compatible t.pen (items.foldl after .reset) t.tracker.view := by
  induction h with
  | refl => exact ⟨rfl, fun _ => .inl rfl, .inl rfl⟩
  | @item t items i hflow hgood _ ih =>
    obtain ⟨hink, hcompatible⟩ := ih (agreesFrom_append hagrees)
    have hpaint : t.pen.paint [i] = (items.foldl after .reset).paint [i] := by
      cases i with
      | code s => rfl
      | unit c =>
        cases hspace : isWhitespace c with
        | true => simp only [paint, hspace, ite_true]
        | false =>
          have hhere := hagrees items c [] (by simp) hspace
          rw [← hflow.reads.2.1] at hhere
          rw [hhere] at hcompatible
          rw [hcompatible.eq]
    refine ⟨?_, ?_⟩
    · rw [ink_item, hink, hpaint, ← paint_append]
    · rw [Layout.pen, foldl_append, foldl_append]
      exact hcompatible.after hgood
  | @drop t items c _ hspace _ ih =>
    obtain ⟨hink, hcompatible⟩ := ih (agreesFrom_append hagrees)
    refine ⟨?_, ?_⟩
    · rw [hink, paint_append]
      simp only [paint, hspace, ite_true, append_nil]
    · rw [foldl_append]
      exact hcompatible
  | @lineEnd t items line hflow _ hpaint ih =>
    have hpen := hflow.reads.2.2.after_activeItems
    refine ⟨(ink_lineEnd hpaint).trans (ih hagrees).1, ?_⟩
    rw [Layout.pen, hpen]
    exact compatible_held _ _
  | @restart t items hflow hnil ih =>
    have hpen := hflow.reads.2.2.after_activeItems
    refine ⟨(ink_restart hnil).trans (ih hagrees).1, ?_⟩
    rw [Layout.pen, hpen]
    exact compatible_held _ _

theorem ink_eq_paintTracked (h : Flow width .start items t) (hwidth : width < 0) :
    t.ink = paintTracked {} items := by
  induction h with
  | refl => rfl
  | @item t items i hflow _ hpen ih =>
    have hpaint : t.pen.paint [i] = paintTracked t.tracker [i] := by
      cases i with
      | code s => rfl
      | unit c =>
        simp only [paint, paintTracked]
        split
        · rfl
        · rename_i hspace
          rcases hpen with hpen | hpen | hpen
          · omega
          · exact absurd hpen hspace
          · rw [hpen]
    rw [ink_item, ih, hpaint, hflow.reads.2.1, ← paintTracked_append]
  | @drop t items c _ hspace _ ih =>
    rw [ih, paintTracked_append]
    simp only [paintTracked, hspace, ite_true, append_nil]
  | lineEnd _ _ hpaint ih => exact (ink_lineEnd hpaint).trans ih
  | restart _ hnil ih => exact (ink_restart hnil).trans ih

end

end Flow

end AcademicAgent.AnsiText
