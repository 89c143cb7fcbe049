import AcademicAgent.Tui.WrapLines

/-!
# Styles of wrapped text

Wrapping keeps the visible characters of a styled text with their attributes, colours and
hyperlinks at every width exactly when the tracker agrees with a terminal at each of them.
-/

namespace AcademicAgent.AnsiText

open AnsiCodeTracker List

/-- A text of SGR codes, hyperlinks and other code units. -/
structure StyledText where
  items : List AnsiItem
  styled : Styled items

def StyledText.text (t : StyledText) : JsString := textOf t.items

/-- The lines of the wrapped text, each drawn from the reset state, show the visible
characters of the text as it shows them. -/
def PreservesStyles (metrics : TextMetrics) (text : JsString) (width : Int) : Prop :=
  (wrapTextWithAnsi metrics width text).flatMap render = render text

/-- At each visible character the tracker holds what a terminal shows. -/
def StyledText.TrackerAgrees (t : StyledText) : Prop := AgreesFrom {} .reset t.items

theorem StyleCode.lf_notMem {s : JsString} (h : StyleCode s) : lf ∉ s := by
  cases h with
  | @sgr params hparams =>
    simp only [AnsiCodeTracker.sgr, mem_append, mem_cons, not_mem_nil, or_false, not_or]
    exact ⟨⟨by decide, by decide, fun hmem => absurd (hparams lf hmem) (by decide)⟩, by decide⟩
  | @link params url terminator hparams _ hurl =>
    have hterminator : lf ∉ terminator.text := by cases terminator <;> decide
    simp only [formatOsc8Hyperlink, mem_append, mem_singleton, not_or]
    exact ⟨⟨⟨⟨by decide, fun hmem => (hparams lf hmem).2.2 rfl⟩, by decide⟩,
      fun hmem => (hurl lf hmem).2.2 rfl⟩, hterminator⟩

theorem splitOn_textOf {items : List AnsiItem} (h : Styled items) :
    (textOf items).splitOn lf = (items.splitOn (.unit lf)).map textOf := by
  induction items with
  | nil => rfl
  | cons i items ih =>
    have htail := ih fun j hj => h j (mem_cons_of_mem _ hj)
    obtain ⟨g, gs, hgs⟩ := exists_cons_of_ne_nil (splitOn_ne_nil (.unit lf) items)
    have happend : ∀ s : JsString, lf ∉ s →
        (s ++ textOf items).splitOn lf = (s ++ textOf g) :: gs.map textOf := by
      intro s hs
      rw [hgs, map_cons] at htail
      induction s with
      | nil => exact htail
      | cons c s ihs =>
        have hc : c ≠ lf := fun heq => hs (heq ▸ mem_cons_self)
        rw [cons_append, splitOn_cons_eq_if_modifyHead, if_neg (by simpa using hc),
          ihs fun hmem => hs (mem_cons_of_mem _ hmem)]
        rfl
    rw [splitOn_cons_eq_if_modifyHead]
    cases i with
    | code s =>
      rw [if_neg (by simp), hgs]
      exact happend s (StyleCode.lf_notMem (h _ mem_cons_self))
    | unit c =>
      by_cases hc : c = lf
      · subst hc
        rw [if_pos (by simp), map_cons, ← htail]
        change (lf :: textOf items).splitOn lf = _
        rw [splitOn_cons_eq_if_modifyHead, if_pos (by simp)]
        rfl
      · rw [if_neg (by simpa using hc), hgs]
        exact happend [c] (by simpa using fun heq : lf = c => hc heq.symm)

theorem mem_intercalate {groups : List (List AnsiItem)} {g sep : List AnsiItem} {i : AnsiItem}
    (hg : g ∈ groups) (hi : i ∈ g) : i ∈ sep.intercalate groups := by
  induction groups with
  | nil => contradiction
  | cons first groups ih =>
    by_cases hlast : groups = []
    · subst hlast
      rw [intercalate_singleton]
      exact mem_singleton.mp hg ▸ hi
    · rw [intercalate_cons_of_ne_nil hlast]
      rcases mem_cons.mp hg with rfl | hg
      · exact mem_append_left _ (mem_append_left _ hi)
      · exact mem_append_right _ (ih hg)

theorem AgreesFrom.tail {tracker : AnsiCodeTracker} {r : Rendition} {a b : List AnsiItem}
    (h : AgreesFrom tracker r (a ++ b)) :
    AgreesFrom (a.foldl AnsiItem.track tracker) (a.foldl Rendition.after r) b := by
  rintro before c rest rfl hvisible
  have := h (a ++ before) c rest (by simp) hvisible
  rwa [foldl_append, foldl_append] at this

section Metrics

variable (metrics : TextMetrics) {width : Int}

theorem wrapSingleLine_ne_nil (line : JsString) : wrapSingleLine metrics width line ≠ [] := by
  have hlines : ∀ wrapped : List JsString,
      (if wrapped = [] then [[]] else wrapped.map trimEnd) ≠ [] := by
    intro wrapped
    split
    · exact cons_ne_nil _ _
    · rename_i hne
      exact fun hmap => hne (map_eq_nil_iff.mp hmap)
  rw [wrapSingleLine]
  split
  · exact cons_ne_nil _ _
  · split
    · exact cons_ne_nil _ _
    · exact hlines _

theorem unit_notMem_activeItems (tracker : AnsiCodeTracker) (c : CodeUnit) :
    AnsiItem.unit c ∉ tracker.activeItems := by
  rw [activeItems, codeItems]
  split <;> cases tracker.activeHyperlink <;> simp

theorem wrapSingleLine_ink {tracker : AnsiCodeTracker} (hwell : tracker.WellFormed)
    {line : List AnsiItem} (hline : Styled line) (r : Rendition) : (AgreesFrom tracker r line →
      (wrapSingleLine metrics width (tracker.getActiveCodes ++ textOf line)).flatMap render =
        r.paint line) ∧ (width < 0 →
      (wrapSingleLine metrics width (tracker.getActiveCodes ++ textOf line)).flatMap render =
        paintTracked tracker line) := by
  have hstyled := styled_append hwell.styled_activeItems hline
  obtain ⟨t, hflow, hink⟩ := @wrapSingleLine_flow width metrics _ hstyled
  rw [textOf_append, textOf_activeItems] at hink
  refine ⟨fun hagrees => ?_, fun hwidth => ?_⟩
  · obtain ⟨hpaint, hview⟩ := (compatible_held r tracker.view).paint_eq hline hagrees
    have hwhole : AgreesFrom {} .reset (tracker.activeItems ++ line) := by
      intro before c rest hsplit hvisible
      rcases append_eq_append_iff.mp hsplit with ⟨a, rfl, ha⟩ | ⟨a, ha, hrest⟩
      · rw [foldl_append, foldl_append, hwell.track_activeItems, hwell.after_activeItems]
        exact hview a c rest ha hvisible
      · cases a with
        | nil =>
          rw [append_nil] at ha
          rw [← ha, hwell.track_activeItems, hwell.after_activeItems]
        | cons i a =>
          cases hrest
          exact absurd (ha ▸ by simp) (unit_notMem_activeItems tracker c)
    rw [hink, (hflow.ink_eq hwhole).1, Rendition.paint_append, Flow.paint_activeItems,
      nil_append, hwell.after_activeItems, hpaint]
  · have hnone : paintTracked {} tracker.activeItems = [] := by
      rw [activeItems, codeItems]
      split <;> cases tracker.activeHyperlink <;> rfl
    rw [hink, hflow.ink_eq_paintTracked hwidth, paintTracked_append, hnone, nil_append,
      hwell.track_activeItems]

theorem foldl_wrapLineStep {groups : List (List AnsiItem)} {result : List JsString}
    {tracker : AnsiCodeTracker} {r : Rendition} (hgroups : ∀ g ∈ groups, Styled g)
    (hwell : tracker.WellFormed) (hfirst : result = [] → tracker = {}) :
    (AgreesFrom tracker r ([.unit lf].intercalate groups) →
      (((groups.map textOf).foldl (wrapLineStep metrics width) (result, tracker)).1).flatMap render =
        result.flatMap render ++ r.paint ([.unit lf].intercalate groups)) ∧ (width < 0 →
      (((groups.map textOf).foldl (wrapLineStep metrics width) (result, tracker)).1).flatMap render =
        result.flatMap render ++ paintTracked tracker ([.unit lf].intercalate groups)) := by
  induction groups generalizing result tracker r with
  | nil => exact ⟨fun _ => (append_nil _).symm, fun _ => (append_nil _).symm⟩
  | cons g groups ih =>
    have hg := hgroups g mem_cons_self
    obtain ⟨hink, hheld⟩ := @wrapSingleLine_ink metrics width _ hwell _ hg r
    have hstart : (if result = [] then [] else tracker.getActiveCodes) = tracker.getActiveCodes := by
      split
      · rename_i hnil
        rw [hfirst hnil]
        rfl
      · rfl
    have hstep : wrapLineStep metrics width (result, tracker) (textOf g) =
        (result ++ wrapSingleLine metrics width (tracker.getActiveCodes ++ textOf g),
          g.foldl AnsiItem.track tracker) := by
      rw [wrapLineStep, hstart, updateTrackerFromText_textOf hg]
    have hnext := @ih (result ++ wrapSingleLine metrics width (tracker.getActiveCodes ++ textOf g))
      (g.foldl AnsiItem.track tracker) (g.foldl Rendition.after r)
      (fun g' hg' => hgroups g' (mem_cons_of_mem _ hg')) (hwell.foldl_track hg)
      (fun hnil => absurd (append_eq_nil_iff.mp hnil).2 (wrapSingleLine_ne_nil metrics _))
    rw [map_cons, foldl_cons, hstep]
    have hlf : isWhitespace lf = true := by decide
    by_cases hlast : groups = []
    · subst hlast
      rw [intercalate_singleton]
      simp only [map_nil, foldl_nil, flatMap_append]
      exact ⟨fun hagrees => by rw [hink hagrees], fun hwidth => by rw [hheld hwidth]⟩
    · rw [intercalate_cons_of_ne_nil hlast]
      refine ⟨fun hagrees => ?_, fun hwidth => ?_⟩
      · have hhere : AgreesFrom tracker r g := Flow.agreesFrom_append (Flow.agreesFrom_append hagrees)
        have hrest := hagrees.tail
        rw [foldl_append, foldl_append] at hrest
        rw [hnext.1 hrest, flatMap_append, hink hhere, Rendition.paint_append,
          Rendition.paint_append, foldl_append]
        simp [Rendition.paint, Rendition.after, hlf]
      · rw [hnext.2 hwidth, flatMap_append, hheld hwidth, paintTracked_append,
          paintTracked_append, foldl_append]
        simp [paintTracked, AnsiItem.track, hlf]

theorem wrapTextWithAnsi_ink (t : StyledText) :
    (t.TrackerAgrees → PreservesStyles metrics t.text width) ∧ (width < 0 →
        (wrapTextWithAnsi metrics width t.text).flatMap render = paintTracked {} t.items) := by
  have hsplit := splitOn_textOf t.styled
  have hjoin := @intercalate_splitOn _ t.items _ _ (.unit lf)
  have hgroups : ∀ g ∈ t.items.splitOn (.unit lf), Styled g := by
    intro g hg i hi
    exact t.styled i (hjoin ▸ mem_intercalate hg hi)
  obtain ⟨hagrees, hheld⟩ := @foldl_wrapLineStep metrics width _ [] {} .reset hgroups
    wellFormed_new (fun _ => rfl)
  rw [hjoin, ← hsplit] at hagrees hheld
  have hlines : (wrapTextWithAnsi metrics width t.text).flatMap render =
      (((t.text.splitOn lf).foldl (wrapLineStep metrics width) ([], {})).1).flatMap render := by
    rw [wrapTextWithAnsi]
    split
    · rename_i hnil
      rw [hnil]
      rfl
    · dsimp only
      split
      · rename_i hnil
        rw [hnil]
        rfl
      · rfl
  rw [PreservesStyles, hlines, StyledText.text, render_textOf t.styled]
  exact ⟨hagrees, hheld⟩

end Metrics

def unitMetrics : TextMetrics where
  segment s := s.map fun c => [c]
  graphemeWidth _ := 1
  flatten_segment := flatMap_singleton'

/-- Bold that an empty parameter resets at once, before two words. -/
def resetAtOnce : StyledText where
  items := .code (sgr (js "1;")) :: (js "ab cd").map .unit
  styled := by
    intro i hi
    rcases mem_cons.mp hi with rfl | hi
    · exact .sgr (all_eq_true.mp (by decide))
    · exact styled_units (fun c hc he => absurd (he ▸ hc) (by decide)) i hi

end AcademicAgent.AnsiText
