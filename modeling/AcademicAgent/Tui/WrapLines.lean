import AcademicAgent.Tui.WrapFlow

/-!
# The lines of wrapped text

The strings that wrapping makes are texts of items, and each of its loops is a flow
of the items that it goes through.
-/

namespace AcademicAgent.AnsiText

open AnsiCodeTracker List Rendition

open AnsiItem (track)

variable {width : Int}

/-- The variables of a loop are the texts of a layout. -/
structure Layout.Written (t : Layout) (wrapped : List JsString) (currentLine : JsString)
    (tracker : AnsiCodeTracker) : Prop where
  wrapped : wrapped = t.lines.map textOf
  currentLine : currentLine = textOf t.current
  tracker : tracker = t.tracker
  styled_lines : ∀ line ∈ t.lines, Styled line
  styled_current : Styled t.current

theorem styled_append {a b : List AnsiItem} (ha : Styled a) (hb : Styled b) : Styled (a ++ b) :=
  fun i hi => (mem_append.mp hi).elim (ha i) (hb i)

theorem styled_units {s : JsString} (h : ∀ c ∈ s, c ≠ escape) : Styled (s.map .unit) := by
  intro i hi
  obtain ⟨c, hc, rfl⟩ := mem_map.mp hi
  exact h c hc

theorem textOf_units (s : JsString) : textOf (s.map .unit) = s := by
  induction s with
  | nil => rfl
  | cons c s ih => exact congrArg (c :: ·) ih

theorem textOf_eq_nil {items : List AnsiItem} (h : Styled items) (hnil : textOf items = []) :
    items = [] := by
  rw [← ansiItems_textOf h, hnil]
  rfl

section

variable (tracker : AnsiCodeTracker)

def resetItems : List AnsiItem :=
  (if tracker.underline then [.code (sgr (js "24"))] else []) ++
    (tracker.activeHyperlink.map fun h => AnsiItem.code (formatOsc8Close h.terminator)).toList

theorem textOf_resetItems : textOf (resetItems tracker) = tracker.getLineEndReset := by
  rw [resetItems, getLineEndReset, textOf_append]
  congr 1
  · split <;> rfl
  · cases tracker.activeHyperlink with
    | none => rfl
    | some h => exact append_nil _

theorem styled_resetItems : Styled (resetItems tracker) := by
  refine styled_append ?_ ?_
  · split
    · intro i hi
      rw [mem_singleton.mp hi]
      exact .sgr (all_eq_true.mp (by decide))
    · exact fun i hi => absurd hi not_mem_nil
  · intro i hi
    obtain ⟨h, -, rfl⟩ := Option.map_eq_some_iff.mp (Option.mem_toList.mp hi)
    exact .link h.terminator (forall_mem_nil _) not_mem_nil (forall_mem_nil _)

theorem paint_resetItems (r : Rendition) : r.paint (resetItems tracker) = [] := by
  rw [resetItems]
  split <;> cases tracker.activeHyperlink <;> rfl

end

namespace Flow

variable {items : List AnsiItem} {t : Layout} {wrapped : List JsString} {currentLine : JsString}
  {tracker : AnsiCodeTracker}

theorem endLine (h : Flow width .start items t) (hw : t.Written wrapped currentLine tracker)
    {line : List AnsiItem} (hline : Styled line)
    (hpaint : reset.paint line = reset.paint t.current) :
    ∃ t', Flow width .start items t' ∧ t'.pen = tracker.view ∧
      t'.Written (wrapped ++ [textOf line ++ tracker.getLineEndReset]) tracker.getActiveCodes
        tracker := by
  obtain ⟨rfl, rfl, rfl, hlines, hcurrent⟩ := hw
  have hwell := h.reads.2.2
  have hstyled := styled_append hline (styled_resetItems t.tracker)
  refine ⟨_, h.lineEnd hstyled ?_, hwell.after_activeItems, ?_⟩
  · rw [paint_append, paint_resetItems, append_nil, hpaint]
  · refine ⟨?_, textOf_activeItems.symm, rfl, ?_, hwell.styled_activeItems⟩
    · rw [map_append, map_singleton, textOf_append, textOf_resetItems]
    · intro l hl
      rcases mem_append.mp hl with hl | hl
      · exact hlines l hl
      · exact mem_singleton.mp hl ▸ hstyled

theorem append (h : Flow width .start items t) (hw : t.Written wrapped currentLine tracker)
    {more : List AnsiItem} (hmore : Styled more) (hplace : 0 ≤ width ∨ (∀ i ∈ more, i.Quiet) ∨
      t.pen = tracker.view ∧ ∃ s : JsString, more = s.map .unit) :
    ∃ t', Flow width .start (items ++ more) t' ∧
      t'.Written wrapped (currentLine ++ textOf more) (more.foldl track tracker) := by
  induction more generalizing items t currentLine tracker with
  | nil => exact ⟨t, by rwa [append_nil], by simpa using hw⟩
  | cons i more ih =>
    have hgood := hmore i mem_cons_self
    have hrest : Styled more := fun j hj => hmore j (mem_cons_of_mem _ hj)
    have hitem : 0 ≤ width ∨ i.Quiet ∨ t.pen = t.tracker.view := by
      rcases hplace with hwidth | hquiet | ⟨hpen, -⟩
      · exact .inl hwidth
      · exact .inr (.inl (hquiet i mem_cons_self))
      · exact .inr (.inr (hw.tracker ▸ hpen))
    have hnext : Layout.Written ⟨t.lines, t.current ++ [i], i.track t.tracker⟩ wrapped
        (currentLine ++ i.text) (i.track tracker) := by
      obtain ⟨rfl, rfl, rfl, hlines, hcurrent⟩ := hw
      exact ⟨rfl, by rw [textOf_append, textOf_cons, textOf_nil, append_nil], rfl, hlines,
        styled_concat hcurrent hgood⟩
    have hplace' : 0 ≤ width ∨ (∀ j ∈ more, j.Quiet) ∨
        Layout.pen ⟨t.lines, t.current ++ [i], i.track t.tracker⟩ = (i.track tracker).view ∧
          ∃ s : JsString, more = s.map .unit := by
      rcases hplace with hwidth | hquiet | ⟨hpen, s, hs⟩
      · exact .inl hwidth
      · exact .inr (.inl fun j hj => hquiet j (mem_cons_of_mem _ hj))
      · cases s with
        | nil => cases hs
        | cons c s =>
          cases hs
          refine .inr (.inr ⟨?_, s, rfl⟩)
          rw [Layout.pen, foldl_append]
          exact hpen
    obtain ⟨t', hflow, hwritten⟩ := ih (h.item hgood hitem) hnext hrest hplace'
    refine ⟨t', by simpa using hflow, ?_⟩
    rw [textOf_cons, ← append_assoc]
    exact hwritten

end Flow

def WordSegment.items : WordSegment → List AnsiItem
  | .ansi value => [.code value]
  | .grapheme value => value.map .unit

section Metrics

variable (metrics : TextMetrics)

theorem items_graphemes (s : JsString) :
    ((metrics.segment s).map WordSegment.grapheme).flatMap WordSegment.items = s.map .unit := by
  conv_rhs => rw [← metrics.flatten_segment s]
  rw [flatMap_map, map_flatten, flatMap]
  rfl

theorem items_wordSegments (portion : JsString) (items : List AnsiItem) :
    (wordSegments metrics portion items).flatMap WordSegment.items =
      portion.map .unit ++ items := by
  induction items generalizing portion with
  | nil => rw [wordSegments, items_graphemes, append_nil]
  | cons i items ih =>
    cases i with
    | unit c =>
      rw [wordSegments, ih, map_append, append_assoc]
      rfl
    | code s =>
      rw [wordSegments, flatMap_append, items_graphemes, flatMap_cons, ih]
      rfl

theorem Flow.breakSteps {segments : List WordSegment} {b : BreakState} {items : List AnsiItem}
    {t : Layout} {wrapped : List JsString} (h : Flow width .start items t)
    (hw : t.Written (wrapped ++ b.lines) b.currentLine b.tracker)
    (hsegments : Styled (segments.flatMap WordSegment.items))
    (hline : b.lines ≠ [] → b.currentLine ≠ []) :
    ∃ t', Flow width .start (items ++ segments.flatMap WordSegment.items) t' ∧
      t'.Written (wrapped ++ (segments.foldl (breakStep metrics width) b).lines)
        (segments.foldl (breakStep metrics width) b).currentLine
        (segments.foldl (breakStep metrics width) b).tracker ∧
      ((segments.foldl (breakStep metrics width) b).lines ≠ [] →
        (segments.foldl (breakStep metrics width) b).currentLine ≠ []) := by
  induction segments generalizing b items t with
  | nil => exact ⟨t, by simpa using h, hw, hline⟩
  | cons segment segments ih =>
    have hfirst : Styled segment.items := fun i hi => hsegments i (mem_append_left _ hi)
    have hrest : Styled (segments.flatMap WordSegment.items) :=
      fun i hi => hsegments i (mem_append_right _ hi)
    have hone : ∃ t', Flow width .start (items ++ segment.items) t' ∧
        t'.Written (wrapped ++ (breakStep metrics width b segment).lines)
          (breakStep metrics width b segment).currentLine
          (breakStep metrics width b segment).tracker ∧
        ((breakStep metrics width b segment).lines ≠ [] →
          (breakStep metrics width b segment).currentLine ≠ []) := by
      cases segment with
      | ansi value =>
        obtain ⟨t', hflow, hwritten⟩ := h.append hw hfirst (.inr (.inl fun i hi => by
          rw [mem_singleton.mp hi]
          trivial))
        refine ⟨t', hflow, by simpa [breakStep, WordSegment.items, AnsiItem.text, track]
          using hwritten, fun hlines => ?_⟩
        exact append_ne_nil_of_left_ne_nil (hline hlines) _
      | grapheme grapheme =>
        by_cases hempty : grapheme = []
        · subst hempty
          exact ⟨t, by simpa [WordSegment.items] using h, hw, hline⟩
        · have htrack : ∀ (s : JsString) (tracker : AnsiCodeTracker),
              (s.map AnsiItem.unit).foldl track tracker = tracker := by
            intro s
            induction s with
            | nil => exact fun _ => rfl
            | cons c s ih => exact ih
          by_cases hfits : (b.currentWidth + visibleWidth metrics grapheme : Int) > width
          · have hpaint : reset.paint t.current = reset.paint t.current := rfl
            obtain ⟨t', hflow, hpen, hwritten⟩ := h.endLine hw hw.styled_current hpaint
            obtain ⟨t'', hflow', hwritten'⟩ := hflow.append hwritten hfirst
              (.inr (.inr ⟨hpen, grapheme, rfl⟩))
            refine ⟨t'', hflow', ?_, fun _ => ?_⟩
            · rw [← hw.currentLine] at hwritten'
              simpa only [breakStep, if_neg hempty, if_pos hfits, WordSegment.items, textOf_units,
                htrack, append_assoc] using hwritten'
            · simp only [breakStep, if_neg hempty, if_pos hfits]
              exact append_ne_nil_of_right_ne_nil _ hempty
          · obtain ⟨t', hflow, hwritten⟩ := h.append hw hfirst (.inl (by omega))
            refine ⟨t', hflow, ?_, fun _ => ?_⟩
            · simpa only [breakStep, if_neg hempty, if_neg hfits, WordSegment.items, textOf_units,
                htrack] using hwritten
            · simp only [breakStep, if_neg hempty, if_neg hfits]
              exact append_ne_nil_of_right_ne_nil _ hempty
    obtain ⟨t', hflow, hwritten, hline'⟩ := hone
    obtain ⟨t'', hflow', hlast⟩ := ih hflow hwritten hrest hline'
    exact ⟨t'', by simpa using hflow', hlast⟩

theorem foldl_tokenStep {items done : List AnsiItem} {s : TokenState}
    {groups : List (List AnsiItem)} {current pending : List AnsiItem}
    (htokens : s.tokens = groups.map textOf) (hcurrent : s.current = textOf current)
    (hpending : s.pendingAnsi = textOf pending)
    (hdone : groups.flatten ++ current ++ pending = done) :
    ∃ (groups : List (List AnsiItem)) (current pending : List AnsiItem),
      (items.foldl tokenStep s).tokens = groups.map textOf ∧
      (items.foldl tokenStep s).current = textOf current ∧
      (items.foldl tokenStep s).pendingAnsi = textOf pending ∧
      groups.flatten ++ current ++ pending = done ++ items := by
  induction items generalizing s groups current pending done with
  | nil => exact ⟨groups, current, pending, htokens, hcurrent, hpending, by simp [hdone]⟩
  | cons i items ih =>
    rw [append_cons, foldl_cons]
    cases i with
    | code code =>
      refine @ih _ _ groups current (pending ++ [.code code]) htokens hcurrent ?_ ?_
      · rw [textOf_append, ← hpending]
        exact congrArg _ (append_nil code).symm
      · rw [← hdone]
        simp
    | unit char =>
      by_cases hswitch : decide (char = 0x20) ≠ s.inWhitespace ∧ s.current ≠ []
      · have hstep : tokenStep s (.unit char) =
            { tokens := s.tokens ++ [s.current], current := s.pendingAnsi ++ [char]
              pendingAnsi := [], inWhitespace := decide (char = 0x20) } := by
          simp only [tokenStep, if_pos hswitch]
          rfl
        rw [hstep]
        refine @ih _ _ (groups ++ [current]) (pending ++ [.unit char]) [] ?_ ?_ rfl ?_
        · rw [map_append, htokens, hcurrent]
          rfl
        · rw [textOf_append, hpending]
          rfl
        · rw [← hdone]
          simp
      · have hstep : tokenStep s (.unit char) =
            { s with current := s.current ++ s.pendingAnsi ++ [char]
                     pendingAnsi := [], inWhitespace := decide (char = 0x20) } := by
          simp only [tokenStep, if_neg hswitch]
        rw [hstep]
        refine @ih _ _ groups (current ++ pending ++ [.unit char]) [] htokens ?_ rfl ?_
        · rw [textOf_append, textOf_append, ← hcurrent, ← hpending]
          rfl
        · rw [← hdone]
          simp

theorem splitIntoTokensWithAnsi_textOf {items : List AnsiItem} (h : Styled items) :
    ∃ groups : List (List AnsiItem), splitIntoTokensWithAnsi (textOf items) = groups.map textOf ∧
      groups.flatten = items := by
  obtain ⟨groups, current, pending, htokens, hcurrent, hpending, hitems⟩ :=
    @foldl_tokenStep items [] {} [] [] [] rfl rfl rfl rfl
  rw [nil_append] at hitems
  rw [splitIntoTokensWithAnsi, ansiItems_textOf h, htokens, hcurrent, hpending, ← textOf_append]
  split
  · rename_i hnil
    have hstyled : Styled (current ++ pending) := fun i hi => h i (by
      rw [← hitems, append_assoc]
      exact mem_append_right _ hi)
    have hempty := textOf_eq_nil hstyled hnil
    refine ⟨groups, rfl, ?_⟩
    rw [← hitems, append_assoc, hempty, append_nil]
  · refine ⟨groups ++ [current ++ pending], by simp, ?_⟩
    rw [← hitems]
    simp

theorem StyleCode.getLast_visible {s : JsString} (h : StyleCode s) :
    ∃ before c, s = before ++ [c] ∧ isWhitespace c = false := by
  cases h with
  | @sgr params _ => exact ⟨escape :: bracket :: params, letterM, rfl, by decide⟩
  | @link params url terminator _ _ _ =>
    cases terminator with
    | bel => exact ⟨osc8Start ++ params ++ [semicolon] ++ url, bel, rfl, by decide⟩
    | st =>
      refine ⟨osc8Start ++ params ++ [semicolon] ++ url ++ [escape], backslash, ?_, by decide⟩
      simp [formatOsc8Hyperlink, Osc8Terminator.text]

section

variable {items : List AnsiItem} (h : Styled items)
include h

theorem trimEnd_textOf : ∃ kept, Styled kept ∧ textOf kept = trimEnd (textOf items) ∧
      ∀ r : Rendition, r.paint kept = r.paint items := by
  induction items using reverseRecOn with
  | nil => exact ⟨[], h, rfl, fun _ => rfl⟩
  | append_singleton items i ih =>
    have hitems : Styled items := fun j hj => h j (mem_append_left _ hj)
    have hi := h i (mem_append_right _ mem_cons_self)
    have hkeep : (∃ before c, i.text = before ++ [c] ∧ isWhitespace c = false) →
        trimEnd (textOf (items ++ [i])) = textOf (items ++ [i]) := by
      rintro ⟨before, c, htext, hc⟩
      rw [textOf_append, textOf_cons, textOf_nil, append_nil, htext, ← append_assoc,
        trimEnd, rdropWhile_concat_neg _ _ _ (by simp [hc])]
    cases i with
    | code s => exact ⟨items ++ [.code s], h, (hkeep (StyleCode.getLast_visible hi)).symm,
        fun _ => rfl⟩
    | unit c =>
      cases hspace : isWhitespace c with
      | false => exact ⟨items ++ [.unit c], h, (hkeep ⟨[], c, rfl, hspace⟩).symm, fun _ => rfl⟩
      | true =>
        obtain ⟨kept, hkept, htext, hpaint⟩ := ih hitems
        refine ⟨kept, hkept, ?_, fun r => ?_⟩
        · rw [htext, textOf_append]
          exact (rdropWhile_concat_pos _ _ _ hspace).symm
        · rw [hpaint, paint_append]
          simp only [paint, hspace, ite_true, append_nil]

theorem spaces_of_trim_eq_nil (htrim : trim (textOf items) = []) :
    ∃ s : JsString, items = s.map .unit ∧ (∀ c ∈ s, isWhitespace c = true ∧ c ≠ escape) := by
  have hall := mem_isWhitespace_of_trim htrim
  clear htrim
  induction items with
  | nil => exact ⟨[], rfl, forall_mem_nil _⟩
  | cons i items ih =>
    obtain ⟨s, rfl, hs⟩ := ih (fun j hj => h j (mem_cons_of_mem _ hj))
      fun c hc => hall c (mem_append_right _ hc)
    have hi := h i mem_cons_self
    cases i with
    | code code =>
      obtain ⟨before, c, htext, hc⟩ := StyleCode.getLast_visible hi
      have hmem : c ∈ textOf (.code code :: s.map .unit) := by
        rw [textOf_cons, AnsiItem.text, htext]
        simp
      rw [hall c hmem] at hc
      contradiction
    | unit c =>
      refine ⟨c :: s, rfl, forall_mem_cons.mpr ⟨⟨hall c (by simp [AnsiItem.text]), hi⟩, hs⟩⟩

theorem updateTrackerFromText_textOf (tracker : AnsiCodeTracker) :
    updateTrackerFromText (textOf items) tracker = items.foldl track tracker := by
  rw [updateTrackerFromText, ansiItems_textOf h]

end

theorem foldl_track_units (s : JsString) (tracker : AnsiCodeTracker) :
    (s.map AnsiItem.unit).foldl track tracker = tracker := by
  induction s with
  | nil => rfl
  | cons c s ih => exact ih

section

variable {items : List AnsiItem} {t : Layout}

theorem Flow.dropSpaces (h : Flow width .start items t)
    {s : JsString} (hs : ∀ c ∈ s, isWhitespace c = true ∧ c ≠ escape) :
    Flow width .start (items ++ s.map .unit) t := by
  induction s generalizing items with
  | nil => simpa using h
  | cons c s ih =>
    have hc := hs c mem_cons_self
    have hnext := ih (h.drop hc.1 hc.2) fun d hd => hs d (mem_cons_of_mem _ hd)
    simpa using hnext

theorem Flow.breakWord {wrapped : List JsString}
    {tracker : AnsiCodeTracker} (h : Flow width .start items t)
    (hw : t.Written wrapped tracker.getActiveCodes tracker) {word : List AnsiItem}
    (hword : Styled word) : ∃ t', Flow width .start (items ++ word) t' ∧
      t'.Written (wrapped ++ (breakLongWord metrics width (textOf word) tracker).1.dropLast)
        ((breakLongWord metrics width (textOf word) tracker).1.getLast?.getD [])
        (breakLongWord metrics width (textOf word) tracker).2 := by
  have hsegments := items_wordSegments metrics [] word
  rw [map_nil, nil_append] at hsegments
  obtain ⟨t', hflow, hwritten, hline⟩ := @Flow.breakSteps width metrics
    (wordSegments metrics [] word) { currentLine := tracker.getActiveCodes, tracker } items t wrapped
    h (by simpa using hw) (by rwa [hsegments]) (fun hne => absurd rfl hne)
  rw [hsegments] at hflow
  refine ⟨t', hflow, ?_⟩
  rw [breakLongWord, ansiItems_textOf hword]
  generalize (wordSegments metrics [] word).foldl (breakStep metrics width)
    { currentLine := tracker.getActiveCodes, tracker } = b at hwritten hline
  by_cases hempty : b.currentLine = []
  · have hlines : b.lines = [] := by
      by_contra hne
      exact hline hne hempty
    simpa [hempty, hlines] using hwritten
  · simpa [hempty] using hwritten

theorem Flow.wrapToken {s : WrapState}
    (h : Flow width .start items t) (hw : t.Written s.wrapped s.currentLine s.tracker)
    {token : List AnsiItem} (htoken : Styled token) : ∃ t', Flow width .start (items ++ token) t' ∧
      t'.Written (wrapStep metrics width s (textOf token)).wrapped
        (wrapStep metrics width s (textOf token)).currentLine
        (wrapStep metrics width s (textOf token)).tracker := by
  have htracker := updateTrackerFromText_textOf htoken s.tracker
  by_cases hlong : (visibleWidth metrics (textOf token) : Int) > width ∧
      decide (trim (textOf token) = []) = false
  · have hstart : ∃ t', Flow width .start items t' ∧
        t'.Written (if s.currentLine = [] then s.wrapped
          else s.wrapped ++ [s.currentLine ++ s.tracker.getLineEndReset])
          s.tracker.getActiveCodes s.tracker := by
      by_cases hnil : s.currentLine = []
      · have hcurrent : t.current = [] :=
          textOf_eq_nil hw.styled_current (hw.currentLine ▸ hnil)
        have hwell := h.reads.2.2
        refine ⟨_, h.restart hcurrent, ?_⟩
        rw [if_pos hnil, hw.tracker]
        exact ⟨hw.wrapped, textOf_activeItems.symm, rfl, hw.styled_lines, hwell.styled_activeItems⟩
      · obtain ⟨t', hflow, -, hwritten⟩ := h.endLine hw hw.styled_current rfl
        rw [if_neg hnil]
        rw [← hw.currentLine] at hwritten
        exact ⟨t', hflow, hwritten⟩
    obtain ⟨t', hflow, hwritten⟩ := hstart
    obtain ⟨t'', hflow', hwritten'⟩ := hflow.breakWord metrics hwritten htoken
    refine ⟨t'', hflow', ?_⟩
    simpa only [wrapStep, if_pos hlong] using hwritten'
  · cases hspaces : decide (trim (textOf token) = []) with
    | false =>
      have hwidth : 0 ≤ width := by
        have hfits : ¬ (visibleWidth metrics (textOf token) : Int) > width :=
          fun hgt => hlong ⟨hgt, hspaces⟩
        omega
      by_cases hfull : (s.currentVisibleLength + visibleWidth metrics (textOf token) : Int) > width ∧
          s.currentVisibleLength > 0
      · obtain ⟨kept, hkept, htext, hpaint⟩ := trimEnd_textOf hw.styled_current
        obtain ⟨t', hflow, -, hwritten⟩ := h.endLine hw hkept (hpaint _)
        obtain ⟨t'', hflow', hwritten'⟩ := hflow.append hwritten htoken (.inl hwidth)
        refine ⟨t'', hflow', ?_⟩
        rw [htext, ← hw.currentLine, ← htracker] at hwritten'
        simp only [wrapStep, if_neg hlong, if_pos hfull]
        simpa only [hspaces, Bool.false_eq_true, ite_false] using hwritten'
      · obtain ⟨t', hflow, hwritten⟩ := h.append hw htoken (.inl hwidth)
        refine ⟨t', hflow, ?_⟩
        rw [← htracker] at hwritten
        simpa only [wrapStep, if_neg hlong, if_neg hfull] using hwritten
    | true =>
      obtain ⟨spaces, rfl, hall⟩ := spaces_of_trim_eq_nil htoken (of_decide_eq_true hspaces)
      rw [foldl_track_units] at htracker
      by_cases hfull : (s.currentVisibleLength +
          visibleWidth metrics (textOf (spaces.map .unit)) : Int) > width ∧
          s.currentVisibleLength > 0
      · obtain ⟨kept, hkept, htext, hpaint⟩ := trimEnd_textOf hw.styled_current
        obtain ⟨t', hflow, -, hwritten⟩ := h.endLine hw hkept (hpaint _)
        refine ⟨t', hflow.dropSpaces hall, ?_⟩
        rw [htext, ← hw.currentLine] at hwritten
        simp only [wrapStep, if_neg hlong, if_pos hfull]
        simpa only [hspaces, ite_true, htracker] using hwritten
      · obtain ⟨t', hflow, hwritten⟩ := h.append hw htoken (.inr (.inl fun i hi => by
          obtain ⟨c, hc, rfl⟩ := mem_map.mp hi
          exact (hall c hc).1))
        refine ⟨t', hflow, ?_⟩
        rw [foldl_track_units] at hwritten
        simpa only [wrapStep, if_neg hlong, if_neg hfull, htracker] using hwritten

end

theorem Flow.wrapTokens {groups : List (List AnsiItem)} {items : List AnsiItem} {t : Layout}
    {s : WrapState} (h : Flow width .start items t)
    (hw : t.Written s.wrapped s.currentLine s.tracker) (hgroups : Styled groups.flatten) :
    ∃ t', Flow width .start (items ++ groups.flatten) t' ∧
      t'.Written ((groups.map textOf).foldl (wrapStep metrics width) s).wrapped
        ((groups.map textOf).foldl (wrapStep metrics width) s).currentLine
        ((groups.map textOf).foldl (wrapStep metrics width) s).tracker := by
  induction groups generalizing items t s with
  | nil => exact ⟨t, by simpa using h, hw⟩
  | cons token groups ih =>
    obtain ⟨t', hflow, hwritten⟩ := h.wrapToken metrics hw
      fun i hi => hgroups i (mem_append_left _ hi)
    obtain ⟨t'', hflow', hwritten'⟩ := ih hflow hwritten
      fun i hi => hgroups i (mem_append_right _ hi)
    exact ⟨t'', by simpa using hflow', hwritten'⟩

section

variable {items : List AnsiItem} (h : Styled items)
include h

theorem render_textOf : render (textOf items) = reset.paint items := by
  rw [render, ansiItems_textOf h]

theorem render_trimEnd : render (trimEnd (textOf items)) = reset.paint items := by
  obtain ⟨kept, hkept, htext, hpaint⟩ := trimEnd_textOf h
  rw [← htext, render_textOf hkept, hpaint]

theorem wrapSingleLine_flow : ∃ t, Flow width .start items t ∧
      (wrapSingleLine metrics width (textOf items)).flatMap render = t.ink := by
  rw [wrapSingleLine]
  by_cases hnil : textOf items = []
  · rw [if_pos hnil, textOf_eq_nil h hnil]
    exact ⟨.start, .refl _, rfl⟩
  · rw [if_neg hnil]
    by_cases hfits : (visibleWidth metrics (textOf items) : Int) ≤ width
    · have hwritten : Layout.start.Written [] [] {} := ⟨rfl, rfl, rfl, forall_mem_nil _,
        forall_mem_nil _⟩
      have hwidth : 0 ≤ width := by omega
      obtain ⟨t, hflow, hlines⟩ := (Flow.refl _).append hwritten h (.inl hwidth)
      refine ⟨t, hflow, ?_⟩
      have hnone : t.lines = [] := map_eq_nil_iff.mp hlines.wrapped.symm
      have hcurrent : t.current = items := by
        rw [← ansiItems_textOf hlines.styled_current, ← hlines.currentLine, nil_append,
          ansiItems_textOf h]
      rw [if_pos hfits, flatMap_singleton, render_textOf h, Layout.ink, hnone, hcurrent]
      rfl
    · rw [if_neg hfits]
      obtain ⟨groups, htokens, hgroups⟩ := splitIntoTokensWithAnsi_textOf h
      have hwritten : Layout.start.Written ({} : WrapState).wrapped ({} : WrapState).currentLine
          ({} : WrapState).tracker := ⟨rfl, rfl, rfl, forall_mem_nil _, forall_mem_nil _⟩
      obtain ⟨t, hflow, hlines⟩ := (Flow.refl _).wrapTokens metrics hwritten
        (hgroups.symm ▸ h : Styled groups.flatten)
      rw [hgroups] at hflow
      rw [htokens]
      generalize (groups.map textOf).foldl (wrapStep metrics width) {} = s at hlines
      refine ⟨t, hflow, ?_⟩
      have hwrapped : (s.wrapped.map trimEnd).flatMap render =
          t.lines.flatMap reset.paint := by
        rw [hlines.wrapped, map_map, flatMap_map]
        refine flatMap_congr fun line hline => ?_
        exact render_trimEnd (hlines.styled_lines line hline)
      have hcurrent : render (trimEnd s.currentLine) = reset.paint t.current := by
        rw [hlines.currentLine, render_trimEnd hlines.styled_current]
      dsimp only
      by_cases hempty : s.currentLine = []
      · have hnone : t.current = [] :=
          textOf_eq_nil hlines.styled_current (hlines.currentLine ▸ hempty)
        rw [if_pos hempty, Layout.ink, hnone]
        by_cases hzero : s.wrapped = []
        · rw [if_pos hzero, ← hwrapped, hzero]
          rfl
        · rw [if_neg hzero, hwrapped]
          exact (append_nil _).symm
      · rw [if_neg hempty, if_neg (by simp), map_append, flatMap_append, hwrapped,
          map_singleton, flatMap_singleton, hcurrent]
        rfl

end

end Metrics

end AcademicAgent.AnsiText
