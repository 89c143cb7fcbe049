import AcademicAgent.Core.Preceding
import AcademicAgent.Tui.AnsiReading
import AcademicAgent.Tui.GraphemeWidths
import AcademicAgent.Tui.WrapStyles

/-!
# Widths of wrapped text

A line in the making is a run of the text behind the codes that are active there.
-/

namespace AcademicAgent.AnsiText

open AnsiCodeTracker List
open Option (some.inj)

variable {s : WrapState} {g line current token : JsString} {done : List WordSegment} {length : Nat}
  {tracker : AnsiCodeTracker}

structure AnsiCodeTracker.Emits (tracker : AnsiCodeTracker) : Prop where
  fgColor : ∀ s ∈ tracker.fgColor, ∀ c ∈ s, isParam c = true
  bgColor : ∀ s ∈ tracker.bgColor, ∀ c ∈ s, isParam c = true
  hyperlink : ∀ h ∈ tracker.activeHyperlink, IsSequence (formatOsc8Hyperlink h)

namespace AnsiCodeTracker

variable {tracker : AnsiCodeTracker}

variable {s : JsString}

theorem emits_new : ({} : AnsiCodeTracker).Emits := ⟨nofun, nofun, nofun⟩

section

variable (h : tracker.Emits)
include h

theorem Emits.reset : tracker.reset.Emits := ⟨nofun, nofun, h.hyperlink⟩

theorem Emits.setForeground (hs : ∀ c ∈ s, isParam c = true) :
    Emits { tracker with fgColor := some s } :=
  ⟨fun _ hs' => some.inj hs' ▸ hs, h.bgColor, h.hyperlink⟩

theorem Emits.setBackground (hs : ∀ c ∈ s, isParam c = true) :
    Emits { tracker with bgColor := some s } :=
  ⟨h.fgColor, fun _ hs' => some.inj hs' ▸ hs, h.hyperlink⟩

end

theorem isParam_decimalText (n : Nat) : ∀ c ∈ decimalText n, isParam c = true := by
  intro c hc
  rw [isParam, isDigit_of_mem_decimalText c hc, Bool.true_or]

theorem Emits.applyCode (h : tracker.Emits) (code : Nat) : (tracker.applyCode code).Emits := by
  unfold AnsiCodeTracker.applyCode
  split
  case h_1 => exact h.reset
  case h_18 => exact ⟨nofun, h.bgColor, h.hyperlink⟩
  case h_19 => exact ⟨h.fgColor, nofun, h.hyperlink⟩
  case h_20 =>
    split
    · exact h.setForeground (isParam_decimalText code)
    · split
      · exact h.setBackground (isParam_decimalText code)
      · exact h
  all_goals exact ⟨h.fgColor, h.bgColor, h.hyperlink⟩

theorem Emits.applyParts (h : tracker.Emits) (skip : Nat) {parts : List JsString}
    (hparts : ∀ p ∈ parts, ∀ c ∈ p, isParam c = true) :
    (AnsiCodeTracker.applyParts skip tracker parts).Emits := by
  induction parts generalizing skip tracker with
  | nil => cases skip <;> exact h
  | cons part rest ih =>
    obtain ⟨hpart, hrest⟩ := forall_mem_cons.mp hparts
    cases skip with
    | succ skip => exact ih h skip hrest
    | zero =>
      rw [AnsiCodeTracker.applyParts]
      split
      · exact ih h 0 hrest
      · rename_i code _
        split
        · rename_i length _
          have hcolor : ∀ c ∈ [semicolon].intercalate (part :: rest.take length),
              isParam c = true :=
            isParam_intercalate (forall_mem_cons.mpr
              ⟨hpart, fun p hp => hrest p (mem_of_mem_take hp)⟩)
          refine ih ?_ length hrest
          unfold setColor
          split
          · exact h.setForeground hcolor
          · exact h.setBackground hcolor
        · exact ih (h.applyCode code) 0 hrest

theorem sgrParams_isParam {code params : JsString} (h : sgrParams code = some params) :
    ∀ c ∈ params, isParam c = true := by
  obtain ⟨tail, -, htail⟩ := exists_of_findSome?_eq_some h
  match tail with
  | [] => cases htail
  | [c] => cases htail
  | c :: next :: rest =>
    rw [sgrParamsAt] at htail
    split at htail
    · obtain rfl := some.inj htail
      exact fun c hc => mem_takeWhile_imp hc
    · cases htail

theorem split_semicolon (h : semicolon ∈ s) : s = s.takeWhile (· ≠ semicolon) ++
      ([semicolon] ++ s.drop ((s.takeWhile (· ≠ semicolon)).length + 1)) := by
  induction s with
  | nil => cases h
  | cons c s ih =>
    by_cases hc : c = semicolon
    · subst hc
      rfl
    · have hmem := (mem_cons.mp h).resolve_left fun heq => hc heq.symm
      have htake : (c :: s).takeWhile (· ≠ semicolon) = c :: s.takeWhile (· ≠ semicolon) :=
        takeWhile_cons_of_pos (decide_eq_true hc)
      rw [htake, length_cons, drop_succ_cons, cons_append]
      exact congrArg (c :: ·) (ih hmem)

theorem formatOsc8Hyperlink_parse {code : JsString} (hcode : IsSequence code)
    {hyperlink : ActiveHyperlink} (h : parseOsc8Hyperlink code = some (some hyperlink)) :
    formatOsc8Hyperlink hyperlink = code := by
  by_cases hstart : osc8Start <+: code
  · obtain ⟨t, rfl⟩ := hstart
    have hterminated : ∃ before, t = before ++ [bel] ∨ t = before ++ [escape, backslash] := by
      rcases extractAnsiCode_cases (hcode []) with
        ⟨rest, j, hrest, -, -⟩ | ⟨next, rest, n, hrest, -, hn, hwhole⟩
      · exact absurd (List.cons.inj (List.cons.inj hrest).2).1 (by decide)
      · rw [append_nil] at hrest
        obtain ⟨-, rfl⟩ := List.cons.inj (List.cons.inj hrest).2
        have hnext : terminatedLength (0x38 :: semicolon :: t) =
            (terminatedLength t).map (· + 2) := by
          change Option.map (· + 1) (Option.map (· + 1) (terminatedLength t)) = _
          rw [Option.map_map]
          rfl
        obtain ⟨m, hm, rfl⟩ := Option.map_eq_some_iff.mp (hnext.symm.trans hn)
        have htake : t = t.take m := (List.cons.inj (List.cons.inj (List.cons.inj
          (List.cons.inj hwhole).2).2).2).2
        rw [htake]
        exact take_terminatedLength hm
    have hbody : ∃ (before : JsString) (terminator : Osc8Terminator), t = before ++ terminator.text ∧
        (if (osc8Start ++ t).getLast? = some bel then Osc8Terminator.bel else .st) = terminator := by
      obtain ⟨before, rfl | rfl⟩ := hterminated
      · refine ⟨before, .bel, rfl, if_pos ?_⟩
        rw [← append_assoc, getLast?_concat]
      · refine ⟨before, .st, rfl, if_neg ?_⟩
        rw [append_cons, ← append_assoc, getLast?_concat]
        decide
    obtain ⟨before, terminator, rfl, hterminator⟩ := hbody
    have htake : ((osc8Start ++ (before ++ terminator.text)).drop 4).take
        ((osc8Start ++ (before ++ terminator.text)).length - 4 - terminator.text.length) =
          before := by
      have hlength : (osc8Start ++ (before ++ terminator.text)).length - 4 -
          terminator.text.length = before.length := by
        have hfour : osc8Start.length = 4 := rfl
        rw [length_append, length_append, hfour]
        omega
      have hdrop : (osc8Start ++ (before ++ terminator.text)).drop 4 =
          before ++ terminator.text := rfl
      rw [hlength, hdrop, take_left]
    simp only [parseOsc8Hyperlink, if_pos (prefix_append osc8Start _), hterminator, htake] at h
    split at h
    · rename_i hsemicolon
      have hlink := some.inj h
      split at hlink
      · cases hlink
      · obtain rfl := some.inj hlink
        have hsplit := congrArg (osc8Start ++ · ++ terminator.text) (split_semicolon hsemicolon)
        rw [formatOsc8Hyperlink, ← append_assoc osc8Start before]
        refine Eq.trans ?_ hsplit.symm
        simp only [append_assoc]
    · cases h
  · rw [parseOsc8Hyperlink, if_neg hstart] at h
    cases h

section

variable (h : tracker.Emits)
include h

theorem Emits.process {code : JsString} (hcode : IsSequence code) :
    (tracker.process code).Emits := by
  rw [AnsiCodeTracker.process]
  split
  · rename_i hyperlink hparse
    refine ⟨h.fgColor, h.bgColor, fun link hlink => ?_⟩
    have heq : hyperlink = some link := hlink
    rw [heq] at hparse
    rw [formatOsc8Hyperlink_parse hcode hparse]
    exact hcode
  · split
    · exact h
    · split
      · exact h
      · rename_i params hparams
        split
        · exact h.reset
        · refine h.applyParts 0 fun p hp c hc => ?_
          rw [isParam, isDigit_of_mem_splitOn (sgrParams_isParam hparams) p hp c hc, Bool.true_or]

theorem Emits.foldl_track {items : List AnsiItem} (hitems : Readable items) :
    (items.foldl AnsiItem.track tracker).Emits := by
  induction items generalizing tracker with
  | nil => exact h
  | cons i items ih =>
    cases i with
    | code code =>
      obtain ⟨hsequence, hrest⟩ := readable_cons_code.mp hitems
      exact ih (h.process hsequence) hrest
    | unit c => exact ih h (readable_cons_unit.mp hitems).2

theorem Emits.isParam_codes {p : JsString} (hp : p ∈ tracker.codes) :
    ∀ c ∈ p, isParam c = true := by
  have hflag : ∀ (on : Bool) (s : JsString), s.all isParam → p ∈ (if on then [s] else []) →
      ∀ c ∈ p, isParam c = true := by
    intro on s hs hmem
    split at hmem
    · rw [mem_singleton.mp hmem]
      exact all_eq_true.mp hs
    · cases hmem
  have hcolor : ∀ color : Option JsString, (∀ s ∈ color, ∀ c ∈ s, isParam c = true) →
      p ∈ (nonEmpty color).toList → ∀ c ∈ p, isParam c = true := by
    intro color hs hmem
    cases color with
    | none => cases hmem
    | some s =>
      rw [nonEmpty] at hmem
      split at hmem
      · cases hmem
      · rw [mem_singleton.mp hmem]
        exact hs s rfl
  rw [AnsiCodeTracker.codes] at hp
  simp only [mem_append] at hp
  rcases hp with ((((((((hp | hp) | hp) | hp) | hp) | hp) | hp) | hp) | hp) | hp
  case inr => exact hcolor _ h.bgColor hp
  case inl.inr => exact hcolor _ h.fgColor hp
  all_goals exact hflag _ _ (by decide) hp

theorem Emits.codes_activeItems : Codes tracker.activeItems := by
  intro i hi
  rw [activeItems, codeItems, mem_append] at hi
  rcases hi with hi | hi
  · split at hi
    · cases hi
    · refine ⟨_, mem_singleton.mp hi, fun rest => extractAnsiCode_sgr ?_ rest⟩
      exact isParam_intercalate fun p hp => h.isParam_codes hp
  · obtain ⟨hyperlink, hhyperlink, rfl⟩ := Option.map_eq_some_iff.mp (Option.mem_toList.mp hi)
    exact ⟨_, rfl, h.hyperlink hyperlink hhyperlink⟩

end

theorem trailing_getLineEndReset (tracker : AnsiCodeTracker) : Trailing tracker.getLineEndReset := by
  have hreset : tracker.getLineEndReset = (if tracker.underline then sgr (js "24") else []) ++
        ((tracker.activeHyperlink.map ActiveHyperlink.terminator).map formatOsc8Close).getD [] := by
    rw [getLineEndReset, Option.map_map]
    rfl
  rw [hreset]
  generalize tracker.activeHyperlink.map ActiveHyperlink.terminator = terminator
  generalize tracker.underline = underline
  rcases underline with _ | _ <;> rcases terminator with _ | _ | _ <;>
    refine ⟨?_, rfl, ?_, ?_, ?_⟩ <;> rintro _ ⟨⟩ <;> rfl

end AnsiCodeTracker

def WordSegment.grapheme? : WordSegment → Option JsString
  | .grapheme value => some value
  | .ansi _ => none

section

variable (segments : List WordSegment)

/-- The graphemes of some segments, without empty ones. -/
def graphemesOf : List JsString :=
  (segments.filterMap WordSegment.grapheme?).filter (· ≠ [])

def itemsOf : List AnsiItem := segments.flatMap WordSegment.items

@[simp] theorem graphemesOf_append (a b : List WordSegment) :
    graphemesOf (a ++ b) = graphemesOf a ++ graphemesOf b := by
  rw [graphemesOf, filterMap_append, filter_append]
  rfl

@[simp] theorem graphemesOf_ansi (value : JsString) : graphemesOf [.ansi value] = [] := rfl

theorem graphemesOf_grapheme (h : g ≠ []) : graphemesOf [.grapheme g] = [g] :=
  filter_cons_of_pos (decide_eq_true h)

theorem graphemesOf_graphemes (gs : List JsString) :
    graphemesOf (gs.map .grapheme) = gs.filter (· ≠ []) := by
  rw [graphemesOf, filterMap_map]
  exact congrArg _ filterMap_some

@[simp] theorem itemsOf_append (a b : List WordSegment) : itemsOf (a ++ b) = itemsOf a ++ itemsOf b :=
  flatMap_append

theorem unitsOf_itemsOf : unitsOf (itemsOf segments) = (graphemesOf segments).flatten := by
  induction segments with
  | nil => rfl
  | cons segment segments ih =>
    cases segment with
    | ansi value => exact ih
    | grapheme value =>
      have hfirst : (graphemesOf [.grapheme value]).flatten = value := by
        by_cases hempty : value = []
        · rw [hempty]
          rfl
        · rw [graphemesOf_grapheme hempty, flatten_singleton]
      change unitsOf (value.map .unit ++ itemsOf segments) = _
      rw [← singleton_append, graphemesOf_append, flatten_append, hfirst, unitsOf_append,
        unitsOf_map_unit, ih]

end

theorem splitIntoTokensWithAnsi_items (line : JsString) :
    ∃ groups : List (List AnsiItem), splitIntoTokensWithAnsi line = groups.map textOf ∧
      groups.flatten = ansiItems line := by
  obtain ⟨groups, current, pending, htokens, hcurrent, hpending, hitems⟩ :=
    @foldl_tokenStep (ansiItems line) [] {} [] [] [] rfl rfl rfl rfl
  rw [nil_append] at hitems
  rw [splitIntoTokensWithAnsi, htokens, hcurrent, hpending, ← textOf_append]
  split
  · rename_i hnil
    have hread : Readable (groups.flatten ++ (current ++ pending)) := by
      rw [← append_assoc, hitems]
      exact readable_ansiItems line
    have hempty : current ++ pending = [] := by
      rw [← hread.right, hnil]
      rfl
    exact ⟨groups, rfl, by rw [← hitems, append_assoc, hempty, append_nil]⟩
  · refine ⟨groups ++ [current ++ pending], by rw [map_append]; rfl, ?_⟩
    rw [flatten_append, flatten_singleton, ← append_assoc, hitems]

section Metrics

variable (metrics : TextMetrics) (width : Int)

def tokenSegments (token : JsString) : List WordSegment := wordSegments metrics [] (ansiItems token)

def lineSegments (line : JsString) : List WordSegment :=
  (splitIntoTokensWithAnsi line).flatMap (tokenSegments metrics)

/-- The graphemes of a line, which stand between its sequences. -/
def lineGraphemes (line : JsString) : List JsString := graphemesOf (lineSegments metrics line)

/-- The widths of the graphemes of a line add up, and none is wider than the lines. -/
structure Measurable (line : JsString) : Prop where
  adds : ∀ gs, gs <:+: lineGraphemes metrics line →
    unitsWidth metrics gs.flatten = graphemesWidth metrics gs
  fits : ∀ g ∈ lineGraphemes metrics line, (visibleWidth metrics g : Int) ≤ width

variable {metrics width}

theorem itemsOf_tokenSegments (token : JsString) :
    itemsOf (tokenSegments metrics token) = ansiItems token :=
  items_wordSegments metrics [] (ansiItems token)

theorem itemsOf_lineSegments (line : JsString) :
    itemsOf (lineSegments metrics line) = ansiItems line := by
  obtain ⟨groups, htokens, hgroups⟩ := splitIntoTokensWithAnsi_items line
  have hread : Readable groups.flatten := hgroups ▸ readable_ansiItems line
  rw [lineSegments, htokens, ← hgroups]
  clear htokens hgroups
  induction groups with
  | nil => rfl
  | cons g groups ih =>
    rw [map_cons, flatMap_cons, itemsOf_append, itemsOf_tokenSegments, flatten_cons, ih hread.right]
    congr 1
    exact hread.left

def Fits (metrics : TextMetrics) (width : Int) (line : JsString) : Prop :=
  ∃ items, Readable items ∧ line = textOf items ∧ (unitsWidth metrics (unitsOf items) : Int) ≤ width

/-- A line in the making: codes, and behind them the last of the segments that are done. -/
def LineOf (metrics : TextMetrics) (done : List WordSegment) (line : JsString) (length : Nat) :
    Prop :=
  ∃ lead run, Codes lead ∧ run <:+ done ∧ line = textOf (lead ++ itemsOf run) ∧
    length = graphemesWidth metrics (graphemesOf run)

theorem LineOf.extend (h : LineOf metrics done line length) (more : List WordSegment) :
    LineOf metrics (done ++ more) (line ++ textOf (itemsOf more))
      (length + graphemesWidth metrics (graphemesOf more)) := by
  obtain ⟨lead, run, hlead, ⟨before, rfl⟩, rfl, rfl⟩ := h
  refine ⟨lead, run ++ more, hlead, ⟨before, (append_assoc _ _ _).symm⟩, ?_, ?_⟩
  · rw [itemsOf_append, ← append_assoc, textOf_append _ (itemsOf more)]
  · rw [graphemesOf_append, graphemesWidth_append]

theorem LineOf.start {tracker : AnsiCodeTracker} (h : tracker.Emits) (done : List WordSegment) :
    LineOf metrics done tracker.getActiveCodes 0 :=
  ⟨tracker.activeItems, [], h.codes_activeItems, nil_suffix,
    by rw [itemsOf, flatMap_nil, append_nil, textOf_activeItems], rfl⟩

variable (hlawful : metrics.Lawful)
include hlawful

theorem Fits.trimmed (h : Fits metrics width line) : Fits metrics width (trimEnd line) := by
  obtain ⟨items, hitems, rfl, hfits⟩ := h
  obtain ⟨kept, hkept, htrim⟩ := trimEnd_textOf_prefix hitems
  refine ⟨kept, hitems.part hkept.isInfix, htrim, ?_⟩
  have hle := unitsWidth_le_of_prefix hlawful ( unitsOf_prefix hkept)
  omega

theorem Fits.closed {r : JsString} (h : Fits metrics width line) (hr : Trailing r) :
    (visibleWidth metrics (trimEnd (line ++ r)) : Int) ≤ width := by
  obtain ⟨items, hitems, rfl, hfits⟩ := h
  have hle := visibleWidth_trimEnd_le hlawful hitems hr
  omega

variable {line : JsString} (hline : Measurable metrics width line)
include hline

omit hlawful in
theorem Measurable.unitsWidth_run {run : List WordSegment}
    (hrun : run <:+: lineSegments metrics line) :
    unitsWidth metrics (unitsOf (itemsOf run)) = graphemesWidth metrics (graphemesOf run) := by
  obtain ⟨before, after, hsplit⟩ := hrun
  rw [unitsOf_itemsOf]
  refine hline.adds _ ⟨graphemesOf before, graphemesOf after, ?_⟩
  rw [lineGraphemes, ← hsplit, graphemesOf_append, graphemesOf_append]

omit hlawful hline in
theorem readable_run {lead : List AnsiItem} {run : List WordSegment} (hlead : Codes lead)
    (hrun : run <:+: lineSegments metrics line) : Readable (lead ++ itemsOf run) := by
  obtain ⟨before, after, hsplit⟩ := hrun
  have hread := readable_ansiItems line
  rw [← @itemsOf_lineSegments metrics line, ← hsplit, itemsOf_append, itemsOf_append] at hread
  exact hread.left.right.append_codes hlead

theorem visibleWidth_run {lead : List AnsiItem} {run : List WordSegment} (hlead : Codes lead)
    (hrun : run <:+: lineSegments metrics line) :
    visibleWidth metrics (textOf (lead ++ itemsOf run)) =
      graphemesWidth metrics (graphemesOf run) := by
  rw [visibleWidth_textOf hlawful (readable_run hlead hrun), unitsOf_append, unitsOf_codes hlead,
    nil_append, hline.unitsWidth_run hrun]

theorem LineOf.visibleWidth_eq (h : LineOf metrics done current length)
    (hdone : done <+: lineSegments metrics line) :
    visibleWidth metrics current = length := by
  obtain ⟨lead, run, hlead, hrun, rfl, rfl⟩ := h
  exact visibleWidth_run hlawful hline hlead (hrun.isInfix.trans hdone.isInfix)

omit hlawful in
theorem LineOf.fits (h : LineOf metrics done current length)
    (hdone : done <+: lineSegments metrics line) (hlength : (length : Int) ≤ width) :
    Fits metrics width current := by
  obtain ⟨lead, run, hlead, hrun, rfl, rfl⟩ := h
  have hinfix := hrun.isInfix.trans hdone.isInfix
  refine ⟨lead ++ itemsOf run, readable_run hlead hinfix, rfl, ?_⟩
  rwa [unitsOf_append, unitsOf_codes hlead, nil_append, hline.unitsWidth_run hinfix]

omit hlawful in
theorem Measurable.visibleWidth_grapheme_le (hne : g ≠ [])
    (hdone : done ++ [.grapheme g] <+: lineSegments metrics line) :
    (visibleWidth metrics g : Int) ≤ width := by
  obtain ⟨after, hsplit⟩ := hdone
  refine hline.fits g ?_
  rw [lineGraphemes, ← hsplit, graphemesOf_append, graphemesOf_append, graphemesOf_grapheme hne]
  exact mem_append_left _ (mem_append_right _ mem_cons_self)

/-- The state of the loop that breaks a word: the lines fit, and so does the one in the making. -/
structure BreakState.Fitting (metrics : TextMetrics) (width : Int) (done : List WordSegment)
    (b : BreakState) : Prop where
  line : LineOf metrics done b.currentLine b.currentWidth
  short : (b.currentWidth : Int) ≤ width
  emits : b.tracker.Emits
  fitting : ∀ l ∈ b.lines, (visibleWidth metrics (trimEnd l) : Int) ≤ width
  closed : b.lines ≠ [] → b.currentLine ≠ []

theorem BreakState.Fitting.step {b : BreakState} (h : b.Fitting metrics width done)
    {segment : WordSegment} (hdone : done ++ [segment] <+: lineSegments metrics line) :
    (breakStep metrics width b segment).Fitting metrics width (done ++ [segment]) := by
  have hbefore : done <+: lineSegments metrics line := (prefix_append _ _).trans hdone
  have hextend := h.line.extend [segment]
  cases segment with
  | ansi value =>
    have hsequence : IsSequence value := by
      have hread := @readable_run metrics line [] (done ++ [.ansi value]) (forall_mem_nil _)
        hdone.isInfix
      rw [nil_append, itemsOf_append] at hread
      exact hread.right.sequence mem_cons_self
    have hitems : textOf (itemsOf [.ansi value]) = value := append_nil value
    rw [hitems] at hextend
    exact ⟨hextend, h.short, h.emits.process hsequence, h.fitting,
      fun hlines => append_ne_nil_of_left_ne_nil (h.closed hlines) _⟩
  | grapheme g =>
    have hitems : textOf (itemsOf [.grapheme g]) = g := by
      change textOf (g.map .unit ++ []) = g
      rw [append_nil, textOf_units]
    rw [hitems] at hextend
    by_cases hempty : g = []
    · rw [breakStep, if_pos hempty]
      subst hempty
      rw [append_nil] at hextend
      exact ⟨hextend, h.short, h.emits, h.fitting, h.closed⟩
    · have hwidth : graphemesWidth metrics (graphemesOf [.grapheme g]) = visibleWidth metrics g := by
        rw [graphemesOf_grapheme hempty]
        exact Nat.add_zero _
      rw [hwidth] at hextend
      by_cases hfull : (b.currentWidth + visibleWidth metrics g : Int) > width
      · have hstart := (@LineOf.start metrics _ h.emits done).extend [.grapheme g]
        rw [hitems, hwidth] at hstart
        simp only [breakStep, if_neg hempty, if_pos hfull]
        refine ⟨hstart, ?_, h.emits, ?_, fun _ => append_ne_nil_of_right_ne_nil _ hempty⟩
        · rw [Nat.zero_add]
          exact hline.visibleWidth_grapheme_le hempty hdone
        · intro l hl
          rcases mem_append.mp hl with hl | hl
          · exact h.fitting l hl
          · rw [mem_singleton.mp hl]
            exact (h.line.fits hline hbefore h.short).closed hlawful (trailing_getLineEndReset _)
      · simp only [breakStep, if_neg hempty, if_neg hfull]
        refine ⟨hextend, ?_, h.emits, h.fitting, fun _ => append_ne_nil_of_right_ne_nil _ hempty⟩
        push_cast
        omega

theorem BreakState.Fitting.foldl {done segments : List WordSegment} {b : BreakState}
    (h : b.Fitting metrics width done) (hdone : done ++ segments <+: lineSegments metrics line) :
    (segments.foldl (breakStep metrics width) b).Fitting metrics width (done ++ segments) := by
  induction segments generalizing done b with
  | nil => rwa [append_nil]
  | cons segment segments ih =>
    rw [append_cons] at hdone ⊢
    exact ih (h.step hlawful hline ((prefix_append _ _).trans hdone)) hdone

theorem breakLongWord_fits (hwidth : 0 ≤ width) (hemits : tracker.Emits)
    (hdone : done ++ tokenSegments metrics token <+: lineSegments metrics line) :
    ∃ b : BreakState, b.Fitting metrics width (done ++ tokenSegments metrics token) ∧
      breakLongWord metrics width token tracker = (b.lines ++ [b.currentLine], b.tracker) := by
  have hstart : BreakState.Fitting metrics width done
      { currentLine := tracker.getActiveCodes, tracker } :=
    ⟨LineOf.start hemits done, hwidth, hemits, forall_mem_nil _, fun hne => absurd rfl hne⟩
  rw [breakLongWord]
  generalize hb : (wordSegments metrics [] (ansiItems token)).foldl (breakStep metrics width)
    { currentLine := tracker.getActiveCodes, tracker } = b
  have hend : b.Fitting metrics width (done ++ tokenSegments metrics token) :=
    hb ▸ hstart.foldl hlawful hline hdone
  refine ⟨b, hend, ?_⟩
  by_cases hempty : b.currentLine = []
  · have hlines : b.lines = [] := by
      by_contra hne
      exact hend.closed hne hempty
    rw [if_pos hempty, hlines, if_pos rfl, hempty]
    rfl
  · rw [if_neg hempty, if_neg (by simp)]

omit hline in
theorem Fits.visibleWidth_le (h : Fits metrics width current) :
    (visibleWidth metrics current : Int) ≤ width := by
  obtain ⟨items, hitems, rfl, hfits⟩ := h
  rwa [visibleWidth_textOf hlawful hitems]

/-- Nothing that is seen, and whitespace behind it. -/
def Blank (metrics : TextMetrics) (current : JsString) : Prop :=
  ∃ (items : List AnsiItem) (spaces : JsString), Readable (items ++ spaces.map .unit) ∧
    current = textOf (items ++ spaces.map .unit) ∧ unitsWidth metrics (unitsOf items) = 0 ∧
    ∀ c ∈ spaces, isWhitespace c = true

/-- The state of the loop that wraps a line: the line in the making fits, or is blank. -/
structure WrapState.Shape (metrics : TextMetrics) (width : Int) (done : List WordSegment)
    (s : WrapState) : Prop where
  line : LineOf metrics done s.currentLine s.currentVisibleLength
  emits : s.tracker.Emits
  short : (s.currentVisibleLength : Int) ≤ width ∨ Blank metrics s.currentLine

def AllFit (metrics : TextMetrics) (width : Int) (lines : List JsString) : Prop :=
  ∀ l ∈ lines, (visibleWidth metrics (trimEnd l) : Int) ≤ width

omit hlawful hline in
theorem AllFit.append {lines more : List JsString} (h : AllFit metrics width lines)
    (hmore : AllFit metrics width more) : AllFit metrics width (lines ++ more) :=
  forall_mem_append.mpr ⟨h, hmore⟩

theorem WrapState.Shape.trimmed (hwidth : 0 ≤ width) (h : s.Shape metrics width done)
    (hdone : done <+: lineSegments metrics line) :
    Fits metrics width (trimEnd s.currentLine) := by
  rcases h.short with hshort | ⟨items, spaces, hread, hcurrent, hzero, hspaces⟩
  · exact (h.line.fits hline hdone hshort).trimmed hlawful
  · rw [hcurrent, textOf_append, textOf_units, trimEnd_append_whitespace _ hspaces]
    refine Fits.trimmed hlawful ⟨items, hread.left, rfl, ?_⟩
    rw [hzero]
    exact hwidth

theorem visibleWidth_token
    (hdone : done ++ tokenSegments metrics token <+: lineSegments metrics line) :
    visibleWidth metrics token = graphemesWidth metrics (graphemesOf (tokenSegments metrics token)) := by
  have hrun := @visibleWidth_run metrics width hlawful line hline [] (tokenSegments metrics token)
    (forall_mem_nil _) ((suffix_append _ _).isInfix.trans hdone.isInfix)
  rwa [nil_append, itemsOf_tokenSegments, textOf_ansiItems] at hrun

/-- A word that is too long closes a line that fits, or one that no sequence ends and that is
trimmed with the others. -/
def ClosesInTime (metrics : TextMetrics) (width : Int) (s : WrapState) (token : JsString) : Prop :=
  (visibleWidth metrics token : Int) > width → trim token ≠ [] →
    (s.currentVisibleLength : Int) ≤ width ∨ s.tracker.getLineEndReset = []

theorem WrapState.Shape.step (hwidth : 0 ≤ width) (h : s.Shape metrics width done)
    (hdone : done ++ tokenSegments metrics token <+: lineSegments metrics line) :
    (wrapStep metrics width s token).Shape metrics width (done ++ tokenSegments metrics token) ∧
      (ClosesInTime metrics width s token → AllFit metrics width s.wrapped →
        AllFit metrics width (wrapStep metrics width s token).wrapped) := by
  have hbefore : done <+: lineSegments metrics line := (prefix_append _ _).trans hdone
  have htrimmed := h.trimmed hlawful hline hwidth hbefore
  by_cases hlong : (visibleWidth metrics token : Int) > width ∧ decide (trim token = []) = false
  · obtain ⟨b, hb, hbroken⟩ := breakLongWord_fits hlawful hline hwidth h.emits hdone
    have hlength := hb.line.visibleWidth_eq hlawful hline hdone
    simp only [wrapStep, if_pos hlong, hbroken, dropLast_concat, getLast?_concat, Option.getD_some]
    refine ⟨⟨hlength ▸ hb.line, hb.emits, .inl (hlength ▸ hb.short)⟩, fun hcloses hfit => ?_⟩
    refine AllFit.append ?_ hb.fitting
    split
    · exact hfit
    · refine hfit.append fun l hl => ?_
      rw [mem_singleton.mp hl]
      rcases hcloses hlong.1 (of_decide_eq_false hlong.2) with hshort | hreset
      · exact (h.line.fits hline hbefore hshort).closed hlawful (trailing_getLineEndReset _)
      · rw [hreset, append_nil]
        exact htrimmed.visibleWidth_le hlawful
  · have hemits : (updateTrackerFromText token s.tracker).Emits :=
      h.emits.foldl_track (readable_ansiItems token)
    have htext : textOf (itemsOf (tokenSegments metrics token)) = token := by
      rw [itemsOf_tokenSegments, textOf_ansiItems]
    have htoken := visibleWidth_token hlawful hline hdone
    by_cases hfull : (s.currentVisibleLength + visibleWidth metrics token : Int) > width ∧
        s.currentVisibleLength > 0
    · have hpushed : AllFit metrics width s.wrapped → AllFit metrics width
          (s.wrapped ++ [trimEnd s.currentLine ++ s.tracker.getLineEndReset]) := by
        intro hfit
        refine hfit.append fun l hl => ?_
        rw [mem_singleton.mp hl]
        exact htrimmed.closed hlawful (trailing_getLineEndReset _)
      simp only [wrapStep, if_neg hlong, if_pos hfull]
      by_cases hblank : trim token = []
      · simp only [hblank, decide_true, ite_true]
        exact ⟨⟨LineOf.start h.emits _, hemits, .inl hwidth⟩, fun _ => hpushed⟩
      · have hstart := (@LineOf.start metrics _ h.emits done).extend (tokenSegments metrics token)
        rw [htext, ← htoken, Nat.zero_add] at hstart
        simp only [hblank, decide_false, Bool.false_eq_true, ite_false]
        refine ⟨⟨hstart, hemits, .inl ?_⟩, fun _ => hpushed⟩
        by_contra hwide
        exact hlong ⟨not_le.mp hwide, decide_eq_false hblank⟩
    · have hextend := h.line.extend (tokenSegments metrics token)
      rw [htext, ← htoken] at hextend
      simp only [wrapStep, if_neg hlong, if_neg hfull]
      refine ⟨⟨hextend, hemits, ?_⟩, fun _ hfit => hfit⟩
      by_cases hfits : ((s.currentVisibleLength + visibleWidth metrics token : Nat) : Int) ≤ width
      · exact .inl hfits
      · -- Only a token of spaces goes on a line that it is too wide for.
        have hzero : s.currentVisibleLength = 0 := by
          push_cast at hfits
          by_contra hpos
          exact hfull ⟨not_le.mp hfits, Nat.pos_of_ne_zero hpos⟩
        have hblank : trim token = [] := by
          rw [hzero, Nat.zero_add] at hfits
          by_contra hne
          exact hlong ⟨not_le.mp hfits, decide_eq_false hne⟩
        have hspaces := mem_isWhitespace_of_trim hblank
        have hitems : ansiItems token = token.map .unit :=
          ansiItems_of_no_escape fun c hc heq => absurd (hspaces c hc) (by rw [heq]; decide)
        obtain ⟨lead, run, hlead, ⟨before, rfl⟩, hcurrent, hlength⟩ := h.line
        refine .inr ⟨lead ++ itemsOf run, token, ?_, ?_, ?_, hspaces⟩
        · rw [← hitems, ← @itemsOf_tokenSegments metrics token, append_assoc, ← itemsOf_append]
          refine readable_run hlead (List.IsInfix.trans ?_ hdone.isInfix)
          exact ⟨before, [], by simp⟩
        · rw [hcurrent, textOf_append (lead ++ itemsOf run), textOf_units]
        · have hinfix : run <:+: lineSegments metrics line :=
            (suffix_append before run).isInfix.trans hbefore.isInfix
          rw [unitsOf_append, unitsOf_codes hlead, nil_append, hline.unitsWidth_run hinfix,
            ← hlength, hzero]

/-- Every line that a word of the line closes is closed in time, where the line is too long. -/
def ClosedInTime (metrics : TextMetrics) (width : Int) (line : JsString) : Prop :=
  (visibleWidth metrics line : Int) ≤ width ∨
    Preceding.Each (fun before token _ =>
      ClosesInTime metrics width (before.foldl (wrapStep metrics width) {}) token) []
      (splitIntoTokensWithAnsi line)

theorem WrapState.Shape.foldl {done : List WordSegment} (hwidth : 0 ≤ width)
    {before tokens : List JsString}
    (h : (before.foldl (wrapStep metrics width) {}).Shape metrics width done)
    (hdone : done ++ tokens.flatMap (tokenSegments metrics) <+: lineSegments metrics line) :
    ((before ++ tokens).foldl (wrapStep metrics width) {}).Shape metrics width
        (done ++ tokens.flatMap (tokenSegments metrics)) ∧
      (Preceding.Each (fun before token _ =>
          ClosesInTime metrics width (before.foldl (wrapStep metrics width) {}) token) before tokens →
        AllFit metrics width (before.foldl (wrapStep metrics width) {}).wrapped →
        AllFit metrics width ((before ++ tokens).foldl (wrapStep metrics width) {}).wrapped) := by
  induction tokens generalizing before done with
  | nil =>
    rw [append_nil, flatMap_nil, append_nil]
    exact ⟨h, fun _ hfit => hfit⟩
  | cons token tokens ih =>
    rw [flatMap_cons, ← append_assoc] at hdone ⊢
    obtain ⟨hshape, hfits⟩ := h.step hlawful hline hwidth ((prefix_append _ _).trans hdone)
    have hnext := @foldl_concat _ _ (wrapStep metrics width) {} token before
    rw [← hnext] at hshape hfits
    obtain ⟨hend, hrest⟩ := ih hshape hdone
    rw [append_cons before]
    refine ⟨hend, fun heach hfit => ?_⟩
    obtain ⟨hfirst, heach⟩ := Preceding.each_cons.mp heach
    exact hrest heach (hfits hfirst hfit)

omit hlawful hline in
theorem wrapped_prefix_step (s : WrapState) (token : JsString) :
    s.wrapped <+: (wrapStep metrics width s token).wrapped := by
  have hstart : ∀ l : JsString,
      s.wrapped <+: if s.currentLine = [] then s.wrapped else s.wrapped ++ [l] := by
    intro l
    split
    · exact prefix_refl _
    · exact prefix_append _ _
  by_cases hlong : (visibleWidth metrics token : Int) > width ∧ decide (trim token = []) = false
  · simp only [wrapStep, if_pos hlong]
    exact (hstart _).trans (prefix_append _ _)
  · simp only [wrapStep, if_neg hlong]
    split
    · split <;> exact prefix_append _ _
    · exact prefix_refl _

omit hlawful hline in
theorem wrapped_prefix_foldl (s : WrapState) (tokens : List JsString) :
    s.wrapped <+: (tokens.foldl (wrapStep metrics width) s).wrapped := by
  induction tokens generalizing s with
  | nil => exact prefix_refl _
  | cons token tokens ih => exact (wrapped_prefix_step s token).trans (ih _)

theorem WrapState.Shape.closesInTime (hwidth : 0 ≤ width) (h : s.Shape metrics width done)
    (hdone : done <+: lineSegments metrics line)
    (hfit : AllFit metrics width (wrapStep metrics width s token).wrapped) :
    ClosesInTime metrics width s token := by
  intro hlong hne
  by_contra hopen
  obtain ⟨hwide, hreset⟩ := not_or.mp hopen
  have hlength := h.line.visibleWidth_eq hlawful hline hdone
  obtain ⟨items, spaces, hread, hcurrent, hzero, hspaces⟩ := h.short.resolve_left hwide
  have htrailing := trailing_getLineEndReset s.tracker
  have hnotNil : s.currentLine ≠ [] := by
    intro hnil
    rw [hnil, visibleWidth_nil] at hlength
    rw [← hlength] at hwide
    exact hwide hwidth
  have hmem : s.currentLine ++ s.tracker.getLineEndReset ∈
      (wrapStep metrics width s token).wrapped := by
    simp only [wrapStep, if_pos (⟨hlong, decide_eq_false hne⟩ :
      (visibleWidth metrics token : Int) > width ∧ decide (trim token = []) = false), if_neg hnotNil]
    exact mem_append_left _ (mem_append_right _ mem_cons_self)
  have hopens : ∀ c ∈ unitsOf (items ++ spaces.map .unit), ¬ opensSequence c := by
    intro c hc hopens
    rw [unitsOf_append, unitsOf_map_unit, mem_append] at hc
    rcases hc with hc | hc
    · have hprintable : isPrintableAscii [c] := by
        rcases hopens with rfl | rfl | rfl <;> decide
      exact absurd (hlawful.shows _ c hc hprintable) (by rw [hzero]; exact Nat.lt_irrefl 0)
    · have hspace := hspaces c hc
      rcases hopens with rfl | rfl | rfl <;> exact absurd hspace (by decide)
  have hwidth' : visibleWidth metrics (s.currentLine ++ s.tracker.getLineEndReset) =
      s.currentVisibleLength := by
    rw [AnsiText.visibleWidth_eq hlawful, hcurrent, htrailing.ansiItems_append hread hopens,
      unitsOf_append, htrailing.unitsOf, append_nil, ← hlength, hcurrent,
      visibleWidth_textOf hlawful hread]
  have hle := hfit _ hmem
  rw [htrailing.trimEnd_append hreset, hwidth'] at hle
  exact hwide hle

omit hline in
theorem wrapSingleLine_width_iff (hwidth : 0 ≤ width) (hline : Measurable metrics width line) :
    (∀ l ∈ wrapSingleLine metrics width line, (visibleWidth metrics l : Int) ≤ width) ↔
      ClosedInTime metrics width line := by
  have hnil : (visibleWidth metrics [] : Int) ≤ width := by
    rw [visibleWidth_nil]
    exact hwidth
  by_cases hempty : line = []
  · rw [hempty, wrapSingleLine, if_pos rfl, forall_mem_singleton]
    exact iff_of_true hnil (.inl hnil)
  by_cases hfits : (visibleWidth metrics line : Int) ≤ width
  · rw [wrapSingleLine, if_neg hempty, if_pos hfits, forall_mem_singleton]
    exact iff_of_true hfits (.inl hfits)
  have hstart : WrapState.Shape metrics width [] {} :=
    ⟨⟨[], [], forall_mem_nil _, nil_suffix, rfl, rfl⟩, emits_new, .inl hwidth⟩
  have hruns := @WrapState.Shape.foldl metrics width hlawful line hline [] hwidth []
  obtain ⟨hshape, hforward⟩ := hruns hstart (prefix_refl (lineSegments metrics line))
  rw [nil_append, nil_append] at hshape
  rw [nil_append] at hforward
  rw [wrapSingleLine, if_neg hempty, if_neg hfits]
  generalize hs : (splitIntoTokensWithAnsi line).foldl (wrapStep metrics width) {} = s at *
  have hlines : (∀ l ∈ (if (if s.currentLine = [] then s.wrapped else s.wrapped ++ [s.currentLine])
        = [] then [[]] else (if s.currentLine = [] then s.wrapped
          else s.wrapped ++ [s.currentLine]).map trimEnd), (visibleWidth metrics l : Int) ≤ width) ↔
      AllFit metrics width s.wrapped := by
    have hlast := (hshape.trimmed hlawful hline hwidth (prefix_refl _)).visibleWidth_le hlawful
    by_cases hcurrent : s.currentLine = []
    · rw [if_pos hcurrent]
      by_cases hwrapped : s.wrapped = []
      · rw [if_pos hwrapped, forall_mem_singleton, AllFit, hwrapped]
        exact iff_of_true hnil (forall_mem_nil _)
      · rw [if_neg hwrapped, forall_mem_map]
        exact Iff.rfl
    · rw [if_neg hcurrent, if_neg (append_ne_nil_of_right_ne_nil _ (cons_ne_nil _ _)),
        forall_mem_map, forall_mem_append, forall_mem_singleton]
      exact and_iff_left hlast
  refine hlines.trans ⟨fun hfit => .inr ?_, fun hclosed => ?_⟩
  · intro pre token post hsplit
    rw [nil_append]
    have hsegments : lineSegments metrics line = pre.flatMap (tokenSegments metrics) ++
        (token :: post).flatMap (tokenSegments metrics) := by
      rw [lineSegments, hsplit, flatMap_append]
    have hpre : pre.flatMap (tokenSegments metrics) <+: lineSegments metrics line := by
      rw [hsegments]
      exact prefix_append _ _
    have hbefore := (hruns hstart hpre).1
    rw [nil_append, nil_append] at hbefore
    refine hbefore.closesInTime hlawful hline hwidth hpre fun l hl => hfit l ?_
    rw [hsplit, foldl_append, foldl_cons] at hs
    rw [← hs]
    exact (wrapped_prefix_foldl _ post).subset hl
  · exact hforward (hclosed.resolve_left hfits) (forall_mem_nil _)

end Metrics

/-- The lines of a text with the codes that are active at their starts. -/
def startedLinesFrom : AnsiCodeTracker → List JsString → List JsString
  | _, [] => []
  | tracker, line :: rest =>
    (tracker.getActiveCodes ++ line) :: startedLinesFrom (updateTrackerFromText line tracker) rest

/-- What the lines of a text are before they are wrapped. -/
def startedLines (text : JsString) : List JsString := startedLinesFrom {} (text.splitOn lf)

section Text

variable {metrics : TextMetrics} {width : Int}

theorem foldl_wrapLineStep_lines (lines result : List JsString) (tracker : AnsiCodeTracker)
    (hfirst : result = [] → tracker = {}) :
    (lines.foldl (wrapLineStep metrics width) (result, tracker)).1 =
      result ++ (startedLinesFrom tracker lines).flatMap (wrapSingleLine metrics width) := by
  induction lines generalizing result tracker with
  | nil => exact (append_nil _).symm
  | cons line lines ih =>
    have hstart : (if result = [] then [] else tracker.getActiveCodes) = tracker.getActiveCodes := by
      split
      · rename_i hnil
        rw [hfirst hnil]
        rfl
      · rfl
    rw [foldl_cons, wrapLineStep]
    rw [hstart, ih _ _ fun hnil => absurd (append_eq_nil_iff.mp hnil).2
      (wrapSingleLine_ne_nil metrics _), startedLinesFrom, flatMap_cons, append_assoc]

theorem wrapTextWithAnsi_eq (text : JsString) : wrapTextWithAnsi metrics width text =
      (startedLines text).flatMap (wrapSingleLine metrics width) := by
  by_cases hnil : text = []
  · rw [hnil]
    rfl
  · have hlines := @foldl_wrapLineStep_lines metrics width (text.splitOn lf) [] {} fun _ => rfl
    obtain ⟨first, rest, hsplit⟩ := exists_cons_of_ne_nil (splitOn_ne_nil lf text)
    have hne : (startedLinesFrom {} (text.splitOn lf)).flatMap (wrapSingleLine metrics width) ≠ [] := by
      rw [hsplit, startedLinesFrom, flatMap_cons]
      exact append_ne_nil_of_left_ne_nil (wrapSingleLine_ne_nil metrics _) _
    rw [wrapTextWithAnsi, if_neg hnil]
    rw [hlines, nil_append, if_neg hne]
    rfl

/-- The tokens of a line behind some codes: the codes stand before the first of them. -/
inductive Led (lead : JsString) : TokenState → TokenState → Prop
  | pending (p : JsString) (w : Bool) :
      Led lead ⟨[], [], p, w⟩ ⟨[], [], lead ++ p, w⟩
  | current {c : JsString} (hc : c ≠ []) (p : JsString) (w : Bool) :
      Led lead ⟨[], c, p, w⟩ ⟨[], lead ++ c, p, w⟩
  | tokens (t : JsString) (ts : List JsString) (c p : JsString) (w : Bool) :
      Led lead ⟨t :: ts, c, p, w⟩ ⟨(lead ++ t) :: ts, c, p, w⟩

theorem Led.step {lead : JsString} {s s' : TokenState} (h : Led lead s s') (i : AnsiItem) :
    Led lead (tokenStep s i) (tokenStep s' i) := by
  cases i with
  | code code =>
    cases h with
    | pending p w =>
      have hnext := @Led.pending lead (p ++ code) w
      rwa [← append_assoc] at hnext
    | current hc p w => exact .current hc _ w
    | tokens t ts c p w => exact .tokens t ts c _ w
  | unit char =>
    cases h with
    | pending p w =>
      have hnext := @Led.current lead (p ++ [char])
        (append_ne_nil_of_right_ne_nil _ (cons_ne_nil _ _)) [] (decide (char = 0x20))
      rw [← append_assoc] at hnext
      simpa only [tokenStep, ne_eq, not_true_eq_false, and_false, ite_false, nil_append] using hnext
    | @current c hc p w =>
      have hled : lead ++ c ≠ [] := append_ne_nil_of_right_ne_nil _ hc
      by_cases hswitch : decide (char = 0x20) ≠ w
      · have hnext := @Led.tokens lead c [] ([] ++ p ++ [char]) [] (decide (char = 0x20))
        simpa only [tokenStep, if_pos (⟨hswitch, hc⟩ : _ ∧ c ≠ []),
          if_pos (⟨hswitch, hled⟩ : _ ∧ lead ++ c ≠ []), nil_append] using hnext
      · have hnext := @Led.current lead (c ++ p ++ [char])
          (append_ne_nil_of_right_ne_nil _ (cons_ne_nil _ _)) [] (decide (char = 0x20))
        rw [← append_assoc, ← append_assoc] at hnext
        simpa only [tokenStep, if_neg fun h : _ ∧ c ≠ [] => hswitch h.1,
          if_neg fun h : _ ∧ lead ++ c ≠ [] => hswitch h.1] using hnext
    | tokens t ts c p w =>
      by_cases hswitch : decide (char = 0x20) ≠ w ∧ c ≠ []
      · simp only [tokenStep, if_pos hswitch]
        exact .tokens t _ _ _ _
      · simp only [tokenStep, if_neg hswitch]
        exact .tokens t _ _ _ _

theorem Led.foldl {lead : JsString} {s s' : TokenState} (h : Led lead s s')
    (items : List AnsiItem) : Led lead (items.foldl tokenStep s) (items.foldl tokenStep s') := by
  induction items generalizing s s' with
  | nil => exact h
  | cons i items ih => exact ih (h.step i)

section

variable {lead : List AnsiItem} (hlead : Codes lead)
include hlead

theorem Codes.ansiItems_append (s : JsString) :
    ansiItems (textOf lead ++ s) = lead ++ ansiItems s := by
  have hread := (readable_ansiItems s).append_codes hlead
  rwa [Readable, textOf_append, textOf_ansiItems] at hread

theorem foldl_tokenStep_codes (p : JsString) :
    lead.foldl tokenStep { pendingAnsi := p } = { pendingAnsi := p ++ textOf lead } := by
  induction lead generalizing p with
  | nil => rw [textOf_nil, append_nil, foldl_nil]
  | cons i lead ih =>
    obtain ⟨⟨code, rfl, -⟩, hrest⟩ := forall_mem_cons.mp hlead
    rw [foldl_cons, textOf_cons, ← append_assoc]
    exact ih hrest (p ++ code)

theorem splitIntoTokensWithAnsi_led (line : JsString) : (splitIntoTokensWithAnsi line = [] ∧
      ∀ token ∈ splitIntoTokensWithAnsi (textOf lead ++ line), token = textOf lead) ∨
    ∃ t ts, splitIntoTokensWithAnsi line = t :: ts ∧
      splitIntoTokensWithAnsi (textOf lead ++ line) = (textOf lead ++ t) :: ts := by
  have hled := (@Led.pending (textOf lead) [] false).foldl (ansiItems line)
  rw [splitIntoTokensWithAnsi, splitIntoTokensWithAnsi, hlead.ansiItems_append, foldl_append,
    foldl_tokenStep_codes hlead, nil_append]
  rw [append_nil] at hled
  generalize (ansiItems line).foldl tokenStep {} = s at hled
  generalize (ansiItems line).foldl tokenStep { pendingAnsi := textOf lead } = s' at hled
  cases hled with
  | pending p w =>
    simp only [nil_append]
    by_cases hp : p = []
    · rw [if_pos hp, hp, append_nil]
      refine .inl ⟨rfl, fun token htoken => ?_⟩
      split at htoken
      · cases htoken
      · exact mem_singleton.mp htoken
    · rw [if_neg hp, if_neg (append_ne_nil_of_right_ne_nil _ hp)]
      exact .inr ⟨p, [], rfl, rfl⟩
  | @current c hc p w =>
    have hne : c ++ p ≠ [] := append_ne_nil_of_left_ne_nil hc p
    rw [append_assoc, if_neg hne, if_neg (append_ne_nil_of_right_ne_nil _ hne)]
    exact .inr ⟨c ++ p, [], rfl, rfl⟩
  | tokens t ts c p w =>
    refine .inr ?_
    split
    · exact ⟨t, ts, rfl, rfl⟩
    · exact ⟨t, ts ++ [c ++ p], rfl, rfl⟩

end

theorem graphemesOf_segment_nil : graphemesOf ((metrics.segment []).map .grapheme) = [] := by
  rw [graphemesOf_graphemes, filter_eq_nil_iff]
  intro g hg
  have hnil := flatten_eq_nil_iff.mp (metrics.flatten_segment []) g hg
  simp [hnil]

theorem graphemesOf_tokenSegments_led {lead : List AnsiItem} (hlead : Codes lead) (token : JsString) :
    graphemesOf (tokenSegments metrics (textOf lead ++ token)) =
      graphemesOf (tokenSegments metrics token) := by
  rw [tokenSegments, hlead.ansiItems_append, tokenSegments]
  induction lead with
  | nil => rfl
  | cons i lead ih =>
    obtain ⟨⟨code, rfl, -⟩, hrest⟩ := forall_mem_cons.mp hlead
    rw [cons_append, wordSegments, append_cons, graphemesOf_append, graphemesOf_append,
      graphemesOf_segment_nil, graphemesOf_ansi, ih hrest]
    rfl

theorem lineGraphemes_led {lead : List AnsiItem} (hlead : Codes lead) (line : JsString) :
    lineGraphemes metrics (textOf lead ++ line) = lineGraphemes metrics line := by
  rw [lineGraphemes, lineGraphemes, lineSegments, lineSegments]
  rcases splitIntoTokensWithAnsi_led hlead line with ⟨hnil, hall⟩ | ⟨t, ts, htokens, hled⟩
  · rw [hnil]
    generalize splitIntoTokensWithAnsi (textOf lead ++ line) = tokens at hall
    induction tokens with
    | nil => rfl
    | cons token tokens ih =>
      obtain ⟨rfl, hrest⟩ := forall_mem_cons.mp hall
      have hnone := @graphemesOf_tokenSegments_led metrics lead hlead []
      rw [append_nil] at hnone
      rw [flatMap_cons, graphemesOf_append, hnone, ih hrest]
      exact (append_nil _).trans graphemesOf_segment_nil
  · rw [htokens, hled, flatMap_cons, flatMap_cons, graphemesOf_append, graphemesOf_append,
      graphemesOf_tokenSegments_led hlead]

theorem Measurable.led (h : Measurable metrics width line) (hemits : tracker.Emits) :
    Measurable metrics width (tracker.getActiveCodes ++ line) := by
  have hgraphemes := @lineGraphemes_led metrics _ hemits.codes_activeItems line
  rw [textOf_activeItems] at hgraphemes
  refine ⟨?_, ?_⟩
  · rw [hgraphemes]
    exact h.adds
  · rw [hgraphemes]
    exact h.fits

theorem measurable_startedLinesFrom {lines : List JsString} (hemits : tracker.Emits)
    (h : ∀ line ∈ lines, Measurable metrics width line) :
    ∀ line ∈ startedLinesFrom tracker lines, Measurable metrics width line := by
  induction lines generalizing tracker with
  | nil => exact forall_mem_nil _
  | cons line lines ih =>
    obtain ⟨hline, hlines⟩ := forall_mem_cons.mp h
    exact forall_mem_cons.mpr
      ⟨hline.led hemits, ih (hemits.foldl_track (readable_ansiItems line)) hlines⟩

end Text

theorem unitsWidth_signMetrics (units : JsString) : unitsWidth signMetrics units = cellsWidth units := by
  have hflatten := flatten_signSegments (units.flatMap expandTab)
  rw [cellsWidth]
  conv_rhs => rw [← hflatten]
  rw [map_flatten, sum_flatten, map_map]
  rfl

theorem signMetrics_lawful : signMetrics.Lawful where
  printable s h := by rw [unitsWidth_signMetrics, cellsWidth_of_printable h]
  grows s t := by
    rw [unitsWidth_signMetrics, unitsWidth_signMetrics, cellsWidth_append]
    exact Nat.le_add_right _ _
  shows s c hc hprintable := by
    obtain ⟨before, after, rfl⟩ := append_of_mem hc
    rw [unitsWidth_signMetrics, append_cons, cellsWidth_append, cellsWidth_append,
      cellsWidth_of_printable hprintable]
    exact Nat.lt_of_lt_of_le (Nat.lt_add_left _ Nat.one_pos) (Nat.le_add_right _ _)

theorem mem_segment_of_wordSegments {metrics : TextMetrics} {portion : JsString}
    {items : List AnsiItem} (h : .grapheme g ∈ wordSegments metrics portion items) :
    ∃ s, g ∈ metrics.segment s := by
  induction items generalizing portion with
  | nil =>
    obtain ⟨_, hg, heq⟩ := mem_map.mp h
    exact ⟨portion, WordSegment.grapheme.inj heq ▸ hg⟩
  | cons i items ih =>
    cases i with
    | unit c => exact ih h
    | code code =>
      rw [wordSegments, mem_append, mem_cons] at h
      rcases h with h | h | h
      · obtain ⟨_, hg, heq⟩ := mem_map.mp h
        exact ⟨portion, WordSegment.grapheme.inj heq ▸ hg⟩
      · cases h
      · exact ih h

theorem mem_segment_of_lineGraphemes {metrics : TextMetrics} (h : g ∈ lineGraphemes metrics line) :
    ∃ s, g ∈ metrics.segment s := by
  rw [lineGraphemes, graphemesOf] at h
  obtain ⟨segment, hsegment, hg⟩ := mem_filterMap.mp (mem_filter.mp h).1
  obtain ⟨token, -, hmem⟩ := mem_flatMap.mp hsegment
  cases segment with
  | ansi value => cases hg
  | grapheme value =>
    obtain rfl := some.inj hg
    exact mem_segment_of_wordSegments hmem

theorem measurable_signMetrics {width : Int} (hwidth : 3 ≤ width) (line : JsString) :
    Measurable signMetrics width line := by
  have hcells : ∀ g ∈ lineGraphemes signMetrics line, visibleWidth signMetrics g = cellsWidth g := by
    intro g hg
    obtain ⟨s, hs⟩ := mem_segment_of_lineGraphemes hg
    exact visibleWidth_signMetrics_grapheme hs
  refine ⟨fun gs hgs => ?_, fun g hg => ?_⟩
  · rw [unitsWidth_signMetrics, cellsWidth_flatten, graphemesWidth]
    exact congrArg _ (map_congr_left fun g hg => (hcells g (hgs.subset hg)).symm)
  · have hle : cellsWidth g ≤ 3 := by
      obtain ⟨s, hs⟩ := mem_segment_of_lineGraphemes hg
      rcases mem_signSegments hs with rfl | ⟨c, rfl⟩
      · decide
      · rw [cellsWidth, flatMap_singleton, expandTab]
        split
        · decide
        · rw [map_singleton, sum_singleton, cellWidth]
          split
          · decide
          · split <;> decide
    rw [hcells g hg]
    omega

end AcademicAgent.AnsiText
