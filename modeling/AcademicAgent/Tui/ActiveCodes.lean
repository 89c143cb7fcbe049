import AcademicAgent.Tui.Rendition
import Mathlib.Data.List.Forall2
import Mathlib.Tactic.IntervalCases

/-!
# The codes that a tracker writes

A tracker that has read style codes writes codes that give it back, and a terminal
that reads them keeps what the tracker holds.
-/

namespace AcademicAgent.AnsiText

open List Option

variable {part s params : JsString} {slot : Slot} {set : AnsiCodeTracker → AnsiCodeTracker}
  {n : Nat}

/-- A code that reads as one operation, whatever follows it. -/
structure Reads (s : JsString) (op : SgrOp) : Prop where
  ne_nil : s ≠ []
  params : ∀ c ∈ s, isParam c = true
  ops : ∀ rest, sgrOps 0 (s.splitOn semicolon ++ rest) = op :: sgrOps 0 rest

def ColorCode (slot : Slot) (set : AnsiCodeTracker → AnsiCodeTracker) (s : JsString) : Prop :=
  ∃ op, Reads s op ∧
    (∀ other, op.effect other = if other = slot then some (colourOf (some s)) else none) ∧
    ∀ tracker : AnsiCodeTracker, tracker.applyOp op = set tracker

/-- The colours and the hyperlink of a tracker can be written. -/
structure AnsiCodeTracker.WellFormed (tracker : AnsiCodeTracker) : Prop where
  fgColor : ∀ s, tracker.fgColor = some s →
    ColorCode .foreground (fun t => { t with fgColor := some s }) s
  bgColor : ∀ s, tracker.bgColor = some s →
    ColorCode .background (fun t => { t with bgColor := some s }) s
  hyperlink : ∀ h, tracker.activeHyperlink = some h →
    IsLinkText h.params ∧ semicolon ∉ h.params ∧ IsLinkText h.url ∧ h.url ≠ []

theorem semicolon_notMem_digits (h : ∀ c ∈ part, isDigit c = true) : semicolon ∉ part := by
  intro hmem
  exact absurd (h _ hmem) (by decide)

theorem reads_parameter (hne : part ≠ []) (h : ∀ c ∈ part, isDigit c = true)
    (hplain : digitsValue part ≠ 38 ∧ digitsValue part ≠ 48) : Reads part (.parameter part) := by
  refine ⟨hne, fun c hc => by simp [isParam, h c hc], fun rest => ?_⟩
  rw [splitOn_eq_singleton (semicolon_notMem_digits h), singleton_append, sgrOps, if_neg (by tauto)]

theorem splitOn_decimalText (n : Nat) : (decimalText n).splitOn semicolon = [decimalText n] :=
  splitOn_eq_singleton (semicolon_notMem_digits isDigit_of_mem_decimalText)

theorem colourOf_decimalText (n : Nat) : colourOf (some (decimalText n)) = .colour [n] := by
  rw [colourOf, map_some, splitOn_decimalText, map_singleton, digitsValue_decimalText]
  rfl

theorem colorCode_decimalText (hplain : n ≠ 38 ∧ n ≠ 48)
    (heffect : ∀ other, parameterEffect n other = if other = slot then some (.colour [n]) else none)
    (hset : ∀ tracker : AnsiCodeTracker, tracker.applyCode n = set tracker) :
    ColorCode slot set (decimalText n) := by
  refine ⟨.parameter (decimalText n), reads_parameter (decimalText_ne_nil n)
    isDigit_of_mem_decimalText (by rwa [digitsValue_decimalText]), fun other => ?_, fun tracker => ?_⟩
  · rw [SgrOp.effect, digitsValue_decimalText, heffect, colourOf_decimalText]
  · rw [AnsiCodeTracker.applyOp, paramCode, if_neg (decimalText_ne_nil n), digitsValue_decimalText]
    exact hset tracker

theorem colorLength_append {rest : List JsString} {length : Nat}
    (h : colorLength rest = some length) (more : List JsString) :
    (rest.take length).length = length ∧ colorLength (rest.take length ++ more) = some length := by
  unfold colorLength at h
  split at h
  · rename_i hfive
    cases h
    match rest, hfive with
    | [a, b], hfive => exact ⟨rfl, if_pos hfive⟩
    | a :: b :: c :: rest, hfive => exact ⟨rfl, if_pos hfive⟩
  · rename_i hfive
    split at h
    · rename_i htwo
      cases h
      match rest, htwo with
      | a :: b :: c :: d :: rest, htwo =>
        refine ⟨rfl, ?_⟩
        exact (if_neg hfive).trans (if_pos htwo)
    · contradiction

theorem sgrOps_skip (arguments rest : List JsString) :
    sgrOps arguments.length (arguments ++ rest) = sgrOps 0 rest := by
  induction arguments with
  | nil => rfl
  | cons a arguments ih => exact ih

theorem isParam_intercalate {parts : List JsString} (h : ∀ p ∈ parts, ∀ c ∈ p, isParam c = true) :
    ∀ c ∈ [semicolon].intercalate parts, isParam c = true := by
  induction parts with
  | nil => exact fun _ hc => absurd hc not_mem_nil
  | cons p parts ih =>
    have htail := ih fun q hq => h q (mem_cons_of_mem _ hq)
    by_cases hnil : parts = []
    · subst hnil
      rw [intercalate_singleton]
      exact h p mem_cons_self
    · rw [intercalate_cons_of_ne_nil hnil]
      intro c hc
      simp only [mem_append, mem_singleton] at hc
      rcases hc with (hc | rfl) | hc
      · exact h p mem_cons_self c hc
      · decide
      · exact htail c hc

theorem intercalate_ne_nil {p : JsString} (hp : p ≠ []) (parts : List JsString) :
    [semicolon].intercalate (p :: parts) ≠ [] := by
  cases parts with
  | nil => rwa [intercalate_singleton]
  | cons q parts =>
    rw [intercalate_cons_cons]
    exact fun h => hp (append_eq_nil_iff.mp (append_eq_nil_iff.mp h).1).1

theorem colorCode_extended {rest : List JsString} {length : Nat}
    (hpart : ∀ c ∈ part, isDigit c = true) (hrest : ∀ p ∈ rest, ∀ c ∈ p, isDigit c = true)
    (hcode : digitsValue part = 38 ∨ digitsValue part = 48)
    (hlength : colorLength rest = some length) :
    ColorCode (if digitsValue part = 38 then .foreground else .background)
      (fun t => t.setColor (digitsValue part) ([semicolon].intercalate (part :: rest.take length)))
      ([semicolon].intercalate (part :: rest.take length)) := by
  have hparts : ∀ p ∈ part :: rest.take length, ∀ c ∈ p, isDigit c = true := by
    intro p hp
    rcases mem_cons.mp hp with rfl | hp
    · exact hpart
    · exact hrest p (mem_of_mem_take hp)
  have hsplit : ([semicolon].intercalate (part :: rest.take length)).splitOn semicolon =
      part :: rest.take length :=
    splitOn_intercalate semicolon (fun p hp => semicolon_notMem_digits (hparts p hp))
      (cons_ne_nil _ _)
  have hne : part ≠ [] := by
    rintro rfl
    rcases hcode with h | h <;> exact absurd h (by decide)
  refine ⟨.colour part (rest.take length), ⟨?_, ?_, fun more => ?_⟩, fun other => ?_, fun tracker => rfl⟩
  · exact intercalate_ne_nil hne _
  · exact isParam_intercalate fun p hp c hc => by simp [isParam, hparts p hp c hc]
  · obtain ⟨htake, happend⟩ := colorLength_append hlength more
    have hskip := sgrOps_skip (rest.take length) more
    rw [htake] at hskip
    rw [hsplit, cons_append, sgrOps, if_pos hcode, happend]
    simp only
    rw [take_left' htake, hskip]
  · rw [SgrOp.effect, colourOf, map_some, hsplit]
    rfl

namespace AnsiCodeTracker

variable {tracker : AnsiCodeTracker}

theorem WellFormed.reset (h : tracker.WellFormed) : tracker.reset.WellFormed :=
  ⟨nofun, nofun, h.hyperlink⟩

theorem wellFormed_new : ({} : AnsiCodeTracker).WellFormed := ⟨nofun, nofun, nofun⟩

theorem WellFormed.setForeground (h : tracker.WellFormed)
    (hs : ColorCode .foreground (fun t => { t with fgColor := some s }) s) :
    WellFormed { tracker with fgColor := some s } :=
  ⟨fun _ hs' => some.inj hs' ▸ hs, h.bgColor, h.hyperlink⟩

theorem WellFormed.setBackground (h : tracker.WellFormed)
    (hs : ColorCode .background (fun t => { t with bgColor := some s }) s) :
    WellFormed { tracker with bgColor := some s } :=
  ⟨h.fgColor, fun _ hs' => some.inj hs' ▸ hs, h.hyperlink⟩

theorem foreground_effect (h : (30 ≤ n ∧ n ≤ 37) ∨ (90 ≤ n ∧ n ≤ 97)) (other : Slot) :
    parameterEffect n other = if other = .foreground then some (.colour [n]) else none := by
  cases other
  case foreground => exact colourEffect_eq h
  all_goals
    simp only [parameterEffect, attributeEffect, colourEffect, mem_cons, not_mem_nil,
      or_false, reduceCtorEq, ite_false]
    repeat rw [if_neg (by omega)]

theorem background_effect (h : (40 ≤ n ∧ n ≤ 47) ∨ (100 ≤ n ∧ n ≤ 107)) (other : Slot) :
    parameterEffect n other = if other = .background then some (.colour [n]) else none := by
  cases other
  case background => exact colourEffect_eq h
  all_goals
    simp only [parameterEffect, attributeEffect, colourEffect, mem_cons, not_mem_nil,
      or_false, reduceCtorEq, ite_false]
    repeat rw [if_neg (by omega)]

theorem applyCode_foreground (h : (30 ≤ n ∧ n ≤ 37) ∨ (90 ≤ n ∧ n ≤ 97)) (t : AnsiCodeTracker) :
    t.applyCode n = { t with fgColor := some (decimalText n) } := by
  rcases h with ⟨hlow, hhigh⟩ | ⟨hlow, hhigh⟩ <;> interval_cases n <;> rfl

theorem applyCode_background (h : (40 ≤ n ∧ n ≤ 47) ∨ (100 ≤ n ∧ n ≤ 107)) (t : AnsiCodeTracker) :
    t.applyCode n = { t with bgColor := some (decimalText n) } := by
  rcases h with ⟨hlow, hhigh⟩ | ⟨hlow, hhigh⟩ <;> interval_cases n <;> rfl

theorem WellFormed.applyCode (h : tracker.WellFormed) (code : Nat) :
    (tracker.applyCode code).WellFormed := by
  by_cases hforeground : (30 ≤ code ∧ code ≤ 37) ∨ (90 ≤ code ∧ code ≤ 97)
  · rw [applyCode_foreground hforeground]
    exact h.setForeground (colorCode_decimalText (by omega) (foreground_effect hforeground)
      (applyCode_foreground hforeground))
  · by_cases hbackground : (40 ≤ code ∧ code ≤ 47) ∨ (100 ≤ code ∧ code ≤ 107)
    · rw [applyCode_background hbackground]
      exact h.setBackground (colorCode_decimalText (by omega) (background_effect hbackground)
        (applyCode_background hbackground))
    · unfold AnsiCodeTracker.applyCode
      split
      case h_1 => exact h.reset
      case h_18 => exact ⟨nofun, h.bgColor, h.hyperlink⟩
      case h_19 => exact ⟨h.fgColor, nofun, h.hyperlink⟩
      case h_20 =>
        rw [if_neg hforeground, if_neg hbackground]
        exact h
      all_goals exact ⟨h.fgColor, h.bgColor, h.hyperlink⟩

theorem WellFormed.applyParts (h : tracker.WellFormed) (skip : Nat) {parts : List JsString}
    (hparts : ∀ p ∈ parts, ∀ c ∈ p, isDigit c = true) :
    (AnsiCodeTracker.applyParts skip tracker parts).WellFormed := by
  induction parts generalizing skip tracker with
  | nil => cases skip <;> exact h
  | cons part rest ih =>
    have hrest : ∀ p ∈ rest, ∀ c ∈ p, isDigit c = true :=
      fun p hp => hparts p (mem_cons_of_mem _ hp)
    cases skip with
    | succ skip => exact ih h skip hrest
    | zero =>
      rw [AnsiCodeTracker.applyParts]
      cases hcode : paramCode part with
      | none => exact ih h 0 hrest
      | some code =>
        have hvalue : digitsValue part = code := by
          unfold paramCode at hcode
          split at hcode
          · contradiction
          · exact some.inj hcode
        cases hlength : if code = 38 ∨ code = 48 then colorLength rest else none with
        | none =>
          simp only [hlength]
          exact ih (h.applyCode code) 0 hrest
        | some length =>
          simp only [hlength]
          have hor : code = 38 ∨ code = 48 := by
            by_contra hno
            rw [if_neg hno] at hlength
            contradiction
          rw [if_pos hor] at hlength
          have hcolor := colorCode_extended (hparts part mem_cons_self) hrest (hvalue ▸ hor) hlength
          rw [hvalue] at hcolor
          refine ih ?_ length hrest
          unfold setColor at hcolor ⊢
          split
          · rename_i hfirst
            rw [if_pos hfirst] at hcolor
            simp only [if_pos hfirst] at hcolor
            exact h.setForeground hcolor
          · rename_i hfirst
            rw [if_neg hfirst] at hcolor
            simp only [if_neg hfirst] at hcolor
            exact h.setBackground hcolor

theorem isDigit_of_mem_splitOn (h : ∀ c ∈ params, isParam c = true) :
    ∀ p ∈ params.splitOn semicolon, ∀ c ∈ p, isDigit c = true := by
  induction params with
  | nil => simp
  | cons x xs ih =>
    have htail := ih fun c hc => h c (mem_cons_of_mem _ hc)
    have hx := h x mem_cons_self
    rw [splitOn_cons_eq_if_modifyHead]
    by_cases hsemicolon : x = semicolon
    · rw [if_pos (by simp [hsemicolon])]
      intro p hp
      rcases mem_cons.mp hp with rfl | hp
      · exact fun _ hc => absurd hc not_mem_nil
      · exact htail p hp
    · rw [if_neg (by simp [hsemicolon])]
      obtain ⟨q, qs, hqs⟩ := exists_cons_of_ne_nil (splitOn_ne_nil semicolon xs)
      rw [hqs] at htail ⊢
      have hdigit : isDigit x = true := by simpa [isParam, hsemicolon] using hx
      intro p hp c hc
      rcases mem_cons.mp hp with rfl | hp
      · rcases mem_cons.mp hc with rfl | hc
        · exact hdigit
        · exact htail q mem_cons_self c hc
      · exact htail p (mem_cons_of_mem _ hp) c hc

theorem WellFormed.process (h : tracker.WellFormed) (hs : StyleCode s) :
    (tracker.process s).WellFormed := by
  cases hs with
  | sgr hparams =>
    rw [process_sgr tracker hparams]
    split
    · exact h.reset
    · exact h.applyParts 0 (isDigit_of_mem_splitOn hparams)
  | link terminator hparams hsemicolon hurl =>
    rw [process_link tracker terminator hsemicolon]
    refine ⟨h.fgColor, h.bgColor, fun hyperlink heq => ?_⟩
    split at heq
    · contradiction
    · rename_i hne
      cases heq
      exact ⟨hparams, hsemicolon, hurl, hne⟩

theorem WellFormed.foldl_track (h : tracker.WellFormed) {items : List AnsiItem}
    (hitems : Styled items) : (items.foldl AnsiItem.track tracker).WellFormed := by
  induction items generalizing tracker with
  | nil => exact h
  | cons i items ih =>
    refine ih ?_ fun j hj => hitems j (mem_cons_of_mem _ hj)
    have hgood := hitems i mem_cons_self
    cases i with
    | code s => exact h.process hgood
    | unit c => exact h

end AnsiCodeTracker

theorem sgrOps_intercalate {codes : List JsString} {ops : List SgrOp}
    (h : Forall₂ Reads codes ops) (hne : codes ≠ []) (rest : List JsString) :
    sgrOps 0 (([semicolon].intercalate codes).splitOn semicolon ++ rest) =
      ops ++ sgrOps 0 rest := by
  induction h with
  | nil => contradiction
  | @cons s op codes ops hs htail ih =>
    by_cases hnil : codes = []
    · subst hnil
      cases htail
      rw [intercalate_singleton, hs.ops]
      rfl
    · rw [intercalate_cons_of_ne_nil hnil, append_assoc, singleton_append,
        splitOn_append_cons_self, append_assoc, hs.ops, ih hnil]
      rfl

/-- The operations that some codes stand for, with what they do to the slots of a
terminal and to a tracker. -/
structure Writes (codes : List JsString) (ops : List SgrOp) (effect : Slot → Setting → Setting)
    (set : AnsiCodeTracker → AnsiCodeTracker) : Prop where
  reads : Forall₂ Reads codes ops
  effect : ∀ slot setting, settingAfter slot setting ops = effect slot setting
  set : ∀ tracker : AnsiCodeTracker, ops.foldl AnsiCodeTracker.applyOp tracker = set tracker

theorem writes_one {op : SgrOp} {setting : Setting} (hreads : Reads s op)
    (heffect : ∀ other, op.effect other = if other = slot then some setting else none)
    (hset : ∀ tracker : AnsiCodeTracker, tracker.applyOp op = set tracker) :
    Writes [s] [op] (fun other old => if other = slot then setting else old) set := by
  refine ⟨.cons hreads .nil, fun other old => ?_, hset⟩
  rw [settingAfter, foldl_cons, foldl_nil, heffect]
  split <;> rfl

theorem Writes.append {codes codes' : List JsString} {ops ops' : List SgrOp}
    {effect effect' : Slot → Setting → Setting} {set' : AnsiCodeTracker → AnsiCodeTracker}
    (h : Writes codes ops effect set) (h' : Writes codes' ops' effect' set') :
    Writes (codes ++ codes') (ops ++ ops')
      (fun slot setting => effect' slot (effect slot setting)) (fun t => set' (set t)) := by
  refine ⟨rel_append h.reads h'.reads, fun slot setting => ?_, fun tracker => ?_⟩
  · rw [settingAfter, foldl_append, ← settingAfter, ← settingAfter, h.effect, h'.effect]
  · rw [foldl_append, h.set, h'.set]

theorem writes_flag (b : Bool) {code : String} {slot : Slot}
    {set : AnsiCodeTracker → AnsiCodeTracker} (hreads : Reads (js code) (.parameter (js code)))
    (heffect : ∀ other, (SgrOp.parameter (js code)).effect other =
      if other = slot then some .on else none)
    (hset : ∀ tracker : AnsiCodeTracker,
      (if b then tracker.applyOp (.parameter (js code)) else tracker) = set tracker) :
    Writes (if b then [js code] else []) (if b then [.parameter (js code)] else [])
      (fun other old => if other = slot ∧ b = true then .on else old) set := by
  cases b with
  | false => exact ⟨.nil, fun other old => by simp [settingAfter], hset⟩
  | true =>
    have h := writes_one hreads heffect hset
    simpa only [and_true, ite_true] using h

theorem writes_colour {set : JsString → AnsiCodeTracker → AnsiCodeTracker}
    (colour : Option JsString) (h : ∀ s, colour = some s → ColorCode slot (set s) s) :
    ∃ ops, Writes (nonEmpty colour).toList ops
      (fun other old => if other = slot ∧ colour ≠ none then colourOf colour else old)
      (fun tracker => (colour.map fun s => set s tracker).getD tracker) := by
  cases colour with
  | none => exact ⟨[], .nil, fun other old => by simp [settingAfter], fun _ => rfl⟩
  | some s =>
    obtain ⟨op, hreads, heffect, hset⟩ := h s rfl
    have hsome : (nonEmpty (some s)).toList = [s] := by
      rw [nonEmpty, if_neg hreads.ne_nil]
      rfl
    have hone := writes_one hreads heffect hset
    rw [hsome]
    exact ⟨[op], by simpa using hone⟩

theorem reads_digit (c : CodeUnit) (h : isDigit c = true) : Reads [c] (.parameter [c]) := by
  have hvalue : digitsValue [c] < 10 := by
    simp only [isDigit, Bool.and_eq_true, decide_eq_true_eq] at h
    have hle := UInt16.le_iff_toNat_le.mp h.2
    simp only [digitsValue, foldl_cons, foldl_nil]
    change c.toNat ≤ 57 at hle
    omega
  exact reads_parameter (cons_ne_nil _ _) (by simpa using h) (by omega)

namespace AnsiCodeTracker

variable {tracker : AnsiCodeTracker}

theorem WellFormed.writes (h : tracker.WellFormed) :
    ∃ ops effect set, Writes tracker.codes ops effect set ∧
      (∀ slot, effect slot .off = tracker.view.slots slot) ∧
      set {} = { tracker with activeHyperlink := none } := by
  obtain ⟨fgOps, hfg⟩ := writes_colour tracker.fgColor h.fgColor
  obtain ⟨bgOps, hbg⟩ := writes_colour tracker.bgColor h.bgColor
  have hbold := @writes_flag tracker.bold "1" .bold
    (fun t => { t with bold := tracker.bold || t.bold }) (reads_digit _ rfl) (by rintro (_ | _) <;> rfl)
    (fun t => by cases tracker.bold <;> rfl)
  have hdim := @writes_flag tracker.dim "2" .faint
    (fun t => { t with dim := tracker.dim || t.dim }) (reads_digit _ rfl) (by rintro (_ | _) <;> rfl)
    (fun t => by cases tracker.dim <;> rfl)
  have hitalic := @writes_flag tracker.italic "3" .italic
    (fun t => { t with italic := tracker.italic || t.italic }) (reads_digit _ rfl) (by rintro (_ | _) <;> rfl)
    (fun t => by cases tracker.italic <;> rfl)
  have hunderline := @writes_flag tracker.underline "4" .underline
    (fun t => { t with underline := tracker.underline || t.underline }) (reads_digit _ rfl) (by rintro (_ | _) <;> rfl)
    (fun t => by cases tracker.underline <;> rfl)
  have hblink := @writes_flag tracker.blink "5" .slowBlink
    (fun t => { t with blink := tracker.blink || t.blink }) (reads_digit _ rfl) (by rintro (_ | _) <;> rfl)
    (fun t => by cases tracker.blink <;> rfl)
  have hinverse := @writes_flag tracker.inverse "7" .inverse
    (fun t => { t with inverse := tracker.inverse || t.inverse }) (reads_digit _ rfl) (by rintro (_ | _) <;> rfl)
    (fun t => by cases tracker.inverse <;> rfl)
  have hhidden := @writes_flag tracker.hidden "8" .conceal
    (fun t => { t with hidden := tracker.hidden || t.hidden }) (reads_digit _ rfl) (by rintro (_ | _) <;> rfl)
    (fun t => by cases tracker.hidden <;> rfl)
  have hstrikethrough := @writes_flag tracker.strikethrough "9" .crossedOut
    (fun t => { t with strikethrough := tracker.strikethrough || t.strikethrough }) (reads_digit _ rfl) (by rintro (_ | _) <;> rfl)
    (fun t => by cases tracker.strikethrough <;> rfl)
  refine ⟨_, _, _, ((((((((hbold.append hdim).append hitalic).append hunderline).append hblink).append
    hinverse).append hhidden).append hstrikethrough).append hfg).append hbg, fun slot => ?_, ?_⟩
  · have hcolour : ∀ c : Option JsString, (if c = none then .off else colourOf c) = colourOf c := by
      rintro (_ | _) <;> rfl
    cases slot <;> simp [view, flag, hcolour]
  · obtain ⟨_, _, _, _, _, _, _, _, fgColor, bgColor, _⟩ := tracker
    cases fgColor <;> cases bgColor <;> simp

end AnsiCodeTracker

namespace Rendition

theorem read_sgr (r : Rendition) (h : ∀ c ∈ params, isParam c = true) :
    r.read (AnsiCodeTracker.sgr params) =
      { r with slots := fun slot =>
          settingAfter slot (r.slots slot) (sgrOps 0 (params.splitOn semicolon)) } := by
  rw [read, parseOsc8Hyperlink_sgr, sgrParams_sgr h]

theorem read_link (r : Rendition) {url : JsString} (terminator : Osc8Terminator)
    (hsemicolon : semicolon ∉ params) : r.read (formatOsc8Hyperlink { params, url, terminator }) =
      { r with hyperlink := if url = [] then none else some (params, url) } := by
  rw [read, parseOsc8Hyperlink_link terminator hsemicolon]
  dsimp only
  split <;> rfl

end Rendition

namespace AnsiCodeTracker

/-- The code for the attributes and colours of a tracker. -/
def codeItems (tracker : AnsiCodeTracker) : List AnsiItem :=
  if tracker.codes = [] then [] else [.code (sgr ([semicolon].intercalate tracker.codes))]

def activeItems (tracker : AnsiCodeTracker) : List AnsiItem :=
  tracker.codeItems ++
    (tracker.activeHyperlink.map fun h => AnsiItem.code (formatOsc8Hyperlink h)).toList

variable {tracker : AnsiCodeTracker}

theorem textOf_activeItems : textOf tracker.activeItems = tracker.getActiveCodes := by
  rw [activeItems, codeItems, getActiveCodes, textOf_append]
  congr 1
  · split
    · rfl
    · exact append_nil _
  · cases tracker.activeHyperlink with
    | none => rfl
    | some h => exact append_nil _

section

variable (h : tracker.WellFormed)
include h

theorem WellFormed.isParam_codes :
    ∀ c ∈ [semicolon].intercalate tracker.codes, isParam c = true := by
  obtain ⟨ops, _, _, hwrites, -, -⟩ := h.writes
  have hreads := hwrites.reads
  refine isParam_intercalate ?_
  clear hwrites
  generalize tracker.codes = codes at hreads
  induction hreads with
  | nil => exact forall_mem_nil _
  | cons hs _ ih => exact forall_mem_cons.mpr ⟨hs.params, ih⟩

theorem WellFormed.styled_activeItems : Styled tracker.activeItems := by
  intro i hi
  rw [activeItems, mem_append] at hi
  rcases hi with hi | hi
  · unfold codeItems at hi
    split at hi
    · exact absurd hi not_mem_nil
    · rw [mem_singleton.mp hi]
      exact .sgr h.isParam_codes
  · obtain ⟨hyperlink, hhyperlink, rfl⟩ := map_eq_some_iff.mp (mem_toList.mp hi)
    obtain ⟨hparams, hsemicolon, hurl, -⟩ := h.hyperlink hyperlink hhyperlink
    exact .link hyperlink.terminator hparams hsemicolon hurl

theorem WellFormed.process_hyperlink {hyperlink : ActiveHyperlink}
    (hlink : tracker.activeHyperlink = some hyperlink) (t : AnsiCodeTracker) (r : Rendition) :
    t.process (formatOsc8Hyperlink hyperlink) = { t with activeHyperlink := some hyperlink } ∧
      r.read (formatOsc8Hyperlink hyperlink) =
        { r with hyperlink := some (hyperlink.params, hyperlink.url) } := by
  obtain ⟨-, hsemicolon, -, hne⟩ := h.hyperlink hyperlink hlink
  obtain ⟨params, url, terminator⟩ := hyperlink
  rw [process_link t terminator hsemicolon, r.read_link terminator hsemicolon, if_neg hne,
    if_neg hne]
  exact ⟨rfl, rfl⟩

theorem WellFormed.read_codeItems :
    tracker.codeItems.foldl AnsiItem.track {} = { tracker with activeHyperlink := none } ∧
      tracker.codeItems.foldl Rendition.after Rendition.reset =
        { tracker.view with hyperlink := none } := by
  obtain ⟨ops, effect, set, hwrites, hview, hset⟩ := h.writes
  have hparam := h.isParam_codes
  have hslots : ∀ slot, settingAfter slot .off ops = tracker.view.slots slot := fun slot => by
    rw [hwrites.effect, hview]
  have htrack := hwrites.set {}
  rw [hset] at htrack
  have hreads := hwrites.reads
  rw [codeItems]
  generalize tracker.codes = codes at hreads hparam
  cases hreads with
  | nil => exact ⟨htrack, Rendition.ext (funext hslots) rfl⟩
  | @cons s op codes ops hs hrest =>
    have hops := sgrOps_intercalate (.cons hs hrest) (cons_ne_nil s codes) []
    rw [append_nil, sgrOps, append_nil] at hops
    rw [if_neg (cons_ne_nil s codes), foldl_cons, foldl_nil, foldl_cons,
      foldl_nil, AnsiItem.track, Rendition.after, process_sgr _ hparam,
      if_neg (intercalate_ne_nil hs.ne_nil codes), applyParts_eq, Rendition.read_sgr _ hparam, hops]
    exact ⟨htrack, Rendition.ext (funext hslots) rfl⟩

theorem WellFormed.track_activeItems : tracker.activeItems.foldl AnsiItem.track {} = tracker := by
  rw [activeItems, foldl_append, h.read_codeItems.1]
  cases hlink : tracker.activeHyperlink with
  | none =>
    change { tracker with activeHyperlink := none } = tracker
    rw [← hlink]
  | some hyperlink =>
    refine (h.process_hyperlink hlink { tracker with activeHyperlink := none } .reset).1.trans ?_
    rw [← hlink]

theorem WellFormed.after_activeItems :
    tracker.activeItems.foldl Rendition.after Rendition.reset = tracker.view := by
  rw [activeItems, foldl_append, h.read_codeItems.2]
  cases hlink : tracker.activeHyperlink with
  | none => exact Rendition.ext rfl (by simp [view, hlink])
  | some hyperlink =>
    refine (h.process_hyperlink hlink {} { tracker.view with hyperlink := none }).2.trans ?_
    exact Rendition.ext rfl (by simp [view, hlink])

end

end AnsiCodeTracker

end AcademicAgent.AnsiText
