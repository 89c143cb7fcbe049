import AcademicAgent.Tui.AnsiCodes

/-!
# Styled text

A styled text is a sequence of SGR codes, hyperlinks and other code units.
-/

namespace AcademicAgent.AnsiText

open List AnsiCodeTracker

variable {params : JsString}

variable {url : JsString}

def IsLinkText (s : JsString) : Prop := ∀ c ∈ s, c ≠ escape ∧ c ≠ bel ∧ c ≠ lf

inductive StyleCode : JsString → Prop where
  | sgr {params : JsString} (h : ∀ c ∈ params, isParam c = true) :
      StyleCode (AnsiCodeTracker.sgr params)
  | link {params url : JsString} (terminator : Osc8Terminator) (hparams : IsLinkText params)
      (hsemicolon : semicolon ∉ params) (hurl : IsLinkText url) :
      StyleCode (formatOsc8Hyperlink { params, url, terminator })

/-- A sequence that styles text, or a code unit that starts no sequence. -/
def AnsiItem.Good : AnsiItem → Prop
  | .code s => StyleCode s
  | .unit c => c ≠ escape

def Styled (items : List AnsiItem) : Prop := ∀ i ∈ items, i.Good

@[simp] theorem textOf_nil : textOf [] = [] := rfl

@[simp] theorem textOf_cons (i : AnsiItem) (items : List AnsiItem) :
    textOf (i :: items) = i.text ++ textOf items := rfl

@[simp] theorem textOf_append (a b : List AnsiItem) : textOf (a ++ b) = textOf a ++ textOf b :=
  flatMap_append

theorem isParam_le {c : CodeUnit} (h : isParam c = true) : c ≤ semicolon := by
  simp only [isParam, isDigit, Bool.or_eq_true, Bool.and_eq_true, decide_eq_true_eq] at h
  rcases h with ⟨-, h⟩ | rfl
  · exact UInt16.le_trans h (by decide)
  · exact UInt16.le_refl _

theorem isParam_ne_final {c : CodeUnit} (h : isParam c = true) : isCsiFinal c = false := by
  have hle := isParam_le h
  simp only [isCsiFinal, Bool.or_eq_false_iff, decide_eq_false_iff_not]
  refine ⟨⟨⟨⟨?_, ?_⟩, ?_⟩, ?_⟩, ?_⟩ <;> rintro rfl <;> exact absurd hle (by decide)

theorem extractAnsiCode_sgr (h : ∀ c ∈ params, isParam c = true) (rest : JsString) :
    extractAnsiCode (sgr params ++ rest) = some (sgr params) := by
  have hfind : (params ++ letterM :: rest).findIdx? isCsiFinal = some params.length := by
    have hletter : isCsiFinal letterM = true := by decide
    rw [findIdx?_append, findIdx?_eq_none_iff.mpr fun c hc => isParam_ne_final (h c hc),
      findIdx?_cons, hletter]
    simp
  have htake : (params ++ letterM :: rest).take (params.length + 1) = params ++ [letterM] := by
    rw [take_length_add_append, take_succ_cons, take_zero]
  have htext : sgr params ++ rest =
      escape :: bracket :: (params ++ letterM :: rest) := by
    simp [sgr]
  rw [htext, extractAnsiCode, if_neg (by simp), if_pos rfl, hfind, Option.map_some, htake]
  rfl

theorem terminatedLength_append {s : JsString} (h : ∀ c ∈ s, c ≠ escape ∧ c ≠ bel)
    (terminator : Osc8Terminator) (rest : JsString) :
    terminatedLength (s ++ terminator.text ++ rest) = some (s.length + terminator.text.length) := by
  induction s with
  | nil => cases terminator <;> rfl
  | cons c s ih =>
    obtain ⟨hescape, hbel⟩ := h c mem_cons_self
    have htail := ih fun c hc => h c (mem_cons_of_mem _ hc)
    simp only [cons_append, terminatedLength, if_neg hbel, hescape, false_and, ite_false,
      htail, Option.map_some, length_cons, Option.some.injEq]
    omega

theorem extractAnsiCode_link (terminator : Osc8Terminator) (hparams : IsLinkText params)
    (hurl : IsLinkText url) (rest : JsString) :
    extractAnsiCode (formatOsc8Hyperlink { params, url, terminator } ++ rest) =
      some (formatOsc8Hyperlink { params, url, terminator }) := by
  have hbody : ∀ c ∈ 0x38 :: semicolon :: (params ++ semicolon :: url), c ≠ escape ∧ c ≠ bel := by
    intro c hc
    simp only [mem_cons, mem_append] at hc
    rcases hc with rfl | rfl | hc | rfl | hc
    · decide
    · decide
    · exact ⟨(hparams c hc).1, (hparams c hc).2.1⟩
    · decide
    · exact ⟨(hurl c hc).1, (hurl c hc).2.1⟩
  have hlength := terminatedLength_append hbody terminator rest
  have htext : formatOsc8Hyperlink { params, url, terminator } ++ rest =
      escape :: closingBracket ::
        (0x38 :: semicolon :: (params ++ semicolon :: url) ++ terminator.text ++ rest) := by
    simp [formatOsc8Hyperlink, osc8Start]
  rw [htext, extractAnsiCode, if_neg (by simp), if_neg (by decide), if_pos (.inl rfl), hlength,
    Option.map_some, take_append_of_le_length (by rw [length_append]),
    take_of_length_le (by rw [length_append])]
  simp [formatOsc8Hyperlink, osc8Start]

theorem StyleCode.extract {s : JsString} (h : StyleCode s) (rest : JsString) :
    extractAnsiCode (s ++ rest) = some s := by
  cases h with
  | sgr h => exact extractAnsiCode_sgr h rest
  | link terminator hparams _ hurl => exact extractAnsiCode_link terminator hparams hurl rest

theorem ansiItemsFrom_skip (s rest : JsString) :
    ansiItemsFrom s.length (s ++ rest) = ansiItems rest := by
  induction s with
  | nil => rfl
  | cons c s ih => exact ih

theorem ansiItems_textOf {items : List AnsiItem} (h : Styled items) :
    ansiItems (textOf items) = items := by
  induction items with
  | nil => rfl
  | cons i items ih =>
    have htail := ih fun j hj => h j (mem_cons_of_mem _ hj)
    have hgood := h i mem_cons_self
    cases i with
    | unit c =>
      have hnone : extractAnsiCode (c :: textOf items) = none := by
        generalize textOf items = rest
        cases rest with
        | nil => rfl
        | cons next rest => exact if_pos hgood
      change ansiItemsFrom 0 (c :: textOf items) = _
      rw [ansiItemsFrom, hnone]
      exact congrArg _ htail
    | code s =>
      have hsome := StyleCode.extract hgood (textOf items)
      rw [textOf_cons, AnsiItem.text]
      cases s with
      | nil => cases hgood
      | cons c s =>
        rw [ansiItems, cons_append, ansiItemsFrom, ← cons_append, hsome]
        simp only [length_cons, Nat.add_sub_cancel]
        rw [ansiItemsFrom_skip, htail]

theorem parseOsc8Hyperlink_sgr (params : JsString) :
    parseOsc8Hyperlink (sgr params) = none := by
  refine if_neg ?_
  rintro ⟨rest, hrest⟩
  simp [osc8Start, sgr, bracket, closingBracket] at hrest

theorem parseOsc8Hyperlink_link (terminator : Osc8Terminator) (hsemicolon : semicolon ∉ params) :
    parseOsc8Hyperlink (formatOsc8Hyperlink { params, url, terminator }) =
      some (if url = [] then none else some { params, url, terminator }) := by
  have hstart : osc8Start <+: formatOsc8Hyperlink { params, url, terminator } :=
    ⟨params ++ [semicolon] ++ url ++ terminator.text, by simp [formatOsc8Hyperlink]⟩
  have hlast : (if (formatOsc8Hyperlink { params, url, terminator }).getLast? = some bel then
      Osc8Terminator.bel else .st) = terminator := by
    rw [formatOsc8Hyperlink, getLast?_append]
    cases terminator <;> rfl
  have hbody : ((formatOsc8Hyperlink { params, url, terminator }).drop 4).take
      ((formatOsc8Hyperlink { params, url, terminator }).length - 4 - terminator.text.length) =
        params ++ semicolon :: url := by
    have hdrop : (formatOsc8Hyperlink { params, url, terminator }).drop 4 =
        (params ++ semicolon :: url) ++ terminator.text := by
      simp [formatOsc8Hyperlink, osc8Start]
    have hlength : (formatOsc8Hyperlink { params, url, terminator }).length - 4 -
        terminator.text.length = (params ++ semicolon :: url).length := by
      simp only [formatOsc8Hyperlink, osc8Start, length_append, length_cons, length_nil]
      omega
    rw [hdrop, hlength, take_left']
    rfl
  have htake : (params ++ semicolon :: url).takeWhile (· ≠ semicolon) = params := by
    rw [takeWhile_append_of_pos fun c hc => by
      simpa using fun h : c = semicolon => hsemicolon (h ▸ hc), takeWhile_cons_of_neg (by simp),
      append_nil]
  have hdrop : (params ++ semicolon :: url).drop (params.length + 1) = url := by
    rw [← drop_drop, drop_left]
    rfl
  simp only [parseOsc8Hyperlink, if_pos hstart, hlast, hbody, htake, hdrop,
    if_pos (mem_append_right params (mem_cons_self : semicolon ∈ semicolon :: url))]

theorem sgrParams_sgr (h : ∀ c ∈ params, isParam c = true) :
    sgrParams (sgr params) = some params := by
  have hletter : isParam letterM = false := by decide
  have htake : (params ++ [letterM]).takeWhile isParam = params := by
    rw [takeWhile_append_of_pos h, takeWhile_cons_of_neg (by simp [hletter]), append_nil]
  have hdrop : (params ++ [letterM]).dropWhile isParam = [letterM] := by
    rw [dropWhile_append_of_pos h, dropWhile_cons_of_neg (by simp [hletter])]
  have hat : sgrParamsAt (sgr params) = some params := by
    simp [sgr, sgrParamsAt, htake, hdrop]
  change (sgr params :: _).findSome? sgrParamsAt = _
  rw [findSome?_cons, hat]

namespace AnsiCodeTracker

variable (tracker : AnsiCodeTracker)

theorem process_link (terminator : Osc8Terminator) (hsemicolon : semicolon ∉ params) :
    tracker.process (formatOsc8Hyperlink { params, url, terminator }) =
      { tracker with
        activeHyperlink := if url = [] then none else some { params, url, terminator } } := by
  rw [process, parseOsc8Hyperlink_link terminator hsemicolon]

theorem process_sgr (h : ∀ c ∈ params, isParam c = true) : tracker.process (sgr params) =
      if params = [] then tracker.reset
      else applyParts 0 tracker (params.splitOn semicolon) := by
  have hlast : (sgr params).getLast? = some letterM := by
    rw [sgr, getLast?_append]
    rfl
  have hzero : applyParts 0 tracker ((js "0").splitOn semicolon) = tracker.reset := rfl
  rw [process, parseOsc8Hyperlink_sgr]
  simp only [hlast, ne_eq, not_true_eq_false, ite_false, sgrParams_sgr h]
  by_cases hnil : params = []
  · rw [if_pos hnil, if_pos (.inl hnil)]
  · rw [if_neg hnil]
    by_cases hone : params = js "0"
    · rw [if_pos (.inr hone), hone, hzero]
    · rw [if_neg (by simp [hnil, hone])]

end AnsiCodeTracker

end AcademicAgent.AnsiText
