import AcademicAgent.CodingAgent.Tools.EditDiff
import AcademicAgent.Core.JsMap
import AcademicAgent.Core.Rewriter
import AcademicAgent.Core.Run

/-!
# Pastes in the editor

A large paste is kept aside and a marker with its number is inserted into the text.
-/

namespace AcademicAgent

/-- `\d+` followed by a literal, at the head of a text: its length. -/
def digitsThen (literal s : JsString) : Option Nat :=
  let count := (s.takeWhile isDigit).length
  if 0 < count ∧ literal <+: s.drop count then some (count + literal.length) else none

def markerOpening (pasteId : Nat) : JsString := js "[paste #" ++ decimalText pasteId

/-- The length of a marker of a paste at the head of a text,
`\[paste #${pasteId}( (\+\d+ lines|\d+ chars))?\]`. -/
def matchMarker (pasteId : Nat) (s : JsString) : Option Nat :=
  let opening := markerOpening pasteId
  if opening <+: s then
    let rest := s.drop opening.length
    if js "]" <+: rest then some (opening.length + 1)
    else if js " +" <+: rest then
      (digitsThen (js " lines]") (rest.drop 2)).map fun n => opening.length + 2 + n
    else if js " " <+: rest then
      (digitsThen (js " chars]") (rest.drop 1)).map fun n => opening.length + 1 + n
    else none
  else none

def expandMarker (paste : Nat × JsString) : Rewriter CodeUnit := fun s =>
  (matchMarker paste.1 s).map fun length => (length, paste.2)

/-- A key event `ESC [ code ; 5 u` at the head of a text, as the control character of a
letter; others stay as they are. -/
def decodeControl : Rewriter CodeUnit := fun s =>
  if js "\x1b[" <+: s then
    (digitsThen (js ";5u") (s.drop 2)).map fun length =>
      let cp := digitsValue ((s.drop 2).takeWhile isDigit)
      (length + 2, if 97 ≤ cp ∧ cp ≤ 122 then [UInt16.ofNat (cp - 96)]
        else if 65 ≤ cp ∧ cp ≤ 90 then [UInt16.ofNat (cp - 64)]
        else s.take (length + 2))
  else none

/-- Line endings as line feeds, and tabs as four blanks. -/
def normalizeText (text : JsString) : JsString :=
  (normalizeToLF text).flatMap fun c => if c = 0x09 then js "    " else [c]

/-- `\w`. -/
def isWordUnit (c : CodeUnit) : Bool :=
  isDigit c || (0x41 ≤ c && c ≤ 0x5A) || (0x61 ≤ c && c ≤ 0x7A) || c == 0x5F

/-- The fields of the editor that pastes and submissions use. -/
structure Editor where
  lines : List JsString
  cursorLine : Nat
  cursorCol : Nat
  pastes : JsMap Nat JsString
  pasteCounter : Nat

namespace Editor

def new : Editor where
  lines := [[]]
  cursorLine := 0
  cursorCol := 0
  pastes := .empty
  pasteCounter := 0

section

variable (e : Editor)

def getText : JsString := [lf].intercalate e.lines

/-- `expandPasteMarkers`: one paste after another, in the order of the map. -/
def expandPasteMarkers (text : JsString) : JsString :=
  (e.pastes.entries.map expandMarker).foldl (fun result m => m.replaceAll result) text

def getExpandedText : JsString := e.expandPasteMarkers e.getText

def insertTextAtCursorInternal (text : JsString) : Editor :=
  if text = [] then e
  else
    let normalized := normalizeText text
    let insertedLines := splitLines normalized
    let currentLine := e.lines.getD e.cursorLine []
    let beforeCursor := currentLine.take e.cursorCol
    let afterCursor := currentLine.drop e.cursorCol
    if insertedLines.length = 1 then
      { e with
        lines := e.lines.set e.cursorLine (beforeCursor ++ normalized ++ afterCursor)
        cursorCol := e.cursorCol + normalized.length }
    else
      { e with
        lines := e.lines.take e.cursorLine ++ [beforeCursor ++ insertedLines.head?.getD []] ++
          insertedLines.tail.dropLast ++ [insertedLines.getLast?.getD [] ++ afterCursor] ++
          e.lines.drop (e.cursorLine + 1)
        cursorLine := e.cursorLine + (insertedLines.length - 1)
        cursorCol := (insertedLines.getLast?.getD []).length }

/-- What `handlePaste` makes of a pasted text: control characters decoded, normalized and
without other control characters, with a blank before a path that follows a word. -/
def cleanPaste (pastedText : JsString) : JsString :=
  let cleanText := normalizeText (decodeControl.replaceAll pastedText)
  let filteredText := cleanText.filter fun c => c == lf || decide (32 ≤ c)
  if filteredText.head?.any (fun c => c == 0x2F || c == 0x7E || c == 0x2E) then
    let currentLine := e.lines.getD e.cursorLine []
    let charBeforeCursor := if 0 < e.cursorCol then currentLine[e.cursorCol - 1]? else none
    if charBeforeCursor.any isWordUnit then js " " ++ filteredText else filteredText
  else filteredText

def handlePaste (pastedText : JsString) : Editor :=
  let filteredText := e.cleanPaste pastedText
  let pastedLines := splitLines filteredText
  let totalChars := filteredText.length
  if pastedLines.length > 10 ∨ totalChars > 1000 then
    let pasteId := e.pasteCounter + 1
    let marker :=
      if pastedLines.length > 10 then
        markerOpening pasteId ++ js " +" ++ decimalText pastedLines.length ++ js " lines]"
      else markerOpening pasteId ++ js " " ++ decimalText totalChars ++ js " chars]"
    { e with pastes := e.pastes.set pasteId filteredText, pasteCounter := pasteId }
      |>.insertTextAtCursorInternal marker
  else e.insertTextAtCursorInternal filteredText

/-- `submitValue`: the delivered text, and an editor without text and pastes. -/
def submitValue : JsString × Editor :=
  (trim (e.expandPasteMarkers e.getText), new)

end

end Editor

end AcademicAgent

/-!
# What the editor delivers

The markers of different pastes do not overlap, and what follows one does not matter.
-/

namespace AcademicAgent

open List Option

variable {s : JsString} {pasteId : Nat}

variable {literal : JsString} {c : CodeUnit}

inductive IsMarker (pasteId : Nat) : JsString → Prop where
  | bare : IsMarker pasteId (markerOpening pasteId ++ js "]")
  | lines {digits : JsString} (hne : digits ≠ []) (hdigits : ∀ c ∈ digits, isDigit c = true) :
      IsMarker pasteId (markerOpening pasteId ++ (js " +" ++ (digits ++ js " lines]")))
  | chars {digits : JsString} (hne : digits ≠ []) (hdigits : ∀ c ∈ digits, isDigit c = true) :
      IsMarker pasteId (markerOpening pasteId ++ (js " " ++ (digits ++ js " chars]")))

theorem take_literal (h : literal <+: s) :
    s.take literal.length = literal := (prefix_iff_eq_take.mp h).symm

theorem digitsThen_append {digits : JsString} (hne : digits ≠ [])
    (hdigits : ∀ c ∈ digits, isDigit c = true) {cs : JsString} (hliteral : literal = c :: cs)
    (hc : isDigit c = false) (rest : JsString) :
    digitsThen literal (digits ++ literal ++ rest) = some (digits.length + literal.length) := by
  have htake : (digits ++ literal ++ rest).takeWhile isDigit = digits := by
    rw [append_assoc, takeWhile_append_of_pos hdigits, hliteral, cons_append,
      takeWhile_cons_of_neg (by simp [hc]), append_nil]
  have hpos := length_pos_iff.mpr hne
  have hrest : literal <+: (digits ++ literal ++ rest).drop digits.length := by
    rw [append_assoc, drop_left]
    exact prefix_append _ _
  simp only [digitsThen, htake, hpos, hrest, and_self, ite_true]

theorem digitsThen_eq_some {n : Nat} (h : digitsThen literal s = some n) :
    ∃ digits, digits ≠ [] ∧ (∀ c ∈ digits, isDigit c = true) ∧ digits ++ literal <+: s ∧
      n = (digits ++ literal).length := by
  simp only [digitsThen] at h
  split_ifs at h with hfound
  cases h
  refine ⟨s.takeWhile isDigit, ne_nil_of_length_pos hfound.1,
    fun c hc => mem_takeWhile_imp hc, ?_, by rw [length_append]⟩
  obtain ⟨rest, hrest⟩ := hfound.2
  refine ⟨rest, ?_⟩
  have hsplit : s.takeWhile isDigit = s.take (s.takeWhile isDigit).length :=
    prefix_iff_eq_take.mp ( takeWhile_prefix _)
  rw [append_assoc, hrest]
  nth_rewrite 1 [hsplit]
  exact take_append_drop _ _

theorem matchMarker_eq_some {n : Nat} (h : matchMarker pasteId s = some n) :
    ∃ marker, IsMarker pasteId marker ∧ marker <+: s ∧ n = marker.length := by
  simp only [matchMarker] at h
  split_ifs at h with hopening hbare hlines hchars
  · cases h
    obtain ⟨rest, rfl⟩ := hopening
    rw [drop_left] at hbare
    exact ⟨_, .bare, (prefix_append_right_inj _).mpr hbare, by rw [length_append]; rfl⟩
  · obtain ⟨rest, rfl⟩ := hopening
    rw [drop_left] at hlines h
    obtain ⟨rest, rfl⟩ := hlines
    obtain ⟨m, hm, rfl⟩ := map_eq_some_iff.mp h
    obtain ⟨digits, hne, hdigits, hprefix, rfl⟩ := digitsThen_eq_some hm
    refine ⟨_, .lines hne hdigits, ?_, ?_⟩
    · exact (prefix_append_right_inj _).mpr ((prefix_append_right_inj _).mpr hprefix)
    · have hplus : (js " +").length = 2 := by decide
      simp only [length_append, hplus]
      omega
  · obtain ⟨rest, rfl⟩ := hopening
    rw [drop_left] at hchars h
    obtain ⟨rest, rfl⟩ := hchars
    obtain ⟨m, hm, rfl⟩ := map_eq_some_iff.mp h
    obtain ⟨digits, hne, hdigits, hprefix, rfl⟩ := digitsThen_eq_some hm
    refine ⟨_, .chars hne hdigits, ?_, ?_⟩
    · exact (prefix_append_right_inj _).mpr ((prefix_append_right_inj _).mpr hprefix)
    · have hblank : (js " ").length = 1 := by decide
      simp only [length_append, hblank]
      omega

theorem not_prefix_of_head {d : CodeUnit} {cs ds : JsString} (h : c ≠ d) :
    ¬ (c :: cs) <+: (d :: ds) := fun hprefix => h (cons_prefix_cons.mp hprefix).1

theorem matchMarker_append {marker : JsString} (h : IsMarker pasteId marker) (rest : JsString) :
    matchMarker pasteId (marker ++ rest) = some marker.length := by
  have hclose : js "]" = [0x5D] := by decide
  have hplus : js " +" = [0x20, 0x2B] := by decide
  have hblank : js " " = [0x20] := by decide
  cases h with
  | bare =>
    have hopening : markerOpening pasteId <+: markerOpening pasteId ++ js "]" ++ rest := by
      rw [append_assoc]
      exact prefix_append _ _
    have hdrop : (markerOpening pasteId ++ js "]" ++ rest).drop (markerOpening pasteId).length =
        js "]" ++ rest := by rw [append_assoc, drop_left]
    simp only [matchMarker, hopening, hdrop, prefix_append, ite_true]
    rw [length_append]
    rfl
  | @lines digits hne hdigits =>
    have hopening : markerOpening pasteId <+:
        markerOpening pasteId ++ (js " +" ++ (digits ++ js " lines]")) ++ rest := by
      rw [append_assoc]
      exact prefix_append _ _
    have hdrop : (markerOpening pasteId ++ (js " +" ++ (digits ++ js " lines]")) ++ rest).drop
        (markerOpening pasteId).length = 0x20 :: 0x2B :: (digits ++ js " lines]" ++ rest) := by
      rw [append_assoc, drop_left, hplus]
      rfl
    have hfound := digitsThen_append hne hdigits (show js " lines]" = 0x20 :: js "lines]" by decide)
      (by decide) rest
    have hbare : ¬ [0x5D] <+: 0x20 :: 0x2B :: (digits ++ js " lines]" ++ rest) :=
      not_prefix_of_head (by decide)
    have hlines : [0x20, 0x2B] <+: 0x20 :: 0x2B :: (digits ++ js " lines]" ++ rest) :=
      prefix_append [0x20, 0x2B] _
    simp only [matchMarker, hopening, hdrop, ite_true]
    simp only [hclose, hplus, hbare, hlines, ite_true, ite_false, drop_succ_cons,
      drop_zero, hfound, map_some, length_append, length_cons,
      length_nil]
    congr 1
    omega
  | @chars digits hne hdigits =>
    have hopening : markerOpening pasteId <+:
        markerOpening pasteId ++ (js " " ++ (digits ++ js " chars]")) ++ rest := by
      rw [append_assoc]
      exact prefix_append _ _
    have hdrop : (markerOpening pasteId ++ (js " " ++ (digits ++ js " chars]")) ++ rest).drop
        (markerOpening pasteId).length = 0x20 :: (digits ++ js " chars]" ++ rest) := by
      rw [append_assoc, drop_left, hblank]
      rfl
    have hfound := digitsThen_append hne hdigits (show js " chars]" = 0x20 :: js "chars]" by decide)
      (by decide) rest
    have hbare : ¬ [0x5D] <+: 0x20 :: (digits ++ js " chars]" ++ rest) :=
      not_prefix_of_head (by decide)
    have hlines : ¬ [0x20, 0x2B] <+: 0x20 :: (digits ++ js " chars]" ++ rest) := by
      obtain ⟨c, cs, rfl⟩ := exists_cons_of_ne_nil hne
      intro hprefix
      have hc : (0x2B : CodeUnit) = c :=
        (cons_prefix_cons.mp (cons_prefix_cons.mp hprefix).2).1
      have hdigit := hdigits c mem_cons_self
      rw [← hc] at hdigit
      exact absurd hdigit (by decide)
    have hchars : [0x20] <+: 0x20 :: (digits ++ js " chars]" ++ rest) :=
      prefix_append [0x20] _
    simp only [matchMarker, hopening, hdrop, ite_true]
    simp only [hclose, hplus, hblank, hbare, hlines, hchars, ite_true, ite_false,
      drop_succ_cons, drop_zero, hfound, map_some, length_append,
      length_cons, length_nil]
    congr 1
    omega

theorem IsMarker.bracket {marker : JsString} (h : IsMarker pasteId marker) :
    ∃ rest, marker = 0x5B :: rest ∧ (0x5B : CodeUnit) ∉ rest := by
  have hopening : markerOpening pasteId = 0x5B :: (js "paste #" ++ decimalText pasteId) := by
    rw [markerOpening, show js "[paste #" = 0x5B :: js "paste #" by decide]
    rfl
  have hdigit : ∀ {digits : JsString}, (∀ c ∈ digits, isDigit c = true) →
      (0x5B : CodeUnit) ∉ digits := fun hdigits hmem => absurd (hdigits _ hmem) (by decide)
  have hname : (0x5B : CodeUnit) ∉ js "paste #" ++ decimalText pasteId :=
    not_mem_append (by decide) (hdigit isDigit_of_mem_decimalText)
  cases h with
  | bare =>
    exact ⟨_, by rw [hopening, cons_append], not_mem_append hname (by decide)⟩
  | lines hne hdigits | chars hne hdigits =>
    refine ⟨_, by rw [hopening, cons_append], not_mem_append hname ?_⟩
    exact not_mem_append (by decide) (not_mem_append (hdigit hdigits) (by decide))

theorem matchMarker_of_head (hc : c ≠ 0x5B) : matchMarker pasteId (c :: s) = none := by
  cases h : matchMarker pasteId (c :: s) with
  | none => rfl
  | some n =>
    obtain ⟨marker, hmarker, hprefix, -⟩ := matchMarker_eq_some h
    obtain ⟨rest, rfl, -⟩ := hmarker.bracket
    exact absurd (cons_prefix_cons.mp hprefix).1.symm hc

section Expand

variable {paste paste' : Nat × JsString}

theorem expandMarker_eq_some {content : JsString} {length : Nat}
    (h : expandMarker paste s = some (length, content)) :
    content = paste.2 ∧ ∃ marker, IsMarker paste.1 marker ∧ marker <+: s ∧
      length = marker.length := by
  obtain ⟨n, hn, hpair⟩ := map_eq_some_iff.mp h
  obtain ⟨rfl, rfl⟩ := Prod.mk.inj hpair
  exact ⟨rfl, matchMarker_eq_some hn⟩

theorem expandMarker_proper (hne : paste.2 ≠ []) : (expandMarker paste).Proper := by
  intro s length content h
  obtain ⟨rfl, marker, hmarker, hprefix, rfl⟩ := expandMarker_eq_some h
  obtain ⟨rest, rfl, -⟩ := hmarker.bracket
  exact ⟨Nat.succ_pos _, hprefix.length_le, hne⟩

theorem expandMarker_local : (expandMarker paste).Local := by
  intro s length content h t ht
  obtain ⟨rfl, marker, hmarker, hprefix, rfl⟩ := expandMarker_eq_some h
  rw [take_literal hprefix] at ht
  have hsplit : t = marker ++ t.drop marker.length := by
    nth_rewrite 1 [← ht]
    exact (take_append_drop _ _).symm
  rw [hsplit, expandMarker, matchMarker_append hmarker]
  rfl

theorem expandMarker_apart : (expandMarker paste).Apart (expandMarker paste') := by
  intro s length content h i hpos hi
  obtain ⟨-, marker, hmarker, ⟨rest, rfl⟩, rfl⟩ := expandMarker_eq_some h
  obtain ⟨body, rfl, hbody⟩ := hmarker.bracket
  obtain ⟨j, rfl⟩ : ∃ j, i = j + 1 := ⟨i - 1, by omega⟩
  rw [length_cons] at hi
  have hj : j < body.length := by omega
  rw [cons_append, drop_succ_cons, drop_append_of_le_length hj.le,
    drop_eq_getElem_cons hj, cons_append, expandMarker, matchMarker_of_head]
  · rfl
  · intro hbracket
    exact hbody (hbracket ▸ getElem_mem hj)

end Expand

namespace Editor

/-- What happens in the editor: a paste, any other operation on the text and the cursor,
and a submission. -/
inductive Event where
  | paste (text : JsString)
  | edit (lines : List JsString) (cursorLine cursorCol : Nat)
  | submit
  deriving DecidableEq

def step (e : Editor) : Event → Option Editor
  | .paste text => some (e.handlePaste text)
  | .edit lines cursorLine cursorCol => some { e with lines, cursorLine, cursorCol }
  | .submit => some e.submitValue.2

/-- The text in which every marker of a paste is replaced, all of them at once. -/
def expandAtOnce (e : Editor) (text : JsString) : JsString :=
  (Rewriter.atOnce (e.pastes.entries.map expandMarker)).replaceAll text

/-- While the pastes are expanded, no marker contains a character of an expanded paste. -/
def MarkersDisplayed (e : Editor) (text : JsString) : Prop :=
  Rewriter.Undisturbed (e.pastes.entries.map expandMarker) (Rewriter.plain text)

instance decidableMarkersDisplayed (e : Editor) (text : JsString) :
    Decidable (e.MarkersDisplayed text) :=
  inferInstanceAs (Decidable (Rewriter.Undisturbed _ _))

def PastesFilled (e : Editor) : Prop := ∀ paste ∈ e.pastes.entries, paste.2 ≠ []

theorem insertTextAtCursorInternal_pastes (e : Editor) (text : JsString) :
    (e.insertTextAtCursorInternal text).pastes = e.pastes := by
  simp only [insertTextAtCursorInternal]
  split_ifs <;> rfl

theorem pastesFilled_handlePaste {e : Editor} (he : e.PastesFilled) (text : JsString) :
    (e.handlePaste text).PastesFilled := by
  by_cases hlarge : (splitLines (e.cleanPaste text)).length > 10 ∨ (e.cleanPaste text).length > 1000
  · intro paste hpaste
    simp only [handlePaste, hlarge, ite_true] at hpaste
    rw [insertTextAtCursorInternal_pastes] at hpaste
    rcases mem_assocSet hpaste with rfl | hmem
    · intro hnil
      simp only at hnil
      rw [hnil] at hlarge
      exact absurd hlarge (by decide)
    · exact he paste hmem
  · intro paste hpaste
    simp only [handlePaste, hlarge, ite_false] at hpaste
    rw [insertTextAtCursorInternal_pastes] at hpaste
    exact he paste hpaste

theorem pastesFilled_step {e e' : Editor} {event : Event} (he : e.PastesFilled)
    (h : step e event = some e') : e'.PastesFilled := by
  cases event with
  | paste text =>
    cases h
    exact pastesFilled_handlePaste he text
  | edit lines cursorLine cursorCol =>
    cases h
    exact he
  | submit =>
    cases h
    exact fun paste hpaste => by cases hpaste

theorem expandPasteMarkers_eq {e : Editor} (he : e.PastesFilled) {text : JsString}
    (h : e.MarkersDisplayed text) : e.expandPasteMarkers text = e.expandAtOnce text := by
  refine Rewriter.foldl_replaceAll (fun m hm => ?_) (fun m hm => ?_) (fun m hm m' hm' => ?_) text h
  · obtain ⟨paste, hpaste, rfl⟩ := mem_map.mp hm
    exact expandMarker_proper (he paste hpaste)
  · obtain ⟨paste, -, rfl⟩ := mem_map.mp hm
    exact expandMarker_local
  · obtain ⟨paste, -, rfl⟩ := mem_map.mp hm
    obtain ⟨paste', -, rfl⟩ := mem_map.mp hm'
    exact expandMarker_apart

/-- In every editor that any run reaches, the full text and the submitted one are the
displayed text with the markers of the pastes replaced at once, the latter trimmed. -/
theorem delivered_verbatim (events : List Event) (e : Editor)
    (hr : run step new events = some e) (h : e.MarkersDisplayed e.getText) :
    e.getExpandedText = e.expandAtOnce e.getText ∧
      e.submitValue.1 = trim (e.expandAtOnce e.getText) := by
  have hfilled : e.PastesFilled :=
    Reachable.invariant (fun _ _ _ hs hstep => pastesFilled_step hs hstep)
      (fun paste hpaste => by cases hpaste) ⟨events, hr⟩
  have hexpanded := expandPasteMarkers_eq hfilled h
  exact ⟨hexpanded, congrArg trim hexpanded⟩

/-- A text of eleven lines, which is kept aside when it is pasted. -/
def elevenLines (first : String) : JsString := js first ++ List.replicate 10 lf

/-- Two large pastes behind a text with the marker of no paste, the first pasted with a marker
of itself, and a short paste. -/
theorem delivered_verbatim_two :
    ∃ e, run step new [.edit [js "see [paste #9] "] 0 15, .paste (elevenLines "[paste #1]"),
        .paste (elevenLines "b"), .paste (js "c")] = some e ∧
      e.getExpandedText = e.expandAtOnce e.getText ∧
        e.submitValue.1 = trim (e.expandAtOnce e.getText) :=
  ⟨_, rfl, delivered_verbatim [.edit [js "see [paste #9] "] 0 15, .paste (elevenLines "[paste #1]"),
    .paste (elevenLines "b"), .paste (js "c")] _ rfl (by decide)⟩

/-- The first of two pastes has the marker of the second, which is expanded in it as well;
and a submitted text is trimmed. -/
theorem not_delivered_verbatim :
    (∃ e, run step new [.paste (elevenLines "[paste #2]"), .paste (elevenLines "b")] = some e ∧
      e.getText = js "[paste #1 +11 lines][paste #2 +11 lines]" ∧
        e.getExpandedText ≠ elevenLines "[paste #2]" ++ elevenLines "b") ∧
      ∃ e, run step new [.edit [js " a"] 0 2] = some e ∧ e.getText = js " a" ∧
        e.submitValue.1 ≠ js " a" :=
  ⟨⟨_, rfl, by decide, by decide⟩, _, rfl, by decide, by decide⟩

end Editor

end AcademicAgent
