import AcademicAgent.Tui.AnsiCodes

/-!
# Terminal output as HTML

`ansiToHtml` escapes the text of exported tool output and puts what a colour or an attribute
applies to into `span` elements.
-/

namespace AcademicAgent

open List

namespace AnsiHtml

open AnsiText (sgrParamsAt semicolon)

/-- A non-negative integer among the doubles; none is `Infinity`. -/
abbrev Double := Option Nat

/-- The nearest double, to even at halves. -/
def toDouble (n : Nat) : Double :=
  let unit := 2 ^ (n.log2 - 52)
  let q := n / unit
  let q := if unit < 2 * (n % unit) ∨ unit = 2 * (n % unit) ∧ q % 2 = 1 then q + 1 else q
  if q * unit < 2 ^ 1024 then some (q * unit) else none

/-- The multiple of `10 ^ p` next to a double that reads as it. -/
def shortAt (n p : Nat) : Option Nat :=
  let q := n / 10 ^ p
  (if 2 * (n % 10 ^ p) ≤ 10 ^ p then [q, q + 1] else [q + 1, q]).find? fun s =>
    toDouble (s * 10 ^ p) = some n

/-- The fewest digits that read as a double, with the zeros after them. -/
def shortest (n : Nat) : Nat → Nat × Nat
  | 0 => (n, 0)
  | p + 1 => match shortAt n (p + 1) with
    | some s => (s, p + 1)
    | none => shortest n p

/-- `String(n)`. -/
def numberText : Double → JsString
  | none => js "Infinity"
  | some n =>
    let (s, p) := shortest n (decimalText n).length
    (Decimal.make false s p).toString

/-- `n.toString(16).padStart(2, "0")`. -/
def toHex : Double → JsString
  | none => js "Infinity"
  | some n =>
    let digits := (Nat.toDigits 16 n).map fun c => UInt16.ofNat c.toNat
    replicate (2 - digits.length) 0x30 ++ digits

/-- No quote and no angle bracket. -/
def isInert (c : CodeUnit) : Bool := c ≠ 0x22 && c ≠ 0x3C && c ≠ 0x3E

abbrev Inert (s : JsString) : Prop := ∀ c ∈ s, isInert c = true

theorem inert_of_all {s : JsString} (h : s.all isInert = true) : Inert s := all_eq_true.mp h

theorem Inert.append {s t : JsString} (hs : Inert s) (ht : Inert t) : Inert (s ++ t) :=
  fun c hc => (mem_append.mp hc).elim (hs c) (ht c)

theorem isInert_of_isDigit {c : CodeUnit} (h : isDigit c = true) : isInert c = true := by
  simp only [isInert, Bool.and_eq_true, decide_eq_true_eq]
  refine ⟨⟨?_, ?_⟩, ?_⟩ <;> (rintro rfl; exact absurd h (by decide))

theorem inert_numberText (n : Double) : Inert (numberText n) := by
  cases n with
  | none => exact inert_of_all rfl
  | some n =>
    intro c hc
    rcases Decimal.mem_toString hc with hdigit | hsign
    · exact isInert_of_isDigit hdigit
    · exact inert_of_all (s := js "-+.e") rfl c hsign

theorem isInert_toDigits (n : Nat) :
    ∀ d ∈ Nat.toDigits 16 n, isInert (UInt16.ofNat d.toNat) = true := by
  have hdigit : ∀ d < 16, isInert (UInt16.ofNat d.digitChar.toNat) = true := by decide
  induction n using Nat.strongRecOn with
  | ind n ih =>
    by_cases hlt : n < 16
    · rw [Nat.toDigits_of_lt_base hlt]
      exact forall_mem_singleton.mpr (hdigit n hlt)
    · rw [Nat.toDigits_of_base_le (by decide) (Nat.not_lt.mp hlt)]
      exact forall_mem_append.mpr
        ⟨ih _ (by omega), forall_mem_singleton.mpr (hdigit _ (Nat.mod_lt _ (by decide)))⟩

theorem inert_toHex (n : Double) : Inert (toHex n) := by
  cases n with
  | none => exact inert_of_all rfl
  | some n =>
    refine forall_mem_append.mpr ⟨fun c hc => by rw [eq_of_mem_replicate hc]; rfl, ?_⟩
    exact forall_mem_map.mpr (isInert_toDigits n)

/-- The value of a colour property, which can stand in an attribute. -/
abbrev Color := { s : JsString // Inert s }

def ANSI_COLORS : List JsString :=
  ["#000000", "#800000", "#008000", "#808000", "#000080", "#800080", "#008080", "#c0c0c0",
    "#808080", "#ff0000", "#00ff00", "#ffff00", "#0000ff", "#ff00ff", "#00ffff", "#ffffff"].map js

theorem inert_ansiColors (index : Nat) : Inert (ANSI_COLORS.getD index []) := by
  have hall : ∀ color ∈ ANSI_COLORS, color.all isInert = true := by decide
  rw [getD_eq_getElem?_getD]
  cases hcolor : ANSI_COLORS[index]? with
  | none => exact fun c hc => absurd hc not_mem_nil
  | some color => exact inert_of_all <| hall color (mem_of_getElem? hcolor)

/-- `ANSI_COLORS[index]`. -/
def ansiColor (index : Nat) : Color := ⟨ANSI_COLORS.getD index [], inert_ansiColors index⟩

def toComponent (n : Nat) : Nat := if n = 0 then 0 else 55 + n * 40

def hexColor (r g b : Double) : Color :=
  ⟨js "#" ++ toHex r ++ toHex g ++ toHex b,
    (((inert_of_all (s := js "#") rfl).append (inert_toHex r)).append (inert_toHex g)).append
      (inert_toHex b)⟩

def color256ToHex : Double → Color
  | some index =>
    if index < 16 then ansiColor index
    else if index < 232 then
      let cubeIndex := index - 16
      hexColor (some (toComponent (cubeIndex / 36))) (some (toComponent (cubeIndex % 36 / 6)))
        (some (toComponent (cubeIndex % 6)))
    else
      let gray := do toDouble (8 + (← toDouble ((← toDouble (index - 232)) * 10)))
      hexColor gray gray gray
  | none => hexColor none none none

theorem inert_rgb (r g b : Double) :
    Inert (js "rgb(" ++ numberText r ++ js "," ++ numberText g ++ js "," ++ numberText b ++
      js ")") := by
  have hcomma : Inert (js ",") := inert_of_all rfl
  have hred := (inert_of_all (s := js "rgb(") rfl).append (inert_numberText r)
  have hgreen := (hred.append hcomma).append (inert_numberText g)
  exact ((hgreen.append hcomma).append (inert_numberText b)).append (inert_of_all rfl)

def rgb (r g b : Double) : Color := ⟨_, inert_rgb r g b⟩

def replaceAll (c : CodeUnit) (entity : String) (text : JsString) : JsString :=
  text.flatMap fun u => if u = c then js entity else [u]

def escapeHtml (text : JsString) : JsString :=
  replaceAll 0x27 "&#039;" <| replaceAll 0x22 "&quot;" <| replaceAll 0x3E "&gt;" <|
    replaceAll 0x3C "&lt;" <| replaceAll 0x26 "&amp;" text

structure TextStyle where
  fg : Option Color := none
  bg : Option Color := none
  bold : Bool := false
  dim : Bool := false
  italic : Bool := false
  underline : Bool := false
  deriving DecidableEq

/-- A part that is there when a colour is, and is not empty. -/
def colorPart (property : String) (color : Option Color) : List JsString :=
  match color with
  | some color => if color.val = [] then [] else [js property ++ color.val]
  | none => []

def styleToInlineCSS (style : TextStyle) : JsString :=
  (js ";").intercalate (colorPart "color:" style.fg ++ colorPart "background-color:" style.bg ++
    (if style.bold then [js "font-weight:bold"] else []) ++
    (if style.dim then [js "opacity:0.6"] else []) ++
    (if style.italic then [js "font-style:italic"] else []) ++
    if style.underline then [js "text-decoration:underline"] else [])

def hasStyle (style : TextStyle) : Bool :=
  style.fg.isSome || style.bg.isSome || style.bold || style.dim || style.italic || style.underline

/-- The colour in the parameters after 38 or 48, and their number. -/
def extendedColor (rest : List Double) : Option (Color × Nat) :=
  if rest.head? = some (some 5) ∧ 1 < rest.length then
    some (color256ToHex (rest.getD 1 none), 2)
  else if rest.head? = some (some 2) ∧ 3 < rest.length then
    some (rgb (rest.getD 1 none) (rest.getD 2 none) (rest.getD 3 none), 4)
  else none

/-- A code with no parameters of its own. -/
def applyCode (code : Nat) (style : TextStyle) : TextStyle :=
  if code = 0 then {}
  else if code = 1 then { style with bold := true }
  else if code = 2 then { style with dim := true }
  else if code = 3 then { style with italic := true }
  else if code = 4 then { style with underline := true }
  else if code = 22 then { style with bold := false, dim := false }
  else if code = 23 then { style with italic := false }
  else if code = 24 then { style with underline := false }
  else if 30 ≤ code ∧ code ≤ 37 then { style with fg := some (ansiColor (code - 30)) }
  else if code = 39 then { style with fg := none }
  else if 40 ≤ code ∧ code ≤ 47 then { style with bg := some (ansiColor (code - 40)) }
  else if code = 49 then { style with bg := none }
  else if 90 ≤ code ∧ code ≤ 97 then
    { style with fg := some (ansiColor (code - 90 + 8)) }
  else if 100 ≤ code ∧ code ≤ 107 then
    { style with bg := some (ansiColor (code - 100 + 8)) }
  else style

/-- The loop over the parameters; `skip` are those of a colour already applied. -/
def applySgrCode : Nat → List Double → TextStyle → TextStyle
  | _, [], style => style
  | skip + 1, _ :: rest, style => applySgrCode skip rest style
  | 0, none :: rest, style => applySgrCode 0 rest style
  | 0, some code :: rest, style =>
    if code = 38 then
      match extendedColor rest with
      | some (color, length) => applySgrCode length rest { style with fg := some color }
      | none => applySgrCode 0 rest style
    else if code = 48 then
      match extendedColor rest with
      | some (color, length) => applySgrCode length rest { style with bg := some color }
      | none => applySgrCode 0 rest style
    else applySgrCode 0 rest (applyCode code style)

/-- `paramStr.split(";").map((p) => parseInt(p, 10) || 0)`. -/
def sgrCodes (paramStr : JsString) : List Double :=
  if paramStr = [] then [some 0]
  else (paramStr.splitOn semicolon).map fun p => toDouble (digitsValue p)

/-- `ANSI_REGEX.exec`: the text before the next sequence, its parameters and the text after it. -/
def exec : JsString → Option (JsString × JsString × JsString)
  | [] => none
  | c :: rest =>
    match sgrParamsAt (c :: rest) with
    | some paramStr => some ([], paramStr, rest.drop (paramStr.length + 2))
    | none => (exec rest).map fun m => (c :: m.1, m.2)

/-- The variables of the loop of `ansiToHtml`. -/
structure HtmlState where
  style : TextStyle := {}
  result : JsString := []
  inSpan : Bool := false

def openSpan (css : JsString) : JsString := js "<span style=\"" ++ css ++ js "\">"

def HtmlState.text (s : HtmlState) (text : JsString) : HtmlState :=
  { s with result := s.result ++ escapeHtml text }

def HtmlState.close (s : HtmlState) : HtmlState :=
  if s.inSpan then { s with result := s.result ++ js "</span>", inSpan := false } else s

/-- A sequence: the span is closed, the codes are applied and a span is opened for the style. -/
def HtmlState.sgr (s : HtmlState) (paramStr : JsString) : HtmlState :=
  let s := s.close
  let style := applySgrCode 0 (sgrCodes paramStr) s.style
  if hasStyle style then
    { style, result := s.result ++ openSpan (styleToInlineCSS style), inSpan := true }
  else { s with style }

/-- The loop over the sequences; `fuel` bounds their number. -/
def htmlLoop : Nat → HtmlState → JsString → HtmlState
  | 0, s, _ => s
  | fuel + 1, s, text =>
    match exec text with
    | none => (s.text text).close
    | some (beforeText, paramStr, rest) => htmlLoop fuel ((s.text beforeText).sgr paramStr) rest

def ansiToHtml (text : JsString) : JsString := (htmlLoop (text.length + 1) {} text).result

/-- A code of a sequence; the parameters of a complete colour belong to its code. -/
inductive SgrOp where
  | code (n : Nat)
  | foreground (color : Color)
  | background (color : Color)

def sgrOps : List Double → List SgrOp
  | some 38 :: some 5 :: index :: rest => .foreground (color256ToHex index) :: sgrOps rest
  | some 38 :: some 2 :: r :: g :: b :: rest => .foreground (rgb r g b) :: sgrOps rest
  | some 48 :: some 5 :: index :: rest => .background (color256ToHex index) :: sgrOps rest
  | some 48 :: some 2 :: r :: g :: b :: rest => .background (rgb r g b) :: sgrOps rest
  | some code :: rest => .code code :: sgrOps rest
  | none :: rest => sgrOps rest
  | [] => []

def SgrOp.apply (style : TextStyle) : SgrOp → TextStyle
  | .code n => applyCode n style
  | .foreground color => { style with fg := some color }
  | .background color => { style with bg := some color }

/-- The characters and the sequences of a text, in order. -/
def sgrItems : Nat → JsString → List (CodeUnit ⊕ JsString)
  | _, [] => []
  | skip + 1, _ :: rest => sgrItems skip rest
  | 0, c :: rest =>
    match sgrParamsAt (c :: rest) with
    | some paramStr => .inr paramStr :: sgrItems (paramStr.length + 2) rest
    | none => .inl c :: sgrItems 0 rest

/-- The text without its sequences. -/
def stripSgr (text : JsString) : JsString := (sgrItems 0 text).filterMap Sum.getLeft?

/-- The style attribute that a state asks for. -/
def shown (style : TextStyle) : Option JsString :=
  if hasStyle style then some (styleToInlineCSS style) else none

/-- Every character with the style of the state that the sequences before it lead to. -/
def shownItems : TextStyle → List (CodeUnit ⊕ JsString) → List (CodeUnit × Option JsString)
  | _, [] => []
  | style, .inl c :: items => (c, shown style) :: shownItems style items
  | style, .inr paramStr :: items =>
    shownItems ((sgrOps (sgrCodes paramStr)).foldl SgrOp.apply style) items

/-- Escaped text, or one element with escaped text in it. -/
inductive Piece where
  | text (content : JsString)
  | span (css content : JsString)

def Piece.html : Piece → JsString
  | .text content => escapeHtml content
  | .span css content => openSpan css ++ escapeHtml content ++ js "</span>"

/-- The characters of a piece, with the style attribute of the element around them. -/
def Piece.chars : Piece → List (CodeUnit × Option JsString)
  | .text content => content.map (·, none)
  | .span css content => content.map (·, some css)

def Piece.Safe : Piece → Prop
  | .text _ => True
  | .span css _ => Inert css

/-- The text without what is between angle brackets. -/
def deleteTags : Bool → JsString → JsString
  | _, [] => []
  | true, c :: rest => deleteTags (decide (c ≠ 0x3E)) rest
  | false, c :: rest => if c = 0x3C then deleteTags true rest else c :: deleteTags false rest

def entities : List (CodeUnit × JsString) :=
  [(0x26, js "&amp;"), (0x3C, js "&lt;"), (0x3E, js "&gt;"), (0x22, js "&quot;"),
    (0x27, js "&#039;")]

/-- The text with every entity read as its character. -/
def unescapeHtml : Nat → JsString → JsString
  | _, [] => []
  | skip + 1, _ :: rest => unescapeHtml skip rest
  | 0, c :: rest =>
    match entities.find? fun e => e.2.isPrefixOf (c :: rest) with
    | some e => e.1 :: unescapeHtml (e.2.length - 1) rest
    | none => c :: unescapeHtml 0 rest

section Escaping

theorem replaceAll_append (c : CodeUnit) (entity : String) (s t : JsString) :
    replaceAll c entity (s ++ t) = replaceAll c entity s ++ replaceAll c entity t :=
  flatMap_append

theorem escapeHtml_append (s t : JsString) : escapeHtml (s ++ t) = escapeHtml s ++ escapeHtml t := by
  simp only [escapeHtml, replaceAll_append]

/-- An escaped character is the character itself or its entity. -/
theorem escapeHtml_singleton (c : CodeUnit) :
    (∃ entity, (c, entity) ∈ entities ∧ escapeHtml [c] = entity) ∨
      escapeHtml [c] = [c] ∧ ∀ e ∈ entities, c ≠ e.1 := by
  by_cases hc : ∃ e ∈ entities, c = e.1
  · obtain ⟨⟨d, entity⟩, he, hd⟩ := hc
    obtain rfl : c = d := hd
    refine .inl ⟨entity, he, ?_⟩
    have hall : ∀ e ∈ entities, escapeHtml [e.1] = e.2 := by decide +kernel
    exact hall (c, entity) he
  · refine .inr ⟨?_, fun e he h => hc ⟨e, he, h⟩⟩
    have hne : ∀ e ∈ entities, c ≠ e.1 := fun e he h => hc ⟨e, he, h⟩
    simp only [entities, forall_mem_cons] at hne
    simp [escapeHtml, replaceAll, hne]

theorem inert_escapeHtml (text : JsString) : Inert (escapeHtml text) := by
  induction text with
  | nil => exact fun c hc => absurd hc not_mem_nil
  | cons u text ih =>
    intro c hc
    rw [← singleton_append, escapeHtml_append, mem_append] at hc
    refine hc.elim (fun hc => ?_) (ih c)
    rcases escapeHtml_singleton u with ⟨entity, he, heq⟩ | ⟨heq, hne⟩
    · have hall : ∀ e ∈ entities, e.2.all isInert = true := by decide
      exact inert_of_all (hall (u, entity) he) c (heq ▸ hc)
    · rw [heq, mem_singleton] at hc
      simp only [entities, forall_mem_cons] at hne
      simp [isInert, hc, hne]

theorem unescapeHtml_escapeHtml (text : JsString) : unescapeHtml 0 (escapeHtml text) = text := by
  induction text with
  | nil => rfl
  | cons c text ih =>
    rw [← singleton_append, escapeHtml_append]
    rcases escapeHtml_singleton c with ⟨entity, he, heq⟩ | ⟨heq, hne⟩
    · have hread : ∀ e ∈ entities, ∀ rest,
          unescapeHtml 0 (e.2 ++ rest) = e.1 :: unescapeHtml 0 rest := by
        simp only [entities, forall_mem_cons]
        exact ⟨fun _ => rfl, fun _ => rfl, fun _ => rfl, fun _ => rfl, fun _ => rfl, by simp⟩
      rw [heq, hread (c, entity) he, ih]
      rfl
    · have hnone : (entities.find? fun e => e.2.isPrefixOf (c :: escapeHtml text)) = none := by
        have hhead : ∀ e ∈ entities, e.2.head? = some 0x26 := by decide +kernel
        have hamp : c ≠ 0x26 := hne (0x26, js "&amp;") mem_cons_self
        refine find?_eq_none.mpr fun e he hprefix => ?_
        obtain ⟨t, ht⟩ := isPrefixOf_iff_prefix.mp hprefix
        have hstart := congrArg head? ht
        rw [head?_append, hhead e he, head?_cons, Option.some_or, Option.some.injEq] at hstart
        exact hamp hstart.symm
      rw [heq, singleton_append, unescapeHtml, hnone]
      rw [ih]
      rfl

theorem deleteTags_text {s : JsString} (h : Inert s) (rest : JsString) :
    deleteTags false (s ++ rest) = s ++ deleteTags false rest := by
  induction s with
  | nil => rfl
  | cons c s ih =>
    obtain ⟨hc, hs⟩ := forall_mem_cons.mp h
    have hne : c ≠ 0x3C := by
      rintro rfl
      exact absurd hc (by decide)
    rw [cons_append, deleteTags, if_neg hne, ih hs, cons_append]

theorem deleteTags_inside {s : JsString} (h : ∀ c ∈ s, c ≠ 0x3E) (rest : JsString) :
    deleteTags true (s ++ 0x3E :: rest) = deleteTags false rest := by
  induction s with
  | nil => rfl
  | cons c s ih =>
    rw [forall_mem_cons] at h
    rw [cons_append, deleteTags, decide_eq_true h.1, ih h.2]

theorem deleteTags_openSpan {css : JsString} (h : Inert css) (rest : JsString) :
    deleteTags false (openSpan css ++ rest) = deleteTags false rest := by
  have hopen : openSpan css ++ rest =
      0x3C :: (js "span style=\"" ++ css ++ js "\"" ++ 0x3E :: rest) := by
    simp only [openSpan, append_assoc]
    rfl
  rw [hopen, deleteTags, if_pos rfl]
  refine deleteTags_inside (fun c hc => ?_) rest
  rw [mem_append, mem_append] at hc
  rcases hc with (hc | hc) | hc
  · exact forall_mem_of_all (p := (· ≠ 0x3E)) (s := js "span style=\"") rfl c hc
  · rintro rfl
    exact absurd (h _ hc) (by decide)
  · exact forall_mem_of_all (p := (· ≠ 0x3E)) (s := js "\"") rfl c hc

theorem deleteTags_close (rest : JsString) :
    deleteTags false (js "</span>" ++ rest) = deleteTags false rest := rfl

theorem deleteTags_pieces {pieces : List Piece} (h : ∀ p ∈ pieces, p.Safe) :
    deleteTags false (pieces.flatMap Piece.html) =
      escapeHtml ((pieces.flatMap Piece.chars).map Prod.fst) := by
  induction pieces with
  | nil => rfl
  | cons p pieces ih =>
    rw [forall_mem_cons] at h
    rw [flatMap_cons, flatMap_cons, map_append, escapeHtml_append, ← ih h.2]
    cases p with
    | text content =>
      rw [Piece.html, deleteTags_text (inert_escapeHtml _), Piece.chars, map_map]
      exact congrArg (escapeHtml · ++ _) (map_id content).symm
    | span css content =>
      rw [Piece.html, append_assoc, append_assoc, deleteTags_openSpan h.1,
        deleteTags_text (inert_escapeHtml _), deleteTags_close, Piece.chars, map_map]
      exact congrArg (escapeHtml · ++ _) (map_id content).symm

end Escaping

section Codes

theorem applySgrCode_skip (skip : Nat) (params : List Double) (style : TextStyle) :
    applySgrCode skip params style = applySgrCode 0 (params.drop skip) style := by
  induction params generalizing skip with
  | nil => simp [applySgrCode]
  | cons code rest ih =>
    cases skip with
    | zero => rfl
    | succ skip => rw [applySgrCode, ih, drop_succ_cons]

/-- A colour is read from a complete group only. -/
theorem extendedColor_eq_some {rest : List Double} {color : Color} {n : Nat}
    (h : extendedColor rest = some (color, n)) :
    (∃ index more, rest = some 5 :: index :: more ∧ color = color256ToHex index ∧ n = 2) ∨
      ∃ r g b more, rest = some 2 :: r :: g :: b :: more ∧ color = rgb r g b ∧ n = 4 := by
  rw [extendedColor] at h
  split_ifs at h with h₅ h₂
  · match rest, h₅, h with
    | a :: index :: more, ⟨hhead, _⟩, h =>
      obtain rfl : a = some 5 := Option.some.inj hhead
      exact .inl ⟨index, more, rfl, (Prod.mk.inj (Option.some.inj h)).imp Eq.symm Eq.symm⟩
    | [a], ⟨_, hlen⟩, _ => simp at hlen
  · match rest, h₂, h with
    | a :: r :: g :: b :: more, ⟨hhead, _⟩, h =>
      obtain rfl : a = some 2 := Option.some.inj hhead
      exact .inr ⟨r, g, b, more, rfl, (Prod.mk.inj (Option.some.inj h)).imp Eq.symm Eq.symm⟩
    | [a], ⟨_, hlen⟩, _ => simp at hlen
    | [a, b], ⟨_, hlen⟩, _ => simp at hlen
    | [a, b, c], ⟨_, hlen⟩, _ => simp at hlen

/-- A group that is not complete has no effect on the codes in it. -/
theorem extendedColor_eq_none {rest : List Double}
    (h₅ : ∀ index more, rest ≠ some 5 :: index :: more)
    (h₂ : ∀ r g b more, rest ≠ some 2 :: r :: g :: b :: more) : extendedColor rest = none := by
  cases h : extendedColor rest with
  | none => rfl
  | some p =>
    rcases extendedColor_eq_some h with ⟨index, more, heq, -⟩ | ⟨r, g, b, more, heq, -⟩
    · exact absurd heq (h₅ index more)
    · exact absurd heq (h₂ r g b more)

/-- The loop applies the codes in order, complete colours as a unit. -/
theorem applySgrCode_eq (params : List Double) (style : TextStyle) :
    applySgrCode 0 params style = (sgrOps params).foldl SgrOp.apply style := by
  fun_induction sgrOps params generalizing style with
  | case1 index rest ih =>
    exact (applySgrCode_skip 2 (some 5 :: index :: rest) _).trans (ih _)
  | case2 r g b rest ih =>
    exact (applySgrCode_skip 4 (some 2 :: r :: g :: b :: rest) _).trans (ih _)
  | case3 index rest ih =>
    exact (applySgrCode_skip 2 (some 5 :: index :: rest) _).trans (ih _)
  | case4 r g b rest ih =>
    exact (applySgrCode_skip 4 (some 2 :: r :: g :: b :: rest) _).trans (ih _)
  | case5 code rest h₁ h₂ h₃ h₄ ih =>
    rw [foldl_cons, ← ih, applySgrCode]
    split
    · next h38 =>
      subst h38
      rw [extendedColor_eq_none (fun i m h => h₁ i m h rfl) (fun r g b m h => h₂ r g b m h rfl)]
      rfl
    · split
      · next h48 =>
        subst h48
        rw [extendedColor_eq_none (fun i m h => h₃ i m h rfl) (fun r g b m h => h₄ r g b m h rfl)]
        rfl
      · rfl
  | case6 rest ih => exact ih style
  | case7 => rfl

theorem inert_intercalate {parts : List JsString} (h : ∀ p ∈ parts, Inert p) :
    Inert ((js ";").intercalate parts) := by
  induction parts with
  | nil => exact fun c hc => absurd hc not_mem_nil
  | cons p parts ih =>
    rw [forall_mem_cons] at h
    cases parts with
    | nil => simpa using h.1
    | cons q parts =>
      rw [intercalate_cons_cons]
      exact (h.1.append (inert_of_all rfl)).append (ih h.2)

theorem inert_colorPart {property : String} (h : Inert (js property)) (color : Option Color) :
    ∀ p ∈ colorPart property color, Inert p := by
  cases color with
  | none => exact fun p hp => absurd hp not_mem_nil
  | some color =>
    rw [colorPart]
    split
    · exact fun p hp => absurd hp not_mem_nil
    · exact forall_mem_singleton.mpr (h.append color.property)

theorem inert_flag {part : String} (h : Inert (js part)) (flag : Bool) :
    ∀ p ∈ (if flag then [js part] else []), Inert p := by
  cases flag with
  | false => exact fun p hp => absurd hp not_mem_nil
  | true => exact forall_mem_singleton.mpr h

/-- A style attribute has no quote and no angle bracket. -/
theorem inert_styleToInlineCSS (style : TextStyle) : Inert (styleToInlineCSS style) := by
  refine inert_intercalate ?_
  simp only [forall_mem_append]
  exact ⟨⟨⟨⟨⟨inert_colorPart (inert_of_all rfl) _, inert_colorPart (inert_of_all rfl) _⟩,
    inert_flag (inert_of_all rfl) _⟩, inert_flag (inert_of_all rfl) _⟩,
    inert_flag (inert_of_all rfl) _⟩, inert_flag (inert_of_all rfl) _⟩

end Codes

section Loop

theorem sgrItems_skip (skip : Nat) (text : JsString) :
    sgrItems skip text = sgrItems 0 (text.drop skip) := by
  induction text generalizing skip with
  | nil => simp [sgrItems]
  | cons c rest ih =>
    cases skip with
    | zero => rfl
    | succ skip => rw [sgrItems, ih, drop_succ_cons]

/-- What a match says of the items of the text. -/
theorem sgrItems_exec (text : JsString) : match exec text with
    | none => sgrItems 0 text = text.map .inl
    | some (before, paramStr, rest) =>
      sgrItems 0 text = before.map .inl ++ .inr paramStr :: sgrItems 0 rest ∧
        rest.length < text.length := by
  induction text with
  | nil => rfl
  | cons c text ih =>
    rw [exec, sgrItems]
    cases hat : sgrParamsAt (c :: text) with
    | some paramStr =>
      refine ⟨congrArg (.inr paramStr :: ·) (sgrItems_skip _ text), ?_⟩
      rw [length_drop, length_cons]
      omega
    | none =>
      cases hexec : exec text with
      | none =>
        rw [hexec] at ih
        exact congrArg (.inl c :: ·) ih
      | some m =>
        rw [hexec] at ih
        exact ⟨congrArg (.inl c :: ·) ih.1, Nat.lt_succ_of_lt ih.2⟩

theorem shownItems_text (style : TextStyle) (text : JsString) (items : List (CodeUnit ⊕ JsString)) :
    shownItems style (text.map .inl ++ items) =
      text.map (·, shown style) ++ shownItems style items := by
  induction text with
  | nil => rfl
  | cons c text ih => exact congrArg ((c, shown style) :: ·) ih

/-- The piece for text in a state. -/
def Piece.of (style : TextStyle) (content : JsString) : Piece :=
  if hasStyle style then .span (styleToInlineCSS style) content else .text content

def openTag (style : TextStyle) : JsString :=
  if hasStyle style then openSpan (styleToInlineCSS style) else []

def closeTag (style : TextStyle) : JsString := if hasStyle style then js "</span>" else []

theorem Piece.html_of (style : TextStyle) (content : JsString) :
    (Piece.of style content).html = openTag style ++ escapeHtml content ++ closeTag style := by
  rw [Piece.of, openTag, closeTag]
  cases hasStyle style <;> simp [Piece.html]

theorem Piece.chars_of (style : TextStyle) (content : JsString) :
    (Piece.of style content).chars = content.map (·, shown style) := by
  rw [Piece.of, shown]
  cases hasStyle style <;> rfl

theorem Piece.safe_of (style : TextStyle) (content : JsString) : (Piece.of style content).Safe := by
  rw [Piece.of]
  split
  · exact inert_styleToInlineCSS style
  · trivial

/-- The flag says whether the state has a style. -/
def HtmlState.Sound (s : HtmlState) : Prop := s.inSpan = hasStyle s.style

theorem HtmlState.Sound.result_close {s : HtmlState} (h : s.Sound) :
    s.close.result = s.result ++ closeTag s.style := by
  rw [HtmlState.close, closeTag, show s.inSpan = hasStyle s.style from h]
  cases hasStyle s.style <;> simp

theorem HtmlState.close_style (s : HtmlState) : s.close.style = s.style := by
  rw [HtmlState.close]
  split <;> rfl

theorem HtmlState.close_inSpan (s : HtmlState) : s.close.inSpan = false := by
  rw [HtmlState.close]
  split
  · rfl
  · next h => simpa using h

/-- A sequence closes the span of the state and opens one for the state after its codes. -/
theorem HtmlState.Sound.sgr {s : HtmlState} (h : s.Sound) (paramStr : JsString) :
    (s.sgr paramStr).Sound ∧ (s.sgr paramStr).style = applySgrCode 0 (sgrCodes paramStr) s.style ∧
      (s.sgr paramStr).result = s.result ++ closeTag s.style ++ openTag (s.sgr paramStr).style := by
  simp only [HtmlState.sgr, s.close_style, h.result_close]
  split
  · next hstyle => exact ⟨hstyle.symm, rfl, by rw [openTag, if_pos hstyle]⟩
  · next hstyle =>
    refine ⟨s.close_inSpan.trans ?_, rfl, by rw [openTag, if_neg hstyle, append_nil]⟩
    exact (Bool.not_eq_true _ ▸ hstyle : hasStyle _ = false).symm

/-- What the loop adds: the rest of the piece that is open, and pieces of their own. -/
theorem htmlLoop_pieces (fuel : Nat) {s : HtmlState} (hs : s.Sound) {text : JsString}
    (hfuel : text.length < fuel) : ∃ (before : JsString) (pieces : List Piece),
      (htmlLoop fuel s text).result = s.result ++ escapeHtml before ++ closeTag s.style ++
        pieces.flatMap Piece.html ∧
      (∀ p ∈ pieces, p.Safe) ∧
      before.map (·, shown s.style) ++ pieces.flatMap Piece.chars =
        shownItems s.style (sgrItems 0 text) := by
  induction fuel generalizing s text with
  | zero => omega
  | succ fuel ih =>
    have hitems := sgrItems_exec text
    rw [htmlLoop]
    cases hexec : exec text with
    | none =>
      rw [hexec] at hitems
      refine ⟨text, [], ?_, by simp, ?_⟩
      · rw [flatMap_nil, append_nil]
        exact HtmlState.Sound.result_close (s := s.text text) hs
      · rw [hitems, ← append_nil (map Sum.inl text), shownItems_text]
        rfl
    | some m =>
      obtain ⟨beforeText, paramStr, rest⟩ := m
      rw [hexec] at hitems
      obtain ⟨hsplit, hshort⟩ := hitems
      obtain ⟨hsound, hstyle, hresult⟩ :=
        HtmlState.Sound.sgr (s := s.text beforeText) hs paramStr
      obtain ⟨before, pieces, hpieces, hsafe, hchars⟩ := ih hsound (by omega : rest.length < fuel)
      refine ⟨beforeText, .of ((s.text beforeText).sgr paramStr).style before :: pieces, ?_, ?_, ?_⟩
      · dsimp only
        rw [hpieces, hresult, flatMap_cons, Piece.html_of]
        simp only [HtmlState.text, append_assoc]
      · exact forall_mem_cons.mpr ⟨Piece.safe_of _ before, hsafe⟩
      · rw [hsplit, shownItems_text, flatMap_cons, Piece.chars_of, hchars, shownItems,
          ← applySgrCode_eq, hstyle]
        rfl

end Loop

/-- The output is escaped text and elements with an inert style, its text is the input without the
sequences, and every character has the style of the state before it. -/
theorem ansiToHtml_faithful (text : JsString) :
    (∃ pieces : List Piece, ansiToHtml text = pieces.flatMap Piece.html ∧ (∀ p ∈ pieces, p.Safe) ∧
      pieces.flatMap Piece.chars = shownItems {} (sgrItems 0 text)) ∧
    unescapeHtml 0 (deleteTags false (ansiToHtml text)) = stripSgr text := by
  obtain ⟨before, pieces, hpieces, hsafe, hchars⟩ := htmlLoop_pieces (text.length + 1)
    (rfl : ({} : HtmlState).Sound) (Nat.lt_succ_self text.length)
  have hhtml : ansiToHtml text = (Piece.text before :: pieces).flatMap Piece.html := by
    rw [ansiToHtml, hpieces, flatMap_cons]
    simp [Piece.html, closeTag, hasStyle]
  have hall : ∀ p ∈ Piece.text before :: pieces, p.Safe := forall_mem_cons.mpr ⟨trivial, hsafe⟩
  have hshown : (Piece.text before :: pieces).flatMap Piece.chars =
      shownItems {} (sgrItems 0 text) := hchars
  refine ⟨⟨_, hhtml, hall, hshown⟩, ?_⟩
  rw [hhtml, deleteTags_pieces hall, hshown, unescapeHtml_escapeHtml, stripSgr]
  generalize ({} : TextStyle) = style
  induction sgrItems 0 text generalizing style with
  | nil => rfl
  | cons item items ih =>
    cases item with
    | inl c => exact congrArg (c :: ·) (ih style)
    | inr paramStr => exact ih _

end AnsiHtml

end AcademicAgent
