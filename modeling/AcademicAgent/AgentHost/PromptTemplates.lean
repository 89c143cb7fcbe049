import AcademicAgent.Core.Json.Number
import AcademicAgent.Core.Passes

/-!
# Prompt templates

A command line is cut into arguments at blanks and tabs that are not quoted.
-/

namespace AcademicAgent

open List Option

open Stretch (OnlyOwn replaceAll_pass)

variable {content : JsString} {args : List JsString}

namespace PromptTemplates

/-- The variables of the loop of `parseCommandArgs`. -/
structure ArgScan where
  args : List JsString := []
  current : JsString := []
  inQuote : Option CodeUnit := none
  deriving DecidableEq

/-- `if (current) args.push(current)`. -/
def ArgScan.flush (s : ArgScan) : List JsString :=
  if s.current = [] then s.args else s.args ++ [s.current]

/-- One round of the loop of `parseCommandArgs`. -/
def scanChar (s : ArgScan) (char : CodeUnit) : ArgScan :=
  match s.inQuote with
  | some quote =>
    if char = quote then { s with inQuote := none } else { s with current := s.current ++ [char] }
  | none =>
    if char = 0x22 ∨ char = 0x27 then { s with inQuote := some char }
    else if char = 0x20 ∨ char = 0x09 then { s with args := s.flush, current := [] }
    else { s with current := s.current ++ [char] }

def parseCommandArgs (argsString : JsString) : List JsString :=
  (argsString.foldl scanChar {}).flush

/-- An argument between quote characters that it does not contain. -/
structure QuotedArg where
  arg : JsString
  quote : CodeUnit
  isQuote : quote = 0x22 ∨ quote = 0x27
  quote_notMem : quote ∉ arg

namespace QuotedArg

def text (a : QuotedArg) : JsString := a.quote :: (a.arg ++ [a.quote])

def line (args : List QuotedArg) : JsString := (js " ").intercalate (args.map text)

end QuotedArg

theorem foldl_scanChar_quoted {quote : CodeUnit} {arg : JsString} (h : quote ∉ arg)
    (args : List JsString) (current : JsString) :
    arg.foldl scanChar ⟨args, current, some quote⟩ = ⟨args, current ++ arg, some quote⟩ := by
  induction arg generalizing current with
  | nil => rw [foldl_nil, append_nil]
  | cons char arg ih =>
    have hne := ne_of_not_mem_cons h
    have hrest := not_mem_of_not_mem_cons h
    have hchar : scanChar ⟨args, current, some quote⟩ char =
        ⟨args, current ++ [char], some quote⟩ := if_neg (Ne.symm hne)
    rw [foldl_cons, hchar, ih hrest, append_assoc, singleton_append]

theorem foldl_scanChar_text (a : QuotedArg) (args : List JsString) (current : JsString) :
    a.text.foldl scanChar ⟨args, current, none⟩ = ⟨args, current ++ a.arg, none⟩ := by
  have hopen : scanChar ⟨args, current, none⟩ a.quote = ⟨args, current, some a.quote⟩ :=
    if_pos a.isQuote
  have hclose : scanChar ⟨args, current ++ a.arg, some a.quote⟩ a.quote =
      ⟨args, current ++ a.arg, none⟩ := if_pos rfl
  rw [QuotedArg.text, foldl_cons, hopen, foldl_append,
    foldl_scanChar_quoted a.quote_notMem, foldl_cons, hclose, foldl_nil]

theorem flush_eq (args : List JsString) (arg : JsString) :
    ArgScan.flush ⟨args, arg, none⟩ = args ++ [arg].filter fun a => decide (a ≠ []) := by
  rw [ArgScan.flush]
  by_cases harg : arg = [] <;> simp [harg]

theorem flush_foldl_line (quoted : List QuotedArg) (args : List JsString) :
    ((QuotedArg.line quoted).foldl scanChar ⟨args, [], none⟩).flush =
      args ++ (quoted.map QuotedArg.arg).filter fun a => decide (a ≠ []) := by
  induction quoted generalizing args with
  | nil => rw [QuotedArg.line, map_nil, intercalate_nil, foldl_nil, flush_eq]; rfl
  | cons a quoted ih =>
    cases quoted with
    | nil =>
      rw [QuotedArg.line, map_singleton, intercalate_singleton, foldl_scanChar_text, flush_eq]
      rfl
    | cons b quoted =>
      have hline : QuotedArg.line (a :: b :: quoted) =
          a.text ++ (0x20 :: QuotedArg.line (b :: quoted)) := by
        rw [QuotedArg.line, map_cons, map_cons, intercalate_cons_cons, append_assoc]
        rfl
      have hblank : scanChar ⟨args, [] ++ a.arg, none⟩ 0x20 =
          ⟨ArgScan.flush ⟨args, a.arg, none⟩, [], none⟩ := rfl
      rw [hline, foldl_append, foldl_scanChar_text, foldl_cons, hblank, ih, flush_eq,
        append_assoc, ← filter_append]
      rfl

/-- Quoted arguments are read back, without the empty ones. -/
theorem parseCommandArgs_line (args : List QuotedArg) : parseCommandArgs (QuotedArg.line args) =
      (args.map QuotedArg.arg).filter fun arg => decide (arg ≠ []) :=
  flush_foldl_line args []

/-- A quoted empty argument is not read back. -/
theorem parseCommandArgs_drops_empty :
    ¬ ∀ args : List QuotedArg, parseCommandArgs (QuotedArg.line args) = args.map QuotedArg.arg := by
  intro h
  have hempty := h [⟨[], 0x22, .inl rfl, not_mem_nil⟩]
  exact absurd hempty (by decide)

section

variable (args : List JsString)

/-- `args.join(" ")`. -/
def joinArgs : JsString := (js " ").intercalate args

/-- `args[index] ?? ""`. -/
def argAt : Int → JsString
  | .ofNat index => args.getD index []
  | .negSucc _ => []

/-- `/\$(\d+)/` at the head of a text, with the argument of that number. -/
def positionalArg : Rewriter CodeUnit
  | [] => none
  | c :: rest =>
    let num := rest.takeWhile isDigit
    if c = 0x24 ∧ num ≠ [] then some (num.length + 1, argAt args ((digitsValue num : Int) - 1))
    else none

/-- `/\$\{@:(\d+)(?::(\d+))?\}/` at the head of a text, with the arguments it selects. -/
def sliceArgs : Rewriter CodeUnit := fun s =>
  if js "$\x7b@:" <+: s then
    let startStr := (s.drop 4).takeWhile isDigit
    -- `start - 1`, and 0 where that is negative
    let start := digitsValue startStr - 1
    if startStr = [] then none
    else
      match s.drop (4 + startStr.length) with
      | 0x7D :: _ => some (startStr.length + 5, joinArgs (args.drop start))
      | 0x3A :: rest =>
        let lengthStr := rest.takeWhile isDigit
        if lengthStr ≠ [] ∧ (rest.drop lengthStr.length).head? = some 0x7D then
          some (startStr.length + lengthStr.length + 6,
            joinArgs ((args.drop start).take (digitsValue lengthStr)))
        else none
      | _ => none
  else none

end

/-- The pair of code units has a meaning in a replacement string, where the pattern has no
groups: `$$`, `$&`, `` $` `` or `$'`. -/
def isSpecial (c d : CodeUnit) : Bool :=
  c == 0x24 && (d == 0x24 || d == 0x26 || d == 0x60 || d == 0x27)

def specialText (matched before after : JsString) (d : CodeUnit) : JsString :=
  if d = 0x26 then matched else if d = 0x60 then before else if d = 0x27 then after else [0x24]

def expandReplacement (matched before after : JsString) : JsString → JsString
  | c :: d :: rest =>
    if isSpecial c d then
      specialText matched before after d ++ expandReplacement matched before after rest
    else c :: expandReplacement matched before after (d :: rest)
  | [c] => [c]
  | [] => []

/-- `text.replace(/pattern/g, replacement)` after the text before, with code units still to be
skipped, for a pattern that matches only itself. -/
def replaceTextFrom (pattern replacement : JsString) : Nat → JsString → JsString → JsString
  | _, _, [] => []
  | skip + 1, before, c :: rest =>
    replaceTextFrom pattern replacement skip (before ++ [c]) rest
  | 0, before, c :: rest =>
    if pattern <+: c :: rest then
      expandReplacement pattern before ((c :: rest).drop pattern.length) replacement ++
        replaceTextFrom pattern replacement (pattern.length - 1) (before ++ [c]) rest
    else c :: replaceTextFrom pattern replacement 0 (before ++ [c]) rest

def replaceText (pattern replacement text : JsString) : JsString :=
  replaceTextFrom pattern replacement 0 [] text

def substituteArgs (content : JsString) (args : List JsString) : JsString :=
  let result := (positionalArg args).replaceAll content
  let result := (sliceArgs args).replaceAll result
  let allArgs := joinArgs args
  let result := replaceText (js "$ARGUMENTS") allArgs result
  replaceText (js "$@") allArgs result

def verbatim (pattern replacement : JsString) : Rewriter CodeUnit := fun s =>
  if pattern <+: s then some (pattern.length, replacement) else none

def placeholders (args : List JsString) : List (Rewriter CodeUnit) :=
  [positionalArg args, sliceArgs args, verbatim (js "$ARGUMENTS") (joinArgs args),
    verbatim (js "$@") (joinArgs args)]

/-- One scan of the template, in which each placeholder becomes its literal value. -/
def substituteOnce (content : JsString) (args : List JsString) : JsString :=
  (Rewriter.atOnce (placeholders args)).replaceAll content

/-- The template as its placeholders and the code units between them. -/
def templateParts (content : JsString) (args : List JsString) : List (Stretch CodeUnit) :=
  Stretch.cut (placeholders args) content

def hasSpecial : JsString → Bool
  | c :: d :: rest => isSpecial c d || hasSpecial (d :: rest)
  | _ => false

/-- With the placeholders of the earlier passes replaced by their literal values, the template
has no placeholder for a pass that is not its own; and where the joined arguments are a
replacement string, no pair in them is special. -/
structure Verbatim (content : JsString) (args : List JsString) : Prop where
  slices : OnlyOwn (sliceArgs args) 1 (templateParts content args)
  arguments : OnlyOwn (verbatim (js "$ARGUMENTS") (joinArgs args)) 2
    (templateParts content args)
  all : OnlyOwn (verbatim (js "$@") (joinArgs args)) 3 (templateParts content args)
  joined : (∃ s ∈ templateParts content args, s.IsOf 2 ∨ s.IsOf 3) →
    hasSpecial (joinArgs args) = false

theorem verbatim_iff : Verbatim content args ↔
      OnlyOwn (sliceArgs args) 1 (templateParts content args) ∧
      OnlyOwn (verbatim (js "$ARGUMENTS") (joinArgs args)) 2 (templateParts content args) ∧
      OnlyOwn (verbatim (js "$@") (joinArgs args)) 3 (templateParts content args) ∧
      ((∃ s ∈ templateParts content args, s.IsOf 2 ∨ s.IsOf 3) →
        hasSpecial (joinArgs args) = false) :=
  ⟨fun h => ⟨h.slices, h.arguments, h.all, h.joined⟩, fun h => ⟨h.1, h.2.1, h.2.2.1, h.2.2.2⟩⟩

instance (content : JsString) (args : List JsString) : Decidable (Verbatim content args) :=
  decidable_of_iff _ verbatim_iff.symm

theorem expandReplacement_of_not_hasSpecial {matched before after : JsString} {text : JsString}
    (h : hasSpecial text = false) : expandReplacement matched before after text = text := by
  fun_induction expandReplacement matched before after text with
  | case1 c d rest hspecial ih =>
    rw [hasSpecial, hspecial] at h
    cases h
  | case2 c d rest hspecial ih =>
    rw [hasSpecial, Bool.or_eq_false_iff] at h
    rw [ih h.2]
  | case3 c => rfl
  | case4 => rfl

theorem replaceTextFrom_eq {pattern replacement : JsString} (hpattern : pattern ≠ [])
    (skip : Nat) (before text : JsString)
    (h : ∀ i < text.length, pattern <+: text.drop i → hasSpecial replacement = false) :
    replaceTextFrom pattern replacement skip before text =
      (verbatim pattern replacement).replaceFrom skip text := by
  fun_induction replaceTextFrom pattern replacement skip before text with
  | case1 => rfl
  | case2 skip before c rest ih =>
    exact ih fun i hi => h (i + 1) (Nat.succ_lt_succ hi)
  | case3 before c rest hmatch ih =>
    have hplain := h 0 (Nat.succ_pos _) hmatch
    obtain ⟨n, hn⟩ := Nat.exists_eq_succ_of_ne_zero (length_pos_iff.mpr hpattern).ne'
    have hfound : verbatim pattern replacement (c :: rest) = some (n + 1, replacement) := by
      rw [verbatim, if_pos hmatch, hn]
    rw [Rewriter.replaceFrom, hfound, expandReplacement_of_not_hasSpecial hplain,
      ih fun i hi => h (i + 1) (Nat.succ_lt_succ hi), hn]
    rfl
  | case4 before c rest hmatch ih =>
    have hnone : verbatim pattern replacement (c :: rest) = none := if_neg hmatch
    rw [Rewriter.replaceFrom, hnone, ih fun i hi => h (i + 1) (Nat.succ_lt_succ hi)]

theorem replaceText_eq {pattern replacement text : JsString} (hpattern : pattern ≠ [])
    (h : ∀ i < text.length, pattern <+: text.drop i → hasSpecial replacement = false) :
    replaceText pattern replacement text = (verbatim pattern replacement).replaceAll text :=
  replaceTextFrom_eq hpattern 0 [] text h

def sliceText (start : JsString) (length : Option JsString) : JsString :=
  js "$\x7b@:" ++ (start ++ ((length.map fun l => 0x3A :: l).getD [] ++ [0x7D]))

/-- `\d+`. -/
def IsNumeral (s : JsString) : Prop := s ≠ [] ∧ ∀ c ∈ s, isDigit c = true

def sliceValue (args : List JsString) (start : JsString) (length : Option JsString) : JsString :=
  let rest := args.drop (digitsValue start - 1)
  joinArgs (match length with
    | none => rest
    | some l => rest.take (digitsValue l))

theorem takeWhile_digits {digits : JsString} (h : ∀ c ∈ digits, isDigit c = true) {c : CodeUnit}
    (hc : isDigit c = false) (rest : JsString) :
    (digits ++ c :: rest).takeWhile isDigit = digits := by
  rw [takeWhile_append_of_pos h, takeWhile_cons_of_neg (by rw [hc]; decide), append_nil]

theorem drop_length_takeWhile (s : JsString) :
    s.drop (s.takeWhile isDigit).length = s.dropWhile isDigit :=
  calc s.drop (s.takeWhile isDigit).length
      = (s.takeWhile isDigit ++ s.dropWhile isDigit).drop (s.takeWhile isDigit).length := by
        rw [takeWhile_append_dropWhile]
    _ = s.dropWhile isDigit := drop_left

theorem isNumeral_takeWhile {s : JsString} (h : s.takeWhile isDigit ≠ []) :
    IsNumeral (s.takeWhile isDigit) := ⟨h, fun _ hc => mem_takeWhile_imp hc⟩

theorem sliceArgs_text {start : JsString} {length : Option JsString} (hstart : IsNumeral start)
    (hlength : ∀ l ∈ length, IsNumeral l) (rest : JsString) :
    sliceArgs args (sliceText start length ++ rest) =
      some ((sliceText start length).length, sliceValue args start length) := by
  have hopen : js "$\x7b@:" <+: sliceText start length ++ rest := by
    rw [sliceText, append_assoc]
    exact prefix_append _ _
  have hfour : ∀ s : JsString, (js "$\x7b@:" ++ s).drop 4 = s := fun s => rfl
  have hfive : (js "$\x7b@:").length = 4 := rfl
  cases length with
  | none =>
    have htext : sliceText start none ++ rest = js "$\x7b@:" ++ (start ++ 0x7D :: rest) := by
      simp [sliceText]
    have hnum : ((sliceText start none ++ rest).drop 4).takeWhile isDigit = start := by
      rw [htext, hfour, takeWhile_digits hstart.2 rfl]
    have hrest : (sliceText start none ++ rest).drop (4 + start.length) = 0x7D :: rest := by
      rw [← drop_drop, htext, hfour, drop_left]
    have hsize : (sliceText start none).length = start.length + 5 := by
      rw [sliceText, length_append, hfive]
      simp
      omega
    rw [sliceArgs, if_pos hopen]
    simp only [hnum, if_neg hstart.1, hrest, hsize]
    rfl
  | some l =>
    have hl := hlength l rfl
    have htext : sliceText start (some l) ++ rest =
        js "$\x7b@:" ++ (start ++ 0x3A :: (l ++ 0x7D :: rest)) := by
      simp [sliceText]
    have hnum : ((sliceText start (some l) ++ rest).drop 4).takeWhile isDigit = start := by
      rw [htext, hfour, takeWhile_digits hstart.2 rfl]
    have hrest : (sliceText start (some l) ++ rest).drop (4 + start.length) =
        0x3A :: (l ++ 0x7D :: rest) := by
      rw [← drop_drop, htext, hfour, drop_left]
    have hsize : (sliceText start (some l)).length = start.length + l.length + 6 := by
      rw [sliceText, length_append, hfive]
      simp
      omega
    have hclose : ((l ++ 0x7D :: rest).drop l.length).head? = some 0x7D := by
      rw [drop_left, head?_cons]
    rw [sliceArgs, if_pos hopen]
    simp only [hnum, if_neg hstart.1, hrest, takeWhile_digits hl.2 (c := 0x7D) rfl, hclose, hsize]
    rw [if_pos ⟨hl.1, trivial⟩]
    rfl

section

variable {args : List JsString} {s : JsString} {n : Nat} {content : JsString}

theorem eq_sliceText (h : sliceArgs args s = some (n, content)) :
    ∃ start length rest, IsNumeral start ∧ (∀ l ∈ length, IsNumeral l) ∧
      s = sliceText start length ++ rest := by
  rw [sliceArgs] at h
  split at h
  · rename_i hopen
    obtain ⟨tail, rfl⟩ := hopen
    have hfour : (js "$\x7b@:" ++ tail).drop 4 = tail := rfl
    dsimp only at h
    rw [hfour, ← drop_drop, hfour, drop_length_takeWhile] at h
    split at h
    · cases h
    rename_i hne
    have hstart := isNumeral_takeWhile hne
    have htail : tail = tail.takeWhile isDigit ++ tail.dropWhile isDigit :=
      takeWhile_append_dropWhile.symm
    split at h
    · rename_i rest hrest
      rw [hrest] at htail
      refine ⟨_, none, rest, hstart, (fun l hl => nomatch hl), ?_⟩
      conv => lhs; rw [htail]
      simp [sliceText]
    · rename_i rest hrest
      rw [hrest] at htail
      split at h
      · rename_i hl
        obtain ⟨hlne, hclose⟩ := hl
        rw [drop_length_takeWhile] at hclose
        obtain ⟨after, hafter⟩ := head?_eq_some_iff.mp hclose
        have hlength : rest = rest.takeWhile isDigit ++ 0x7D :: after := by
          rw [← hafter, takeWhile_append_dropWhile]
        refine ⟨_, some (rest.takeWhile isDigit), after, hstart, ?_, ?_⟩
        · intro l hl
          obtain rfl := some.inj hl
          exact isNumeral_takeWhile hlne
        · conv => lhs; rw [htail, hlength]
          simp [sliceText]
      · cases h
    · cases h
  · cases h

theorem sliceArgs_eq_some (h : sliceArgs args s = some (n, content)) :
    ∃ start length rest, IsNumeral start ∧ (∀ l ∈ length, IsNumeral l) ∧
      s = sliceText start length ++ rest ∧ n = (sliceText start length).length := by
  obtain ⟨start, length, rest, hstart, hlength, rfl⟩ := eq_sliceText h
  rw [sliceArgs_text hstart hlength] at h
  exact ⟨start, length, rest, hstart, hlength, rfl, (Prod.mk.inj (some.inj h)).1.symm⟩

end

theorem local_sliceArgs (args : List JsString) : (sliceArgs args).Local := by
  intro s n content h ys htake
  obtain ⟨start, length, rest, hstart, hlength, rfl, rfl⟩ := sliceArgs_eq_some h
  rw [take_left] at htake
  rw [sliceArgs_text hstart hlength] at h
  rw [← take_append_drop (sliceText start length).length ys, htake,
    sliceArgs_text hstart hlength, h]

theorem verbatim_eq_some {pattern replacement s : JsString} {n : Nat}
    (h : verbatim pattern replacement s = some (n, content)) :
    ∃ rest, s = pattern ++ rest ∧ n = pattern.length := by
  rw [verbatim] at h
  split at h
  · rename_i hprefix
    obtain ⟨rest, rfl⟩ := hprefix
    exact ⟨rest, rfl, (Prod.mk.inj (some.inj h)).1.symm⟩
  · cases h

theorem local_verbatim (pattern replacement : JsString) : (verbatim pattern replacement).Local := by
  intro s n content h ys htake
  obtain ⟨rest, rfl, rfl⟩ := verbatim_eq_some h
  rw [verbatim, if_pos (prefix_append _ _)] at h
  rw [take_left] at htake
  rw [verbatim, if_pos (htake ▸ take_prefix _ _), h]

theorem positionalArg_eq_some {s : JsString} {n : Nat}
    (h : positionalArg args s = some (n, content)) :
    ∃ digits rest, (∀ c ∈ digits, isDigit c = true) ∧ s = 0x24 :: digits ++ rest ∧
      n = digits.length + 1 := by
  cases s with
  | nil => cases h
  | cons c rest =>
    simp only [positionalArg] at h
    split at h
    · rename_i hc
      refine ⟨rest.takeWhile isDigit, rest.dropWhile isDigit,
        fun _ hd => mem_takeWhile_imp hd, ?_, (Prod.mk.inj (some.inj h)).1.symm⟩
      rw [cons_append, takeWhile_append_dropWhile, hc.1]
    · cases h

/-- A match is a text whose first code unit only is a dollar sign. -/
def StartsOnly (m : Rewriter CodeUnit) : Prop :=
  ∀ s n content, m s = some (n, content) →
    ∃ text rest, s = 0x24 :: text ++ rest ∧ n = text.length + 1 ∧ (0x24 : CodeUnit) ∉ text

theorem StartsOnly.fits {m : Rewriter CodeUnit} (h : StartsOnly m) : m.Fits := by
  intro s n content hmatch
  obtain ⟨text, rest, rfl, rfl, -⟩ := h s n content hmatch
  refine ⟨Nat.succ_pos _, ?_⟩
  simp

theorem StartsOnly.apart {m m' : Rewriter CodeUnit} (h : StartsOnly m) (h' : StartsOnly m') :
    Rewriter.Apart m m' := by
  intro s n content hmatch i hpos hi
  obtain ⟨text, rest, rfl, rfl, hnot⟩ := h' s n content hmatch
  obtain ⟨i, rfl⟩ := Nat.exists_eq_succ_of_ne_zero hpos.ne'
  have hi : i < text.length := Nat.lt_of_succ_lt_succ hi
  cases hinside : m ((0x24 :: text ++ rest).drop (i + 1)) with
  | none => rfl
  | some found =>
    obtain ⟨length, replacement⟩ := found
    obtain ⟨text', rest', heq, -, -⟩ := h _ length replacement hinside
    rw [cons_append, drop_succ_cons, drop_append_of_le_length (Nat.le_of_lt hi),
      drop_eq_getElem_cons hi, cons_append, cons_append, List.cons.injEq] at heq
    exact absurd (heq.1 ▸ getElem_mem hi) hnot

theorem dollar_notMem_of_digits {digits : JsString} (h : ∀ c ∈ digits, isDigit c = true) :
    (0x24 : CodeUnit) ∉ digits := fun hmem => absurd (h _ hmem) (by decide)

theorem startsOnly_positionalArg (args : List JsString) : StartsOnly (positionalArg args) := by
  intro s n content h
  obtain ⟨digits, rest, hdigits, rfl, rfl⟩ := positionalArg_eq_some h
  exact ⟨digits, rest, rfl, rfl, dollar_notMem_of_digits hdigits⟩

theorem startsOnly_sliceArgs (args : List JsString) : StartsOnly (sliceArgs args) := by
  intro s n content h
  obtain ⟨start, length, rest, hstart, hlength, rfl, rfl⟩ := sliceArgs_eq_some h
  refine ⟨(sliceText start length).tail, rest, rfl, rfl, ?_⟩
  have htail : (sliceText start length).tail =
      js "\x7b@:" ++ (start ++ ((length.map fun l => 0x3A :: l).getD [] ++ [0x7D])) := rfl
  have hopen : (0x24 : CodeUnit) ∉ js "\x7b@:" := by decide
  have hstart := dollar_notMem_of_digits hstart.2
  rw [htail]
  cases length with
  | none => simp [hopen, hstart]
  | some l =>
    have hl := dollar_notMem_of_digits (hlength l rfl).2
    simp [hopen, hstart, hl]

theorem startsOnly_verbatim (text : JsString) (h : (0x24 : CodeUnit) ∉ text)
    (replacement : JsString) : StartsOnly (verbatim (0x24 :: text) replacement) := by
  intro s n content hmatch
  obtain ⟨rest, rfl, rfl⟩ := verbatim_eq_some hmatch
  exact ⟨text, rest, rfl, rfl, h⟩

theorem startsOnly_placeholders (args : List JsString) : ∀ m ∈ placeholders args, StartsOnly m := by
  rw [placeholders]
  simp only [forall_mem_cons]
  refine ⟨startsOnly_positionalArg args, startsOnly_sliceArgs args, ?_, ?_, fun m hm => nomatch hm⟩
  · exact startsOnly_verbatim (js "ARGUMENTS") (by decide) _
  · exact startsOnly_verbatim (js "@") (by decide) _

theorem replaceText_pass {pattern : JsString} {number : Nat}
    (hget : (placeholders args)[number]? = some (verbatim pattern (joinArgs args)))
    (hpattern : pattern ≠ [])
    (hown : OnlyOwn (verbatim pattern (joinArgs args)) number (templateParts content args))
    (hjoined : (∃ s ∈ templateParts content args, s.IsOf number) → hasSpecial (joinArgs args) = false)
    : replaceText pattern (joinArgs args) (Stretch.text number (templateParts content args)) =
      Stretch.text (number + 1) (templateParts content args) := by
  have hfound := Stretch.allFound_cut (fun m hm => (startsOnly_placeholders args m hm).fits) content
  rw [replaceText_eq hpattern]
  · exact replaceAll_pass hget (.inr (local_verbatim _ _)) hfound hown
  · intro i hi hprefix
    refine hjoined (hown.exists_isOf hi ?_)
    rw [verbatim, if_pos hprefix]
    exact some_ne_none _

/-- The passes are one scan, where they find the placeholders of the template only. -/
theorem substituteArgs_eq_substituteOnce {content : JsString} {args : List JsString}
    (h : Verbatim content args) : substituteArgs content args = substituteOnce content args := by
  have hstarts := startsOnly_placeholders args
  have hfound := Stretch.allFound_cut (fun m hm => (hstarts m hm).fits) content
  have hfirst : OnlyOwn (positionalArg args) 0 (templateParts content args) :=
    Stretch.onlyOwn_first rfl
      (fun m hm => (startsOnly_positionalArg args).apart (hstarts m hm)) hfound
  have htext : content = Stretch.text 0 (templateParts content args) :=
    (Stretch.text_cut _ content).symm
  have hpositional : (positionalArg args).replaceAll content =
      Stretch.text 1 (templateParts content args) := by
    conv => lhs; rw [htext]
    exact replaceAll_pass rfl (.inl rfl) hfound hfirst
  have hslices : (sliceArgs args).replaceAll (Stretch.text 1 (templateParts content args)) =
      Stretch.text 2 (templateParts content args) :=
    replaceAll_pass rfl (.inr (local_sliceArgs args)) hfound h.slices
  have harguments := replaceText_pass rfl (by decide) h.arguments
    fun ⟨s, hs, hof⟩ => h.joined ⟨s, hs, .inl hof⟩
  have hall := replaceText_pass rfl (by decide) h.all fun ⟨s, hs, hof⟩ => h.joined ⟨s, hs, .inr hof⟩
  have honce : substituteOnce content args = Stretch.text 4 (templateParts content args) := by
    conv => lhs; rw [htext]
    exact Stretch.replaceAll_atOnce _ hfound
  simp only [substituteArgs]
  rw [hpositional, hslices, harguments, hall, honce]

/-- Arguments with a dollar sign between two placeholders are inserted as they are. -/
theorem substituteArgs_eq_substituteOnce_dollar : substituteArgs (js "$1, $@") [js "$1", js "b"] =
      substituteOnce (js "$1, $@") [js "$1", js "b"] :=
  substituteArgs_eq_substituteOnce (by decide)

/-- An argument that a later pass expands. -/
theorem substituteArgs_expands_argument :
    ¬ ∀ content args, substituteArgs content args = substituteOnce content args := by
  intro h
  exact absurd (h (js "$1") [js "$@", js "b"]) (by decide)

end PromptTemplates

end AcademicAgent
