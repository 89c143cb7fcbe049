import AcademicAgent.Core.Json.Value

/-!
# JSON texts

`JSON.stringify` without indentation and `JSON.parse`.
-/

namespace AcademicAgent

open List Option

namespace Json

section

variable (c : CodeUnit)

/-- `\uD800` to `\uDBFF`. -/
def isHighSurrogate : Bool := 0xD800 ≤ c && c ≤ 0xDBFF

/-- `\uDC00` to `\uDFFF`. -/
def isLowSurrogate : Bool := 0xDC00 ≤ c && c ≤ 0xDFFF

def hexDigit (n : Nat) : CodeUnit := UInt16.ofNat (if n < 10 then 0x30 + n else 0x57 + n)

/-- The value of a hexadecimal digit of either case. -/
def hexValue : Option Nat :=
  if 0x30 ≤ c ∧ c ≤ 0x39 then some (c.toNat - 0x30)
  else if 0x61 ≤ c ∧ c ≤ 0x66 then some (c.toNat - 0x57)
  else if 0x41 ≤ c ∧ c ≤ 0x46 then some (c.toNat - 0x37)
  else none

/-- `\uXXXX`. -/
def unicodeEscape : JsString :=
  [0x5C, 0x75, hexDigit (c.toNat / 4096), hexDigit (c.toNat / 256 % 16),
    hexDigit (c.toNat / 16 % 16), hexDigit (c.toNat % 16)]

/-- A code unit that is not part of a surrogate pair, inside a string literal. -/
def escapeUnit : JsString :=
  if c = 0x22 then js "\\\""
  else if c = 0x5C then js "\\\\"
  else if c = 0x08 then js "\\b"
  else if c = 0x0C then js "\\f"
  else if c = 0x0A then js "\\n"
  else if c = 0x0D then js "\\r"
  else if c = 0x09 then js "\\t"
  else if c < 0x20 ∨ isHighSurrogate c ∨ isLowSurrogate c then unicodeEscape c
  else [c]

end

/-- The code units of a string literal; a surrogate pair stays as it is. -/
def escape : JsString → JsString
  | [] => []
  | [c] => escapeUnit c
  | c :: d :: s =>
    if isHighSurrogate c && isLowSurrogate d then c :: d :: escape s
    else escapeUnit c ++ escape (d :: s)

def quote (s : JsString) : JsString := 0x22 :: (escape s ++ [0x22])

def unescape (c : CodeUnit) : Option CodeUnit :=
  if c = 0x22 ∨ c = 0x5C ∨ c = 0x2F then some c
  else if c = 0x62 then some 0x08
  else if c = 0x66 then some 0x0C
  else if c = 0x6E then some 0x0A
  else if c = 0x72 then some 0x0D
  else if c = 0x74 then some 0x09
  else none

def hexUnit (a b c d : CodeUnit) : Option CodeUnit := do
  let a ← hexValue a
  let b ← hexValue b
  let c ← hexValue c
  let d ← hexValue d
  some (UInt16.ofNat (4096 * a + 256 * b + 16 * c + d))

/-- Prepend a code unit to the string that was read. -/
def consUnit (c : CodeUnit) (p : JsString × JsString) : JsString × JsString := (c :: p.1, p.2)

/-- The rest of a string literal, and what follows it. -/
def parseString : JsString → Option (JsString × JsString)
  | [] => none
  | 0x22 :: s => some ([], s)
  | 0x5C :: 0x75 :: a :: b :: c :: d :: s =>
    (hexUnit a b c d).bind fun u => (parseString s).map (consUnit u)
  | 0x5C :: c :: s => (unescape c).bind fun u => (parseString s).map (consUnit u)
  | c :: s => if c < 0x20 ∨ c = 0x5C then none else (parseString s).map (consUnit c)

theorem hexValue_hexDigit : ∀ n < 16, hexValue (hexDigit n) = some n := by decide

theorem hexUnit_unicodeEscape (c : CodeUnit) :
    hexUnit (hexDigit (c.toNat / 4096)) (hexDigit (c.toNat / 256 % 16))
      (hexDigit (c.toNat / 16 % 16)) (hexDigit (c.toNat % 16)) = some c := by
  have hc := c.toNat_lt
  simp only [hexUnit, hexValue_hexDigit (c.toNat / 4096) (by omega),
    hexValue_hexDigit (c.toNat / 256 % 16) (by omega),
    hexValue_hexDigit (c.toNat / 16 % 16) (by omega), hexValue_hexDigit (c.toNat % 16) (by omega),
    bind, Option.bind, Option.some.injEq]
  rw [show 4096 * (c.toNat / 4096) + 256 * (c.toNat / 256 % 16) + 16 * (c.toNat / 16 % 16) +
    c.toNat % 16 = c.toNat by omega]
  exact UInt16.ofNat_toNat

theorem parseString_cons {c : CodeUnit} (hquote : c ≠ 0x22) (hslash : c ≠ 0x5C)
    (hcontrol : ¬ c < 0x20) (s : JsString) :
    parseString (c :: s) = (parseString s).map (consUnit c) := by
  rw [parseString.eq_def]
  split
  · contradiction
  · rename_i heq
    exact absurd (List.cons.inj heq).1 hquote
  · rename_i heq
    exact absurd (List.cons.inj heq).1 hslash
  · rename_i heq
    exact absurd (List.cons.inj heq).1 hslash
  · rename_i heq
    obtain ⟨rfl, rfl⟩ := List.cons.inj heq
    rw [if_neg (by simp [hcontrol, hslash])]

theorem parseString_unicodeEscape (c : CodeUnit) (s : JsString) :
    parseString (unicodeEscape c ++ s) = (parseString s).map (consUnit c) := by
  simp only [unicodeEscape, cons_append, nil_append, parseString,
    hexUnit_unicodeEscape, bind_some]

theorem parseString_escapeUnit (c : CodeUnit) (s : JsString) :
    parseString (escapeUnit c ++ s) = (parseString s).map (consUnit c) := by
  unfold escapeUnit
  split_ifs with h₁ h₂ h₃ h₄ h₅ h₆ h₇ h₈
  · subst h₁
    rfl
  · subst h₂
    rfl
  · subst h₃
    rfl
  · subst h₄
    rfl
  · subst h₅
    rfl
  · subst h₆
    rfl
  · subst h₇
    rfl
  · exact parseString_unicodeEscape c s
  · rw [not_or] at h₈
    exact parseString_cons h₁ h₂ h₈.1 s

theorem le_of_surrogate {c : CodeUnit} (h : isHighSurrogate c = true ∨ isLowSurrogate c = true) :
    0xD800 ≤ c.toNat := by
  rcases h with h | h
  · simp only [isHighSurrogate, Bool.and_eq_true, decide_eq_true_eq] at h
    exact UInt16.le_iff_toNat_le.mp h.1
  · simp only [isLowSurrogate, Bool.and_eq_true, decide_eq_true_eq] at h
    exact le_trans (by decide) (UInt16.le_iff_toNat_le.mp h.1)

theorem parseString_surrogate {c : CodeUnit} (h : isHighSurrogate c = true ∨ isLowSurrogate c = true)
    (s : JsString) : parseString (c :: s) = (parseString s).map (consUnit c) := by
  have hle := le_of_surrogate h
  refine parseString_cons ?_ ?_ ?_ s
  · rintro rfl
    exact absurd hle (by decide)
  · rintro rfl
    exact absurd hle (by decide)
  · intro hlt
    have : c.toNat < 0x20 := UInt16.lt_iff_toNat_lt.mp hlt
    omega

theorem parseString_escape (s rest : JsString) :
    parseString (escape s ++ 0x22 :: rest) = some (s, rest) := by
  induction s using escape.induct with
  | case1 => rfl
  | case2 c =>
    rw [escape, parseString_escapeUnit]
    rfl
  | case3 c d s hpair ih =>
    rw [Bool.and_eq_true] at hpair
    rw [escape, if_pos (by simp [hpair]), cons_append, cons_append,
      parseString_surrogate (.inl hpair.1), parseString_surrogate (.inr hpair.2), ih]
    rfl
  | case4 c d s hpair ih =>
    rw [escape, if_neg hpair, append_assoc, parseString_escapeUnit, ih]
    rfl

namespace Tree

mutual

/-- `JSON.stringify(value)`. -/
def print : Tree → JsString
  | null => js "null"
  | bool b => if b then js "true" else js "false"
  | num n => n.toString
  | str s => quote s
  | arr [] => js "[]"
  | arr (x :: xs) => 0x5B :: (print x ++ printElements xs)
  | obj [] => js "\x7b\x7d"
  | obj ((k, x) :: ms) => 0x7B :: (quote k ++ 0x3A :: (print x ++ printMembers ms))

def printElements : List Tree → JsString
  | [] => [0x5D]
  | x :: xs => 0x2C :: (print x ++ printElements xs)

def printMembers : List (JsString × Tree) → JsString
  | [] => [0x7D]
  | (k, x) :: ms => 0x2C :: (quote k ++ 0x3A :: (print x ++ printMembers ms))

end

end Tree

def isJsonWhitespace (c : CodeUnit) : Bool := c == 0x20 || c == 0x09 || c == 0x0A || c == 0x0D

def skipWhitespace (s : JsString) : JsString := s.dropWhile isJsonWhitespace

/-- What follows a literal, when the text starts with it. -/
def afterLiteral (literal s : JsString) : Option JsString :=
  if s.take literal.length = literal then some (s.drop literal.length) else none

/-- `null`, a truth value or a number. -/
def parseScalar (s : JsString) : Option (Tree × JsString) :=
  ((afterLiteral (js "null") s).map (Tree.null, ·)).or <|
    ((afterLiteral (js "true") s).map (Tree.bool true, ·)).or <|
      ((afterLiteral (js "false") s).map (Tree.bool false, ·)).or <|
        (Decimal.parse s).map fun p => (.num p.1, p.2)

def parseKey (s : JsString) : Option (JsString × JsString) :=
  match skipWhitespace s with
  | [] => none
  | c :: s =>
    if c ≠ 0x22 then none
    else
      (parseString s).bind fun p =>
        match skipWhitespace p.2 with
        | [] => none
        | d :: s => if d = 0x3A then some (p.1, s) else none

mutual

/-- The value at the start of a text, and what follows it. -/
def parseValue : Nat → JsString → Option (Tree × JsString)
  | 0, _ => none
  | fuel + 1, s =>
    match skipWhitespace s with
    | [] => none
    | c :: s =>
      if c = 0x22 then (parseString s).map fun p => (.str p.1, p.2)
      else if c = 0x5B then
        match skipWhitespace s with
        | [] => none
        | d :: s =>
          if d = 0x5D then some (.arr [], s)
          else
            (parseValue fuel (d :: s)).bind fun p =>
              (parseElements fuel p.2).map fun q => (.arr (p.1 :: q.1), q.2)
      else if c = 0x7B then
        match skipWhitespace s with
        | [] => none
        | d :: s =>
          if d = 0x7D then some (.obj [], s)
          else
            (parseKey (d :: s)).bind fun k => (parseValue fuel k.2).bind fun p =>
              (parseMembers fuel [(k.1, p.1)] p.2).map fun q => (.obj q.1, q.2)
      else parseScalar (c :: s)

def parseElements : Nat → JsString → Option (List Tree × JsString)
  | 0, _ => none
  | fuel + 1, s =>
    match skipWhitespace s with
    | [] => none
    | c :: s =>
      if c = 0x5D then some ([], s)
      else if c = 0x2C then
        (parseValue fuel s).bind fun p =>
          (parseElements fuel p.2).map fun q => (p.1 :: q.1, q.2)
      else none

/-- The members of an object after those already defined. -/
def parseMembers : Nat → List (JsString × Tree) → JsString →
    Option (List (JsString × Tree) × JsString)
  | 0, _, _ => none
  | fuel + 1, ms, s =>
    match skipWhitespace s with
    | [] => none
    | c :: s =>
      if c = 0x7D then some (ms, s)
      else if c = 0x2C then
        (parseKey s).bind fun k => (parseValue fuel k.2).bind fun p =>
          parseMembers fuel (setMember k.1 p.1 ms) p.2
      else none

end

/-- `JSON.parse(text)` before the order of members is known. -/
def parseTree (s : JsString) : Option Tree :=
  (parseValue (s.length + 1) s).bind fun p => if skipWhitespace p.2 = [] then some p.1 else none

/-- The text starts with a code unit that is neither white space nor a closing bracket. -/
def StartsValue (s : JsString) : Prop :=
  ∃ c cs, s = c :: cs ∧ isJsonWhitespace c = false ∧ c ≠ 0x5D ∧ c ≠ 0x7D

theorem StartsValue.append {s : JsString} (h : StartsValue s) (t : JsString) :
    StartsValue (s ++ t) := by
  obtain ⟨c, cs, rfl, hc⟩ := h
  exact ⟨c, cs ++ t, rfl, hc⟩

theorem StartsValue.skipWhitespace {s : JsString} (h : StartsValue s) : skipWhitespace s = s := by
  obtain ⟨c, cs, rfl, hc, _⟩ := h
  simp [Json.skipWhitespace, hc]

theorem toString_head (x : Decimal) : ∃ c cs, x.toString = c :: cs ∧ (c = 0x2D ∨ isDigit c = true) := by
  have hwf := x.numeral_wellFormed
  obtain ⟨c, cs, hint⟩ := exists_cons_of_ne_nil hwf.int_ne_nil
  cases hneg : x.numeral.neg with
  | true =>
    refine ⟨0x2D, x.toString.tail, ?_, .inl rfl⟩
    simp only [Decimal.toString, Numeral.text, hneg, ite_true, append_assoc]
    rfl
  | false =>
    refine ⟨c, x.toString.tail, ?_, .inr (hwf.int_digits c (by simp [hint]))⟩
    simp only [Decimal.toString, Numeral.text, hneg, Bool.false_eq_true, ite_false,
      nil_append, hint, cons_append, tail_cons]

/-- A minus sign and a digit are none of the other code units a value starts with. -/
theorem ne_of_numeral_head {c : CodeUnit} (h : c = 0x2D ∨ isDigit c = true) :
    isJsonWhitespace c = false ∧ c ≠ 0x22 ∧ c ≠ 0x5B ∧ c ≠ 0x5D ∧ c ≠ 0x7B ∧ c ≠ 0x7D ∧
      c ≠ 0x6E ∧ c ≠ 0x74 ∧ c ≠ 0x66 := by
  rcases h with rfl | h
  · decide
  · refine ⟨?_, ?_, ?_, ?_, ?_, ?_, ?_, ?_, ?_⟩
    · simp only [isJsonWhitespace, Bool.or_eq_false_iff, beq_eq_false_iff_ne]
      refine ⟨⟨⟨?_, ?_⟩, ?_⟩, ?_⟩ <;> (rintro rfl; exact absurd h (by decide))
    all_goals (rintro rfl; exact absurd h (by decide))

theorem startsValue_print (t : Tree) : StartsValue t.print := by
  cases t with
  | null => exact ⟨0x6E, js "ull", rfl, by decide, by decide, by decide⟩
  | bool b =>
    cases b with
    | true => exact ⟨0x74, js "rue", rfl, by decide, by decide, by decide⟩
    | false => exact ⟨0x66, js "alse", rfl, by decide, by decide, by decide⟩
  | num n =>
    obtain ⟨c, cs, hprint, hc⟩ := toString_head n
    obtain ⟨hws, _, _, hbracket, _, hbrace, _⟩ := ne_of_numeral_head hc
    exact ⟨c, cs, by rw [Tree.print, hprint], hws, hbracket, hbrace⟩
  | str s => exact ⟨0x22, _, by rw [Tree.print, quote], by decide, by decide, by decide⟩
  | arr xs =>
    cases xs with
    | nil => exact ⟨0x5B, js "]", by rw [Tree.print]; rfl, by decide, by decide, by decide⟩
    | cons x xs => exact ⟨0x5B, _, by rw [Tree.print], by decide, by decide, by decide⟩
  | obj ms =>
    cases ms with
    | nil => exact ⟨0x7B, js "\x7d", by rw [Tree.print]; rfl, by decide, by decide, by decide⟩
    | cons m ms => exact ⟨0x7B, _, by rw [Tree.print], by decide, by decide, by decide⟩

theorem print_ne_nil (t : Tree) : t.print ≠ [] := by
  obtain ⟨c, cs, h, _⟩ := startsValue_print t
  rw [h]
  exact cons_ne_nil c cs

theorem afterLiteral_append (literal rest : JsString) :
    afterLiteral literal (literal ++ rest) = some rest := by
  simp [afterLiteral]

theorem afterLiteral_of_head {l c : CodeUnit} (h : c ≠ l) (ls cs : JsString) :
    afterLiteral (l :: ls) (c :: cs) = none := by
  rw [afterLiteral, if_neg]
  simp [h]

theorem parseScalar_numeral {s : JsString} {c : CodeUnit} (cs : JsString) (hs : s = c :: cs)
    (hc : c = 0x2D ∨ isDigit c = true) :
    parseScalar s = (Decimal.parse s).map fun p => (.num p.1, p.2) := by
  obtain ⟨_, _, _, _, _, _, hn, ht, hf⟩ := ne_of_numeral_head hc
  subst hs
  have hnull : afterLiteral (js "null") (c :: cs) = none := afterLiteral_of_head hn _ _
  have htrue : afterLiteral (js "true") (c :: cs) = none := afterLiteral_of_head ht _ _
  have hfalse : afterLiteral (js "false") (c :: cs) = none := afterLiteral_of_head hf _ _
  simp only [parseScalar, hnull, htrue, hfalse, map_none, none_or]

section

variable (fuel : Nat)

theorem parseValue_scalar {c : CodeUnit} (cs : JsString)
    (hws : isJsonWhitespace c = false) (hquote : c ≠ 0x22) (hbracket : c ≠ 0x5B)
    (hbrace : c ≠ 0x7B) : parseValue (fuel + 1) (c :: cs) = parseScalar (c :: cs) := by
  have hskip : skipWhitespace (c :: cs) = c :: cs := by simp [skipWhitespace, hws]
  simp only [parseValue, hskip, if_neg hquote, if_neg hbracket, if_neg hbrace]

theorem parseValue_string (s rest : JsString) :
    parseValue (fuel + 1) (quote s ++ rest) = some (.str s, rest) := by
  have hquote : quote s ++ rest = 0x22 :: (escape s ++ 0x22 :: rest) := by simp [quote]
  have hskip : skipWhitespace (0x22 :: (escape s ++ 0x22 :: rest)) =
      0x22 :: (escape s ++ 0x22 :: rest) := rfl
  simp only [hquote, parseValue, hskip, ite_true, parseString_escape, map_some]

theorem parseValue_array {s : JsString} (h : StartsValue s) :
    parseValue (fuel + 1) (0x5B :: s) = (parseValue fuel s).bind fun p =>
        (parseElements fuel p.2).map fun q => (.arr (p.1 :: q.1), q.2) := by
  have hskip : skipWhitespace (0x5B :: s) = 0x5B :: s := rfl
  have hskip' := h.skipWhitespace
  obtain ⟨c, cs, rfl, _, hbracket, _⟩ := h
  simp only [parseValue, hskip, hskip', if_neg (by decide : (0x5B : CodeUnit) ≠ 0x22), ite_true,
    if_neg hbracket]

theorem parseElements_cons (s : JsString) : parseElements (fuel + 1) (0x2C :: s) =
      (parseValue fuel s).bind fun p =>
        (parseElements fuel p.2).map fun q => (p.1 :: q.1, q.2) := by
  have hskip : skipWhitespace (0x2C :: s) = 0x2C :: s := rfl
  simp only [parseElements, hskip, if_neg (by decide : (0x2C : CodeUnit) ≠ 0x5D), ite_true]

theorem parseValue_object {s : JsString} (h : StartsValue s) :
    parseValue (fuel + 1) (0x7B :: s) =
      (parseKey s).bind fun k => (parseValue fuel k.2).bind fun p =>
        (parseMembers fuel [(k.1, p.1)] p.2).map fun q => (.obj q.1, q.2) := by
  have hskip : skipWhitespace (0x7B :: s) = 0x7B :: s := rfl
  have hskip' := h.skipWhitespace
  obtain ⟨c, cs, rfl, _, _, hbrace⟩ := h
  simp only [parseValue, hskip, hskip', if_neg (by decide : (0x7B : CodeUnit) ≠ 0x22),
    if_neg (by decide : (0x7B : CodeUnit) ≠ 0x5B), ite_true, if_neg hbrace]

theorem parseMembers_cons (ms : List (JsString × Tree)) (s : JsString) :
    parseMembers (fuel + 1) ms (0x2C :: s) =
      (parseKey s).bind fun k => (parseValue fuel k.2).bind fun p =>
        parseMembers fuel (setMember k.1 p.1 ms) p.2 := by
  have hskip : skipWhitespace (0x2C :: s) = 0x2C :: s := rfl
  simp only [parseMembers, hskip, if_neg (by decide : (0x2C : CodeUnit) ≠ 0x7D), ite_true]

end

theorem parseKey_quote (k s : JsString) : parseKey (quote k ++ 0x3A :: s) = some (k, s) := by
  have hquote : quote k ++ 0x3A :: s = 0x22 :: (escape k ++ 0x22 :: 0x3A :: s) := by
    simp [quote]
  have hskip : skipWhitespace (0x22 :: (escape k ++ 0x22 :: 0x3A :: s)) =
      0x22 :: (escape k ++ 0x22 :: 0x3A :: s) := rfl
  have hskip' : skipWhitespace (0x3A :: s) = 0x3A :: s := rfl
  simp only [parseKey, hquote, hskip, ne_eq, not_true_eq_false, ite_false, parseString_escape,
    bind_some, hskip', ite_true]

theorem endsNumeral_cons {c : CodeUnit} (s : JsString)
    (hc : isDigit c = false ∧ c ≠ 0x2E ∧ c ≠ 0x65 ∧ c ≠ 0x45) : Numeral.EndsNumeral (c :: s) := by
  intro d hd
  cases hd
  exact hc

theorem endsNumeral_printElements (xs : List Tree) (s : JsString) :
    Numeral.EndsNumeral (Tree.printElements xs ++ s) := by
  cases xs with
  | nil => exact endsNumeral_cons s (by decide)
  | cons x xs =>
    rw [Tree.printElements, cons_append]
    exact endsNumeral_cons _ (by decide)

theorem endsNumeral_printMembers (ms : List (JsString × Tree)) (s : JsString) :
    Numeral.EndsNumeral (Tree.printMembers ms ++ s) := by
  cases ms with
  | nil => exact endsNumeral_cons s (by decide)
  | cons m ms =>
    rw [Tree.printMembers, cons_append]
    exact endsNumeral_cons _ (by decide)

mutual

theorem parseValue_print : (t : Tree) → (fuel : Nat) → (rest : JsString) → t.ordered = true →
    t.print.length ≤ fuel → Numeral.EndsNumeral rest →
      parseValue fuel (t.print ++ rest) = some (t, rest)
  | t, 0, _, _, hfuel, _ => absurd (length_eq_zero_iff.mp (Nat.le_zero.mp hfuel)) (print_ne_nil t)
  | .null, fuel + 1, rest, _, _, _ => by
    rw [Tree.print]
    change parseValue (fuel + 1) (0x6E :: (js "ull" ++ rest)) = _
    rw [parseValue_scalar fuel _ (by decide) (by decide) (by decide) (by decide)]
    change parseScalar (js "null" ++ rest) = _
    rw [parseScalar, afterLiteral_append]
    rfl
  | .bool true, fuel + 1, rest, _, _, _ => by
    rw [Tree.print, if_pos rfl]
    change parseValue (fuel + 1) (0x74 :: (js "rue" ++ rest)) = _
    rw [parseValue_scalar fuel _ (by decide) (by decide) (by decide) (by decide)]
    have hnull : afterLiteral (js "null") (0x74 :: (js "rue" ++ rest)) = none :=
      afterLiteral_of_head (by decide) _ _
    have htrue : afterLiteral (js "true") (0x74 :: (js "rue" ++ rest)) = some rest :=
      afterLiteral_append (js "true") rest
    rw [parseScalar, hnull, htrue]
    rfl
  | .bool false, fuel + 1, rest, _, _, _ => by
    rw [Tree.print, if_neg Bool.false_ne_true]
    change parseValue (fuel + 1) (0x66 :: (js "alse" ++ rest)) = _
    rw [parseValue_scalar fuel _ (by decide) (by decide) (by decide) (by decide)]
    have hnull : afterLiteral (js "null") (0x66 :: (js "alse" ++ rest)) = none :=
      afterLiteral_of_head (by decide) _ _
    have htrue : afterLiteral (js "true") (0x66 :: (js "alse" ++ rest)) = none :=
      afterLiteral_of_head (by decide) _ _
    have hfalse : afterLiteral (js "false") (0x66 :: (js "alse" ++ rest)) = some rest :=
      afterLiteral_append (js "false") rest
    rw [parseScalar, hnull, htrue, hfalse]
    rfl
  | .num n, fuel + 1, rest, _, _, hrest => by
    obtain ⟨c, cs, hprint, hc⟩ := toString_head n
    obtain ⟨hws, hquote, hbracket, _, hbrace, _⟩ := ne_of_numeral_head hc
    have htext : n.toString ++ rest = c :: (cs ++ rest) := by rw [hprint, cons_append]
    rw [Tree.print, htext, parseValue_scalar fuel _ hws hquote hbracket hbrace, ← htext,
      parseScalar_numeral _ htext hc, Decimal.parse_toString n hrest]
    rfl
  | .str s, fuel + 1, rest, _, _, _ => by
    rw [Tree.print, parseValue_string]
  | .arr [], fuel + 1, rest, _, _, _ => by
    rw [Tree.print]
    rfl
  | .arr (x :: xs), fuel + 1, rest, hordered, hfuel, _ => by
    simp only [Tree.ordered, Tree.orderedList, Bool.and_eq_true] at hordered
    simp only [Tree.print, length_cons, length_append] at hfuel
    rw [Tree.print, cons_append, append_assoc,
      parseValue_array fuel ((startsValue_print x).append _),
      parseValue_print x fuel _ hordered.1 (by omega) (endsNumeral_printElements xs rest),
      bind_some, parseElements_print xs fuel rest hordered.2 (by omega)]
    rfl
  | .obj [], fuel + 1, rest, _, _, _ => by
    rw [Tree.print]
    rfl
  | .obj ((k, x) :: ms), fuel + 1, rest, hordered, hfuel, _ => by
    simp only [Tree.ordered, Tree.orderedMembers, Bool.and_eq_true, decide_eq_true_eq] at hordered
    simp only [Tree.print, length_cons, length_append] at hfuel
    have hstart : StartsValue (quote k ++ 0x3A :: (x.print ++ (Tree.printMembers ms ++ rest))) :=
      ⟨0x22, _, by rw [quote]; rfl, by decide, by decide, by decide⟩
    rw [Tree.print, cons_append, append_assoc, cons_append, append_assoc,
      parseValue_object fuel hstart, parseKey_quote, bind_some,
      parseValue_print x fuel _ hordered.2.1 (by omega) (endsNumeral_printMembers ms rest),
      bind_some, parseMembers_print ms fuel [(k, x)] rest hordered.1 hordered.2.2 (by omega)]
    rfl

theorem parseElements_print : (xs : List Tree) → (fuel : Nat) → (rest : JsString) →
    Tree.orderedList xs = true → (Tree.printElements xs).length ≤ fuel →
      parseElements fuel (Tree.printElements xs ++ rest) = some (xs, rest)
  | [], 0, _, _, hfuel => by simp [Tree.printElements] at hfuel
  | _ :: _, 0, _, _, hfuel => by simp [Tree.printElements] at hfuel
  | [], fuel + 1, rest, _, _ => by
    rw [Tree.printElements]
    rfl
  | x :: xs, fuel + 1, rest, hordered, hfuel => by
    simp only [Tree.orderedList, Bool.and_eq_true] at hordered
    simp only [Tree.printElements, length_cons, length_append] at hfuel
    rw [Tree.printElements, cons_append, append_assoc, parseElements_cons,
      parseValue_print x fuel _ hordered.1 (by omega) (endsNumeral_printElements xs rest),
      bind_some, parseElements_print xs fuel rest hordered.2 (by omega)]
    rfl

theorem parseMembers_print : (ms : List (JsString × Tree)) → (fuel : Nat) →
    (done : List (JsString × Tree)) → (rest : JsString) →
      KeysOrdered ((done ++ ms).map Prod.fst) → Tree.orderedMembers ms = true →
        (Tree.printMembers ms).length ≤ fuel →
          parseMembers fuel done (Tree.printMembers ms ++ rest) = some (done ++ ms, rest)
  | [], 0, _, _, _, _, hfuel => by simp [Tree.printMembers] at hfuel
  | _ :: _, 0, _, _, _, _, hfuel => by simp [Tree.printMembers] at hfuel
  | [], fuel + 1, done, rest, _, _, _ => by
    rw [Tree.printMembers, append_nil]
    rfl
  | (k, x) :: ms, fuel + 1, done, rest, hkeys, hordered, hfuel => by
    simp only [Tree.orderedMembers, Bool.and_eq_true] at hordered
    simp only [Tree.printMembers, length_cons, length_append] at hfuel
    have hset : setMember k x done = done ++ [(k, x)] := by
      refine setMember_eq_append fun l hl => ?_
      rw [KeysOrdered, map_append, pairwise_append] at hkeys
      exact hkeys.2.2 l hl k mem_cons_self
    have happend : done ++ (k, x) :: ms = done ++ [(k, x)] ++ ms := by simp
    rw [happend] at hkeys ⊢
    rw [Tree.printMembers, cons_append, append_assoc, cons_append,
      append_assoc, parseMembers_cons, parseKey_quote, bind_some,
      parseValue_print x fuel _ hordered.1 (by omega) (endsNumeral_printMembers ms rest),
      bind_some, hset,
      parseMembers_print ms fuel (done ++ [(k, x)]) rest hkeys hordered.2 (by omega)]

end

theorem parseTree_print {t : Tree} (h : t.ordered = true) : parseTree t.print = some t := by
  have hparse := parseValue_print t (t.print.length + 1) [] h (Nat.le_succ _)
    (fun c hc => absurd hc (by simp))
  rw [append_nil] at hparse
  rw [parseTree, hparse]
  rfl

mutual

theorem ordered_of_parseValue : (fuel : Nat) → (s : JsString) → (p : Tree × JsString) →
    parseValue fuel s = some p → p.1.ordered = true
  | 0, _, _, h => absurd h (by simp [parseValue])
  | fuel + 1, s, p, h => by
    rw [parseValue] at h
    split at h
    · contradiction
    · split_ifs at h
      · obtain ⟨q, _, rfl⟩ := map_eq_some_iff.mp h
        rfl
      · split at h
        · contradiction
        · split_ifs at h
          · cases h
            rfl
          · obtain ⟨x, hx, h⟩ := bind_eq_some_iff.mp h
            obtain ⟨xs, hxs, rfl⟩ := map_eq_some_iff.mp h
            simp only [Tree.ordered, Tree.orderedList, Bool.and_eq_true]
            exact ⟨ordered_of_parseValue fuel _ x hx, ordered_of_parseElements fuel _ xs hxs⟩
      · split at h
        · contradiction
        · split_ifs at h
          · cases h
            rfl
          · obtain ⟨k, _, h⟩ := bind_eq_some_iff.mp h
            obtain ⟨x, hx, h⟩ := bind_eq_some_iff.mp h
            obtain ⟨ms, hms, rfl⟩ := map_eq_some_iff.mp h
            have hfirst : Tree.ordered (.obj [(k.1, x.1)]) = true := by
              simp only [Tree.ordered, Tree.orderedMembers, KeysOrdered, map_cons,
                map_nil, pairwise_singleton, decide_true, Bool.true_and, Bool.and_true]
              exact ordered_of_parseValue fuel _ x hx
            exact ordered_of_parseMembers fuel _ _ ms hfirst hms
      · simp only [parseScalar, or_eq_some_iff, map_eq_some_iff] at h
        rcases h with ⟨_, _, rfl⟩ | ⟨_, ⟨_, _, rfl⟩ | ⟨_, ⟨_, _, rfl⟩ | ⟨_, _, _, rfl⟩⟩⟩ <;> rfl

theorem ordered_of_parseElements : (fuel : Nat) → (s : JsString) → (p : List Tree × JsString) →
    parseElements fuel s = some p → Tree.orderedList p.1 = true
  | 0, _, _, h => absurd h (by simp [parseElements])
  | fuel + 1, s, p, h => by
    rw [parseElements] at h
    split at h
    · contradiction
    · split_ifs at h
      · cases h
        rfl
      · obtain ⟨x, hx, h⟩ := bind_eq_some_iff.mp h
        obtain ⟨xs, hxs, rfl⟩ := map_eq_some_iff.mp h
        simp only [Tree.orderedList, Bool.and_eq_true]
        exact ⟨ordered_of_parseValue fuel _ x hx, ordered_of_parseElements fuel _ xs hxs⟩

theorem ordered_of_parseMembers : (fuel : Nat) → (ms : List (JsString × Tree)) →
    (s : JsString) → (p : List (JsString × Tree) × JsString) →
      Tree.ordered (.obj ms) = true → parseMembers fuel ms s = some p →
        Tree.ordered (.obj p.1) = true
  | 0, _, _, _, _, h => absurd h (by simp [parseMembers])
  | fuel + 1, ms, s, p, hms, h => by
    rw [parseMembers] at h
    split at h
    · contradiction
    · split_ifs at h
      · cases h
        exact hms
      · obtain ⟨k, _, h⟩ := bind_eq_some_iff.mp h
        obtain ⟨x, hx, h⟩ := bind_eq_some_iff.mp h
        exact ordered_of_parseMembers fuel _ _ p
          (Tree.ordered_setMember hms (ordered_of_parseValue fuel _ x hx)) h

end

theorem ordered_of_parseTree {s : JsString} {t : Tree} (h : parseTree s = some t) :
    t.ordered = true := by
  obtain ⟨p, hp, h⟩ := bind_eq_some_iff.mp h
  split at h
  · cases h
    exact ordered_of_parseValue _ s p hp
  · contradiction

end Json

/-- `JSON.stringify(value)`. -/
def Json.stringify (j : Json) : JsString := j.tree.print

/-- `JSON.parse(text)`, without a value for a text that is not JSON. -/
def Json.parse (s : JsString) : Option Json :=
  match h : parseTree s with
  | some t => some ⟨t, ordered_of_parseTree h⟩
  | none => none

theorem Json.parse_stringify (j : Json) : Json.parse j.stringify = some j := by
  unfold parse
  split
  · rename_i t h
    have := parseTree_print j.ordered
    rw [Json.stringify] at h
    rw [h] at this
    obtain ⟨t', ht'⟩ := j
    cases this
    rfl
  · rename_i h
    have := parseTree_print j.ordered
    rw [Json.stringify] at h
    rw [h] at this
    contradiction

theorem Json.stringify_injective : Function.Injective Json.stringify := by
  intro a b h
  have hparse := congrArg Json.parse h
  rw [Json.parse_stringify, Json.parse_stringify] at hparse
  exact some.inj hparse

end AcademicAgent
