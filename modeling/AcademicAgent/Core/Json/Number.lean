import AcademicAgent.Core.JsString
import Mathlib.Tactic.NormNum
import Mathlib.Tactic.Ring

/-!
# Numbers and numerals

A finite number is the decimal with the fewest digits that denotes it.
-/

namespace AcademicAgent

open List Option

variable {rest : JsString}

/-- A finite number `mantissa * 10 ^ exponent` without trailing zero digits. -/
structure Decimal where
  /-- The signed digits. -/
  mantissa : Int
  /-- The power of ten they are scaled by. -/
  exponent : Int
  /-- No trailing zero, and one representation of zero. -/
  normal : mantissa % 10 ≠ 0 ∨ mantissa = 0 ∧ exponent = 0
  deriving DecidableEq

namespace Decimal

/-- Move trailing zero digits of a mantissa to the exponent; `fuel` bounds their number. -/
def strip : Nat → Nat → Int → Nat × Int
  | 0, m, e => (m, e)
  | fuel + 1, m, e => if m % 10 = 0 then strip fuel (m / 10) (e + 1) else (m, e)

theorem strip_mod {fuel m : Nat} (hm : 0 < m) (hf : m ≤ fuel) (e : Int) :
    (strip fuel m e).1 % 10 ≠ 0 := by
  induction fuel generalizing m e with
  | zero => omega
  | succ fuel ih =>
    by_cases hz : m % 10 = 0
    · simp only [strip, hz, ite_true]
      exact ih (by omega) (by omega) _
    · rw [strip, if_neg hz]
      exact hz

/-- The decimal of a sign, digits and a power of ten. -/
def make (neg : Bool) (m : Nat) (e : Int) : Decimal :=
  if hm : m = 0 then ⟨0, 0, Or.inr ⟨rfl, rfl⟩⟩
  else
    have hs : (strip m m e).1 % 10 ≠ 0 := strip_mod (Nat.pos_of_ne_zero hm) le_rfl e
    if neg then ⟨-((strip m m e).1 : Int), (strip m m e).2, Or.inl (by omega)⟩
    else ⟨(strip m m e).1, (strip m m e).2, Or.inl (by omega)⟩

def ofInt (n : Int) : Decimal := make (decide (n < 0)) n.natAbs 0

end Decimal

structure Numeral where
  /-- Whether it starts with a minus sign. -/
  neg : Bool
  /-- The digits before the point. -/
  int : JsString
  /-- The digits after the point, none when there is no point. -/
  frac : JsString
  /-- The power of ten after the `e`. -/
  exp : Option Int

def isDigit (c : CodeUnit) : Bool := 0x30 ≤ c && c ≤ 0x39

/-- `String(n)` for a natural number. -/
def decimalText (n : Nat) : JsString := (Nat.toDigits 10 n).map fun c => UInt16.ofNat c.toNat

def digitsValue (s : JsString) : Nat := s.foldl (fun n c => 10 * n + (c.toNat - 0x30)) 0

namespace Numeral

/-- The text of an exponent, which always carries a sign. -/
def expText (e : Int) : JsString :=
  js "e" ++ (if e < 0 then js "-" else js "+") ++ decimalText e.natAbs

def text (n : Numeral) : JsString :=
  (if n.neg then js "-" else []) ++ n.int ++ (if n.frac = [] then [] else js "." ++ n.frac) ++
    (n.exp.map expText).getD []

def value (n : Numeral) : Decimal :=
  .make n.neg (digitsValue (n.int ++ n.frac)) (n.exp.getD 0 - n.frac.length)

/-- What the grammar asks of the digits: there is one before the point, and no leading zero. -/
structure WellFormed (n : Numeral) : Prop where
  int_ne_nil : n.int ≠ []
  int_digits : ∀ c ∈ n.int, isDigit c = true
  int_zero : n.int.head? = some 0x30 → n.int.length = 1
  frac_digits : ∀ c ∈ n.frac, isDigit c = true

end Numeral

theorem toNat_ofNat_of_isDigit {c : Char} (h : c.isDigit = true) :
    (UInt16.ofNat c.toNat).toNat = c.toNat := by
  simp only [Char.isDigit, Bool.and_eq_true, decide_eq_true_eq] at h
  have h9 : c.toNat ≤ 57 := h.2
  rw [UInt16.toNat_ofNat']
  omega

theorem isDigit_ofNat {c : Char} (h : c.isDigit = true) : isDigit (UInt16.ofNat c.toNat) = true := by
  have hnat := toNat_ofNat_of_isDigit h
  simp only [Char.isDigit, Bool.and_eq_true, decide_eq_true_eq] at h
  have h0 : 48 ≤ c.toNat := h.1
  have h9 : c.toNat ≤ 57 := h.2
  simp only [isDigit, Bool.and_eq_true, decide_eq_true_eq, UInt16.le_iff_toNat_le, hnat]
  exact ⟨h0, h9⟩

theorem isDigit_of_mem_decimalText {n : Nat} : ∀ c ∈ decimalText n, isDigit c = true := by
  intro c hc
  obtain ⟨d, hd, rfl⟩ := mem_map.mp hc
  exact isDigit_ofNat (Nat.isDigit_of_mem_toDigits (by decide) (by decide) hd)

theorem decimalText_ne_nil (n : Nat) : decimalText n ≠ [] := by
  rw [decimalText, ne_eq, map_eq_nil_iff]
  exact Nat.toDigits_ne_nil

theorem digitsValue_append (s t : JsString) :
    digitsValue (s ++ t) = t.foldl (fun n c => 10 * n + (c.toNat - 0x30)) (digitsValue s) :=
  foldl_append

theorem digitsValue_replicate_append (n : Nat) (s : JsString) :
    digitsValue (replicate n 0x30 ++ s) = digitsValue s := by
  induction n with
  | zero => rfl
  | succ n ih => exact ih

theorem digitsValue_append_replicate (s : JsString) (n : Nat) :
    digitsValue (s ++ replicate n 0x30) = digitsValue s * 10 ^ n := by
  rw [digitsValue_append]
  generalize digitsValue s = v
  induction n generalizing v with
  | zero => simp
  | succ n ih =>
    rw [replicate_succ, foldl_cons, ih, pow_succ]
    simp only [UInt16.reduceToNat, Nat.sub_self, Nat.add_zero]
    ring

theorem digitsValue_decimalText (n : Nat) : digitsValue (decimalText n) = n := by
  have hfold (cs : List Char) (h : ∀ c ∈ cs, c.isDigit = true) (v : Nat) :
      (cs.map fun c => UInt16.ofNat c.toNat).foldl (fun n c => 10 * n + (c.toNat - 0x30)) v =
        cs.foldl (fun n c => 10 * n + (c.toNat - '0'.toNat)) v := by
    induction cs generalizing v with
    | nil => rfl
    | cons c cs ih =>
      rw [map_cons, foldl_cons, foldl_cons, ih (fun d hd => h d (mem_cons_of_mem _ hd)),
        toNat_ofNat_of_isDigit (h c mem_cons_self)]
      rfl
  rw [digitsValue, decimalText,
    hfold _ (fun c hc => Nat.isDigit_of_mem_toDigits (by decide) (by decide) hc),
    ← Nat.ofDigitChars_eq_foldl, Nat.ofDigitChars_toDigits (by decide) (by decide)]

theorem head?_decimalText {n : Nat} (hn : n ≠ 0) : (decimalText n).head? ≠ some 0x30 := by
  induction n using Nat.strongRecOn with
  | ind n ih =>
    by_cases hlt : n < 10
    · rw [decimalText, Nat.toDigits_of_lt_base hlt]
      have hdigit : ∀ d < 10, d ≠ 0 → UInt16.ofNat d.digitChar.toNat ≠ 0x30 := by decide
      simpa using hdigit n hlt hn
    · have hdiv : n / 10 ≠ 0 := by omega
      have hne : (decimalText (n / 10)) ≠ [] := decimalText_ne_nil _
      have happend : decimalText n = decimalText (n / 10) ++
          [UInt16.ofNat (n % 10).digitChar.toNat] := by
        rw [decimalText, Nat.toDigits_of_base_le (by decide) (Nat.not_lt.mp hlt), map_append]
        rfl
      rw [happend, head?_append_of_ne_nil _ hne]
      exact ih _ (by omega) hdiv

namespace Decimal

/-- The numeral that `Number::toString` prints for digits, their count and the
place of the decimal point. -/
def layout (neg : Bool) (s : JsString) (n : Int) : Numeral :=
  if s.length ≤ n ∧ n ≤ 21 then
    ⟨neg, s ++ replicate (n - s.length).toNat 0x30, [], none⟩
  else if 0 < n ∧ n ≤ 21 then ⟨neg, s.take n.toNat, s.drop n.toNat, none⟩
  else if -6 < n ∧ n ≤ 0 then ⟨neg, js "0", replicate (-n).toNat 0x30 ++ s, none⟩
  else ⟨neg, s.take 1, s.drop 1, some (n - 1)⟩

def numeral (x : Decimal) : Numeral :=
  if x.mantissa = 0 then ⟨false, js "0", [], none⟩
  else
    let s := decimalText x.mantissa.natAbs
    layout (decide (x.mantissa < 0)) s (x.exponent + s.length)

/-- `Number::toString`. -/
def toString (x : Decimal) : JsString := x.numeral.text

theorem strip_mul_pow {m : Nat} (hm : m % 10 ≠ 0) {fuel z : Nat} (hz : z ≤ fuel) (e : Int) :
    strip fuel (m * 10 ^ z) e = (m, e + z) := by
  induction z generalizing fuel e with
  | zero =>
    cases fuel with
    | zero => simp [strip]
    | succ fuel => simp [strip, hm]
  | succ z ih =>
    cases fuel with
    | zero => omega
    | succ fuel =>
      have hmod : m * 10 ^ (z + 1) % 10 = 0 := by
        rw [pow_succ, ← mul_assoc, Nat.mul_mod_left]
      have hdiv : m * 10 ^ (z + 1) / 10 = m * 10 ^ z := by
        rw [pow_succ, ← mul_assoc, Nat.mul_div_cancel _ (by decide)]
      rw [strip, if_pos hmod, hdiv, ih (by omega)]
      push_cast
      ring

/-- A number is made from its sign, its digits with any zeros after them, and its power of ten. -/
theorem make_natAbs {x : Decimal} (hx : x.mantissa ≠ 0) (z : Nat) :
    make (decide (x.mantissa < 0)) (x.mantissa.natAbs * 10 ^ z) (x.exponent - z) = x := by
  obtain ⟨m, e, hnormal⟩ := x
  have hmod : m.natAbs % 10 ≠ 0 := by
    have := hnormal.resolve_right fun h => hx h.1
    omega
  have hpos : 0 < m.natAbs := Int.natAbs_pos.mpr hx
  have hne : m.natAbs * 10 ^ z ≠ 0 := by positivity
  have hz : z ≤ m.natAbs * 10 ^ z :=
    (Nat.lt_pow_self (by decide)).le.trans (Nat.le_mul_of_pos_left _ hpos)
  have hstrip := strip_mul_pow hmod hz (e - z)
  rw [make, dif_neg hne]
  simp only [hstrip, Int.sub_add_cancel]
  split
  · rename_i hneg
    have : m < 0 := by simpa using hneg
    congr 1
    omega
  · rename_i hneg
    have : ¬ m < 0 := by simpa using hneg
    congr 1
    omega

theorem layout_wellFormed {neg : Bool} {s : JsString} (hs : s ≠ [])
    (hdigits : ∀ c ∈ s, isDigit c = true) (hhead : s.head? ≠ some 0x30) (n : Int) :
    (layout neg s n).WellFormed := by
  have hzeros (k : Nat) : ∀ c ∈ replicate k (0x30 : CodeUnit), isDigit c = true := by
    intro c hc
    rw [eq_of_mem_replicate hc]
    decide
  unfold layout
  split
  · refine ⟨by simp [hs], ?_, ?_, by simp⟩
    · intro c hc
      rcases mem_append.mp hc with hc | hc
      · exact hdigits c hc
      · exact hzeros _ c hc
    · intro h
      rw [head?_append_of_ne_nil _ hs] at h
      contradiction
  · split
    · rename_i hn
      refine ⟨?_, ?_, ?_, ?_⟩
      · simp only [ne_eq, take_eq_nil_iff, hs, or_false]
        omega
      · exact fun c hc => hdigits c (mem_of_mem_take hc)
      · intro h
        rw [head?_take] at h
        split at h <;> contradiction
      · exact fun c hc => hdigits c (mem_of_mem_drop hc)
    · split
      · refine ⟨(by decide : js "0" ≠ []), @forall_mem_of_all _ _ (js "0") (by decide),
          fun _ => rfl, ?_⟩
        intro c hc
        rcases mem_append.mp hc with hc | hc
        · exact hzeros _ c hc
        · exact hdigits c hc
      · refine ⟨by simp [hs], fun c hc => hdigits c (mem_of_mem_take hc), ?_,
          fun c hc => hdigits c (mem_of_mem_drop hc)⟩
        intro h
        rw [head?_take] at h
        split at h <;> contradiction

theorem numeral_wellFormed (x : Decimal) : x.numeral.WellFormed := by
  unfold numeral
  split
  · exact ⟨by decide, forall_mem_of_all (by decide), fun _ => rfl, by simp⟩
  · rename_i hx
    exact layout_wellFormed (decimalText_ne_nil _) isDigit_of_mem_decimalText
      (head?_decimalText (by omega)) _

/-- A number is written with digits, signs, a point and an exponent. -/
theorem mem_toString {x : Decimal} {c : CodeUnit} (h : c ∈ x.toString) :
    isDigit c = true ∨ c ∈ js "-+.e" := by
  have hwf := x.numeral_wellFormed
  rw [toString, Numeral.text, mem_append, mem_append, mem_append] at h
  rcases h with ((h | h) | h) | h
  · split at h
    · exact .inr (by rw [mem_singleton.mp h]; decide)
    · contradiction
  · exact .inl (hwf.int_digits c h)
  · split at h
    · contradiction
    · rcases mem_append.mp h with h | h
      · exact .inr (by rw [mem_singleton.mp h]; decide)
      · exact .inl (hwf.frac_digits c h)
  · cases hexp : x.numeral.exp with
    | none =>
      rw [hexp] at h
      contradiction
    | some e =>
      rw [hexp, map_some, getD_some, Numeral.expText, mem_append, mem_append] at h
      rcases h with (h | h) | h
      · exact .inr (by rw [mem_singleton.mp h]; decide)
      · split at h
        · exact .inr (by rw [mem_singleton.mp h]; decide)
        · exact .inr (by rw [mem_singleton.mp h]; decide)
      · exact .inl (isDigit_of_mem_decimalText c h)

theorem value_numeral (x : Decimal) : x.numeral.value = x := by
  unfold numeral
  split
  · rename_i hx
    obtain ⟨m, e, hnormal⟩ := x
    have he : e = 0 := by
      have hm : m = 0 := hx
      omega
    subst he
    cases hx
    rfl
  · rename_i hx
    have hlen : 0 < (decimalText x.mantissa.natAbs).length :=
      length_pos_of_ne_nil (decimalText_ne_nil _)
    unfold layout
    dsimp only
    split
    · rename_i hn
      simp only [Numeral.value, append_nil, digitsValue_append_replicate,
        digitsValue_decimalText, getD_none, length_nil]
      convert make_natAbs hx _ using 2
      omega
    · split
      · rename_i hn
        simp only [Numeral.value, take_append_drop, digitsValue_decimalText,
          getD_none, length_drop]
        convert make_natAbs hx 0 using 2 <;> omega
      · split
        · rename_i hn
          have hzero : digitsValue (js "0" ++ (replicate
              (-(x.exponent + (decimalText x.mantissa.natAbs).length)).toNat 0x30 ++
                decimalText x.mantissa.natAbs)) = x.mantissa.natAbs := by
            rw [show js "0" = replicate 1 0x30 from rfl, ← append_assoc,
              replicate_append_replicate, digitsValue_replicate_append,
              digitsValue_decimalText]
          simp only [Numeral.value, hzero, getD_none, length_append, length_replicate]
          convert make_natAbs hx 0 using 2 <;> omega
        · simp only [Numeral.value, take_append_drop, digitsValue_decimalText,
            getD_some, length_drop]
          convert make_natAbs hx 0 using 2 <;> omega

end Decimal

namespace Numeral

/-- The fraction after the digits, when there is a point. -/
def parseFraction (s : JsString) : Option (JsString × JsString) :=
  match s with
  | 0x2E :: s' =>
    if s'.takeWhile isDigit = [] then none
    else some (s'.takeWhile isDigit, s'.dropWhile isDigit)
  | _ => some ([], s)

def parseSign : JsString → Bool × JsString
  | 0x2D :: s => (true, s)
  | 0x2B :: s => (false, s)
  | s => (false, s)

def parseExpDigits (neg : Bool) (s : JsString) : Option (Option Int × JsString) :=
  if s.takeWhile isDigit = [] then none
  else
    let e : Int := digitsValue (s.takeWhile isDigit)
    some (some (if neg then -e else e), s.dropWhile isDigit)

/-- The exponent, when there is an `e`. -/
def parseExp (s : JsString) : Option (Option Int × JsString) :=
  match s with
  | c :: s' =>
    if c = 0x65 ∨ c = 0x45 then parseExpDigits (parseSign s').1 (parseSign s').2
    else some (none, s)
  | [] => some (none, [])

/-- The digits before the point, without a leading zero. -/
def parseInt (s : JsString) : Option (JsString × JsString) :=
  let int := s.takeWhile isDigit
  if int = [] ∨ int.head? = some 0x30 ∧ int.length ≠ 1 then none
  else some (int, s.dropWhile isDigit)

def parseUnsigned (neg : Bool) (s : JsString) : Option (Numeral × JsString) := do
  let (int, s) ← parseInt s
  let (frac, s) ← parseFraction s
  let (exp, s) ← parseExp s
  some (⟨neg, int, frac, exp⟩, s)

/-- The numeral at the start of a text, and what follows it. -/
def parse : JsString → Option (Numeral × JsString)
  | 0x2D :: s => parseUnsigned true s
  | s => parseUnsigned false s

/-- Nothing at the start of a text could continue a numeral. -/
def EndsNumeral (rest : JsString) : Prop :=
  ∀ c, rest.head? = some c → isDigit c = false ∧ c ≠ 0x2E ∧ c ≠ 0x65 ∧ c ≠ 0x45

def EndsDigits (rest : JsString) : Prop := ∀ c, rest.head? = some c → isDigit c = false

theorem takeWhile_digits {s : JsString} (hs : ∀ c ∈ s, isDigit c = true) (hrest : EndsDigits rest) :
    (s ++ rest).takeWhile isDigit = s ∧ (s ++ rest).dropWhile isDigit = rest := by
  have hempty : rest.takeWhile isDigit = [] ∧ rest.dropWhile isDigit = rest := by
    cases rest with
    | nil => exact ⟨rfl, rfl⟩
    | cons c cs => simp [hrest c rfl]
  rw [takeWhile_append_of_pos hs, dropWhile_append_of_pos hs, hempty.1, hempty.2, append_nil]
  exact ⟨rfl, rfl⟩

theorem parseInt_append {int : JsString} (hne : int ≠ []) (hdigits : ∀ c ∈ int, isDigit c = true)
    (hzero : int.head? = some 0x30 → int.length = 1) (hrest : EndsDigits rest) :
    parseInt (int ++ rest) = some (int, rest) := by
  obtain ⟨htake, hdrop⟩ := takeWhile_digits hdigits hrest
  simp only [parseInt, htake, hdrop]
  rw [if_neg]
  rintro (h | ⟨h, h'⟩)
  · exact hne h
  · exact h' (hzero h)

theorem parseFraction_append {frac : JsString} (hdigits : ∀ c ∈ frac, isDigit c = true)
    (hrest : EndsDigits rest) (hpoint : rest.head? ≠ some 0x2E) :
    parseFraction ((if frac = [] then [] else js "." ++ frac) ++ rest) = some (frac, rest) := by
  by_cases hfrac : frac = []
  · subst hfrac
    simp only [ite_true, nil_append]
    unfold parseFraction
    split
    · simp at hpoint
    · rfl
  · obtain ⟨htake, hdrop⟩ := takeWhile_digits hdigits hrest
    rw [if_neg hfrac]
    change (if (frac ++ rest).takeWhile isDigit = [] then none
      else some ((frac ++ rest).takeWhile isDigit, (frac ++ rest).dropWhile isDigit)) = _
    rw [htake, hdrop, if_neg hfrac]

theorem parseExp_append {exp : Option Int} (hrest : EndsNumeral rest) :
    parseExp ((exp.map expText).getD [] ++ rest) = some (exp, rest) := by
  cases exp with
  | none =>
    cases rest with
    | nil => rfl
    | cons c cs =>
      obtain ⟨_, _, he, hE⟩ := hrest c rfl
      exact if_neg (by simp [he, hE])
  | some e =>
    have hdigits := takeWhile_digits (isDigit_of_mem_decimalText (n := e.natAbs))
      (fun c hc => (hrest c hc).1 : EndsDigits rest)
    have hexp (neg : Bool) : parseExpDigits neg (decimalText e.natAbs ++ rest) =
        some (some (if neg then -(e.natAbs : Int) else e.natAbs), rest) := by
      simp only [parseExpDigits, hdigits.1, hdigits.2, if_neg (decimalText_ne_nil _),
        digitsValue_decimalText]
    by_cases hneg : e < 0
    · have htext : (Option.map expText (some e)).getD [] ++ rest =
          0x65 :: 0x2D :: (decimalText e.natAbs ++ rest) := by
        simp only [Option.map_some, Option.getD_some, expText, if_pos hneg, append_assoc]
        rfl
      rw [htext]
      change parseExpDigits true (decimalText e.natAbs ++ rest) = _
      rw [hexp]
      simp only [ite_true, Option.some.injEq, Prod.mk.injEq, and_true]
      omega
    · have htext : (Option.map expText (some e)).getD [] ++ rest =
          0x65 :: 0x2B :: (decimalText e.natAbs ++ rest) := by
        simp only [Option.map_some, Option.getD_some, expText, if_neg hneg, append_assoc]
        rfl
      rw [htext]
      change parseExpDigits false (decimalText e.natAbs ++ rest) = _
      rw [hexp]
      simp only [Bool.false_eq_true, ite_false, Option.some.injEq, Prod.mk.injEq, and_true]
      omega

theorem endsDigits_expText {exp : Option Int} {rest : JsString} (hrest : EndsNumeral rest) :
    EndsDigits ((exp.map expText).getD [] ++ rest) ∧
      ((exp.map expText).getD [] ++ rest).head? ≠ some 0x2E := by
  cases exp with
  | none => exact ⟨fun c hc => (hrest c hc).1, fun hc => (hrest _ hc).2.1 rfl⟩
  | some e =>
    have hhead : ((Option.map expText (some e)).getD [] ++ rest).head? = some 0x65 := rfl
    rw [hhead]
    refine ⟨fun c hc => ?_, by decide⟩
    rw [hhead] at hc
    cases hc
    decide

theorem parse_text {n : Numeral} (h : n.WellFormed) (hrest : EndsNumeral rest) :
    parse (n.text ++ rest) = some (n, rest) := by
  obtain ⟨neg, int, frac, exp⟩ := n
  obtain ⟨hexpDigits, hexpPoint⟩ := @endsDigits_expText exp _ hrest
  have hfrac := parseFraction_append h.frac_digits hexpDigits hexpPoint
  have hends : EndsDigits ((if frac = [] then [] else js "." ++ frac) ++
      ((exp.map expText).getD [] ++ rest)) := by
    split
    · exact hexpDigits
    · intro c hc
      cases hc
      decide
  have hunsigned : parseUnsigned neg (int ++ ((if frac = [] then [] else js "." ++ frac) ++
      ((exp.map expText).getD [] ++ rest))) = some (⟨neg, int, frac, exp⟩, rest) := by
    simp only [parseUnsigned, bind, Option.bind,
      parseInt_append h.int_ne_nil h.int_digits h.int_zero hends, hfrac, parseExp_append hrest]
  cases neg with
  | true =>
    simp only [text, ite_true, append_assoc]
    exact hunsigned
  | false =>
    simp only [text, Bool.false_eq_true, ite_false, nil_append, append_assoc]
    unfold parse
    split
    · rename_i s heq
      obtain ⟨c, cs, rfl⟩ := exists_cons_of_ne_nil h.int_ne_nil
      have hminus : c = 0x2D := (List.cons.inj heq).1
      have := h.int_digits c mem_cons_self
      rw [hminus] at this
      contradiction
    · exact hunsigned

end Numeral

/-- The number at the start of a text, and what follows it. -/
def Decimal.parse (s : JsString) : Option (Decimal × JsString) :=
  (Numeral.parse s).map fun p => (p.1.value, p.2)

theorem Decimal.parse_toString (x : Decimal) (hrest : Numeral.EndsNumeral rest) :
    Decimal.parse (x.toString ++ rest) = some (x, rest) := by
  rw [Decimal.parse, Decimal.toString, Numeral.parse_text x.numeral_wellFormed hrest,
    map_some, x.value_numeral]

end AcademicAgent
