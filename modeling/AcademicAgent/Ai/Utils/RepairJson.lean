import AcademicAgent.Ai.Utils.JsonParse
import AcademicAgent.Core.Json.Tokens

/-!
# What repairing JSON leaves

The repair escapes control characters in strings and doubles backslashes that start no escape.
-/

namespace AcademicAgent

variable {c : CodeUnit}

namespace RepairJson

open Json List Option

/-- Whether a text starts with a number of hexadecimal digits. -/
def startsWithHex : Nat → JsString → Bool
  | 0, _ => true
  | _ + 1, [] => false
  | n + 1, c :: json => (hexValue c).isSome && startsWithHex n json

/-- In the strings of a text every backslash starts an escape and there are no control
characters. -/
def Clean : Bool → JsString → Prop
  | _, [] => True
  | false, char :: json => Clean (decide (char = 0x22)) json
  | true, 0x22 :: json => Clean false json
  | true, [0x5C] => False
  | true, 0x5C :: nextChar :: json =>
    ((unescape nextChar).isSome = true ∨ nextChar = 0x75 ∧ startsWithHex 4 json = true) ∧
      Clean true json
  | true, char :: json => ¬ char < 0x20 ∧ Clean true json

/-- The four digits of every escape that the repair meets in a string are there. -/
def DigitsFollow : Bool → JsString → Prop
  | _, [] => True
  | false, char :: json => DigitsFollow (decide (char = 0x22)) json
  | true, 0x22 :: json => DigitsFollow false json
  | true, 0x5C :: nextChar :: json =>
    if nextChar ∈ VALID_JSON_ESCAPES then
      (nextChar = 0x75 → startsWithHex 4 json = true) ∧ DigitsFollow true json
    else DigitsFollow true (nextChar :: json)
  | true, _ :: json => DigitsFollow true json

theorem mem_VALID_JSON_ESCAPES :
    c ∈ VALID_JSON_ESCAPES ↔ (unescape c).isSome = true ∨ c = 0x75 := by
  have hunits : VALID_JSON_ESCAPES = [0x22, 0x5C, 0x2F, 0x62, 0x66, 0x6E, 0x72, 0x74, 0x75] := by
    decide
  simp only [hunits, mem_cons, not_mem_nil, or_false, unescape]
  grind

theorem isControlCharacter_iff : isControlCharacter c = true ↔ c < 0x20 := by
  rw [isControlCharacter, decide_eq_true_iff, UInt16.le_iff_toNat_le, UInt16.lt_iff_toNat_lt]
  exact Nat.lt_succ_iff.symm

theorem isSome_hexUnit {a b d : CodeUnit} : (hexUnit a b c d).isSome = true ↔
    (hexValue a).isSome = true ∧ (hexValue b).isSome = true ∧ (hexValue c).isSome = true ∧
      (hexValue d).isSome = true := by
  rw [hexUnit]
  cases hexValue a <;> cases hexValue b <;> cases hexValue c <;> cases hexValue d <;> simp

section

variable {c : CodeUnit}

theorem repairFrom_other (hquote : c ≠ 0x22) (hslash : c ≠ 0x5C) (json : JsString) :
    repairFrom true (c :: json) =
      (if isControlCharacter c then escapeControlCharacter c else [c]) ++ repairFrom true json := by
  rw [repairFrom.eq_def]
  split <;> simp_all

theorem other_of_hexValue (h : (hexValue c).isSome = true) :
    c ≠ 0x22 ∧ c ≠ 0x5C ∧ isControlCharacter c = false := by
  refine ⟨?_, ?_, ?_⟩
  · rintro rfl
    exact absurd h (by decide)
  · rintro rfl
    exact absurd h (by decide)
  · rw [hexValue] at h
    rw [isControlCharacter, decide_eq_false_iff_not]
    intro hle
    split_ifs at h with h1 h2 h3
    · exact absurd (Std.le_trans h1.1 hle) (by decide)
    · exact absurd (Std.le_trans h2.1 hle) (by decide)
    · exact absurd (Std.le_trans h3.1 hle) (by decide)
    · cases h

theorem repairFrom_of_hexValue (h : (hexValue c).isSome = true) (json : JsString) :
    repairFrom true (c :: json) = c :: repairFrom true json := by
  obtain ⟨hquote, hslash, hcontrol⟩ := other_of_hexValue h
  rw [repairFrom_other hquote hslash, hcontrol]
  rfl

theorem repairFrom_escape (h : c ∈ VALID_JSON_ESCAPES) (json : JsString) :
    repairFrom true (0x5C :: c :: json) = 0x5C :: c :: repairFrom true json := by
  by_cases hu : c = 0x75
  · subst hu
    match json with
    | a :: b :: c :: d :: json =>
      rw [repairFrom]
      split
      · rename_i hdigits
        obtain ⟨ha, hb, hc, hd⟩ := isSome_hexUnit.mp hdigits
        rw [repairFrom_of_hexValue ha, repairFrom_of_hexValue hb, repairFrom_of_hexValue hc,
          repairFrom_of_hexValue hd]
      · rfl
    | [] | [_] | [_, _] | [_, _, _] =>
      rw [repairFrom.eq_def]
      simp [h]
  · rw [repairFrom, if_pos h]
    exact fun a b d e rest heq _ => hu heq

theorem repairFrom_double (h : c ∉ VALID_JSON_ESCAPES) (json : JsString) :
    repairFrom true (0x5C :: c :: json) = 0x5C :: 0x5C :: repairFrom true (c :: json) := by
  have hne : c ≠ 0x75 := by
    rintro rfl
    exact h (by decide)
  rw [repairFrom, if_neg h]
  exact fun a b d e rest heq _ => hne heq

end

theorem repair_induction {motive : Bool → JsString → Prop} (nil : ∀ inString, motive inString [])
    (outside : ∀ c json, motive (decide (c = 0x22)) json → motive false (c :: json))
    (close : ∀ json, motive false json → motive true (0x22 :: json)) (last : motive true [0x5C])
    (escape : ∀ c json, c ∈ VALID_JSON_ESCAPES → motive true json → motive true (0x5C :: c :: json))
    (double : ∀ c json, c ∉ VALID_JSON_ESCAPES → motive true (c :: json) →
      motive true (0x5C :: c :: json))
    (other : ∀ c json, c ≠ 0x22 → c ≠ 0x5C → motive true json → motive true (c :: json))
    (inString : Bool) (json : JsString) : motive inString json := by
  induction hn : json.length using Nat.strongRecOn generalizing inString json with
  | ind n ih =>
    subst hn
    match inString, json with
    | _, [] => exact nil _
    | false, c :: json => exact outside c json (ih _ (Nat.lt_succ_self _) _ _ rfl)
    | true, c :: json =>
      by_cases hquote : c = 0x22
      · exact hquote ▸ close json (ih _ (Nat.lt_succ_self _) _ _ rfl)
      by_cases hslash : c = 0x5C
      · subst hslash
        cases json with
        | nil => exact last
        | cons d json =>
          by_cases hd : d ∈ VALID_JSON_ESCAPES
          · exact escape d json hd (ih json.length
              (Nat.lt_trans (Nat.lt_succ_self _) (Nat.lt_succ_self _)) _ _ rfl)
          · exact double d json hd (ih _ (Nat.lt_succ_self _) _ _ rfl)
      · exact other c json hquote hslash (ih _ (Nat.lt_succ_self _) _ _ rfl)

theorem repairFrom_escapeControlCharacter (c : CodeUnit) (json : JsString) :
    repairFrom true (escapeControlCharacter c ++ json) =
      escapeControlCharacter c ++ repairFrom true json := by
  have hdigit (n : Nat) (hn : n < 16) (rest : JsString) :
      repairFrom true (hexDigit n :: rest) = hexDigit n :: repairFrom true rest :=
    repairFrom_of_hexValue (by rw [hexValue_hexDigit n hn]; rfl) rest
  have hc := c.toNat_lt
  rw [escapeControlCharacter]
  split_ifs
  · exact repairFrom_escape (by decide) json
  · exact repairFrom_escape (by decide) json
  · exact repairFrom_escape (by decide) json
  · exact repairFrom_escape (by decide) json
  · exact repairFrom_escape (by decide) json
  · have hescape (rest : JsString) : unicodeEscape c ++ rest =
        0x5C :: 0x75 :: hexDigit (c.toNat / 4096) :: hexDigit (c.toNat / 256 % 16) ::
          hexDigit (c.toNat / 16 % 16) :: hexDigit (c.toNat % 16) :: rest := rfl
    rw [hescape, hescape, repairFrom_escape (by decide), hdigit _ (by omega), hdigit _ (by omega),
      hdigit _ (by omega), hdigit _ (by omega)]

theorem repairFrom_repairFrom (inString : Bool) (json : JsString) :
    repairFrom inString (repairFrom inString json) = repairFrom inString json := by
  induction inString, json using repair_induction with
  | nil inString => cases inString <;> rfl
  | outside c json ih | close json ih => rw [repairFrom, repairFrom, ih]
  | last => rfl
  | escape c json hc ih => rw [repairFrom_escape hc, repairFrom_escape hc, ih]
  | double c json hc ih =>
    rw [repairFrom_double hc, repairFrom_escape (by decide), ih]
  | other c json hquote hslash ih =>
    rw [repairFrom_other hquote hslash]
    split
    · rw [repairFrom_escapeControlCharacter, ih]
    · rename_i hcontrol
      rw [singleton_append, repairFrom_other hquote hslash, if_neg hcontrol, ih, singleton_append]

theorem repairFrom_of_parseString {text : JsString} {p : JsString × JsString}
    (h : parseString text = some p) (hrest : repairFrom false p.2 = p.2) :
    repairFrom true text = text := by
  fun_induction parseString text generalizing p with
  | case1 | case5 c s hquote huni hslash hcontrol => contradiction
  | case2 s =>
    cases h
    rw [repairFrom, hrest]
  | case3 a b c d s ih =>
    obtain ⟨u, hu, h⟩ := bind_eq_some_iff.mp h
    obtain ⟨q, hq, rfl⟩ := map_eq_some_iff.mp h
    rw [repairFrom, if_pos (isSome_of_mem hu), ih hq hrest]
  | case4 c s hc ih =>
    obtain ⟨u, hu, h⟩ := bind_eq_some_iff.mp h
    obtain ⟨q, hq, rfl⟩ := map_eq_some_iff.mp h
    rw [repairFrom_escape (mem_VALID_JSON_ESCAPES.mpr (.inl (isSome_of_mem hu))),
      ih hq hrest]
  | case6 c s hquote huni hslash hcontrol ih =>
    obtain ⟨q, hq, rfl⟩ := map_eq_some_iff.mp h
    rw [not_or, ← isControlCharacter_iff] at hcontrol
    rw [repairFrom_other hquote hcontrol.2, if_neg hcontrol.1, ih hq hrest, singleton_append]

theorem repairJson_of_parse {json : JsString} {value : Json} (h : Json.parse json = some value) :
    repairJson json = json := by
  have htokens := tokens_of_parse h
  clear h
  rw [repairJson]
  generalize hrest : ([] : JsString) = rest at htokens
  induction htokens with
  | done => rw [← hrest, repairFrom]
  | other hc _ ih => rw [repairFrom, decide_eq_false hc, ih hrest]
  | literal hp _ ih =>
    rw [repairFrom, decide_eq_true rfl, repairFrom_of_parseString hp (ih hrest)]

theorem repairFrom_head (c : CodeUnit) (json : JsString) :
    ∃ d rest, repairFrom true (c :: json) = d :: rest ∧ (d = 0x5C ∨ d = c) := by
  by_cases hquote : c = 0x22
  · exact ⟨c, _, by rw [hquote, repairFrom], .inr rfl⟩
  by_cases hslash : c = 0x5C
  · subst hslash
    cases json with
    | nil => exact ⟨_, _, rfl, .inl rfl⟩
    | cons d json =>
      by_cases hd : d ∈ VALID_JSON_ESCAPES
      · exact ⟨_, _, repairFrom_escape hd json, .inl rfl⟩
      · exact ⟨_, _, repairFrom_double hd json, .inl rfl⟩
  rw [repairFrom_other hquote hslash, escapeControlCharacter]
  split_ifs
  · exact ⟨_, _, rfl, .inl rfl⟩
  · exact ⟨_, _, rfl, .inl rfl⟩
  · exact ⟨_, _, rfl, .inl rfl⟩
  · exact ⟨_, _, rfl, .inl rfl⟩
  · exact ⟨_, _, rfl, .inl rfl⟩
  · exact ⟨_, _, rfl, .inl rfl⟩
  · exact ⟨c, _, rfl, .inr rfl⟩

theorem startsWithHex_repairFrom (n : Nat) (json : JsString) :
    startsWithHex n (repairFrom true json) = startsWithHex n json := by
  induction n generalizing json with
  | zero => rfl
  | succ n ih =>
    cases json with
    | nil => rfl
    | cons c json =>
      by_cases hhex : (hexValue c).isSome = true
      · rw [repairFrom_of_hexValue hhex, startsWithHex, startsWithHex, ih]
      · obtain ⟨d, rest, hrepaired, hd⟩ := repairFrom_head c json
        have hslash : (hexValue d).isSome = false := by
          rcases hd with rfl | rfl
          · rfl
          · exact Bool.eq_false_iff.mpr hhex
        rw [hrepaired, startsWithHex, startsWithHex, hslash, Bool.eq_false_iff.mpr hhex]
        rfl

theorem clean_other (hquote : c ≠ 0x22) (hslash : c ≠ 0x5C) (json : JsString) :
    Clean true (c :: json) ↔ ¬ c < 0x20 ∧ Clean true json := by
  rw [Clean]
  · exact hquote
  · exact fun h => absurd h hslash
  · exact fun _ _ h => absurd h hslash

theorem clean_of_hexValue (h : (hexValue c).isSome = true) (json : JsString) :
    Clean true (c :: json) ↔ Clean true json := by
  obtain ⟨hquote, hslash, hcontrol⟩ := other_of_hexValue h
  rw [clean_other hquote hslash, ← isControlCharacter_iff, hcontrol]
  exact and_iff_right Bool.false_ne_true

theorem clean_escape (hc : c ∈ VALID_JSON_ESCAPES) (json : JsString) :
    Clean true (0x5C :: c :: json) ↔
      (c = 0x75 → startsWithHex 4 json = true) ∧ Clean true json := by
  rw [Clean, and_congr_left_iff]
  intro _
  by_cases hu : c = 0x75
  · subst hu
    simp [unescape]
  · rw [mem_VALID_JSON_ESCAPES] at hc
    simp [hu, hc.resolve_right hu]

theorem clean_escapeControlCharacter (c : CodeUnit) (json : JsString) :
    Clean true (escapeControlCharacter c ++ json) ↔ Clean true json := by
  have hshort {d : CodeUnit} (hd : d ∈ VALID_JSON_ESCAPES) (hne : d ≠ 0x75) :
      Clean true (0x5C :: d :: json) ↔ Clean true json := by
    rw [clean_escape hd]
    exact and_iff_right fun h => absurd h hne
  have hdigit (n : Nat) (hn : n < 16) : (hexValue (hexDigit n)).isSome = true := by
    rw [hexValue_hexDigit n hn]
    rfl
  have hc := c.toNat_lt
  rw [escapeControlCharacter]
  split_ifs
  · exact hshort (by decide) (by decide)
  · exact hshort (by decide) (by decide)
  · exact hshort (by decide) (by decide)
  · exact hshort (by decide) (by decide)
  · exact hshort (by decide) (by decide)
  · have hescape : unicodeEscape c ++ json =
        0x5C :: 0x75 :: hexDigit (c.toNat / 4096) :: hexDigit (c.toNat / 256 % 16) ::
          hexDigit (c.toNat / 16 % 16) :: hexDigit (c.toNat % 16) :: json := rfl
    have h1 := hdigit (c.toNat / 4096) (by omega)
    have h2 := hdigit (c.toNat / 256 % 16) (by omega)
    have h3 := hdigit (c.toNat / 16 % 16) (by omega)
    have h4 := hdigit (c.toNat % 16) (by omega)
    rw [hescape, clean_escape (by decide), clean_of_hexValue h1, clean_of_hexValue h2,
      clean_of_hexValue h3, clean_of_hexValue h4]
    exact and_iff_right fun _ => by simp [startsWithHex, h1, h2, h3, h4]

theorem clean_repairFrom_iff (inString : Bool) (json : JsString) :
    Clean inString (repairFrom inString json) ↔ DigitsFollow inString json := by
  induction inString, json using repair_induction with
  | nil inString => cases inString <;> exact iff_of_true trivial trivial
  | outside c json ih | close json ih => rw [repairFrom, Clean, DigitsFollow, ih]
  | last => exact iff_of_true ⟨.inl rfl, trivial⟩ trivial
  | escape c json hc ih =>
    rw [repairFrom_escape hc, clean_escape hc, DigitsFollow, if_pos hc, ih, startsWithHex_repairFrom]
  | double c json hc ih =>
    rw [repairFrom_double hc, clean_escape (by decide), DigitsFollow, if_neg hc, ih]
    exact and_iff_right (fun h => absurd h (by decide))
  | other c json hquote hslash ih =>
    have hfollow : DigitsFollow true (c :: json) ↔ DigitsFollow true json := by
      rw [DigitsFollow]
      · exact hquote
      · exact fun _ _ h => absurd h hslash
    rw [repairFrom_other hquote hslash, hfollow, ← ih]
    split
    · exact clean_escapeControlCharacter c _
    · rename_i hcontrol
      rw [isControlCharacter_iff] at hcontrol
      rw [singleton_append, clean_other hquote hslash]
      exact and_iff_right hcontrol

/-- The strings of a repaired text are those of JSON when the four digits of every escape were
there; whatever the text, no JSON text and no repaired text is changed. -/
theorem repairJson_iff (json : JsString) : (Clean false (repairJson json) ∧
      ((Json.parse json).isSome = true → repairJson json = json) ∧
      repairJson (repairJson json) = repairJson json) ↔ DigitsFollow false json := by
  rw [repairJson, clean_repairFrom_iff]
  refine and_iff_left ⟨fun hparse => ?_, repairFrom_repairFrom false json⟩
  obtain ⟨value, hvalue⟩ := Option.isSome_iff_exists.mp hparse
  exact repairJson_of_parse hvalue

/-- An escape without its digits is kept. -/
theorem repairJson_keeps_escape : ¬ ∀ json, Clean false (repairJson json) := by
  intro h
  have hclean := (clean_repairFrom_iff false [0x22, 0x5C, 0x75, 0x31, 0x32, 0x22]).mp (h _)
  exact absurd (hclean.1 rfl) (by decide)

end RepairJson

end AcademicAgent
