import AcademicAgent.Ai.Utils.JsonParse
import AcademicAgent.Core.Json.Scan

/-!
# JSON that was cut off

A repair closes no string and no bracket, so the text of an object that was cut does not
parse after it either.
-/

namespace AcademicAgent

open Option

namespace Json

/-- The scan and the loop of `repairJson` agree on being inside a string, while there is
something to agree on. -/
def Fits (inString : Bool) (s : Scan) : Prop :=
  s = .scalar ∨ s = .failed ∨
    if inString then ∃ depth, s = .string depth
    else s = .start ∨ s = .finished ∨ ∃ depth, s = .inside depth

theorem Fits.step {s : Scan} (h : Fits false s) (c : CodeUnit) :
    Fits (decide (c = 0x22)) (s.step c) := by
  rcases h with rfl | rfl | rfl | rfl | ⟨depth, rfl⟩
  · exact .inl rfl
  · exact .inr (.inl rfl)
  · by_cases hquote : c = 0x22
    · subst hquote
      exact .inl rfl
    · rw [Scan.step, decide_eq_false hquote]
      split_ifs
      · exact .inr (.inr (.inl rfl))
      · exact .inr (.inr (.inr (.inr ⟨0, rfl⟩)))
      · exact .inl rfl
      · exact .inr (.inl rfl)
  · by_cases hquote : c = 0x22
    · subst hquote
      exact .inr (.inl rfl)
    · rw [Scan.step, decide_eq_false hquote]
      split
      · exact .inr (.inr (.inr (.inl rfl)))
      · exact .inr (.inl rfl)
  · by_cases hquote : c = 0x22
    · subst hquote
      exact .inr (.inr ⟨depth, rfl⟩)
    · rw [Scan.step, decide_eq_false hquote, if_neg hquote]
      split_ifs
      · exact .inr (.inr (.inr (.inr ⟨depth + 1, rfl⟩)))
      · cases depth with
        | zero => exact .inr (.inr (.inr (.inl rfl)))
        | succ depth => exact .inr (.inr (.inr (.inr ⟨depth, rfl⟩)))
      · exact .inr (.inr (.inr (.inr ⟨depth, rfl⟩)))

theorem scan_string_unicodeEscape (c : CodeUnit) (depth : Nat) :
    scan (.string depth) (unicodeEscape c) = .string depth := by
  have hdigit (n : Nat) (hn : n < 16) : (Scan.string depth).step (hexDigit n) = .string depth :=
    step_string_of_hexValue (hexValue_hexDigit n hn) depth
  have hc := c.toNat_lt
  have hescape : scan (.string depth) (unicodeEscape c) = scan (.string depth)
      [hexDigit (c.toNat / 4096), hexDigit (c.toNat / 256 % 16), hexDigit (c.toNat / 16 % 16),
        hexDigit (c.toNat % 16)] := rfl
  rw [hescape, scan_cons, hdigit _ (by omega), scan_cons, hdigit _ (by omega), scan_cons,
    hdigit _ (by omega), scan_cons, hdigit _ (by omega)]
  rfl

theorem scan_string_escapeControlCharacter (c : CodeUnit) (depth : Nat) :
    scan (.string depth) (escapeControlCharacter c) = .string depth := by
  rw [escapeControlCharacter]
  split_ifs
  · rfl
  · rfl
  · rfl
  · rfl
  · rfl
  · exact scan_string_unicodeEscape c depth

theorem fits_start : Fits false .start := .inr (.inr (.inl rfl))

theorem fits_string (depth : Nat) : Fits true (.string depth) := .inr (.inr ⟨depth, rfl⟩)

theorem Fits.whole_iff {s : Scan} (h : Fits true s) {x y : JsString}
    (hstring : ∀ depth, (scan (.string depth) x).Whole ↔ (scan (.string depth) y).Whole) :
    (scan s x).Whole ↔ (scan s y).Whole := by
  rcases h with rfl | rfl | ⟨depth, rfl⟩
  · rw [scan_scalar, scan_scalar]
  · rw [scan_failed, scan_failed]
  · exact hstring depth

theorem whole_scan_repairFrom {inString : Bool} {s : Scan} (h : Fits inString s) (json : JsString) :
    (scan s (repairFrom inString json)).Whole ↔ (scan s json).Whole := by
  fun_induction repairFrom inString json generalizing s with
  | case1 => rfl
  | case2 char json ih =>
    rw [scan_cons, scan_cons]
    exact ih (h.step char)
  | case3 json ih =>
    refine h.whole_iff fun depth => ?_
    rw [scan_cons, scan_cons]
    exact ih (.inr (.inr (.inr (.inr ⟨depth, rfl⟩))))
  | case4 =>
    refine h.whole_iff fun depth => iff_of_false ?_ ?_
    all_goals exact fun hwhole => by rcases hwhole with h | h <;> cases h
  | case5 a b c d json hdigits ih =>
    obtain ⟨u, hu⟩ := isSome_iff_exists.mp hdigits
    obtain ⟨_, ha, hu⟩ := bind_eq_some_iff.mp hu
    obtain ⟨_, hb, hu⟩ := bind_eq_some_iff.mp hu
    obtain ⟨_, hc, hu⟩ := bind_eq_some_iff.mp hu
    obtain ⟨_, hd, hu⟩ := bind_eq_some_iff.mp hu
    refine h.whole_iff fun depth => ?_
    have hskip (rest : JsString) : scan (.string depth) (0x5C :: 0x75 :: a :: b :: c :: d :: rest) =
          scan (.string depth) rest := by
      have hescape : scan (.string depth) (0x5C :: 0x75 :: a :: b :: c :: d :: rest) =
          scan (.string depth) (a :: b :: c :: d :: rest) := rfl
      rw [hescape, scan_cons, step_string_of_hexValue ha, scan_cons, step_string_of_hexValue hb,
        scan_cons, step_string_of_hexValue hc, scan_cons, step_string_of_hexValue hd]
    rw [hskip, hskip]
    exact ih (fits_string depth)
  | case6 a b c d json hdigits ih | case7 nextChar json hunicode hvalid ih =>
    exact h.whole_iff fun depth => ih (fits_string depth)
  | case8 nextChar json hunicode hvalid ih =>
    refine h.whole_iff fun depth => ?_
    have hquote : nextChar ≠ 0x22 := by
      rintro rfl
      exact hvalid (by decide)
    have hslash : nextChar ≠ 0x5C := by
      rintro rfl
      exact hvalid (by decide)
    have hnext : (Scan.string depth).step nextChar = .string depth := by
      rw [Scan.step, if_neg hquote, if_neg hslash]
    have hrest := ih (fits_string depth)
    rwa [scan_cons _ nextChar, hnext] at hrest
  | case9 char json hquote hlast hunicode hescape ih =>
    refine h.whole_iff fun depth => ?_
    have hslash : char ≠ 0x5C := by
      intro hslash
      cases json with
      | nil => exact hlast hslash rfl
      | cons nextChar json => exact hescape nextChar json hslash rfl
    have hchar : (Scan.string depth).step char = .string depth := by
      rw [Scan.step, if_neg hquote, if_neg hslash]
    have hrepaired : scan (.string depth)
        (if isControlCharacter char then escapeControlCharacter char else [char]) =
          .string depth := by
      split
      · exact scan_string_escapeControlCharacter char depth
      · exact hchar
    rw [scan_append, hrepaired, scan_cons, hchar]
    exact ih (fits_string depth)

theorem whole_of_parse {text : JsString} {value : Json} (h : parse text = some value) :
    (scan .start text).Whole := by
  unfold parse at h
  split at h
  · rename_i t ht
    rcases scan_of_parseTree ht with hfinished | ⟨hscalar, -⟩
    · exact .inl hfinished
    · exact .inr hscalar
  · contradiction

theorem finished_of_parse {text : JsString} {value : Json} (h : parse text = some value)
    {members : List (JsString × Tree)} (hvalue : value.tree = .obj members) :
    scan .start text = .finished := by
  unfold parse at h
  split at h
  · rename_i t ht
    cases h
    rcases scan_of_parseTree ht with hfinished | ⟨-, hobject⟩
    · exact hfinished
    · exact absurd hvalue (hobject members)
  · contradiction

end Json

theorem parseJsonWithRepair_eq_error (syntaxError : JsString → JsString) {json : JsString}
    (h : ¬ (Json.scan .start json).Whole) :
    ∃ error, parseJsonWithRepair syntaxError json = .error error := by
  have hrepaired : ¬ (Json.scan .start (repairJson json)).Whole :=
    fun hwhole => h ((Json.whole_scan_repairFrom Json.fits_start json).mp hwhole)
  unfold parseJsonWithRepair
  split
  · rename_i value hvalue
    exact absurd (Json.whole_of_parse hvalue) h
  · split
    · split
      · rename_i value hvalue
        exact absurd (Json.whole_of_parse hvalue) hrepaired
      · exact ⟨_, rfl⟩
    · exact ⟨_, rfl⟩

end AcademicAgent
