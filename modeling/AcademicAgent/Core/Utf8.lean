import AcademicAgent.Core.Json.Text
import AcademicAgent.Core.TextDecoder

/-!
# Encoding as UTF-8

`Buffer.from` writes the code points of a string as bytes, with the replacement character for a
lone surrogate, and `toString` reads them back.
-/

namespace AcademicAgent

open Json List TextDecoder Option Transducer UInt16

variable {cp n : Nat} {cps : List Nat}

namespace Utf8

def IsScalar (cp : Nat) : Prop := cp < 0xD800 ∨ 0xDFFF < cp ∧ cp ≤ 0x10FFFF

def bytesOf (cp : Nat) : List UInt8 :=
  if cp < 0x80 then [.ofNat cp]
  else if cp < 0x800 then [.ofNat (0xC0 + cp / 0x40), .ofNat (0x80 + cp % 0x40)]
  else if cp < 0x10000 then
    [.ofNat (0xE0 + cp / 0x1000), .ofNat (0x80 + cp / 0x40 % 0x40), .ofNat (0x80 + cp % 0x40)]
  else
    [.ofNat (0xF0 + cp / 0x40000), .ofNat (0x80 + cp / 0x1000 % 0x40),
      .ofNat (0x80 + cp / 0x40 % 0x40), .ofNat (0x80 + cp % 0x40)]

/-- The code point of a code unit that is not part of a pair. -/
def loneScalar (c : CodeUnit) : Nat :=
  if isHighSurrogate c || isLowSurrogate c then TextDecoder.replacement else c.toNat

def scalars : JsString → List Nat
  | hi :: lo :: rest =>
    if isHighSurrogate hi && isLowSurrogate lo then
      (0x10000 + (hi.toNat - 0xD800) * 0x400 + (lo.toNat - 0xDC00)) :: scalars rest
    else loneScalar hi :: scalars (lo :: rest)
  | [c] => [loneScalar c]
  | [] => []

/-- `Buffer.from(text, "utf-8")`. -/
def encode (text : JsString) : List UInt8 := (scalars text).flatMap bytesOf

/-- `Buffer.byteLength(text, "utf-8")`. -/
def byteLength (text : JsString) : Nat := (encode text).length

/-- `buffer.toString("utf-8")`, which keeps a byte order mark. -/
def toText (buffer : List UInt8) : JsString :=
  let (d, text) := TextDecoder.transducer.feed ⟨none, true⟩ buffer
  text ++ d.flush

/-- `(byte & 0xc0) === 0x80`. -/
def isContinuation (byte : UInt8) : Bool := byte &&& 0xC0 == 0x80

/-- The first index from `start` on of a byte that does not continue a character. -/
def charBoundary (buffer : List UInt8) (start : Nat) : Nat :=
  start + ((buffer.drop start).takeWhile isContinuation).length

def Whole (text : JsString) : Prop :=
  ∃ cps : List Nat, (∀ cp ∈ cps, IsScalar cp) ∧ text = cps.flatMap TextDecoder.codeUnits

theorem codeUnits_bmp (h : cp < 0x10000) : codeUnits cp = [ofNat cp] := by
  rw [codeUnits, if_pos h]

theorem surrogate_of_bmp (hcp : IsScalar cp) (h : cp < 0x10000) :
    isHighSurrogate (ofNat cp) = false ∧ isLowSurrogate (ofNat cp) = false ∧
      (ofNat cp).toNat = cp := by
  have hnat : (ofNat cp).toNat = cp := by
    rw [toNat_ofNat']
    omega
  rw [IsScalar] at hcp
  refine ⟨?_, ?_, hnat⟩
  · rw [isHighSurrogate, Bool.and_eq_false_iff, decide_eq_false_iff_not, decide_eq_false_iff_not,
      le_iff_toNat_le, le_iff_toNat_le, hnat]
    have h1 : (0xD800 : UInt16).toNat = 0xD800 := rfl
    have h2 : (0xDBFF : UInt16).toNat = 0xDBFF := rfl
    omega
  · rw [isLowSurrogate, Bool.and_eq_false_iff, decide_eq_false_iff_not, decide_eq_false_iff_not,
      le_iff_toNat_le, le_iff_toNat_le, hnat]
    have h1 : (0xDC00 : UInt16).toNat = 0xDC00 := rfl
    have h2 : (0xDFFF : UInt16).toNat = 0xDFFF := rfl
    omega

theorem codeUnits_pair (hcp : IsScalar cp) (h : ¬ cp < 0x10000) :
    ∃ hi lo, codeUnits cp = [hi, lo] ∧ isHighSurrogate hi = true ∧
      isLowSurrogate lo = true ∧
        0x10000 + (hi.toNat - 0xD800) * 0x400 + (lo.toNat - 0xDC00) = cp := by
  rw [IsScalar] at hcp
  have hhi : (ofNat (0xD800 + (cp - 0x10000) / 0x400 % 0x400)).toNat =
      0xD800 + (cp - 0x10000) / 0x400 % 0x400 := by
    rw [toNat_ofNat']
    omega
  have hlo : (ofNat (0xDC00 + (cp - 0x10000) % 0x400)).toNat =
      0xDC00 + (cp - 0x10000) % 0x400 := by
    rw [toNat_ofNat']
    omega
  refine ⟨_, _, by rw [codeUnits, if_neg h], ?_, ?_, ?_⟩
  · rw [isHighSurrogate, Bool.and_eq_true, decide_eq_true_iff, decide_eq_true_iff,
      le_iff_toNat_le, le_iff_toNat_le, hhi]
    have h1 : (0xD800 : UInt16).toNat = 0xD800 := rfl
    have h2 : (0xDBFF : UInt16).toNat = 0xDBFF := rfl
    omega
  · rw [isLowSurrogate, Bool.and_eq_true, decide_eq_true_iff, decide_eq_true_iff,
      le_iff_toNat_le, le_iff_toNat_le, hlo]
    have h1 : (0xDC00 : UInt16).toNat = 0xDC00 := rfl
    have h2 : (0xDFFF : UInt16).toNat = 0xDFFF := rfl
    omega
  · rw [hhi, hlo]
    omega

theorem scalars_cons {c : CodeUnit} {rest : JsString}
    (h : isHighSurrogate c = false ∨ ∀ d, rest.head? = some d → isLowSurrogate d = false) :
    scalars (c :: rest) = loneScalar c :: scalars rest := by
  cases rest with
  | nil => rfl
  | cons d rest =>
    have hpair : (isHighSurrogate c && isLowSurrogate d) = false := by
      rcases h with hc | hd
      · rw [hc, Bool.false_and]
      · rw [hd d rfl, Bool.and_false]
    rw [scalars, hpair]
    rfl

section

variable {x y : JsString}

/-- The characters of a string in front of one that starts with a whole character. -/
theorem scalars_append (h : ∀ d, y.head? = some d → isLowSurrogate d = false) :
    scalars (x ++ y) = scalars x ++ scalars y := by
  induction hn : x.length using Nat.strongRecOn generalizing x with
  | ind n ih =>
    match x, hn with
    | [], _ => rfl
    | [c], _ => exact scalars_cons (.inr h)
    | hi :: lo :: rest, hn =>
      have htail : scalars (lo :: rest ++ y) = scalars (lo :: rest) ++ scalars y :=
        ih (rest.length + 1) (by rw [← hn]; simp) rfl
      by_cases hpair : (isHighSurrogate hi && isLowSurrogate lo) = true
      · have hrest : scalars (rest ++ y) = scalars rest ++ scalars y :=
          ih rest.length (by rw [← hn, length_cons, length_cons]; omega) rfl
        rw [cons_append, cons_append, scalars, scalars, if_pos hpair, if_pos hpair, hrest]
        rfl
      · rw [cons_append, cons_append, scalars, scalars, if_neg hpair, if_neg hpair,
          ← cons_append, htail]
        rfl

theorem Whole.head {text : JsString} (h : Whole text) :
    ∀ d, text.head? = some d → isLowSurrogate d = false := by
  obtain ⟨cps, hcps, rfl⟩ := h
  intro d hd
  cases cps with
  | nil => cases hd
  | cons cp cps =>
    have hcp := hcps cp mem_cons_self
    by_cases hbmp : cp < 0x10000
    · rw [flatMap_cons, codeUnits_bmp hbmp] at hd
      cases hd
      exact (surrogate_of_bmp hcp hbmp).2.1
    · obtain ⟨hi, lo, hunits, hhi, -⟩ := codeUnits_pair hcp hbmp
      rw [flatMap_cons, hunits] at hd
      cases hd
      rw [isHighSurrogate, Bool.and_eq_true, decide_eq_true_iff, decide_eq_true_iff,
        le_iff_toNat_le, le_iff_toNat_le] at hhi
      rw [isLowSurrogate, Bool.and_eq_false_iff, decide_eq_false_iff_not, decide_eq_false_iff_not,
        le_iff_toNat_le, le_iff_toNat_le]
      have h1 : (0xDBFF : UInt16).toNat = 0xDBFF := rfl
      have h2 : (0xDC00 : UInt16).toNat = 0xDC00 := rfl
      omega

theorem scalars_flatMap (h : ∀ cp ∈ cps, IsScalar cp) :
    scalars (cps.flatMap codeUnits) = cps := by
  induction cps with
  | nil => rfl
  | cons cp cps ih =>
    have hcp := h cp mem_cons_self
    have hrest := ih fun d hd => h d (mem_cons_of_mem _ hd)
    by_cases hbmp : cp < 0x10000
    · obtain ⟨hhigh, hlow, hnat⟩ := surrogate_of_bmp hcp hbmp
      rw [flatMap_cons, codeUnits_bmp hbmp, singleton_append, scalars_cons (.inl hhigh),
        hrest, loneScalar, hhigh, hlow, hnat]
      rfl
    · obtain ⟨hi, lo, hunits, hhi, hlo, hvalue⟩ := codeUnits_pair hcp hbmp
      rw [flatMap_cons, hunits, cons_append, cons_append, nil_append, scalars,
        hhi, hlo, Bool.and_self, if_pos rfl, hrest, hvalue]

theorem Whole.append (hx : Whole x) (hy : Whole y) : Whole (x ++ y) := by
  obtain ⟨cps, hcps, rfl⟩ := hx
  obtain ⟨cps', hcps', rfl⟩ := hy
  refine ⟨cps ++ cps', fun cp hcp => ?_, flatMap_append.symm⟩
  rcases mem_append.mp hcp with h | h
  · exact hcps cp h
  · exact hcps' cp h

theorem whole_nil : Whole [] := ⟨[], by simp, rfl⟩

theorem encode_append (h : ∀ d, y.head? = some d → isLowSurrogate d = false) :
    encode (x ++ y) = encode x ++ encode y := by
  rw [encode, scalars_append h, flatMap_append]
  rfl

theorem byteLength_append (h : ∀ d, y.head? = some d → isLowSurrogate d = false) :
    byteLength (x ++ y) = byteLength x + byteLength y := by
  rw [byteLength, encode_append h, length_append]
  rfl

end

section

variable {text : JsString}

theorem byteLength_pos (h : text ≠ []) : 0 < byteLength text := by
  have hbytes (cp : Nat) : 0 < (bytesOf cp).length := by
    rw [bytesOf]
    split_ifs <;> simp
  have hscalars : ∃ cp cps, scalars text = cp :: cps := by
    match text, h with
    | [c], _ => exact ⟨_, _, rfl⟩
    | hi :: lo :: rest, _ =>
      rw [scalars]
      split <;> exact ⟨_, _, rfl⟩
  obtain ⟨cp, cps, hcps⟩ := hscalars
  have := hbytes cp
  rw [byteLength, encode, hcps, flatMap_cons, length_append]
  omega

theorem encode_lf (x y : JsString) : encode (x ++ lf :: y) = encode x ++ 0x0A :: encode y := by
  have hlf : isHighSurrogate lf = false := by decide
  rw [encode_append (fun d hd => by cases hd; decide)]
  rw [show encode (lf :: y) = 0x0A :: encode y by
    rw [encode, scalars_cons (.inl hlf), flatMap_cons]
    rfl]

theorem byteLength_lf (x y : JsString) :
    byteLength (x ++ lf :: y) = byteLength x + 1 + byteLength y := by
  rw [byteLength, encode_lf, length_append, length_cons, byteLength, byteLength]
  omega

theorem toNat_byte (h : n < 0x100) : (UInt8.ofNat n).toNat = n := by
  rw [UInt8.toNat_ofNat']
  omega

theorem read_continue (codePoint missing n : Nat) (lower upper : UInt8)
    (h1 : lower.toNat ≤ n) (h2 : n ≤ upper.toNat) :
    read (some ⟨codePoint, missing, lower, upper⟩) (.ofNat n) =
      if missing = 1 then (none, [codePoint * 0x40 + n % 0x40])
      else (some ⟨codePoint * 0x40 + n % 0x40, missing - 1, 0x80, 0xBF⟩, []) := by
  have hn : (UInt8.ofNat n).toNat = n := toNat_byte (by
    have := upper.toNat_lt
    omega)
  have hin : ¬ (UInt8.ofNat n < lower ∨ upper < UInt8.ofNat n) := by
    rw [UInt8.lt_iff_toNat_lt, UInt8.lt_iff_toNat_lt, hn]
    omega
  rw [TextDecoder.read, if_neg hin, hn]

theorem step_seen (s : Option Utf8Sequence) (byte : UInt8) :
    transducer.step ⟨s, true⟩ byte = (⟨(read s byte).1, true⟩,
      (read s byte).2.flatMap codeUnits) := by
  have hserial (cps : List Nat) : serialize true cps = cps := by
    cases cps with
    | nil => rfl
    | cons cp cps => rfl
  simp only [transducer, hserial, Bool.true_or]

theorem not_le_byte {byte bound : UInt8} (h : bound.toNat < byte.toNat) : ¬ byte ≤ bound :=
  fun hle => absurd (UInt8.le_iff_toNat_le.mp hle) (Nat.not_le.mpr h)

theorem between_iff {byte low high : UInt8} :
    low ≤ byte ∧ byte ≤ high ↔ low.toNat ≤ byte.toNat ∧ byte.toNat ≤ high.toNat := by
  rw [UInt8.le_iff_toNat_le, UInt8.le_iff_toNat_le]

section

variable (byte : UInt8)

theorem start_two (h1 : 0xC2 ≤ byte.toNat) (h2 : byte.toNat ≤ 0xDF) :
    start byte = (some ⟨byte.toNat % 0x20, 1, 0x80, 0xBF⟩, []) := by
  have hascii : ¬ byte ≤ 0x7F := not_le_byte (Nat.lt_of_lt_of_le (by decide) h1)
  have htwo : 0xC2 ≤ byte ∧ byte ≤ 0xDF := between_iff.mpr ⟨h1, h2⟩
  rw [start, if_neg hascii, if_pos htwo]

theorem start_three (h1 : 0xE0 ≤ byte.toNat) (h2 : byte.toNat ≤ 0xEF) :
    start byte = (some ⟨byte.toNat % 0x10, 2, if byte.toNat = 0xE0 then 0xA0 else 0x80,
      if byte.toNat = 0xED then 0x9F else 0xBF⟩, []) := by
  have hascii : ¬ byte ≤ 0x7F := not_le_byte (Nat.lt_of_lt_of_le (by decide) h1)
  have htwo : ¬ (0xC2 ≤ byte ∧ byte ≤ 0xDF) := fun h =>
    not_le_byte (Nat.lt_of_lt_of_le (by decide) h1) h.2
  have hthree : 0xE0 ≤ byte ∧ byte ≤ 0xEF := between_iff.mpr ⟨h1, h2⟩
  rw [start, if_neg hascii, if_neg htwo, if_pos hthree]
  simp only [← UInt8.toNat_inj]
  rfl

theorem start_four (h1 : 0xF0 ≤ byte.toNat) (h2 : byte.toNat ≤ 0xF4) :
    start byte = (some ⟨byte.toNat % 0x8, 3, if byte.toNat = 0xF0 then 0x90 else 0x80,
      if byte.toNat = 0xF4 then 0x8F else 0xBF⟩, []) := by
  have hascii : ¬ byte ≤ 0x7F := not_le_byte (Nat.lt_of_lt_of_le (by decide) h1)
  have htwo : ¬ (0xC2 ≤ byte ∧ byte ≤ 0xDF) := fun h =>
    not_le_byte (Nat.lt_of_lt_of_le (by decide) h1) h.2
  have hthree : ¬ (0xE0 ≤ byte ∧ byte ≤ 0xEF) := fun h =>
    not_le_byte (Nat.lt_of_lt_of_le (by decide) h1) h.2
  have hfour : 0xF0 ≤ byte ∧ byte ≤ 0xF4 := between_iff.mpr ⟨h1, h2⟩
  rw [start, if_neg hascii, if_neg htwo, if_neg hthree, if_pos hfour]
  simp only [← UInt8.toNat_inj]
  rfl

end

theorem feed_bytesOf (h : IsScalar cp) : transducer.feed ⟨none, true⟩ (bytesOf cp) =
      (⟨none, true⟩, codeUnits cp) := by
  rw [IsScalar] at h
  rw [bytesOf]
  split_ifs with h1 h2 h3
  · have hbyte : (UInt8.ofNat cp).toNat = cp := toNat_byte (by omega)
    have hascii : UInt8.ofNat cp ≤ 0x7F := by
      rw [UInt8.le_iff_toNat_le, hbyte]
      have : (0x7F : UInt8).toNat = 0x7F := rfl
      omega
    have hread : read none (UInt8.ofNat cp) = (none, [cp]) := by
      rw [TextDecoder.read, TextDecoder.start, if_pos hascii, hbyte]
    rw [feed_cons, step_seen, hread]
    simp
  · have hlead : (UInt8.ofNat (0xC0 + cp / 0x40)).toNat = 0xC0 + cp / 0x40 := toNat_byte (by omega)
    have hread := start_two (.ofNat (0xC0 + cp / 0x40)) (by omega) (by omega)
    have hread2 := read_continue ((0xC0 + cp / 0x40) % 0x20) 1
      (0x80 + cp % 0x40) 0x80 0xBF (by simp) (by simp; omega)
    rw [hlead] at hread
    rw [if_pos rfl, show (0xC0 + cp / 0x40) % 0x20 * 0x40 + (0x80 + cp % 0x40) % 0x40 = cp by
      omega] at hread2
    rw [feed_cons, step_seen, TextDecoder.read, hread, feed_cons, step_seen,
      hread2]
    simp
  · have hlead : (UInt8.ofNat (0xE0 + cp / 0x1000)).toNat = 0xE0 + cp / 0x1000 :=
      toNat_byte (by omega)
    have hread := start_three (.ofNat (0xE0 + cp / 0x1000)) (by omega) (by omega)
    rw [hlead] at hread
    have hread2 := read_continue ((0xE0 + cp / 0x1000) % 0x10) 2
      (0x80 + cp / 0x40 % 0x40) (if 0xE0 + cp / 0x1000 = 0xE0 then 0xA0 else 0x80)
      (if 0xE0 + cp / 0x1000 = 0xED then 0x9F else 0xBF)
      (by split <;> [(simp; omega); simp]) (by split <;> (simp; omega))
    have hread3 := read_continue
      ((0xE0 + cp / 0x1000) % 0x10 * 0x40 + (0x80 + cp / 0x40 % 0x40) % 0x40)
      1 (0x80 + cp % 0x40) 0x80 0xBF (by simp)
      (by simp; omega)
    rw [if_neg (show 2 ≠ 1 by decide)] at hread2
    rw [if_pos rfl, show ((0xE0 + cp / 0x1000) % 0x10 * 0x40 + (0x80 + cp / 0x40 % 0x40) % 0x40) *
      0x40 + (0x80 + cp % 0x40) % 0x40 = cp by omega] at hread3
    rw [feed_cons, step_seen, TextDecoder.read, hread, feed_cons, step_seen,
      hread2, feed_cons, step_seen, hread3]
    simp
  · have hlead : (UInt8.ofNat (0xF0 + cp / 0x40000)).toNat = 0xF0 + cp / 0x40000 :=
      toNat_byte (by omega)
    have hread := start_four (.ofNat (0xF0 + cp / 0x40000)) (by omega) (by omega)
    rw [hlead] at hread
    have hread2 := read_continue ((0xF0 + cp / 0x40000) % 0x8) 3
      (0x80 + cp / 0x1000 % 0x40) (if 0xF0 + cp / 0x40000 = 0xF0 then 0x90 else 0x80)
      (if 0xF0 + cp / 0x40000 = 0xF4 then 0x8F else 0xBF)
      (by split <;> [(simp; omega); simp]) (by split <;> (simp; omega))
    have hread3 := read_continue
      ((0xF0 + cp / 0x40000) % 0x8 * 0x40 + (0x80 + cp / 0x1000 % 0x40) % 0x40)
      2 (0x80 + cp / 0x40 % 0x40) 0x80 0xBF (by simp)
      (by simp; omega)
    have hread4 := read_continue
      (((0xF0 + cp / 0x40000) % 0x8 * 0x40 + (0x80 + cp / 0x1000 % 0x40) % 0x40) *
        0x40 + (0x80 + cp / 0x40 % 0x40) % 0x40)
      1 (0x80 + cp % 0x40) 0x80 0xBF (by simp)
      (by simp; omega)
    rw [if_neg (show 3 ≠ 1 by decide)] at hread2
    rw [if_neg (show 2 ≠ 1 by decide)] at hread3
    rw [if_pos rfl, show (((0xF0 + cp / 0x40000) % 0x8 * 0x40 + (0x80 + cp / 0x1000 % 0x40) %
      0x40) * 0x40 + (0x80 + cp / 0x40 % 0x40) % 0x40) * 0x40 + (0x80 + cp % 0x40) % 0x40 = cp by
      omega] at hread4
    rw [feed_cons, step_seen, TextDecoder.read, hread, feed_cons, step_seen,
      hread2, feed_cons, step_seen, hread3, feed_cons, step_seen, hread4]
    simp

theorem toText_flatMap (h : ∀ cp ∈ cps, IsScalar cp) :
    toText (cps.flatMap bytesOf) = cps.flatMap codeUnits := by
  have hfeed : transducer.feed ⟨none, true⟩ (cps.flatMap bytesOf) =
      (⟨none, true⟩, cps.flatMap codeUnits) := by
    induction cps with
    | nil => rfl
    | cons cp cps ih =>
      rw [flatMap_cons, feed_append, feed_bytesOf (h cp mem_cons_self),
        ih fun d hd => h d (mem_cons_of_mem _ hd), flatMap_cons]
  rw [toText, hfeed]
  exact append_nil _

theorem toText_encode (h : Whole text) : toText (encode text) = text := by
  obtain ⟨cps, hcps, rfl⟩ := h
  rw [encode, scalars_flatMap hcps, toText_flatMap hcps]

theorem isContinuation_byte (h : n < 0x100) :
    isContinuation (.ofNat n) = decide (0x80 ≤ n ∧ n ≤ 0xBF) := by
  have hall : ∀ n : Fin 0x100,
      isContinuation (.ofNat n) = decide (0x80 ≤ n.val ∧ n.val ≤ 0xBF) := by decide +kernel
  exact hall ⟨n, h⟩

/-- A code point is written as one byte that does not continue a character and at
most three that do, and the last of them is a line feed for a line feed only. -/
theorem bytesOf_eq (h : IsScalar cp) :
    ∃ lead rest, bytesOf cp = lead :: rest ∧ isContinuation lead = false ∧
      (∀ byte ∈ rest, isContinuation byte = true) ∧ rest.length ≤ 3 ∧
        ((lead :: rest).getLast? = some 0x0A ↔ cp = 0x0A) := by
  rw [IsScalar] at h
  have hcont (n : Nat) : isContinuation (.ofNat (0x80 + n % 0x40)) = true := by
    rw [isContinuation_byte (by omega), decide_eq_true_iff]
    omega
  have hrest (ns : List Nat) : ∀ byte ∈ ns.map fun n => UInt8.ofNat (0x80 + n % 0x40),
      isContinuation byte = true := by
    intro byte hmem
    obtain ⟨n, -, rfl⟩ := mem_map.mp hmem
    exact hcont n
  have hne (n : Nat) : UInt8.ofNat (0x80 + n % 0x40) ≠ 0x0A := by
    intro heq
    have := congrArg UInt8.toNat heq
    rw [toNat_byte (by omega)] at this
    simp at this
    omega
  rw [bytesOf]
  split_ifs with h1 h2 h3
  · refine ⟨_, _, rfl, ?_, by simp, by simp, ?_⟩
    · rw [isContinuation_byte (by omega), decide_eq_false_iff_not]
      omega
    · rw [getLast?_singleton, some_inj, ← UInt8.toNat_inj, toNat_byte (by omega)]
      rfl
  · refine ⟨_, _, rfl, ?_, hrest [cp], by simp, ?_⟩
    · rw [isContinuation_byte (by omega), decide_eq_false_iff_not]
      omega
    · simp only [getLast?_cons_cons, getLast?_singleton, some_inj]
      exact iff_of_false (hne _) (by omega)
  · refine ⟨_, _, rfl, ?_, hrest [cp / 0x40, cp], by simp, ?_⟩
    · rw [isContinuation_byte (by omega), decide_eq_false_iff_not]
      omega
    · simp only [getLast?_cons_cons, getLast?_singleton, some_inj]
      exact iff_of_false (hne _) (by omega)
  · refine ⟨_, _, rfl, ?_, hrest [cp / 0x1000, cp / 0x40, cp], by simp, ?_⟩
    · rw [isContinuation_byte (by omega), decide_eq_false_iff_not]
      omega
    · simp only [getLast?_cons_cons, getLast?_singleton, some_inj]
      exact iff_of_false (hne _) (by omega)

theorem charBoundary_append (front back : List UInt8) (n : Nat) :
    charBoundary (front ++ back) (front.length + n) = front.length + charBoundary back n := by
  rw [charBoundary, charBoundary, drop_length_add_append]
  omega

/-- The boundary behind any byte of whole characters is between two of them, at most
three bytes on. -/
theorem charBoundary_flatMap (h : ∀ cp ∈ cps, IsScalar cp) (hn : n ≤ (cps.flatMap bytesOf).length) :
    ∃ before after, cps = before ++ after ∧
      charBoundary (cps.flatMap bytesOf) n = (before.flatMap bytesOf).length ∧
        n ≤ (before.flatMap bytesOf).length ∧ (before.flatMap bytesOf).length ≤ n + 3 := by
  induction cps generalizing n with
  | nil =>
    have hzero : n = 0 := Nat.le_zero.mp hn
    subst hzero
    exact ⟨[], [], rfl, rfl, Nat.le_refl 0, by simp⟩
  | cons cp cps ih =>
    obtain ⟨lead, rest, hbytes, hlead, hrest, hlen, -⟩ := bytesOf_eq (h cp mem_cons_self)
    have hnext (d : Nat) (hd : d ∈ cps) : IsScalar d := h d (mem_cons_of_mem _ hd)
    rw [flatMap_cons] at hn ⊢
    rw [length_append, hbytes, length_cons] at hn
    by_cases hzero : n = 0
    · subst hzero
      refine ⟨[], cp :: cps, rfl, ?_, Nat.le_refl 0, by simp⟩
      rw [charBoundary, hbytes, drop_zero, cons_append, takeWhile_cons, hlead]
      rfl
    by_cases hin : n ≤ rest.length + 1
    · refine ⟨[cp], cps, rfl, ?_, ?_, ?_⟩
      · have hback : (cps.flatMap bytesOf).takeWhile isContinuation = [] := by
          cases cps with
          | nil => rfl
          | cons d cps =>
            obtain ⟨lead', rest', hbytes', hlead', -⟩ := bytesOf_eq (hnext d mem_cons_self)
            rw [flatMap_cons, hbytes', cons_append, takeWhile_cons, hlead']
            rfl
        have hdrop : (bytesOf cp ++ cps.flatMap bytesOf).drop n =
            rest.drop (n - 1) ++ cps.flatMap bytesOf := by
          obtain ⟨k, rfl⟩ : ∃ k, n = k + 1 := ⟨n - 1, by omega⟩
          rw [hbytes, cons_append, drop_succ_cons,
            drop_append_of_le_length (by omega), Nat.add_sub_cancel]
        have htake : (rest.drop (n - 1) ++ cps.flatMap bytesOf).takeWhile isContinuation =
            rest.drop (n - 1) := by
          rw [takeWhile_append_of_pos fun byte hmem => hrest byte (mem_of_mem_drop hmem),
            hback, append_nil]
        rw [charBoundary, hdrop, htake, length_drop, flatMap_singleton, hbytes, length_cons]
        omega
      all_goals
        rw [flatMap_singleton, hbytes, length_cons]
        omega
    · obtain ⟨k, rfl⟩ : ∃ k, n = (bytesOf cp).length + k :=
        ⟨n - (bytesOf cp).length, by rw [hbytes, length_cons]; omega⟩
      rw [hbytes, length_cons] at hn
      obtain ⟨before, after, rfl, hcut, hlow, hhigh⟩ := ih hnext (n := k) (by omega)
      refine ⟨cp :: before, after, rfl, ?_, ?_, ?_⟩
      · rw [charBoundary_append, hcut, flatMap_cons, length_append]
      all_goals
        rw [flatMap_cons, length_append]
        omega

theorem whole_flatMap (h : ∀ cp ∈ cps, IsScalar cp) : Whole (cps.flatMap codeUnits) :=
  ⟨cps, h, rfl⟩

/-- A text of whole characters is cut between two of them so that what is kept has at
most three bytes less than what was asked for. -/
theorem Whole.cut (h : Whole text) {kept : Nat} (hkept : kept ≤ byteLength text) :
    ∃ front back, text = front ++ back ∧ Whole front ∧ Whole back ∧
      charBoundary (encode text) (byteLength text - kept) = byteLength front ∧
        byteLength back ≤ kept ∧ kept ≤ byteLength back + 3 := by
  obtain ⟨cps, hcps, rfl⟩ := h
  have hencode : encode (cps.flatMap codeUnits) = cps.flatMap bytesOf := by
    rw [encode, scalars_flatMap hcps]
  have hlen : byteLength (cps.flatMap codeUnits) = (cps.flatMap bytesOf).length := by
    rw [byteLength, hencode]
  rw [hlen] at hkept ⊢
  obtain ⟨before, after, rfl, hcut, hlow, hhigh⟩ :=
    charBoundary_flatMap hcps (n := (cps.flatMap bytesOf).length - kept) (by omega)
  have hbefore : ∀ cp ∈ before, IsScalar cp := fun cp hcp => hcps cp (mem_append_left _ hcp)
  have hafter : ∀ cp ∈ after, IsScalar cp := fun cp hcp => hcps cp (mem_append_right _ hcp)
  have hfront : byteLength (before.flatMap codeUnits) =
      (before.flatMap bytesOf).length := by
    rw [byteLength, encode, scalars_flatMap hbefore]
  have hback : byteLength (after.flatMap codeUnits) =
      (after.flatMap bytesOf).length := by
    rw [byteLength, encode, scalars_flatMap hafter]
  refine ⟨_, _, flatMap_append, whole_flatMap hbefore, whole_flatMap hafter, ?_, ?_, ?_⟩
  · rw [hencode, hcut, hfront]
  · rw [flatMap_append, length_append] at hlow hkept
    omega
  · rw [flatMap_append, length_append] at hhigh hkept
    omega

theorem Whole.getLast_encode (h : Whole text) :
    (encode text).getLast? = some 0x0A ↔ text.getLast? = some lf := by
  obtain ⟨cps, hcps, rfl⟩ := h
  rw [encode, scalars_flatMap hcps]
  rcases eq_nil_or_concat cps with rfl | ⟨init, cp, rfl⟩
  · exact iff_of_false nofun nofun
  · have hcp : IsScalar cp := hcps cp (by simp)
    obtain ⟨lead, rest, hbytes, -, -, -, hlast⟩ := bytesOf_eq hcp
    rw [concat_eq_append, flatMap_append, flatMap_append, flatMap_singleton,
      flatMap_singleton, hbytes, getLast?_append_of_ne_nil _ (cons_ne_nil _ _),
      hlast]
    by_cases hbmp : cp < 0x10000
    · rw [codeUnits_bmp hbmp, getLast?_append_of_ne_nil _ (cons_ne_nil _ _),
        getLast?_singleton, some_inj, ← UInt16.toNat_inj,
        (surrogate_of_bmp hcp hbmp).2.2]
      rfl
    · obtain ⟨hi, lo, hunits, -, hlo, -⟩ := codeUnits_pair hcp hbmp
      rw [hunits, getLast?_append_of_ne_nil _ (cons_ne_nil _ _), getLast?_cons_cons,
        getLast?_singleton, some_inj]
      refine iff_of_false (by omega) fun heq => ?_
      rw [heq] at hlo
      exact absurd hlo (by decide)

end

/-- However a sequence goes on, it becomes a scalar value. -/
def Completes (s : Utf8Sequence) : Prop :=
  1 ≤ s.missing ∧ s.missing ≤ 3 ∧ 0x80 ≤ s.lower.toNat ∧ s.upper.toNat ≤ 0xBF ∧
    ∀ cp, (s.codePoint * 0x40 + s.lower.toNat % 0x40) * 0x40 ^ (s.missing - 1) ≤ cp →
      cp < (s.codePoint * 0x40 + s.upper.toNat % 0x40 + 1) * 0x40 ^ (s.missing - 1) → IsScalar cp

theorem isScalar_replacement : IsScalar replacement := .inr (by decide)

theorem start_scalar (byte : UInt8) : (∀ s ∈ (start byte).1, Completes s) ∧
      ∀ cp ∈ (start byte).2, IsScalar cp := by
  by_cases hascii : byte.toNat ≤ 0x7F
  · have hle : byte ≤ 0x7F := UInt8.le_iff_toNat_le.mpr hascii
    rw [start, if_pos hle]
    refine ⟨(fun _ hs => by cases hs), fun cp hcp => ?_⟩
    rw [mem_singleton.mp hcp]
    exact .inl (by omega)
  by_cases htwo : 0xC2 ≤ byte.toNat ∧ byte.toNat ≤ 0xDF
  · rw [start_two byte htwo.1 htwo.2]
    refine ⟨fun s hs => ?_, fun _ hcp => by cases hcp⟩
    cases hs
    refine ⟨Nat.le_refl 1, by simp, Nat.le_refl _, Nat.le_refl _, fun cp _ hcp => .inl ?_⟩
    simp at hcp
    omega
  by_cases hthree : 0xE0 ≤ byte.toNat ∧ byte.toNat ≤ 0xEF
  · rw [start_three byte hthree.1 hthree.2]
    refine ⟨fun s hs => ?_, fun _ hcp => by cases hcp⟩
    cases hs
    refine ⟨by simp, by simp, by dsimp only; split <;> simp, by dsimp only; split <;> simp,
      fun cp hlow hhigh => ?_⟩
    rw [IsScalar]
    dsimp only at hlow hhigh
    split at hlow <;> split at hhigh <;> simp at hlow hhigh <;> omega
  by_cases hfour : 0xF0 ≤ byte.toNat ∧ byte.toNat ≤ 0xF4
  · rw [start_four byte hfour.1 hfour.2]
    refine ⟨fun s hs => ?_, fun _ hcp => by cases hcp⟩
    cases hs
    refine ⟨by simp, by simp, by dsimp only; split <;> simp, by dsimp only; split <;> simp,
      fun cp hlow hhigh => ?_⟩
    rw [IsScalar]
    dsimp only at hlow hhigh
    split at hlow <;> split at hhigh <;> simp at hlow hhigh <;> omega
  · have h2 : ¬ (0xC2 ≤ byte ∧ byte ≤ 0xDF) := mt between_iff.mp htwo
    have h3 : ¬ (0xE0 ≤ byte ∧ byte ≤ 0xEF) := mt between_iff.mp hthree
    have h4 : ¬ (0xF0 ≤ byte ∧ byte ≤ 0xF4) := mt between_iff.mp hfour
    rw [start, if_neg (not_le_byte (Nat.lt_of_not_le hascii)), if_neg h2, if_neg h3,
      if_neg h4]
    refine ⟨(fun _ hs => by cases hs), fun cp hcp => ?_⟩
    rw [mem_singleton.mp hcp]
    exact isScalar_replacement

theorem Completes.next {s : Utf8Sequence} (h : Completes s) {n : Nat} (h1 : s.lower.toNat ≤ n)
    (h2 : n ≤ s.upper.toNat) (hm : s.missing ≠ 1) :
    Completes ⟨s.codePoint * 0x40 + n % 0x40, s.missing - 1, 0x80, 0xBF⟩ := by
  obtain ⟨hone, hthree, hlower, hupper, hall⟩ := h
  have h0x80 : (0x80 : UInt8).toNat % 0x40 = 0 := rfl
  have h0xBF : (0xBF : UInt8).toNat % 0x40 = 0x3F := rfl
  have hlow : s.codePoint * 0x40 + s.lower.toNat % 0x40 ≤ s.codePoint * 0x40 + n % 0x40 := by omega
  have hhigh : s.codePoint * 0x40 + n % 0x40 ≤ s.codePoint * 0x40 + s.upper.toNat % 0x40 := by omega
  have hpow : 0x40 ^ (s.missing - 1) = 0x40 * 0x40 ^ (s.missing - 1 - 1) := by
    rw [← Nat.pow_succ', Nat.succ_eq_add_one, Nat.sub_add_cancel (by omega)]
  refine ⟨?_, ?_, Nat.le_refl _, Nat.le_refl _, fun cp hcplow hcphigh => ?_⟩
  · dsimp only
    omega
  · dsimp only
    omega
  · dsimp only at hcplow hcphigh
    rw [h0x80, Nat.add_zero, Nat.mul_assoc, ← hpow] at hcplow
    rw [h0xBF, Nat.add_assoc, ← Nat.succ_mul, Nat.mul_assoc, ← hpow] at hcphigh
    exact hall cp (Nat.le_trans (Nat.mul_le_mul_right _ hlow) hcplow)
      (Nat.lt_of_lt_of_le hcphigh (Nat.mul_le_mul_right _ (Nat.succ_le_succ hhigh)))

theorem Completes.last {s : Utf8Sequence} (h : Completes s) (h1 : s.lower.toNat ≤ n)
    (h2 : n ≤ s.upper.toNat) (hm : s.missing = 1) : IsScalar (s.codePoint * 0x40 + n % 0x40) := by
  obtain ⟨-, -, hlower, hupper, hall⟩ := h
  rw [hm, Nat.sub_self, Nat.pow_zero, Nat.mul_one, Nat.mul_one] at hall
  exact hall _ (by omega) (by omega)

theorem read_scalar {sequence : Option Utf8Sequence} (h : ∀ s ∈ sequence, Completes s)
    (byte : UInt8) : (∀ s ∈ (read sequence byte).1, Completes s) ∧
      ∀ cp ∈ (read sequence byte).2, IsScalar cp := by
  cases sequence with
  | none => exact start_scalar byte
  | some s =>
    have hs : Completes s := h s rfl
    by_cases hin : s.lower.toNat ≤ byte.toNat ∧ byte.toNat ≤ s.upper.toNat
    · have hread := read_continue s.codePoint s.missing byte.toNat s.lower s.upper hin.1 hin.2
      rw [UInt8.ofNat_toNat] at hread
      rw [show read (some s) byte = _ from hread]
      by_cases hm : s.missing = 1
      · rw [if_pos hm]
        refine ⟨nofun, fun cp hcp => ?_⟩
        rw [mem_singleton.mp hcp]
        exact hs.last hin.1 hin.2 hm
      · rw [if_neg hm]
        refine ⟨fun t ht => ?_, nofun⟩
        cases ht
        exact hs.next hin.1 hin.2 hm
    · have hout : byte < s.lower ∨ s.upper < byte := by
        rw [UInt8.lt_iff_toNat_lt, UInt8.lt_iff_toNat_lt]
        omega
      obtain ⟨hnext, hcps⟩ := start_scalar byte
      rw [TextDecoder.read, if_pos hout]
      exact ⟨hnext, forall_mem_cons.mpr ⟨isScalar_replacement, hcps⟩⟩

/-- A decoder whose sequence becomes a scalar value. -/
def Sound (d : TextDecoder) : Prop := ∀ s ∈ d.sequence, Completes s

theorem sound_new : Sound new := nofun

theorem feed_whole {d : TextDecoder} (h : Sound d) (bytes : List UInt8) :
    Sound (transducer.feed d bytes).1 ∧
      Whole (transducer.feed d bytes).2 := by
  induction bytes generalizing d with
  | nil => exact ⟨h, whole_nil⟩
  | cons byte bytes ih =>
    obtain ⟨hsequence, hcps⟩ := read_scalar h byte
    have hserial : ∀ cp ∈ serialize d.bomSeen (read d.sequence byte).2,
        IsScalar cp := by
      generalize (read d.sequence byte).2 = cps at hcps
      cases cps with
      | nil => exact nofun
      | cons cp cps =>
        rw [serialize]
        split
        · exact (forall_mem_cons.mp hcps).2
        · exact hcps
    have hstep : Sound (transducer.step d byte).1 := hsequence
    have hout : Whole (transducer.step d byte).2 := whole_flatMap hserial
    obtain ⟨hsound, hwhole⟩ := ih hstep
    rw [feed_cons]
    exact ⟨hsound, hout.append hwhole⟩

theorem flush_whole (d : TextDecoder) : Whole d.flush := by
  rw [flush]
  split
  · exact ⟨[replacement], by simp [isScalar_replacement], by simp⟩
  · exact whole_nil

theorem isScalar_loneScalar (c : CodeUnit) : IsScalar (loneScalar c) := by
  rw [loneScalar]
  split
  · exact .inr (by decide)
  · rename_i h
    rw [Bool.not_eq_true, Bool.or_eq_false_iff] at h
    have hlt := c.toNat_lt
    simp only [isHighSurrogate, isLowSurrogate, Bool.and_eq_false_iff, decide_eq_false_iff_not,
      le_iff_toNat_le] at h
    rw [IsScalar]
    simp only [reduceToNat] at h
    omega

theorem isScalar_scalars (text : JsString) : ∀ cp ∈ scalars text, IsScalar cp := by
  induction text using scalars.induct with
  | case1 hi lo rest hpair ih =>
    rw [scalars, if_pos hpair]
    intro cp hcp
    rcases mem_cons.mp hcp with heq | hcp
    · simp only [isHighSurrogate, isLowSurrogate, Bool.and_eq_true, decide_eq_true_eq,
        le_iff_toNat_le, reduceToNat] at hpair
      obtain ⟨⟨hhi, hhi'⟩, hlo, hlo'⟩ := hpair
      generalize hi.toNat = a at hhi hhi' heq
      generalize lo.toNat = b at hlo hlo' heq
      rw [IsScalar]
      omega
    · exact ih cp hcp
  | case2 hi lo rest hpair ih =>
    rw [scalars, if_neg hpair]
    intro cp hcp
    rcases mem_cons.mp hcp with rfl | hcp
    · exact isScalar_loneScalar hi
    · exact ih cp hcp
  | case3 c =>
    intro cp hcp
    rw [scalars, mem_singleton] at hcp
    exact hcp ▸ isScalar_loneScalar c
  | case4 => exact fun cp hcp => by cases hcp

theorem encode_toText (h : ∀ cp ∈ cps, IsScalar cp) :
    encode (toText (cps.flatMap bytesOf)) = cps.flatMap bytesOf := by
  rw [toText_flatMap h, encode, scalars_flatMap h]

theorem charBoundary_le {buffer : List UInt8} {start : Nat} (hstart : start ≤ n)
    (hn : ∀ byte, buffer[n]? = some byte → isContinuation byte = false) :
    charBoundary buffer start ≤ n := by
  rw [charBoundary]
  by_contra hlt
  have hpassed : n - start < ((buffer.drop start).takeWhile isContinuation).length := by omega
  obtain ⟨rest, hrest⟩ := takeWhile_prefix (l := buffer.drop start) isContinuation
  have hget := getElem?_eq_getElem hpassed
  have hcontinues := mem_takeWhile_imp (mem_of_getElem? hget)
  have hsame : buffer[n]? = some ((buffer.drop start).takeWhile isContinuation)[n - start] := by
    rw [← hget, ← getElem?_append_left hpassed, hrest, getElem?_drop, Nat.add_sub_cancel' hstart]
  rw [hn _ hsame] at hcontinues
  cases hcontinues

theorem isHighSurrogate_of_low {c : CodeUnit} (h : isLowSurrogate c = true) :
    isHighSurrogate c = false := by
  simp only [isLowSurrogate, isHighSurrogate, Bool.and_eq_true, Bool.and_eq_false_iff,
    decide_eq_true_eq, decide_eq_false_iff_not, le_iff_toNat_le, reduceToNat] at h ⊢
  omega

theorem byteLength_pair {hi lo : CodeUnit} (hhi : isHighSurrogate hi = true)
    (hlo : isLowSurrogate lo = true) (rest : JsString) :
    byteLength (hi :: lo :: rest) = 4 + byteLength rest := by
  rw [byteLength, encode, scalars, hhi, hlo, Bool.and_self, if_pos rfl, flatMap_cons,
    length_append, bytesOf, if_neg (by omega), if_neg (by omega), if_neg (by omega)]
  rfl

theorem byteLength_low {lo : CodeUnit} (hlo : isLowSurrogate lo = true) (rest : JsString) :
    byteLength (lo :: rest) = 3 + byteLength rest := by
  rw [byteLength, encode, scalars_cons (.inl (isHighSurrogate_of_low hlo)), loneScalar, hlo,
    Bool.or_true, if_pos rfl, flatMap_cons, length_append]
  rfl

theorem byteLength_lt_cons (c : CodeUnit) (rest : JsString) :
    byteLength rest < byteLength (c :: rest) := by
  cases rest with
  | nil => exact byteLength_pos (cons_ne_nil c [])
  | cons d rest =>
    by_cases hpair : isHighSurrogate c = true ∧ isLowSurrogate d = true
    · rw [byteLength_pair hpair.1 hpair.2, byteLength_low hpair.2]
      omega
    · have hpos : 0 < (bytesOf (loneScalar c)).length := by
        rw [bytesOf]
        split_ifs <;> exact Nat.succ_pos _
      have hscalars : scalars (c :: d :: rest) = loneScalar c :: scalars (d :: rest) := by
        refine scalars_cons ?_
        rw [not_and_or, Bool.not_eq_true, Bool.not_eq_true] at hpair
        exact hpair.imp_right fun hd e he => by cases he; exact hd
      rw [byteLength, byteLength, encode, encode, hscalars, flatMap_cons, length_append]
      omega

theorem byteLength_drop_le (text : JsString) {m : Nat} (h : m ≤ n) :
    byteLength (text.drop n) ≤ byteLength (text.drop m) := by
  induction n, h using Nat.le_induction with
  | base => exact Nat.le_refl _
  | succ n _ ih =>
    refine Nat.le_trans ?_ ih
    rw [← drop_drop]
    cases text.drop n with
    | nil => exact Nat.le_refl _
    | cons c rest => exact Nat.le_of_lt (byteLength_lt_cons c rest)

theorem codeUnits_of_lf (hcp : IsScalar cp) (h : lf ∈ codeUnits cp) :
    codeUnits cp = [lf] := by
  by_cases hbmp : cp < 0x10000
  · rw [codeUnits_bmp hbmp] at h ⊢
    rw [mem_singleton.mp h]
  · obtain ⟨hi, lo, hunits, hhi, hlo, -⟩ := codeUnits_pair hcp hbmp
    rw [hunits, mem_cons, mem_singleton] at h
    rcases h with rfl | rfl
    · exact absurd hhi (by decide)
    · exact absurd hlo (by decide)

theorem Whole.splitOn_lf {text : JsString} (h : Whole text) :
    ∀ line ∈ text.splitOn lf, Whole line := by
  obtain ⟨cps, hcps, rfl⟩ := h
  induction cps with
  | nil => simpa using whole_nil
  | cons cp cps ih =>
    have hcp := hcps cp mem_cons_self
    have hrest := ih fun d hd => hcps d (mem_cons_of_mem _ hd)
    rw [flatMap_cons]
    by_cases hlf : lf ∈ codeUnits cp
    · rw [codeUnits_of_lf hcp hlf, ← nil_append ([lf] ++ _), singleton_append,
        splitOn_append_cons_self]
      intro line hline
      rcases mem_append.mp hline with hline | hline
      · rw [splitOn_nil, mem_singleton] at hline
        exact hline ▸ whole_nil
      · exact hrest line hline
    · have hchar : Whole (codeUnits cp) := ⟨[cp], by simpa using hcp, by simp⟩
      obtain ⟨first, rest, hlines⟩ := exists_cons_of_ne_nil
        (splitOn_ne_nil lf (cps.flatMap codeUnits))
      rw [splitOn_append_of_notMem hlf, hlines, modifyHead_cons]
      rw [hlines] at hrest
      obtain ⟨hfirst, hrest⟩ := forall_mem_cons.mp hrest
      exact forall_mem_cons.mpr ⟨hchar.append hfirst, hrest⟩

end Utf8

end AcademicAgent
