import AcademicAgent.Core.JsString
import AcademicAgent.Core.Transducer

/-!
# Decoding UTF-8

`TextDecoder` reads bytes one at a time and writes code points, with U+FFFD for what is
malformed; a byte that does not continue a sequence is read again as the start of the next.
-/

namespace AcademicAgent

open List

structure Utf8Sequence where
  codePoint : Nat
  /-- Continuation bytes that are still to come. -/
  missing : Nat
  lower : UInt8
  upper : UInt8
  deriving DecidableEq

structure TextDecoder where
  sequence : Option Utf8Sequence
  bomSeen : Bool
  deriving DecidableEq

namespace TextDecoder

def new : TextDecoder := ⟨none, false⟩

def codeUnits (cp : Nat) : JsString :=
  if cp < 0x10000 then [UInt16.ofNat cp]
  else [UInt16.ofNat (0xD800 + (cp - 0x10000) / 0x400 % 0x400),
    UInt16.ofNat (0xDC00 + (cp - 0x10000) % 0x400)]

def replacement : Nat := 0xFFFD

def start (byte : UInt8) : Option Utf8Sequence × List Nat :=
  if byte ≤ 0x7F then (none, [byte.toNat])
  else if 0xC2 ≤ byte ∧ byte ≤ 0xDF then (some ⟨byte.toNat % 0x20, 1, 0x80, 0xBF⟩, [])
  else if 0xE0 ≤ byte ∧ byte ≤ 0xEF then
    (some ⟨byte.toNat % 0x10, 2, if byte = 0xE0 then 0xA0 else 0x80,
      if byte = 0xED then 0x9F else 0xBF⟩, [])
  else if 0xF0 ≤ byte ∧ byte ≤ 0xF4 then
    (some ⟨byte.toNat % 0x8, 3, if byte = 0xF0 then 0x90 else 0x80,
      if byte = 0xF4 then 0x8F else 0xBF⟩, [])
  else (none, [replacement])

def read (sequence : Option Utf8Sequence) (byte : UInt8) : Option Utf8Sequence × List Nat :=
  match sequence with
  | none => start byte
  | some s =>
    if byte < s.lower ∨ s.upper < byte then
      let (next, out) := start byte
      (next, replacement :: out)
    else
      let codePoint := s.codePoint * 0x40 + byte.toNat % 0x40
      if s.missing = 1 then (none, [codePoint])
      else (some ⟨codePoint, s.missing - 1, 0x80, 0xBF⟩, [])

/-- Drops a byte order mark that is the first code point. -/
def serialize (bomSeen : Bool) : List Nat → List Nat
  | cp :: cps => if bomSeen = false ∧ cp = 0xFEFF then cps else cp :: cps
  | [] => []

def transducer : Transducer TextDecoder UInt8 CodeUnit where
  step d byte :=
    let (sequence, cps) := read d.sequence byte
    (⟨sequence, d.bomSeen || !cps.isEmpty⟩, (serialize d.bomSeen cps).flatMap codeUnits)

/-- `decoder.decode()` at the end of the input. -/
def flush (d : TextDecoder) : JsString :=
  if d.sequence.isSome then codeUnits replacement else []

/-- The texts of the chunks of a body, and the text at its end. -/
def decodeChunks (chunks : List (List UInt8)) : List JsString :=
  let (d, texts) := transducer.feedChunks new chunks
  texts ++ [d.flush]

def decode (bytes : List UInt8) : JsString :=
  let (d, text) := transducer.feed new bytes
  text ++ d.flush

theorem flatten_decodeChunks (chunks : List (List UInt8)) :
    (decodeChunks chunks).flatten = decode chunks.flatten := by
  obtain ⟨hstate, hout⟩ := transducer.feedChunks_flatten new chunks
  rw [decodeChunks, decode, flatten_append, flatten_singleton, hout, hstate]

/-- What a byte completes: nothing, one code point, or a replacement with what the
byte completes as the start of a sequence. -/
theorem read_cases (sequence : Option Utf8Sequence) (byte : UInt8) :
    (read sequence byte).2 = [] ∨ (∃ cp, (read sequence byte).2 = [cp]) ∨
      ∃ cp, (read sequence byte).2 = [replacement, cp] := by
  have hstart : (start byte).2 = [] ∨ ∃ cp, (start byte).2 = [cp] := by
    rw [start]
    split
    · exact .inr ⟨_, rfl⟩
    split
    · exact .inl rfl
    split
    · exact .inl rfl
    split
    · exact .inl rfl
    · exact .inr ⟨_, rfl⟩
  cases sequence with
  | none =>
    rcases hstart with hnil | hone
    · exact .inl hnil
    · exact .inr (.inl hone)
  | some s =>
    rw [read]
    split
    · rcases hstart with hnil | ⟨cp, hone⟩
      · exact .inr (.inl ⟨replacement, congrArg (replacement :: ·) hnil⟩)
      · exact .inr (.inr ⟨cp, congrArg (replacement :: ·) hone⟩)
    split
    · exact .inr (.inl ⟨_, rfl⟩)
    · exact .inl rfl

/-- A code point is one code unit, or a pair whose first is no carriage return. -/
theorem codeUnits_cases (cp : Nat) :
    (∃ c, codeUnits cp = [c]) ∨ ∃ c d, codeUnits cp = [c, d] ∧ c ≠ cr := by
  rw [codeUnits]
  split
  · exact .inl ⟨_, rfl⟩
  · refine .inr ⟨_, _, rfl, fun h => ?_⟩
    have hnat := congrArg UInt16.toNat h
    rw [UInt16.toNat_ofNat'] at hnat
    have hcr : cr.toNat = 13 := rfl
    omega

theorem codeUnits_cr {cp : Nat} {before after : JsString}
    (h : codeUnits cp = before ++ cr :: after) : after = [] := by
  rcases codeUnits_cases cp with ⟨c, hc⟩ | ⟨c, d, hcd, hne⟩
  · rw [hc] at h
    cases before with
    | nil => exact (List.cons.inj h).2.symm
    | cons b before => simp at h
  · rw [hcd] at h
    cases before with
    | nil => exact absurd (List.cons.inj h).1 hne
    | cons b before =>
      cases before with
      | nil => exact (List.cons.inj (List.cons.inj h).2).2.symm
      | cons b before => simp at h

theorem cr_last (d : TextDecoder) (byte : UInt8) (before after : JsString)
    (h : (transducer.step d byte).2 = before ++ cr :: after) : after = [] := by
  have hstep : (transducer.step d byte).2 =
      (serialize d.bomSeen (read d.sequence byte).2).flatMap codeUnits := rfl
  rw [hstep] at h
  rcases read_cases d.sequence byte with hnil | ⟨cp, hone⟩ | ⟨cp, htwo⟩
  · rw [hnil, serialize, flatMap_nil] at h
    cases before <;> contradiction
  · rw [hone, serialize] at h
    split at h
    · cases before <;> contradiction
    · rw [flatMap_singleton] at h
      exact codeUnits_cr h
  · have hno : ¬ (d.bomSeen = false ∧ replacement = 0xFEFF) := by
      rintro ⟨-, hbom⟩
      exact absurd hbom (by decide)
    have hunits : codeUnits replacement = [0xFFFD] := by decide
    rw [htwo, serialize, if_neg hno, flatMap_cons, flatMap_singleton, hunits] at h
    cases before with
    | nil => exact absurd (List.cons.inj h).1 (by decide)
    | cons b before => exact codeUnits_cr (List.cons.inj h).2

theorem flush_head (d : TextDecoder) : d.flush.head? ≠ some lf := by
  rw [flush]
  split <;> decide

theorem decodeChunks_cut {bytes : List UInt8} {before after : JsString}
    (h : decode bytes = before ++ cr :: lf :: after) :
    ∃ first second, bytes = first ++ second ∧ ∃ text rest,
      decodeChunks [first, second] = [before ++ [cr], text, rest] ∧ text ++ rest = lf :: after ∧
        rest.head? ≠ some lf := by
  have hflush (d : TextDecoder) : cr ∉ d.flush := by
    rw [flush]
    split <;> decide
  rcases append_eq_append_iff.mp h with ⟨as, hbefore, hrest⟩ | ⟨bs, hout, hrest⟩
  · have hmem : cr ∈ (transducer.feed new bytes).1.flush := by
      rw [hrest]
      exact mem_append_right as mem_cons_self
    exact absurd hmem (hflush _)
  · cases bs with
    | nil =>
      have hmem : cr ∈ (transducer.feed new bytes).1.flush := by
        rw [nil_append] at hrest
        rw [← hrest]
        exact mem_cons_self
      exact absurd hmem (hflush _)
    | cons c bs =>
      obtain ⟨rfl, hafter⟩ := List.cons.inj hrest
      obtain ⟨first, second, rfl, hfirst, hsecond⟩ := transducer.cut_behind cr_last hout
      have hchunks : decodeChunks [first, second] = [(transducer.feed new first).2,
          (transducer.feed (transducer.feed new first).1 second).2,
          (transducer.feed (transducer.feed new first).1 second).1.flush] := rfl
      rw [hfirst, hsecond] at hchunks
      refine ⟨first, second, rfl, bs, _, hchunks, ?_, flush_head _⟩
      rw [hafter, Transducer.feed_append]
      rfl

end TextDecoder

end AcademicAgent
