import Mathlib.Data.List.DropRight
import Mathlib.Data.List.Infix

/-!
# JavaScript strings

A string value is its sequence of UTF-16 code units, so `length`, `slice` and `indexOf` count
code units and lone surrogates are ordinary values.
-/

namespace AcademicAgent

open List

abbrev CodeUnit := UInt16

/-- A string value, as the sequence of its code units. -/
abbrev JsString := List CodeUnit

instance : LawfulBEq JsString := inferInstance

def encodeChar (c : Char) : JsString :=
  if c.toNat < 0x10000 then [UInt16.ofNat c.toNat]
  else [UInt16.ofNat (0xD800 + (c.toNat - 0x10000) / 0x400),
    UInt16.ofNat (0xDC00 + (c.toNat - 0x10000) % 0x400)]

def js (s : String) : JsString := s.toList.flatMap encodeChar

/-- An optional string that is there and not empty, as `s || undefined`. -/
def nonEmpty : Option JsString → Option JsString
  | some s => if s = [] then none else some s
  | none => none

/-- Line feed, the separator of session files and of normalized text. -/
def lf : CodeUnit := 0x0A

def cr : CodeUnit := 0x0D

/-- `WhiteSpace` and `LineTerminator` of the language, as `trim` removes them. -/
def isWhitespace (c : CodeUnit) : Bool :=
  (0x09 ≤ c && c ≤ 0x0D) || c == 0x20 || c == 0xA0 || c == 0x1680 ||
    (0x2000 ≤ c && c ≤ 0x200A) || c == 0x2028 || c == 0x2029 || c == 0x202F ||
    c == 0x205F || c == 0x3000 || c == 0xFEFF

def trimEnd (s : JsString) : JsString := s.rdropWhile isWhitespace

def trim (s : JsString) : JsString := trimEnd (s.dropWhile isWhitespace)

theorem forall_mem_of_all {p : CodeUnit → Prop} [DecidablePred p] {s : JsString}
    (h : (s.all fun c => decide (p c)) = true) : ∀ c ∈ s, p c := by
  intro c hc
  exact of_decide_eq_true (all_eq_true.mp h c hc)

theorem mem_isWhitespace_of_trim {s : JsString} (h : trim s = []) : ∀ c ∈ s, isWhitespace c := by
  have hall := rdropWhile_eq_nil_iff.mp h
  have hnil : s.dropWhile isWhitespace = [] := by
    by_contra hne
    have hhead := head_dropWhile_not isWhitespace hne
    rw [hall _ (head_mem hne)] at hhead
    cases hhead
  exact dropWhile_eq_nil_iff.mp hnil

theorem separator_notMem_splitOn (separator : CodeUnit) (s : JsString) :
    ∀ part ∈ s.splitOn separator, separator ∉ part := by
  induction s with
  | nil => simp
  | cons c s ih =>
    rw [splitOn_cons_eq_if_modifyHead]
    by_cases hc : c = separator
    · simpa [hc] using ih
    · obtain ⟨first, rest, hparts⟩ := exists_cons_of_ne_nil (splitOn_ne_nil separator s)
      rw [hparts] at ih ⊢
      simp only [beq_eq_false_iff_ne.mpr hc, Bool.false_eq_true, ite_false, modifyHead_cons]
      intro part hpart
      rcases mem_cons.mp hpart with rfl | hpart
      · exact not_mem_cons_of_ne_of_not_mem (Ne.symm hc) (ih first mem_cons_self)
      · exact ih part (mem_cons_of_mem _ hpart)

theorem splitOn_append_of_notMem {separator : CodeUnit} {x : JsString} (h : separator ∉ x)
    (s : JsString) : (x ++ s).splitOn separator = (s.splitOn separator).modifyHead (x ++ ·) := by
  induction x with
  | nil => exact (congrFun modifyHead_id _).symm
  | cons c x ih =>
    have hc : (c == separator) = false := beq_eq_false_iff_ne.mpr (ne_of_not_mem_cons h).symm
    rw [cons_append, splitOn_cons_eq_if_modifyHead, hc, if_neg Bool.false_ne_true,
      ih (not_mem_of_not_mem_cons h), modifyHead_modifyHead]
    rfl

theorem trim_eq_self {s : JsString} (hs : s ≠ []) (hfirst : isWhitespace (s.head hs) = false)
    (hlast : isWhitespace (s.getLast hs) = false) : trim s = s := by
  have hdrop : s.dropWhile isWhitespace = s := by
    cases s with
    | nil => rfl
    | cons c cs =>
      have hc : isWhitespace c = false := hfirst
      simp only [dropWhile_cons, hc, Bool.false_eq_true, ite_false]
  rw [trim, hdrop, trimEnd, rdropWhile_eq_self_iff]
  intro _
  simp only [hlast, Bool.false_eq_true, not_false_eq_true]

end AcademicAgent
