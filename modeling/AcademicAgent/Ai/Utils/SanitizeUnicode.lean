import AcademicAgent.Core.Json.Text

/-!
# Unpaired surrogates

`sanitizeSurrogates` leaves out every half of a surrogate pair that stands without the other.
-/

namespace AcademicAgent

open List Option

/-- `sanitizeSurrogates`, with what was before: a high surrogate before anything but a low one is
left out, and a low one after anything but a high one. -/
def sanitizeSurrogatesAfter : Option CodeUnit → JsString → JsString
  | _, [] => []
  | before, c :: rest =>
    let unpairedHigh := Json.isHighSurrogate c && !(rest.head?.any Json.isLowSurrogate)
    let unpairedLow := Json.isLowSurrogate c && !(before.any Json.isHighSurrogate)
    if unpairedHigh || unpairedLow then sanitizeSurrogatesAfter (some c) rest
    else c :: sanitizeSurrogatesAfter (some c) rest

def sanitizeSurrogates (text : JsString) : JsString := sanitizeSurrogatesAfter none text

namespace Surrogates

open Json (isHighSurrogate isLowSurrogate)

/-- Every high surrogate is immediately followed by a low one, and every low one
immediately preceded by a high one. -/
def WellFormed (text : JsString) : Prop :=
  (∀ i c, text[i]? = some c → isHighSurrogate c → ∃ d, text[i + 1]? = some d ∧ isLowSurrogate d) ∧
    ∀ i d, text[i]? = some d → isLowSurrogate d →
      ∃ j c, i = j + 1 ∧ text[j]? = some c ∧ isHighSurrogate c

/-- A surrogate between its two neighbours, without the other half. -/
def unpaired (before : Option CodeUnit) (c : CodeUnit) (next : Option CodeUnit) : Bool :=
  isHighSurrogate c && !next.any isLowSurrogate || isLowSurrogate c && !before.any isHighSurrogate

def unitBefore (text : JsString) : Nat → Option CodeUnit
  | 0 => none
  | i + 1 => text[i]?

/-- The unit at a position is a surrogate without the other half. -/
def unpairedAt (text : JsString) (i : Nat) : Bool :=
  text[i]?.any fun c => unpaired (unitBefore text i) c text[i + 1]?

/-- The text without the units at some positions. -/
def dropAt (p : Nat → Bool) (text : JsString) : JsString :=
  (text.zipIdx.filter fun u => !p u.2).map Prod.fst

theorem wellFormed_iff {text : JsString} : WellFormed text ↔ ∀ i, unpairedAt text i = false := by
  constructor
  · rintro ⟨hhigh, hlow⟩ i
    cases hc : text[i]? with
    | none => simp [unpairedAt, hc]
    | some c =>
      have h₁ : isHighSurrogate c = true → text[i + 1]?.any isLowSurrogate = true := fun h => by
        obtain ⟨d, hd, hlow⟩ := hhigh i c hc h
        simpa [hd] using hlow
      have h₂ : isLowSurrogate c = true → (unitBefore text i).any isHighSurrogate = true :=
        fun h => by
          obtain ⟨j, d, rfl, hd, hhigh⟩ := hlow i c hc h
          simpa [unitBefore, hd] using hhigh
      simp only [unpairedAt, hc, any_some, unpaired, Bool.or_eq_false_iff,
        Bool.and_eq_false_imp, Bool.not_eq_false']
      exact ⟨h₁, h₂⟩
  · intro h
    have hat : ∀ i c, text[i]? = some c →
        (isHighSurrogate c = true → text[i + 1]?.any isLowSurrogate = true) ∧
          (isLowSurrogate c = true → (unitBefore text i).any isHighSurrogate = true) := by
      intro i c hc
      have hi := h i
      simp only [unpairedAt, hc, any_some, unpaired, Bool.or_eq_false_iff,
        Bool.and_eq_false_imp, Bool.not_eq_false'] at hi
      exact hi
    refine ⟨fun i c hc hhigh => ?_, fun i c hc hlow => ?_⟩
    · have hnext := (hat i c hc).1 hhigh
      rwa [Option.any_eq_true] at hnext
    · have hbefore := (hat i c hc).2 hlow
      cases i with
      | zero => simp [unitBefore] at hbefore
      | succ j =>
        rw [unitBefore, Option.any_eq_true] at hbefore
        obtain ⟨d, hd, hhigh⟩ := hbefore
        exact ⟨j, d, rfl, hd, hhigh⟩

theorem sanitizeSurrogatesAfter_cons (before : Option CodeUnit) (c : CodeUnit) (rest : JsString) :
    sanitizeSurrogatesAfter before (c :: rest) =
      if unpaired before c rest.head? then sanitizeSurrogatesAfter (some c) rest
      else c :: sanitizeSurrogatesAfter (some c) rest := rfl

theorem not_isLowSurrogate {c : CodeUnit} (h : isHighSurrogate c = true) :
    isLowSurrogate c = false := by
  simp only [isHighSurrogate, isLowSurrogate, Bool.and_eq_true, Bool.and_eq_false_imp,
    decide_eq_true_eq, decide_eq_false_iff_not, UInt16.le_iff_toNat_le] at h ⊢
  intro hlow
  have h₁ : UInt16.toNat 0xDBFF = 0xDBFF := rfl
  have h₂ : UInt16.toNat 0xDC00 = 0xDC00 := rfl
  omega

/-- What is left of a text keeps its pairs: a kept low half stands after the unit that was
before it in the text. -/
theorem unpaired_sanitized (rest : JsString) : ∀ (before kept : Option CodeUnit),
    (before.any isHighSurrogate = true → rest.head?.any isLowSurrogate = true → kept = before) →
      ∀ i c, (sanitizeSurrogatesAfter before rest)[i]? = some c →
        unpaired (if i = 0 then kept else unitBefore (sanitizeSurrogatesAfter before rest) i) c
          (sanitizeSurrogatesAfter before rest)[i + 1]? = false := by
  induction rest with
  | nil =>
    intro before kept h i c hc
    simp [sanitizeSurrogatesAfter] at hc
  | cons u rest ih =>
    intro before kept h i c
    rw [sanitizeSurrogatesAfter_cons]
    split
    · next hu =>
      refine ih (some u) kept (fun hhigh hlow => ?_) i c
      rw [any_some] at hhigh
      simp [unpaired, hhigh, hlow, not_isLowSurrogate hhigh] at hu
    · next hu =>
      have hnext : isHighSurrogate u = true →
          (sanitizeSurrogatesAfter (some u) rest)[0]?.any isLowSurrogate = true := by
        intro hhigh
        cases rest with
        | nil => simp [unpaired, hhigh] at hu
        | cons d rest =>
          have hlow : isLowSurrogate d = true := by
            simpa [unpaired, hhigh, not_isLowSurrogate hhigh] using hu
          have hd : isHighSurrogate d = false := by
            by_contra hcon
            rw [not_isLowSurrogate (by simpa using hcon)] at hlow
            exact Bool.false_ne_true hlow
          rw [sanitizeSurrogatesAfter_cons, if_neg (by simp [unpaired, hd, hhigh])]
          simpa using hlow
      intro hc
      cases i with
      | zero =>
        simp only [getElem?_cons_zero, some.injEq] at hc
        subst hc
        rw [if_pos rfl, Nat.zero_add, getElem?_cons_succ]
        simp only [unpaired, Bool.or_eq_false_iff, Bool.and_eq_false_imp, Bool.not_eq_false']
        refine ⟨hnext, fun hlow => ?_⟩
        have hbefore : before.any isHighSurrogate = true := by
          simpa [unpaired, hlow] using (Bool.or_eq_false_iff.mp (Bool.not_eq_true _ |>.mp hu)).2
        rwa [h hbefore (by simpa using hlow)]
      | succ i =>
        rw [getElem?_cons_succ] at hc
        have htail := ih (some u) (some u) (fun _ _ => rfl) i c hc
        cases i with
        | zero => simpa [unitBefore] using htail
        | succ i => simpa [unitBefore] using htail

theorem sanitized_wellFormed (text : JsString) : WellFormed (sanitizeSurrogates text) := by
  refine wellFormed_iff.mpr fun i => ?_
  cases hc : (sanitizeSurrogates text)[i]? with
  | none => simp [unpairedAt, hc]
  | some c =>
    have h := unpaired_sanitized text none none (fun _ _ => rfl) i c hc
    rw [unpairedAt, hc, any_some]
    cases i with
    | zero => exact h
    | succ i => exact h

theorem sanitizeSurrogatesAfter_eq (rest front : JsString) :
    sanitizeSurrogatesAfter front.getLast? rest =
      ((rest.zipIdx front.length).filter fun u => !unpairedAt (front ++ rest) u.2).map
        Prod.fst := by
  induction rest generalizing front with
  | nil => rfl
  | cons c rest ih =>
    have hat : unpairedAt (front ++ c :: rest) front.length =
        unpaired front.getLast? c rest.head? := by
      have hbefore : unitBefore (front ++ c :: rest) front.length = front.getLast? := by
        cases front using reverseRecOn with
        | nil => rfl
        | append_singleton front u => simp [unitBefore]
      rw [unpairedAt, hbefore, getElem?_append_right (Nat.le_refl _),
        getElem?_append_right (Nat.le_succ _)]
      simp [head?_eq_getElem?]
    have htail := ih (front ++ [c])
    rw [getLast?_append_of_ne_nil _ (cons_ne_nil _ _), getLast?_singleton, length_append,
      length_singleton, append_assoc, singleton_append] at htail
    rw [sanitizeSurrogatesAfter_cons, htail, zipIdx_cons, filter_cons, hat]
    cases unpaired front.getLast? c rest.head? <;> rfl

theorem sanitizeSurrogates_eq (text : JsString) :
    sanitizeSurrogates text = dropAt (unpairedAt text) text :=
  sanitizeSurrogatesAfter_eq text []

theorem sanitizeSurrogates_of_wellFormed {text : JsString} (h : WellFormed text) :
    sanitizeSurrogates text = text := by
  have hall : ∀ u ∈ text.zipIdx, (!unpairedAt text u.2) = true := fun u _ => by
    rw [wellFormed_iff.mp h u.2]
    rfl
  rw [sanitizeSurrogates_eq, dropAt, filter_eq_self.mpr hall, zipIdx_map_fst]

/-- The sanitized text is well formed, is the text itself where that is well formed, and is
the text without its unpaired surrogates. -/
theorem sanitizeSurrogates_exact (text : JsString) : WellFormed (sanitizeSurrogates text) ∧
      (WellFormed text → sanitizeSurrogates text = text) ∧
        sanitizeSurrogates text = dropAt (unpairedAt text) text :=
  ⟨sanitized_wellFormed text, sanitizeSurrogates_of_wellFormed, sanitizeSurrogates_eq text⟩

end Surrogates

end AcademicAgent
