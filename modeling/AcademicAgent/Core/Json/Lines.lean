import AcademicAgent.Core.Json.Text
import AcademicAgent.Core.Lines

/-!
# JSON lines

A printed value holds no control character, and a printed object starts and ends
with a brace, so objects can be stored one a line.
-/

namespace AcademicAgent

open List

namespace Json

def IsPrintable (c : CodeUnit) : Prop := 0x20 ≤ c.toNat

instance : DecidablePred IsPrintable := fun c => inferInstanceAs (Decidable (0x20 ≤ c.toNat))

theorem isPrintable_escapeUnit {c : CodeUnit} : ∀ d ∈ escapeUnit c, IsPrintable d := by
  have hhex : ∀ n < 16, IsPrintable (hexDigit n) := by
    unfold IsPrintable
    decide
  have hliteral : ∀ s ∈ ["\\\"", "\\\\", "\\b", "\\f", "\\n", "\\r", "\\t"],
      ∀ d ∈ js s, IsPrintable d := by
    intro s hs
    have hall : ∀ s ∈ ["\\\"", "\\\\", "\\b", "\\f", "\\n", "\\r", "\\t"],
        ((js s).all fun d => decide (IsPrintable d)) = true := by
      decide
    exact forall_mem_of_all (hall s hs)
  unfold escapeUnit
  split_ifs with h₁ h₂ h₃ h₄ h₅ h₆ h₇ h₈
  · exact hliteral _ (by simp)
  · exact hliteral _ (by simp)
  · exact hliteral _ (by simp)
  · exact hliteral _ (by simp)
  · exact hliteral _ (by simp)
  · exact hliteral _ (by simp)
  · exact hliteral _ (by simp)
  · have hc := c.toNat_lt
    simp only [unicodeEscape, mem_cons, not_mem_nil, or_false, forall_eq_or_imp, forall_eq]
    refine ⟨?_, ?_, hhex _ ?_, hhex _ ?_, hhex _ ?_, hhex _ ?_⟩
    · unfold IsPrintable
      decide
    · unfold IsPrintable
      decide
    all_goals omega
  · intro d hd
    rw [mem_singleton] at hd
    subst hd
    rw [not_or, UInt16.not_lt, UInt16.le_iff_toNat_le] at h₈
    exact h₈.1

theorem isPrintable_surrogate {c : CodeUnit}
    (h : isHighSurrogate c = true ∨ isLowSurrogate c = true) : IsPrintable c := by
  exact le_trans (by decide) (le_of_surrogate h)

theorem isPrintable_quote {s : JsString} : ∀ c ∈ quote s, IsPrintable c := by
  have hquote : IsPrintable 0x22 := by
    unfold IsPrintable
    decide
  have hescape : ∀ c ∈ escape s, IsPrintable c := by
    induction s using escape.induct with
    | case1 => simp [escape]
    | case2 c =>
      rw [escape]
      exact isPrintable_escapeUnit
    | case3 c d s hpair ih =>
      rw [escape, if_pos hpair]
      rw [Bool.and_eq_true] at hpair
      intro e he
      rcases mem_cons.mp he with rfl | he
      · exact isPrintable_surrogate (Or.inl hpair.1)
      · rcases mem_cons.mp he with rfl | he
        · exact isPrintable_surrogate (Or.inr hpair.2)
        · exact ih e he
    | case4 c d s hpair ih =>
      rw [escape, if_neg hpair]
      intro e he
      rcases mem_append.mp he with he | he
      · exact isPrintable_escapeUnit e he
      · exact ih e he
  intro c hc
  rw [quote] at hc
  rcases mem_cons.mp hc with rfl | hc
  · exact hquote
  · rcases mem_append.mp hc with hc | hc
    · exact hescape c hc
    · rw [mem_singleton] at hc
      exact hc ▸ hquote

theorem isPrintable_of_isDigit {c : CodeUnit} (h : isDigit c = true) : IsPrintable c := by
  simp only [isDigit, Bool.and_eq_true, decide_eq_true_eq] at h
  exact le_trans (by decide) (UInt16.le_iff_toNat_le.mp h.1)

theorem isPrintable_toString (x : Decimal) : ∀ c ∈ x.toString, IsPrintable c := by
  intro c hc
  rcases x.mem_toString hc with hdigit | hsign
  · exact isPrintable_of_isDigit hdigit
  · exact forall_mem_of_all (by decide : ((js "-+.e").all fun d => decide (IsPrintable d)) = true)
      c hsign

theorem isPrintable_punctuation :
    ∀ c ∈ ([0x2C, 0x3A, 0x5B, 0x5D, 0x7B, 0x7D] : JsString), IsPrintable c :=
  forall_mem_of_all (by decide)

mutual

theorem isPrintable_print : (t : Tree) → ∀ c ∈ t.print, IsPrintable c
  | .null => by
    rw [Tree.print]
    exact forall_mem_of_all (by decide)
  | .bool true => by
    rw [Tree.print]
    exact forall_mem_of_all (by decide)
  | .bool false => by
    rw [Tree.print]
    exact forall_mem_of_all (by decide)
  | .num n => by
    rw [Tree.print]
    exact isPrintable_toString n
  | .str s => by
    rw [Tree.print]
    exact isPrintable_quote
  | .arr [] => by
    rw [Tree.print]
    exact forall_mem_of_all (by decide)
  | .arr (x :: xs) => by
    intro c hc
    rw [Tree.print, mem_cons, mem_append] at hc
    rcases hc with rfl | hc | hc
    · exact isPrintable_punctuation _ (by simp)
    · exact isPrintable_print x c hc
    · exact isPrintable_printElements xs c hc
  | .obj [] => by
    rw [Tree.print]
    exact forall_mem_of_all (by decide)
  | .obj ((k, x) :: ms) => by
    intro c hc
    rw [Tree.print, mem_cons, mem_append, mem_cons, mem_append] at hc
    rcases hc with rfl | hc | rfl | hc | hc
    · exact isPrintable_punctuation _ (by simp)
    · exact isPrintable_quote c hc
    · exact isPrintable_punctuation _ (by simp)
    · exact isPrintable_print x c hc
    · exact isPrintable_printMembers ms c hc

theorem isPrintable_printElements : (xs : List Tree) → ∀ c ∈ Tree.printElements xs, IsPrintable c
  | [] => by
    rw [Tree.printElements]
    exact forall_mem_of_all (by decide)
  | x :: xs => by
    intro c hc
    rw [Tree.printElements, mem_cons, mem_append] at hc
    rcases hc with rfl | hc | hc
    · exact isPrintable_punctuation _ (by simp)
    · exact isPrintable_print x c hc
    · exact isPrintable_printElements xs c hc

theorem isPrintable_printMembers :
    (ms : List (JsString × Tree)) → ∀ c ∈ Tree.printMembers ms, IsPrintable c
  | [] => by
    rw [Tree.printMembers]
    exact forall_mem_of_all (by decide)
  | (k, x) :: ms => by
    intro c hc
    rw [Tree.printMembers, mem_cons, mem_append, mem_cons, mem_append] at hc
    rcases hc with rfl | hc | rfl | hc | hc
    · exact isPrintable_punctuation _ (by simp)
    · exact isPrintable_quote c hc
    · exact isPrintable_punctuation _ (by simp)
    · exact isPrintable_print x c hc
    · exact isPrintable_printMembers ms c hc

end

theorem lf_notMem_stringify (j : Json) : lf ∉ j.stringify := by
  intro h
  have := isPrintable_print j.tree lf h
  exact absurd this (by unfold IsPrintable; decide)

theorem getLast?_printMembers (ms : List (JsString × Tree)) :
    (Tree.printMembers ms).getLast? = some 0x7D := by
  induction ms with
  | nil => rfl
  | cons m ms ih =>
    obtain ⟨k, x⟩ := m
    rw [Tree.printMembers]
    simp [getLast?_cons, getLast?_append, ih]

theorem print_obj_ends (ms : List (JsString × Tree)) :
    (Tree.print (.obj ms)).head? = some 0x7B ∧ (Tree.print (.obj ms)).getLast? = some 0x7D := by
  cases ms with
  | nil => exact ⟨rfl, rfl⟩
  | cons m ms =>
    obtain ⟨k, x⟩ := m
    rw [Tree.print]
    refine ⟨rfl, ?_⟩
    simp [getLast?_cons, getLast?_append, getLast?_printMembers]

end Json

end AcademicAgent
