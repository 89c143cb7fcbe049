import AcademicAgent.Tui.AnsiItems
import AcademicAgent.Tui.WrapText

/-!
# Reading the parts of a text

A sequence is taken out of a text by its start and its end, so it is the same one in every part
of the text that holds it whole, whatever follows.
-/

namespace AcademicAgent.AnsiText

open List Option

open AnsiItem (text)
open Function (comp_apply)

variable {c : CodeUnit} {s code rest r : JsString} {items : List AnsiItem}

section

variable {s : JsString} {n : Nat} (h : terminatedLength s = some n)
include h

theorem terminatedLength_le : n ≤ s.length := by
  induction s generalizing n with
  | nil => cases h
  | cons c s ih =>
    rw [terminatedLength] at h
    split at h
    · obtain rfl := some.inj h
      exact Nat.le_add_left _ _
    · split at h
      · rename_i hst
        obtain rfl := some.inj h
        cases s with
        | nil => cases hst.2
        | cons d s => exact Nat.le_add_left _ _
      · obtain ⟨m, hm, rfl⟩ := map_eq_some_iff.mp h
        exact Nat.succ_le_succ (ih hm)

theorem terminatedLength_extend (rest : JsString) : terminatedLength (s ++ rest) = some n := by
  induction s generalizing n with
  | nil => cases h
  | cons c s ih =>
    rw [terminatedLength] at h
    rw [cons_append, terminatedLength]
    by_cases hbel : c = bel
    · rw [if_pos hbel] at h ⊢
      exact h
    · rw [if_neg hbel] at h ⊢
      by_cases hst : c = escape ∧ s.head? = some backslash
      · have hst' : c = escape ∧ (s ++ rest).head? = some backslash :=
          ⟨hst.1, by rw [head?_append, hst.2]; rfl⟩
        rw [if_pos hst] at h
        rw [if_pos hst']
        exact h
      · rw [if_neg hst] at h
        obtain ⟨m, hm, rfl⟩ := map_eq_some_iff.mp h
        have hst' : ¬ (c = escape ∧ (s ++ rest).head? = some backslash) := by
          rintro ⟨hc, hhead⟩
          cases s with
          | nil => cases hm
          | cons d s => exact hst ⟨hc, hhead⟩
        rw [if_neg hst', ih hm]
        rfl

theorem terminatedLength_take : terminatedLength (s.take n) = some n := by
  induction s generalizing n with
  | nil => cases h
  | cons c s ih =>
    rw [terminatedLength] at h
    by_cases hbel : c = bel
    · rw [if_pos hbel] at h
      obtain rfl := some.inj h
      rw [hbel]
      rfl
    · rw [if_neg hbel] at h
      by_cases hst : c = escape ∧ s.head? = some backslash
      · rw [if_pos hst] at h
        obtain rfl := some.inj h
        obtain ⟨s, rfl⟩ := head?_eq_some_iff.mp hst.2
        rw [hst.1]
        rfl
      · rw [if_neg hst] at h
        obtain ⟨m, hm, rfl⟩ := map_eq_some_iff.mp h
        have hst' : ¬ (c = escape ∧ (s.take m).head? = some backslash) := by
          rintro ⟨hc, hhead⟩
          refine hst ⟨hc, ?_⟩
          rw [head?_take] at hhead
          split at hhead
          · cases hhead
          · exact hhead
        rw [take_succ_cons, terminatedLength, if_neg hbel, if_neg hst', ih hm]
        rfl

end

section

variable {α : Type} {p : α → Bool} {s : List α} {n : Nat}

theorem findIdx?_extend
    (h : s.findIdx? p = some n) (rest : List α) : (s ++ rest).findIdx? p = some n := by
  rw [findIdx?_append, h]
  rfl

theorem findIdx?_take (h : s.findIdx? p = some n) : (s.take (n + 1)).findIdx? p = some n := by
  induction s generalizing n with
  | nil => cases h
  | cons c s ih =>
    rw [findIdx?_cons] at h
    rw [take_succ_cons, findIdx?_cons]
    split at h
    · rename_i hc
      rw [if_pos hc]
      exact h
    · rename_i hc
      obtain ⟨m, hm, rfl⟩ := map_eq_some_iff.mp h
      rw [if_neg hc, ih hm]
      rfl

end

theorem extractAnsiCode_of_ne (h : c ≠ escape) (s : JsString) :
    extractAnsiCode (c :: s) = none := by
  cases s with
  | nil => rfl
  | cons next rest => exact if_pos h

theorem extractAnsiCode_cases (h : extractAnsiCode s = some code) :
    (∃ rest j, s = escape :: bracket :: rest ∧ rest.findIdx? isCsiFinal = some j ∧
      code = escape :: bracket :: rest.take (j + 1)) ∨
    (∃ next rest n, s = escape :: next :: rest ∧ (next = closingBracket ∨ next = underscore) ∧
      terminatedLength rest = some n ∧ code = escape :: next :: rest.take n) := by
  match s with
  | [] => cases h
  | [c] => cases h
  | c :: next :: rest =>
    rw [extractAnsiCode] at h
    split at h
    · cases h
    · rename_i hc
      obtain rfl := not_not.mp hc
      split at h
      · rename_i hnext
        subst hnext
        obtain ⟨j, hj, rfl⟩ := map_eq_some_iff.mp h
        exact .inl ⟨rest, j, rfl, hj, rfl⟩
      · split at h
        · rename_i hnext
          obtain ⟨n, hn, rfl⟩ := map_eq_some_iff.mp h
          exact .inr ⟨next, rest, n, rfl, hnext, hn, rfl⟩
        · cases h

theorem extractAnsiCode_csi {j : Nat} (h : rest.findIdx? isCsiFinal = some j) :
    extractAnsiCode (escape :: bracket :: rest) =
      some (escape :: bracket :: rest.take (j + 1)) := by
  rw [extractAnsiCode, if_neg (not_not_intro rfl), if_pos rfl, h]
  rfl

theorem extractAnsiCode_terminated {next : CodeUnit} {n : Nat}
    (hnext : next = closingBracket ∨ next = underscore) (h : terminatedLength rest = some n) :
    extractAnsiCode (escape :: next :: rest) = some (escape :: next :: rest.take n) := by
  have hne : next ≠ bracket := by
    rintro rfl
    rcases hnext with h | h <;> revert h <;> decide
  rw [extractAnsiCode, if_neg (not_not_intro rfl), if_neg hne, if_pos hnext, h]
  rfl

/-- A sequence that is taken out whatever follows it. -/
def IsSequence (code : JsString) : Prop := ∀ rest, extractAnsiCode (code ++ rest) = some code

theorem isSequence_of_extract (h : extractAnsiCode s = some code) :
    IsSequence code ∧ code <+: s := by
  rcases extractAnsiCode_cases h with ⟨rest, j, rfl, hj, rfl⟩ | ⟨next, rest, n, rfl, hnext, hn, rfl⟩
  · refine ⟨fun more => ?_, ?_⟩
    · have hlength : j < rest.length := (findIdx?_eq_some_iff_getElem.mp hj).1
      have htake : (rest.take (j + 1) ++ more).take (j + 1) = rest.take (j + 1) := by
        rw [take_append_of_le_length (by rw [length_take]; omega), take_take, Nat.min_self]
      have hcsi := extractAnsiCode_csi (findIdx?_extend (findIdx?_take hj) more)
      rwa [htake] at hcsi
    · exact cons_prefix_cons.mpr ⟨rfl, cons_prefix_cons.mpr ⟨rfl, take_prefix _ _⟩⟩
  · refine ⟨fun more => ?_, ?_⟩
    · have hlength := terminatedLength_le hn
      have htake : (rest.take n ++ more).take n = rest.take n := by
        rw [take_append_of_le_length (by rw [length_take]; omega), take_take, Nat.min_self]
      have hterminated :=
        extractAnsiCode_terminated hnext (terminatedLength_extend (terminatedLength_take hn) more)
      rwa [htake] at hterminated
    · exact cons_prefix_cons.mpr ⟨rfl, cons_prefix_cons.mpr ⟨rfl, take_prefix _ _⟩⟩

theorem IsSequence.ne_nil (h : IsSequence code) : code ≠ [] := by
  rintro rfl
  cases h []

theorem IsSequence.cons {code : JsString} (h : IsSequence code) :
    ∃ next rest, code = escape :: next :: rest := by
  rcases extractAnsiCode_cases (h []) with ⟨rest, j, -, -, rfl⟩ | ⟨next, rest, n, -, -, -, rfl⟩
  · exact ⟨bracket, _, rfl⟩
  · exact ⟨next, _, rfl⟩

theorem extractAnsiCode_eq_none (h : extractAnsiCode (s ++ rest) = none) :
    extractAnsiCode s = none := by
  cases hs : extractAnsiCode s with
  | none => rfl
  | some code =>
    obtain ⟨hsequence, more, rfl⟩ := isSequence_of_extract hs
    rw [append_assoc, hsequence] at h
    cases h

/-- The items of a text with these items are the items. -/
def Readable (items : List AnsiItem) : Prop := ansiItems (textOf items) = items

theorem ansiItems_sequence (h : IsSequence code) (rest : JsString) :
    ansiItems (code ++ rest) = .code code :: ansiItems rest := by
  have hextract := h rest
  cases code with
  | nil => exact absurd rfl h.ne_nil
  | cons c code =>
    rw [ansiItems, cons_append, ansiItemsFrom, ← cons_append, hextract]
    change AnsiItem.code (c :: code) :: ansiItemsFrom code.length (code ++ rest) = _
    rw [ansiItemsFrom_skip]

theorem ansiItems_unit (h : extractAnsiCode (c :: rest) = none) :
    ansiItems (c :: rest) = .unit c :: ansiItems rest := by
  rw [ansiItems, ansiItemsFrom, h]
  rfl

theorem ansiItems_cons_cases (c : CodeUnit) (s : JsString) :
    (∃ code rest, IsSequence code ∧ c :: s = code ++ rest ∧
      ansiItems (c :: s) = .code code :: ansiItems rest) ∨
    (extractAnsiCode (c :: s) = none ∧ ansiItems (c :: s) = .unit c :: ansiItems s) := by
  cases h : extractAnsiCode (c :: s) with
  | none => exact .inr ⟨rfl, ansiItems_unit h⟩
  | some code =>
    obtain ⟨hsequence, rest, hrest⟩ := isSequence_of_extract h
    refine .inl ⟨code, rest, hsequence, hrest.symm, ?_⟩
    rw [← hrest]
    exact ansiItems_sequence hsequence rest

theorem textOf_ansiItems (s : JsString) : textOf (ansiItems s) = s := by
  induction hn : s.length using Nat.strong_induction_on generalizing s with
  | _ n ih =>
    cases s with
    | nil => rfl
    | cons c s =>
      rcases ansiItems_cons_cases c s with ⟨code, rest, hsequence, hsplit, hitems⟩ | ⟨-, hitems⟩
      · have hlength := congrArg length hsplit
        have hpos := length_pos_iff.mpr hsequence.ne_nil
        rw [length_append] at hlength
        rw [hitems, textOf_cons, ih rest.length (by omega) rest rfl, hsplit]
        rfl
      · rw [hitems, textOf_cons, ih s.length (by rw [← hn]; exact Nat.lt_succ_self _) s rfl]
        rfl

theorem readable_ansiItems (s : JsString) : Readable (ansiItems s) :=
  congrArg ansiItems (textOf_ansiItems s)

theorem readable_cons_code : Readable (.code code :: items) ↔ IsSequence code ∧ Readable items := by
  constructor
  · intro h
    rw [Readable, textOf_cons] at h
    cases code with
    | nil =>
      exfalso
      rw [text, nil_append] at h
      have hitems := readable_ansiItems (textOf items)
      rw [Readable, h] at hitems
      cases htext : textOf items with
      | nil =>
        rw [htext] at h
        cases h
      | cons c s =>
        rw [htext] at h
        rcases ansiItems_cons_cases c s with ⟨code, rest, hsequence, -, heq⟩ | ⟨-, heq⟩
        · rw [heq] at h
          obtain rfl := AnsiItem.code.inj (List.cons.inj h).1
          exact hsequence.ne_nil rfl
        · rw [heq] at h
          cases (List.cons.inj h).1
    | cons c code =>
      rw [text, cons_append] at h
      rcases ansiItems_cons_cases c (code ++ textOf items) with
        ⟨other, rest, hsequence, hsplit, heq⟩ | ⟨-, heq⟩
      · rw [heq] at h
        obtain ⟨hcode, hrest⟩ := List.cons.inj h
        obtain rfl := AnsiItem.code.inj hcode
        have hsame := append_cancel_left (hsplit.symm.trans (cons_append).symm)
        rw [hsame] at hrest
        exact ⟨hsequence, hrest⟩
      · rw [heq] at h
        cases (List.cons.inj h).1
  · rintro ⟨hsequence, hitems⟩
    rw [Readable, textOf_cons, text, ansiItems_sequence hsequence, hitems]

theorem readable_cons_unit : Readable (.unit c :: items) ↔
      extractAnsiCode (c :: textOf items) = none ∧ Readable items := by
  constructor
  · intro h
    rw [Readable, textOf_cons, text, singleton_append] at h
    rcases ansiItems_cons_cases c (textOf items) with ⟨code, rest, -, -, heq⟩ | ⟨hnone, heq⟩
    · rw [heq] at h
      cases (List.cons.inj h).1
    · rw [heq] at h
      exact ⟨hnone, (List.cons.inj h).2⟩
  · rintro ⟨hnone, hitems⟩
    rw [Readable, textOf_cons, text, singleton_append, ansiItems_unit hnone, hitems]

section

variable {a b : List AnsiItem}

theorem Readable.left (h : Readable (a ++ b)) : Readable a := by
  induction a with
  | nil => rfl
  | cons i a ih =>
    rw [cons_append] at h
    cases i with
    | code code =>
      obtain ⟨hsequence, hrest⟩ := readable_cons_code.mp h
      exact readable_cons_code.mpr ⟨hsequence, ih hrest⟩
    | unit c =>
      obtain ⟨hnone, hrest⟩ := readable_cons_unit.mp h
      refine readable_cons_unit.mpr ⟨?_, ih hrest⟩
      rw [textOf_append, ← cons_append] at hnone
      exact extractAnsiCode_eq_none hnone

theorem Readable.right (h : Readable (a ++ b)) : Readable b := by
  induction a with
  | nil => exact h
  | cons i a ih =>
    cases i with
    | code code => exact ih (readable_cons_code.mp h).2
    | unit c => exact ih (readable_cons_unit.mp h).2

theorem Readable.part (h : Readable b) (hab : a <:+: b) : Readable a := by
  obtain ⟨before, after, rfl⟩ := hab
  exact h.left.right

end

theorem Readable.sequence (h : Readable items) (hcode : .code code ∈ items) : IsSequence code := by
  obtain ⟨before, after, rfl⟩ := append_of_mem hcode
  exact (readable_cons_code.mp h.right).1

def Codes (items : List AnsiItem) : Prop := ∀ i ∈ items, ∃ code, i = .code code ∧ IsSequence code

theorem Readable.append_codes {codes : List AnsiItem} (hcodes : Codes codes) (h : Readable items) :
    Readable (codes ++ items) := by
  induction codes with
  | nil => exact h
  | cons i codes ih =>
    obtain ⟨⟨code, rfl, hsequence⟩, hrest⟩ := forall_mem_cons.mp hcodes
    exact readable_cons_code.mpr ⟨hsequence, ih hrest⟩

def unitsOf (items : List AnsiItem) : JsString := items.filterMap AnsiItem.unit?

@[simp] theorem unitsOf_cons_unit (c : CodeUnit) (items : List AnsiItem) :
    unitsOf (.unit c :: items) = c :: unitsOf items := rfl

@[simp] theorem unitsOf_cons_code (code : JsString) (items : List AnsiItem) :
    unitsOf (.code code :: items) = unitsOf items := rfl

@[simp] theorem unitsOf_append (a b : List AnsiItem) : unitsOf (a ++ b) = unitsOf a ++ unitsOf b :=
  filterMap_append

theorem unitsOf_map_unit (s : JsString) : unitsOf (s.map .unit) = s := by
  induction s with
  | nil => rfl
  | cons c s ih => exact congrArg (c :: ·) ih

theorem unitsOf_prefix {a b : List AnsiItem} (h : a <+: b) : unitsOf a <+: unitsOf b := by
  obtain ⟨rest, rfl⟩ := h
  exact ⟨unitsOf rest, (unitsOf_append a rest).symm⟩

section

variable {items : List AnsiItem}

theorem unitsOf_codes (h : Codes items) : unitsOf items = [] := by
  induction items with
  | nil => rfl
  | cons i items ih =>
    obtain ⟨⟨code, rfl, -⟩, hrest⟩ := forall_mem_cons.mp h
    exact ih hrest

theorem isCsiFinal_not_whitespace (h : isCsiFinal c = true) : isWhitespace c = false := by
  simp only [isCsiFinal, Bool.or_eq_true, decide_eq_true_eq] at h
  rcases h with (((rfl | rfl) | rfl) | rfl) | rfl <;> decide

theorem take_terminatedLength {n : Nat} (h : terminatedLength s = some n) :
    ∃ before, s.take n = before ++ [bel] ∨ s.take n = before ++ [escape, backslash] := by
  induction s generalizing n with
  | nil => cases h
  | cons c s ih =>
    rw [terminatedLength] at h
    split at h
    · rename_i hbel
      obtain rfl := some.inj h
      exact ⟨[], .inl (congrArg ([·]) hbel)⟩
    · split at h
      · rename_i hst
        obtain rfl := some.inj h
        obtain ⟨s, rfl⟩ := head?_eq_some_iff.mp hst.2
        exact ⟨[], .inr (congrArg ([·, backslash]) hst.1)⟩
      · obtain ⟨m, hm, rfl⟩ := map_eq_some_iff.mp h
        obtain ⟨before, htake⟩ := ih hm
        refine ⟨c :: before, ?_⟩
        rw [take_succ_cons]
        exact htake.imp (congrArg (c :: ·)) (congrArg (c :: ·))

theorem IsSequence.last (h : IsSequence code) :
    ∃ before c, code = before ++ [c] ∧ isWhitespace c = false := by
  have hextract := h []
  rw [append_nil] at hextract
  rcases extractAnsiCode_cases hextract with
    ⟨rest, j, -, hj, hcode⟩ | ⟨next, rest, n, -, -, hn, hcode⟩
  · obtain ⟨hlength, hfinal, -⟩ := findIdx?_eq_some_iff_getElem.mp hj
    refine ⟨escape :: bracket :: rest.take j, rest[j], ?_, isCsiFinal_not_whitespace hfinal⟩
    rw [hcode, take_succ_eq_append_getElem hlength]
    rfl
  · obtain ⟨before, htake | htake⟩ := take_terminatedLength hn
    · exact ⟨escape :: next :: before, bel, by rw [hcode, htake]; rfl, by decide⟩
    · refine ⟨escape :: next :: before ++ [escape], backslash, ?_, by decide⟩
      rw [hcode, htake, append_assoc]
      rfl

theorem trimEnd_append_whitespace (s : JsString) {w : JsString}
    (h : ∀ c ∈ w, isWhitespace c = true) : trimEnd (s ++ w) = trimEnd s := by
  rw [trimEnd, trimEnd, rdropWhile, rdropWhile, reverse_append,
    dropWhile_append_of_pos fun c hc => h c (mem_reverse.mp hc)]

theorem trimEnd_append_nonwhitespace (s : JsString) (h : isWhitespace c = false) :
    trimEnd (s ++ [c]) = s ++ [c] := by
  rw [trimEnd, rdropWhile_concat_neg _ _ _ (by simp [h])]

theorem trimEnd_textOf_prefix (h : Readable items) :
    ∃ kept, kept <+: items ∧ trimEnd (textOf items) = textOf kept := by
  induction items using reverseRecOn with
  | nil => exact ⟨[], nil_prefix, rfl⟩
  | append_singleton items i ih =>
    cases i with
    | code code =>
      obtain ⟨before, c, rfl, hc⟩ := (readable_cons_code.mp h.right).1.last
      refine ⟨items ++ [.code (before ++ [c])], prefix_refl _, ?_⟩
      rw [textOf_append, textOf_cons, textOf_nil, append_nil, text,
        ← append_assoc, trimEnd_append_nonwhitespace _ hc]
    | unit c =>
      by_cases hc : isWhitespace c = true
      · obtain ⟨kept, hkept, htrim⟩ := ih h.left
        refine ⟨kept, hkept.trans (prefix_append _ _), ?_⟩
        have hone : ∀ d ∈ [c], isWhitespace d = true := fun d hd => mem_singleton.mp hd ▸ hc
        rw [textOf_append]
        exact (trimEnd_append_whitespace (textOf items) hone).trans htrim
      · refine ⟨items ++ [.unit c], prefix_refl _, ?_⟩
        rw [textOf_append]
        exact trimEnd_append_nonwhitespace (textOf items) (Bool.eq_false_iff.mpr hc)

/-- A text that shows nothing, also when its start ends a sequence of the text before it. -/
structure Trailing (r : JsString) : Prop where
  head : ∀ c ∈ r.head?, c = escape
  unitsOf : unitsOf (ansiItems r) = []
  csi : ∀ j ∈ r.findIdx? isCsiFinal, AnsiText.unitsOf (ansiItems (r.drop (j + 1))) = []
  terminated : ∀ n ∈ terminatedLength r, AnsiText.unitsOf (ansiItems (r.drop n)) = []
  last : ∀ c ∈ r.getLast?, isWhitespace c = false

theorem terminatedLength_append_of_none (h : terminatedLength s = none)
    (hr : r.head? ≠ some backslash) :
    terminatedLength (s ++ r) = (terminatedLength r).map (· + s.length) := by
  induction s with
  | nil =>
    rw [nil_append]
    cases terminatedLength r <;> rfl
  | cons c s ih =>
    rw [terminatedLength] at h
    split at h
    · cases h
    · rename_i hbel
      split at h
      · cases h
      · rename_i hst
        have hst' : ¬ (c = escape ∧ (s ++ r).head? = some backslash) := by
          rintro ⟨hc, hhead⟩
          cases s with
          | nil => exact hr hhead
          | cons d s => exact hst ⟨hc, hhead⟩
        rw [cons_append, terminatedLength, if_neg hbel, if_neg hst',
          ih (Option.map_eq_none_iff.mp h), Option.map_map]
        rfl

section

variable (hr : Trailing r)
include hr

theorem Trailing.extract (h : extractAnsiCode (c :: s) = none) :
    extractAnsiCode (c :: (s ++ r)) = none ∨
      ∃ code rest, IsSequence code ∧ c :: (s ++ r) = code ++ rest ∧
        AnsiText.unitsOf (ansiItems rest) = [] := by
  by_cases hc : c = escape
  · subst hc
    cases s with
    | nil =>
      refine .inl ?_
      cases r with
      | nil => rfl
      | cons next rest =>
        rw [hr.head next rfl]
        rfl
    | cons next s =>
      have hsplit : ∀ n, escape :: (next :: s ++ r) =
          (escape :: next :: (s ++ r).take (n + s.length)) ++ r.drop n := by
        intro n
        rw [Nat.add_comm, take_length_add_append, cons_append, cons_append,
          cons_append, append_assoc, take_append_drop]
      rw [extractAnsiCode, if_neg (not_not_intro rfl)] at h
      by_cases hcsi : next = bracket
      · subst hcsi
        rw [if_pos rfl] at h
        have hfind : (s ++ r).findIdx? isCsiFinal = (r.findIdx? isCsiFinal).map (· + s.length) := by
          rw [findIdx?_append, map_eq_none_iff.mp h, none_or]
        cases hj : r.findIdx? isCsiFinal with
        | none =>
          rw [hj] at hfind
          refine .inl ?_
          rw [cons_append, extractAnsiCode, if_neg (not_not_intro rfl), if_pos rfl, hfind]
          rfl
        | some j =>
          rw [hj] at hfind
          have hcode := extractAnsiCode_csi hfind
          refine .inr ⟨_, r.drop (j + 1), (isSequence_of_extract hcode).1, ?_, hr.csi j hj⟩
          rw [Nat.add_right_comm]
          exact hsplit (j + 1)
      · rw [if_neg hcsi] at h
        by_cases hopen : next = closingBracket ∨ next = underscore
        · rw [if_pos hopen] at h
          have hlength := terminatedLength_append_of_none (map_eq_none_iff.mp h)
            (fun hhead => absurd (hr.head _ hhead) (by decide))
          cases hn : terminatedLength r with
          | none =>
            rw [hn] at hlength
            refine .inl ?_
            rw [cons_append, extractAnsiCode, if_neg (not_not_intro rfl), if_neg hcsi,
              if_pos hopen, hlength]
            rfl
          | some n =>
            rw [hn] at hlength
            have hcode := extractAnsiCode_terminated hopen hlength
            exact .inr ⟨_, r.drop n, (isSequence_of_extract hcode).1, hsplit n,
              hr.terminated n hn⟩
        · refine .inl ?_
          rw [cons_append, extractAnsiCode, if_neg (not_not_intro rfl), if_neg hcsi, if_neg hopen]
  · exact .inl (extractAnsiCode_of_ne hc _)

theorem Trailing.unitsOf_append (h : Readable items) :
    AnsiText.unitsOf (ansiItems (textOf items ++ r)) <+: AnsiText.unitsOf items := by
  induction items with
  | nil =>
    rw [textOf_nil, nil_append, hr.unitsOf]
    exact nil_prefix
  | cons i items ih =>
    cases i with
    | code code =>
      obtain ⟨hsequence, hrest⟩ := readable_cons_code.mp h
      rw [textOf_cons, text, append_assoc, ansiItems_sequence hsequence]
      exact ih hrest
    | unit c =>
      obtain ⟨hnone, hrest⟩ := readable_cons_unit.mp h
      rw [textOf_cons, text, append_assoc, singleton_append]
      rcases hr.extract hnone with hunit | ⟨code, rest, hsequence, hsplit, hrest⟩
      · rw [ansiItems_unit hunit]
        exact cons_prefix_cons.mpr ⟨rfl, ih hrest⟩
      · rw [hsplit, ansiItems_sequence hsequence, unitsOf_cons_code, hrest]
        exact nil_prefix

theorem Trailing.trimEnd_append (hne : r ≠ []) (s : JsString) : trimEnd (s ++ r) = s ++ r := by
  have hlast := hr.last (r.getLast hne) (getLast?_eq_some_getLast hne)
  rw [← dropLast_append_getLast hne, ← append_assoc]
  exact trimEnd_append_nonwhitespace _ hlast

end

/-- A character that opens a sequence behind `ESC`. -/
def opensSequence (c : CodeUnit) : Prop := c = bracket ∨ c = closingBracket ∨ c = underscore

theorem Trailing.ansiItems_append (hr : Trailing r) (h : Readable items)
    (hopens : ∀ c ∈ AnsiText.unitsOf items, ¬ opensSequence c) :
    ansiItems (textOf items ++ r) = items ++ ansiItems r := by
  induction items with
  | nil => rfl
  | cons i items ih =>
    cases i with
    | code code =>
      obtain ⟨hsequence, hrest⟩ := readable_cons_code.mp h
      rw [textOf_cons, text, append_assoc, ansiItems_sequence hsequence, ih hrest hopens]
      rfl
    | unit c =>
      obtain ⟨hnone, hrest⟩ := readable_cons_unit.mp h
      obtain ⟨-, htail⟩ := forall_mem_cons.mp hopens
      rw [textOf_cons, text, append_assoc, singleton_append]
      have hunit : extractAnsiCode (c :: (textOf items ++ r)) = none := by
        have hnext : ∀ next rest, ¬ opensSequence next →
            extractAnsiCode (c :: next :: rest) = none := by
          intro next rest hnot
          by_cases hc : c = escape
          · rw [extractAnsiCode, if_neg (not_not_intro hc), if_neg fun heq => hnot (.inl heq),
              if_neg fun heq => hnot (.inr heq)]
          · exact extractAnsiCode_of_ne hc _
        have hescape : ¬ opensSequence escape := by unfold opensSequence; decide
        cases items with
        | nil =>
          rw [textOf_nil, nil_append]
          cases r with
          | nil => rfl
          | cons next rest =>
            rw [hr.head next rfl]
            exact hnext escape rest hescape
        | cons i items =>
          cases i with
          | unit d => exact hnext d _ (htail d mem_cons_self)
          | code code =>
            obtain ⟨next, rest, rfl⟩ := (readable_cons_code.mp hrest).1.cons
            exact hnext escape _ hescape
      rw [ansiItems_unit hunit, ih hrest htail]
      rfl

end

theorem expandTab_append (s t : JsString) :
    (s ++ t).flatMap expandTab = s.flatMap expandTab ++ t.flatMap expandTab := flatMap_append

theorem expandTab_of_ne (h : c ≠ 0x09) : expandTab c = [c] := if_neg h

theorem head?_expandTab (h : c ≠ 0x09 ∧ c ≠ 0x20) (s : JsString) :
    (s.flatMap expandTab).head? = some c ↔ s.head? = some c := by
  cases s with
  | nil => exact Iff.rfl
  | cons d s =>
    by_cases hd : d = 0x09
    · subst hd
      rw [flatMap_cons]
      change some (0x20 : CodeUnit) = some c ↔ some (0x09 : CodeUnit) = some c
      simp only [some.injEq]
      exact ⟨fun heq => absurd heq.symm h.2, fun heq => absurd heq.symm h.1⟩
    · rw [flatMap_cons, expandTab_of_ne hd]
      exact Iff.rfl

section

variable (s : JsString)

theorem terminatedLength_expandTab : terminatedLength (s.flatMap expandTab) =
      (terminatedLength s).map fun n => ((s.take n).flatMap expandTab).length := by
  induction s with
  | nil => rfl
  | cons c s ih =>
    by_cases htab : c = 0x09
    · subst htab
      have hspaces : terminatedLength (((0x09 : CodeUnit) :: s).flatMap expandTab) =
          (terminatedLength (s.flatMap expandTab)).map (· + 3) := by
        rw [flatMap_cons]
        change terminatedLength (0x20 :: 0x20 :: 0x20 :: s.flatMap expandTab) = _
        simp only [terminatedLength, bel, escape]
        cases terminatedLength (s.flatMap expandTab) <;> simp
      have hstep : terminatedLength ((0x09 : CodeUnit) :: s) = (terminatedLength s).map (· + 1) := by
        rw [terminatedLength, if_neg (by decide), if_neg (by simp [escape])]
      rw [hspaces, hstep, ih, Option.map_map, Option.map_map]
      refine congrFun (congrArg Option.map (funext fun n => ?_)) _
      rw [comp_apply, comp_apply, take_succ_cons, flatMap_cons, length_append, Nat.add_comm]
      rfl
    · rw [flatMap_cons, expandTab_of_ne htab, singleton_append, terminatedLength, terminatedLength]
      simp only [@head?_expandTab backslash (by decide)]
      by_cases hbel : c = bel
      · rw [if_pos hbel, if_pos hbel, map_some, take_succ_cons, take_zero,
          flatMap_singleton, expandTab_of_ne htab]
        rfl
      · rw [if_neg hbel, if_neg hbel]
        by_cases hst : c = escape ∧ s.head? = some backslash
        · obtain ⟨s, rfl⟩ := head?_eq_some_iff.mp hst.2
          rw [if_pos hst, if_pos hst, hst.1]
          rfl
        · rw [if_neg hst, if_neg hst, ih, Option.map_map, Option.map_map]
          refine congrFun (congrArg Option.map (funext fun n => ?_)) _
          rw [comp_apply, comp_apply, take_succ_cons, flatMap_cons,
            expandTab_of_ne htab, length_append, Nat.add_comm]
          rfl

theorem findIdx?_expandTab : (s.flatMap expandTab).findIdx? isCsiFinal =
      (s.findIdx? isCsiFinal).map fun j => ((s.take j).flatMap expandTab).length := by
  induction s with
  | nil => rfl
  | cons c s ih =>
    rw [flatMap_cons, findIdx?_append, ih, findIdx?_cons]
    by_cases hfinal : isCsiFinal c = true
    · have htab : c ≠ 0x09 := by
        rintro rfl
        exact absurd hfinal (by decide)
      rw [expandTab_of_ne htab, findIdx?_cons, if_pos hfinal, if_pos hfinal]
      rfl
    · have hnone : (expandTab c).findIdx? isCsiFinal = none := by
        rw [expandTab]
        split
        · decide
        · rw [findIdx?_cons, if_neg hfinal]
          rfl
      rw [hnone, if_neg hfinal, Option.map_map, Option.map_map, Option.none_or]
      refine congrFun (congrArg Option.map (funext fun n => ?_)) _
      rw [comp_apply, comp_apply, take_succ_cons, flatMap_cons, length_append, Nat.add_comm]

theorem take_expandTab (n : Nat) :
    (s.flatMap expandTab).take ((s.take n).flatMap expandTab).length =
      (s.take n).flatMap expandTab := by
  conv_lhs =>
    enter [2]
    rw [← take_append_drop n s, expandTab_append]
  exact take_left' rfl

theorem extractAnsiCode_expandTab : extractAnsiCode (s.flatMap expandTab) =
      (extractAnsiCode s).map fun code => code.flatMap expandTab := by
  cases hs : extractAnsiCode s with
  | some code =>
    rcases extractAnsiCode_cases hs with
      ⟨rest, j, rfl, hj, rfl⟩ | ⟨next, rest, n, rfl, hnext, hn, rfl⟩
    · have hfind : (rest.flatMap expandTab).findIdx? isCsiFinal =
          some ((rest.take j).flatMap expandTab).length := by
        rw [findIdx?_expandTab, hj]
        rfl
      obtain ⟨hlength, hfinal, -⟩ := findIdx?_eq_some_iff_getElem.mp hj
      have htab : rest[j] ≠ 0x09 := fun heq => absurd (heq ▸ hfinal) (by decide)
      have htake := take_expandTab rest (j + 1)
      rw [take_succ_eq_append_getElem hlength, expandTab_append, flatMap_singleton,
        expandTab_of_ne htab, length_append] at htake
      refine (extractAnsiCode_csi hfind).trans ?_
      rw [length_singleton] at htake
      rw [htake, map_some, take_succ_eq_append_getElem hlength, flatMap_cons,
        flatMap_cons, expandTab_append, flatMap_singleton, expandTab_of_ne htab]
      rfl
    · have hne : next ≠ 0x09 := by
        rintro rfl
        rcases hnext with h | h <;> exact absurd h (by decide)
      have hlength : terminatedLength (rest.flatMap expandTab) =
          some ((rest.take n).flatMap expandTab).length := by
        rw [terminatedLength_expandTab, hn]
        rfl
      rw [flatMap_cons, flatMap_cons, expandTab_of_ne hne, map_some,
        flatMap_cons, flatMap_cons, expandTab_of_ne hne, ← take_expandTab rest n]
      exact extractAnsiCode_terminated hnext hlength
  | none =>
    match s with
    | [] => rfl
    | c :: s =>
      by_cases hescape : c = escape
      · subst hescape
        cases s with
        | nil => rfl
        | cons next rest =>
          rw [extractAnsiCode, if_neg (not_not_intro rfl)] at hs
          rw [flatMap_cons, flatMap_cons]
          by_cases htab : next = 0x09
          · subst htab
            rfl
          · rw [expandTab_of_ne htab]
            change extractAnsiCode (escape :: next :: rest.flatMap expandTab) = none
            rw [extractAnsiCode, if_neg (not_not_intro rfl), findIdx?_expandTab,
              terminatedLength_expandTab]
            split at hs
            · rename_i hnext
              rw [if_pos hnext, map_eq_none_iff.mp hs]
              rfl
            · rename_i hnext
              rw [if_neg hnext]
              split at hs
              · rename_i hopen
                rw [if_pos hopen, map_eq_none_iff.mp hs]
                rfl
              · rename_i hopen
                rw [if_neg hopen]
      · have hhead : (expandTab c).head? ≠ some escape := by
          rw [expandTab]
          split
          · decide
          · simpa using hescape
        rw [flatMap_cons]
        cases hexpand : expandTab c with
        | nil =>
          rw [expandTab] at hexpand
          split at hexpand <;> cases hexpand
        | cons d more =>
          rw [hexpand] at hhead
          have hd : d ≠ escape := fun heq => hhead (congrArg some heq)
          exact extractAnsiCode_of_ne hd _

theorem unitsOf_expandTab :
    unitsOf (ansiItems (s.flatMap expandTab)) = (unitsOf (ansiItems s)).flatMap expandTab := by
  induction hn : s.length using Nat.strong_induction_on generalizing s with
  | _ n ih =>
    cases s with
    | nil => rfl
    | cons c s =>
      rcases ansiItems_cons_cases c s with ⟨code, rest, hsequence, hsplit, hitems⟩ | ⟨hnone, hitems⟩
      · have hlength := congrArg length hsplit
        have hpos := length_pos_iff.mpr hsequence.ne_nil
        rw [length_append] at hlength
        have hexpanded : IsSequence (code.flatMap expandTab) := by
          have hextract := extractAnsiCode_expandTab code
          have hcode := hsequence []
          rw [append_nil] at hcode
          rw [hcode] at hextract
          exact (isSequence_of_extract hextract).1
        rw [hitems, hsplit, expandTab_append, ansiItems_sequence hexpanded, unitsOf_cons_code,
          unitsOf_cons_code]
        exact ih rest.length (by omega) rest rfl
      · have hrest := ih s.length (by rw [← hn]; exact Nat.lt_succ_self _) s rfl
        have hexpanded := extractAnsiCode_expandTab (c :: s)
        rw [hnone, map_none, flatMap_cons] at hexpanded
        rw [hitems, unitsOf_cons_unit, flatMap_cons, flatMap_cons, ← hrest]
        by_cases htab : c = 0x09
        · subst htab
          have hspace : (0x20 : CodeUnit) ≠ escape := by decide
          change unitsOf (ansiItems (0x20 :: 0x20 :: 0x20 :: s.flatMap expandTab)) = _
          rw [ansiItems_unit (extractAnsiCode_of_ne hspace _),
            ansiItems_unit (extractAnsiCode_of_ne hspace _),
            ansiItems_unit (extractAnsiCode_of_ne hspace _)]
          rfl
        · rw [expandTab_of_ne htab, singleton_append] at hexpanded ⊢
          rw [ansiItems_unit hexpanded]
          rfl

end

section Widths

variable (metrics : TextMetrics)

/-- The width of code units that are no sequence, whatever stands around them. -/
def unitsWidth (units : JsString) : Nat :=
  ((metrics.segment (units.flatMap expandTab)).map metrics.graphemeWidth).sum

/-- What holds of widths: printable ASCII is as wide as it is long, no text is narrower than
its first part, and one with a printable character has a width. -/
structure TextMetrics.Lawful : Prop where
  printable : ∀ s, isPrintableAscii s → unitsWidth metrics s = s.length
  grows : ∀ s t, unitsWidth metrics s ≤ unitsWidth metrics (s ++ t)
  shows : ∀ s, ∀ c ∈ s, isPrintableAscii [c] → 0 < unitsWidth metrics s

theorem ansiItems_of_no_escape (h : ∀ c ∈ s, c ≠ escape) : ansiItems s = s.map .unit := by
  induction s with
  | nil => rfl
  | cons c s ih =>
    obtain ⟨hc, hs⟩ := forall_mem_cons.mp h
    rw [ansiItems_unit (extractAnsiCode_of_ne hc s), ih hs]
    rfl

theorem ne_escape_of_printable (h : isPrintableAscii s) : ∀ c ∈ s, c ≠ escape := by
  rintro c hc rfl
  exact absurd (all_eq_true.mp h escape hc) (by decide)

variable {metrics} (hlawful : metrics.Lawful)
include hlawful

theorem visibleWidth_eq (s : JsString) :
    visibleWidth metrics s = unitsWidth metrics (unitsOf (ansiItems s)) := by
  by_cases h : isPrintableAscii s
  · rw [visibleWidth, if_pos h, ansiItems_of_no_escape (ne_escape_of_printable h), unitsOf_map_unit,
      hlawful.printable s h]
  · rw [visibleWidth, if_neg h, unitsWidth, ← unitsOf_expandTab]
    rfl

theorem visibleWidth_textOf (h : Readable items) :
    visibleWidth metrics (textOf items) = unitsWidth metrics (unitsOf items) := by
  rw [visibleWidth_eq hlawful, h]

theorem unitsWidth_le_of_prefix {t : JsString} (h : s <+: t) :
    unitsWidth metrics s ≤ unitsWidth metrics t := by
  obtain ⟨rest, rfl⟩ := h
  exact hlawful.grows s rest

theorem visibleWidth_trimEnd_le (h : Readable items) (hr : Trailing r) :
    visibleWidth metrics (trimEnd (textOf items ++ r)) ≤ unitsWidth metrics (unitsOf items) := by
  have hread := readable_ansiItems (textOf items ++ r)
  obtain ⟨kept, hkept, htrim⟩ := trimEnd_textOf_prefix hread
  rw [textOf_ansiItems] at htrim
  rw [htrim, visibleWidth_textOf hlawful (hread.part hkept.isInfix)]
  exact unitsWidth_le_of_prefix hlawful (( unitsOf_prefix hkept).trans (hr.unitsOf_append h))

end Widths

end AcademicAgent.AnsiText
