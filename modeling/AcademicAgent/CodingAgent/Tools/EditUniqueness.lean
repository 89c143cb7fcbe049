import AcademicAgent.CodingAgent.Tools.EditDiff
import AcademicAgent.Core.Except

/-!
# Edits and the places they are applied at

A text to find is tested for uniqueness by splitting the normalized content, which sees
occurrences that are apart.
-/

namespace AcademicAgent

open List

variable {found : FuzzyMatchResult} {content path : JsString} {edits : List Edit} {edit : Edit}

def asciiUnit (c : CodeUnit) : CodeUnit :=
  if c ∈ singleQuotes then 0x27
  else if c ∈ doubleQuotes then 0x22
  else if c ∈ dashes then 0x2D
  else if c ∈ specialSpaces then 0x20
  else c

section

variable (text : JsString)

theorem replaceClasses_eq : (replaceClass specialSpaces 0x20 <| replaceClass dashes 0x2D <|
      replaceClass doubleQuotes 0x22 <| replaceClass singleQuotes 0x27 text) =
        text.map asciiUnit := by
  simp only [replaceClass, map_map]
  refine map_congr_left fun c _ => ?_
  simp only [Function.comp_apply, asciiUnit]
  by_cases hsingle : c ∈ singleQuotes
  · simp only [hsingle, ite_true]
    decide
  by_cases hdouble : c ∈ doubleQuotes
  · simp only [hsingle, hdouble, ite_true, ite_false]
    decide
  by_cases hdash : c ∈ dashes
  · simp only [hsingle, hdouble, hdash, ite_true, ite_false]
    decide
  · simp only [hsingle, hdouble, hdash, ite_false]

section

variable (c : CodeUnit)

theorem asciiUnit_cases : asciiUnit c = c ∨
      (isWhitespace (asciiUnit c) = isWhitespace c ∧ asciiUnit (asciiUnit c) = asciiUnit c ∧
        asciiUnit c ≠ lf ∧ c ≠ lf) := by
  have hclasses : ∀ c ∈ singleQuotes ++ doubleQuotes ++ dashes ++ specialSpaces,
      isWhitespace (asciiUnit c) = isWhitespace c ∧ asciiUnit (asciiUnit c) = asciiUnit c ∧
        asciiUnit c ≠ lf ∧ c ≠ lf :=
    forall_mem_of_all (by decide)
  by_cases hc : c ∈ singleQuotes ++ doubleQuotes ++ dashes ++ specialSpaces
  · exact .inr (hclasses c hc)
  · simp only [mem_append, not_or] at hc
    exact .inl (by simp only [asciiUnit, hc, ite_false])

theorem isWhitespace_asciiUnit : isWhitespace (asciiUnit c) = isWhitespace c := by
  rcases asciiUnit_cases c with h | h
  · rw [h]
  · exact h.1

theorem asciiUnit_asciiUnit : asciiUnit (asciiUnit c) = asciiUnit c := by
  rcases asciiUnit_cases c with h | h
  · rw [h, h]
  · exact h.2.1

theorem asciiUnit_eq_lf_iff : asciiUnit c = lf ↔ c = lf := by
  rcases asciiUnit_cases c with h | h
  · rw [h]
  · exact iff_of_false h.2.2.1 h.2.2.2

end

theorem trimEnd_map_asciiUnit (line : JsString) :
    trimEnd (line.map asciiUnit) = (trimEnd line).map asciiUnit := by
  have hsame : isWhitespace ∘ asciiUnit = isWhitespace := funext isWhitespace_asciiUnit
  simp only [trimEnd, rdropWhile, ← map_reverse, dropWhile_map, hsame]

theorem splitLines_map_asciiUnit :
    splitLines (text.map asciiUnit) = (splitLines text).map (map asciiUnit) := by
  simp only [splitLines, splitOn]
  induction text with
  | nil => rfl
  | cons c text ih =>
    simp only [map_cons, splitOnP_cons_eq_if_modifyHead, beq_iff_eq, asciiUnit_eq_lf_iff, ih]
    split
    · rfl
    · cases text.splitOnP (· == lf) with
      | nil => rfl
      | cons line lines => rfl

theorem splitLines_trimmed : splitLines ([lf].intercalate ((splitLines text).map trimEnd)) =
      (splitLines text).map trimEnd := by
  refine splitOn_intercalate lf ?_ ?_
  · intro line hline
    obtain ⟨line, hmem, rfl⟩ := mem_map.mp hline
    exact fun h => separator_notMem_splitOn lf _ _ hmem (( rdropWhile_prefix _ _).subset h)
  · exact fun h => splitOnP_ne_nil _ _ (map_eq_nil_iff.mp h)

theorem cleanForFuzzyMatch_idem :
    cleanForFuzzyMatch (cleanForFuzzyMatch text) = cleanForFuzzyMatch text := by
  simp only [cleanForFuzzyMatch, replaceClasses_eq, splitLines_map_asciiUnit, splitLines_trimmed,
    map_map]
  have htrim : trimEnd ∘ map asciiUnit ∘ trimEnd = map asciiUnit ∘ trimEnd := by
    funext line
    simp only [Function.comp_apply, trimEnd_map_asciiUnit]
    rw [trimEnd, trimEnd, rdropWhile_idempotent]
  have hlines : [lf].intercalate ((splitLines text).map (map asciiUnit ∘ trimEnd)) =
      ([lf].intercalate ((splitLines text).map trimEnd)).map asciiUnit := by
    have hsplit := @intercalate_splitOn _ (([lf].intercalate
      ((splitLines text).map trimEnd)).map asciiUnit) _ _ lf
    rwa [← splitLines, splitLines_map_asciiUnit, splitLines_trimmed, map_map] at hsplit
  rw [htrim, hlines, map_map]
  refine map_congr_left fun c _ => asciiUnit_asciiUnit c

end

section Apply

variable (nfkc : JsString → JsString)

/-- A normalized text stays normalized when its lines are trimmed and its quotes,
dashes and spaces are replaced. -/
def StableUnderCleaning : Prop :=
  ∀ text, nfkc (cleanForFuzzyMatch (nfkc text)) = cleanForFuzzyMatch (nfkc text)

/-- The text that is looked for in a content: the text as it is where that occurs. -/
def searchText (content oldText : JsString) : JsString :=
  if (indexOf? oldText content).isSome then oldText else normalizeForFuzzyMatch nfkc oldText

/-- What makes the count exceed one: two places of the normalized text that are
apart, or code units to cut between when nothing is left of it. -/
def CountedTwice (content oldText : JsString) : Prop :=
  if normalizeForFuzzyMatch nfkc oldText = [] then 2 < (normalizeForFuzzyMatch nfkc content).length
  else OccursApart (normalizeForFuzzyMatch nfkc content) (normalizeForFuzzyMatch nfkc oldText)

variable {nfkc}

theorem normalizeForFuzzyMatch_idem (hstable : StableUnderCleaning nfkc) (text : JsString) :
    normalizeForFuzzyMatch nfkc (normalizeForFuzzyMatch nfkc text) =
      normalizeForFuzzyMatch nfkc text := by
  rw [normalizeForFuzzyMatch, normalizeForFuzzyMatch, hstable, cleanForFuzzyMatch_idem]

section

variable {content oldText : JsString}

theorem one_lt_countOccurrences_iff :
    1 < countOccurrences nfkc content oldText ↔ CountedTwice nfkc content oldText := by
  rw [CountedTwice, ← two_lt_splitAll_length_iff, countOccurrences]
  omega

theorem fuzzyFindText_eq_exact (h : (indexOf? oldText content).isSome) :
    ∃ found, fuzzyFindText nfkc content oldText = some found ∧ found.usedFuzzyMatch = false := by
  obtain ⟨exactIndex, hexact⟩ := Option.isSome_iff_exists.mp h
  rw [fuzzyFindText, hexact]
  exact ⟨_, rfl, rfl⟩

theorem fuzzyFindText_eq_fuzzy (h : ¬ (indexOf? oldText content).isSome)
    (hfound : fuzzyFindText nfkc content oldText = some found) : found.usedFuzzyMatch = true ∧ ∃ p,
      OccursAt (normalizeForFuzzyMatch nfkc content) (normalizeForFuzzyMatch nfkc oldText) p := by
  rw [Option.not_isSome_iff_eq_none] at h
  rw [fuzzyFindText, h] at hfound
  obtain ⟨fuzzyIndex, hindex, rfl⟩ := Option.map_eq_some_iff.mp hfound
  exact ⟨rfl, fuzzyIndex, (indexOf?_eq_some hindex).1⟩

end

theorem normalize_baseContentOf (hstable : StableUnderCleaning nfkc) (hedit : edit ∈ edits)
    (hfound : fuzzyFindText nfkc (baseContentOf nfkc content edits) edit.oldText = some found)
    (hused : found.usedFuzzyMatch = true) :
    normalizeForFuzzyMatch nfkc (baseContentOf nfkc content edits) =
      baseContentOf nfkc content edits := by
  by_cases hany : edits.any fun edit =>
      (fuzzyFindText nfkc content edit.oldText).any fun found => found.usedFuzzyMatch
  · rw [baseContentOf, if_pos hany, normalizeForFuzzyMatch_idem hstable]
  · rw [baseContentOf, if_neg hany] at hfound
    exact absurd (any_eq_true.mpr ⟨edit, hedit, by simp only [hfound, Option.any_some, hused]⟩) hany

theorem occursAt_of_fuzzyFindText (hstable : StableUnderCleaning nfkc) (hedit : edit ∈ edits)
    (hfound : (fuzzyFindText nfkc (baseContentOf nfkc content edits) edit.oldText).isSome) :
    ∃ p, OccursAt (baseContentOf nfkc content edits)
      (searchText nfkc (baseContentOf nfkc content edits) edit.oldText) p := by
  obtain ⟨found, hfound⟩ := Option.isSome_iff_exists.mp hfound
  rw [searchText]
  split
  · rename_i hexact
    exact indexOf?_isSome_iff.mp hexact
  · rename_i hexact
    obtain ⟨hused, p, hp⟩ := fuzzyFindText_eq_fuzzy hexact hfound
    rw [normalize_baseContentOf hstable hedit hfound hused] at hp
    exact ⟨p, hp⟩

def foundEdits (nfkc : JsString → JsString) (baseContent : JsString) (i : Nat)
    (edits : List Edit) : List MatchedEdit :=
  (edits.zipIdx i).filterMap fun (edit, editIndex) =>
    (fuzzyFindText nfkc baseContent edit.oldText).map fun found =>
      { editIndex
        matchIndex := found.index
        matchLength := found.matchLength
        newText := edit.newText }

/-- A found edit ends before the start of another. -/
def EndsBefore (a b : MatchedEdit) : Prop := a.matchIndex + a.matchLength ≤ b.matchIndex

/-- The checks of an application other than the count of occurrences. -/
structure PassesOtherChecks (nfkc : JsString → JsString) (content : JsString)
    (edits : List Edit) : Prop where
  /-- No text to find is empty. -/
  oldText_ne_nil : ∀ edit ∈ edits, edit.oldText ≠ []
  /-- Every text is found. -/
  found : ∀ edit ∈ edits,
    (fuzzyFindText nfkc (baseContentOf nfkc content edits) edit.oldText).isSome
  /-- The found regions do not overlap. -/
  disjoint : (sortMatches (foundEdits nfkc (baseContentOf nfkc content edits) 0 edits)).Pairwise
    EndsBefore
  /-- The replacements change the content. -/
  changed : replaceMatches (baseContentOf nfkc content edits)
    (sortMatches (foundEdits nfkc (baseContentOf nfkc content edits) 0 edits)) ≠
      baseContentOf nfkc content edits

theorem checkOldTexts_eq_ok_iff {totalEdits i : Nat} :
    checkOldTexts path totalEdits i edits = .ok () ↔ ∀ edit ∈ edits, edit.oldText ≠ [] := by
  induction edits generalizing i with
  | nil => simp only [checkOldTexts, not_mem_nil, false_implies, implies_true]
  | cons edit edits ih =>
    rw [checkOldTexts, forall_mem_cons]
    split
    · rename_i hempty
      simp only [reduceCtorEq, hempty, ne_eq, not_true_eq_false, false_and]
    · rename_i hne
      rw [ih, and_iff_right hne]

theorem foundEdits_cons {baseContent : JsString} {i : Nat}
    (h : fuzzyFindText nfkc baseContent edit.oldText = some found) :
    foundEdits nfkc baseContent i (edit :: edits) =
      { editIndex := i
        matchIndex := found.index
        matchLength := found.matchLength
        newText := edit.newText } :: foundEdits nfkc baseContent (i + 1) edits := by
  simp only [foundEdits, zipIdx_cons, filterMap_cons, h, Option.map_some]

theorem matchEdits_eq_ok_iff {baseContent : JsString} {totalEdits i : Nat}
    {matchedEdits : List MatchedEdit} :
    matchEdits nfkc baseContent path totalEdits i edits = .ok matchedEdits ↔
      (∀ edit ∈ edits, (fuzzyFindText nfkc baseContent edit.oldText).isSome ∧
        ¬ CountedTwice nfkc baseContent edit.oldText) ∧
        matchedEdits = foundEdits nfkc baseContent i edits := by
  simp only [← one_lt_countOccurrences_iff]
  induction edits generalizing i matchedEdits with
  | nil =>
    simp only [matchEdits, Except.ok.injEq, not_mem_nil, false_implies, implies_true,
      true_and, foundEdits, zipIdx_nil, filterMap_nil, eq_comm]
  | cons edit edits ih =>
    rw [matchEdits, forall_mem_cons]
    cases hfind : fuzzyFindText nfkc baseContent edit.oldText with
    | none => simp only [reduceCtorEq, Option.isSome_none, Bool.false_eq_true, false_and]
    | some found =>
      by_cases htwice : 1 < countOccurrences nfkc baseContent edit.oldText
      · simp only [htwice, ite_true, reduceCtorEq, not_true_eq_false, and_false, false_and]
      · simp only [htwice, ite_false, Option.isSome_some, not_false_eq_true, and_self, true_and,
          foundEdits_cons hfind]
        constructor
        · intro h
          cases hrest : matchEdits nfkc baseContent path totalEdits (i + 1) edits with
          | error e => rw [hrest] at h; cases h
          | ok rest =>
            rw [hrest] at h
            cases h
            obtain ⟨hall, rfl⟩ := ih.mp hrest
            exact ⟨hall, rfl⟩
        · rintro ⟨hall, rfl⟩
          rw [ih.mpr ⟨hall, rfl⟩]
          rfl

theorem checkOverlap_eq_ok_iff {matchedEdits : List MatchedEdit} :
    checkOverlap path matchedEdits = .ok () ↔ matchedEdits.Pairwise EndsBefore := by
  have : IsTrans MatchedEdit EndsBefore := ⟨fun a b c hab hbc => by
    rw [EndsBefore] at *
    omega⟩
  rw [← isChain_iff_pairwise]
  induction matchedEdits with
  | nil => exact iff_of_true rfl List.IsChain.nil
  | cons previous matchedEdits ih =>
    cases matchedEdits with
    | nil => exact iff_of_true rfl (List.IsChain.singleton previous)
    | cons current matchedEdits =>
      rw [checkOverlap, isChain_cons_cons, EndsBefore]
      split
      · rename_i hoverlap
        simp only [reduceCtorEq, Nat.not_le.mpr hoverlap, false_and]
      · rename_i hdisjoint
        exact ih.trans (and_iff_right (Nat.not_lt.mp hdisjoint)).symm

theorem applyEdits_eq_ok_iff {r : AppliedEditsResult} :
    applyEditsToNormalizedContent nfkc content edits path = .ok r ↔
      PassesOtherChecks nfkc content (edits.map Edit.normalize) ∧
        (∀ edit ∈ edits.map Edit.normalize, ¬ CountedTwice nfkc
          (baseContentOf nfkc content (edits.map Edit.normalize)) edit.oldText) ∧
        r = ⟨baseContentOf nfkc content (edits.map Edit.normalize),
          replaceMatches (baseContentOf nfkc content (edits.map Edit.normalize))
            (sortMatches (foundEdits nfkc (baseContentOf nfkc content (edits.map Edit.normalize)) 0
              (edits.map Edit.normalize)))⟩ := by
  simp only [applyEditsToNormalizedContent, except_bind_eq_ok_iff, matchEdits_eq_ok_iff]
  generalize edits.map Edit.normalize = edits
  constructor
  · rintro ⟨⟨⟩, htexts, _, ⟨hmatched, rfl⟩, ⟨⟩, hdisjoint, h⟩
    split at h
    · cases h
    · rename_i hchanged
      cases h
      exact ⟨⟨checkOldTexts_eq_ok_iff.mp htexts, fun edit hedit => (hmatched edit hedit).1,
        checkOverlap_eq_ok_iff.mp hdisjoint, Ne.symm hchanged⟩, fun edit hedit => (hmatched edit hedit).2, rfl⟩
  · rintro ⟨hpasses, honce, rfl⟩
    refine ⟨(), checkOldTexts_eq_ok_iff.mpr hpasses.oldText_ne_nil, _,
      ⟨fun edit hedit => ⟨hpasses.found edit hedit, honce edit hedit⟩, rfl⟩, (),
      checkOverlap_eq_ok_iff.mpr hpasses.disjoint, ?_⟩
    rw [if_neg hpasses.changed.symm]
    rfl

/-- A text that is not empty and starts at one position only. -/
def OneStart (content text : JsString) : Prop := text ≠ [] ∧ ∃! p, OccursAt content text p

/-- What an application promises: a successful one replaced texts with one start, and
a text with two starts is rejected and nothing is written. -/
structure EditsUnique (nfkc : JsString → JsString) (content : JsString) (edits : List Edit)
    (path : JsString) : Prop where
  oneStart : ∀ r, applyEditsToNormalizedContent nfkc content edits path = .ok r →
    ∀ edit ∈ edits.map Edit.normalize,
      OneStart r.baseContent (searchText nfkc r.baseContent edit.oldText)
  rejected : ∀ edit ∈ edits.map Edit.normalize,
    OccursTwice (baseContentOf nfkc content (edits.map Edit.normalize)) (searchText nfkc
      (baseContentOf nfkc content (edits.map Edit.normalize)) edit.oldText) →
    (∃ e, applyEditsToNormalizedContent nfkc content edits path = .error e) ∧
      ∀ rawContent, normalizeToLF (stripBom rawContent).2 = content →
        ∃ e, editFile nfkc rawContent edits path = .error e

theorem editFile_eq_error {rawContent e : JsString}
    (h : applyEditsToNormalizedContent nfkc (normalizeToLF (stripBom rawContent).2) edits path = .error e)
    : ∃ e, editFile nfkc rawContent edits path = .error e := by
  rw [editFile]
  split
  · exact ⟨_, rfl⟩
  · simp only [h]
    exact ⟨e, rfl⟩

end Apply

end AcademicAgent
