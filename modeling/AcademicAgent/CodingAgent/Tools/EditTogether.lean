import AcademicAgent.CodingAgent.Tools.EditFrame

/-!
# Edits are applied at once

All texts are found in one content, so a successful application replaces their regions at once,
in whatever order the edits are listed.
-/

namespace AcademicAgent

open List Edit

open MatchedEdit (region)

variable {content : JsString} {edits : List Edit}

section

variable (nfkc : JsString → JsString)

/-- The regions where the texts of the edits are found, in the order of the edits. -/
def foundRegions (baseContent : JsString) (edits : List Edit) : List (Region CodeUnit) :=
  (edits.map Edit.normalize).filterMap fun edit =>
    (fuzzyFindText nfkc baseContent edit.oldText).map fun found =>
      ⟨found.index, found.matchLength, edit.newText⟩

/-- A successful application replaces all found regions at once, and any order of the edits gives
the same. -/
structure AppliedAtOnce (content : JsString) (edits : List Edit) (path : JsString)
    (r : AppliedEditsResult) : Prop where
  atOnce : AtOnce r.baseContent (foundRegions nfkc r.baseContent edits) r.newContent
  anyOrder : ∀ edits' : List Edit, edits'.Perm edits →
    applyEditsToNormalizedContent nfkc content edits' path = .ok r

variable {nfkc}

theorem map_region_foundEdits (baseContent : JsString) (i : Nat) (edits : List Edit) :
    (foundEdits nfkc baseContent i (edits.map normalize)).map region =
      foundRegions nfkc baseContent edits := by
  rw [foundRegions]
  generalize edits.map normalize = edits
  induction edits generalizing i with
  | nil => rfl
  | cons edit edits ih =>
    cases hfound : fuzzyFindText nfkc baseContent edit.oldText with
    | none =>
      rw [filterMap_cons_none (by rw [hfound]; rfl), ← ih (i + 1)]
      simp [foundEdits, hfound]
    | some found =>
      rw [foundEdits_cons hfound, map_cons, ih (i + 1), filterMap_cons_some (by rw [hfound]; rfl)]
      rfl

theorem foundRegions_perm {baseContent : JsString} {edits edits' : List Edit}
    (h : edits'.Perm edits) :
    (foundRegions nfkc baseContent edits').Perm (foundRegions nfkc baseContent edits) :=
  (h.map normalize).filterMap _

theorem baseContentOf_perm {content : JsString} {edits edits' : List Edit} (h : edits'.Perm edits) :
    baseContentOf nfkc content edits' = baseContentOf nfkc content edits := by
  have hany : (edits'.any fun edit =>
      (fuzzyFindText nfkc content edit.oldText).any fun found => found.usedFuzzyMatch) =
      edits.any fun edit =>
        (fuzzyFindText nfkc content edit.oldText).any fun found => found.usedFuzzyMatch := by
    rw [Bool.eq_iff_iff, any_eq_true, any_eq_true]
    simp only [h.mem_iff]
  rw [baseContentOf, baseContentOf, hany]

theorem replaceMatches_eq_splice {baseContent : JsString} {matchedEdits : List MatchedEdit}
    (h : InOrder baseContent (matchedEdits.map region)) :
    replaceMatches baseContent matchedEdits = splice baseContent 0 (matchedEdits.map region) := by
  rw [← foldr_eq_splice h, foldr_map]
  rfl

theorem stop_le_of_mem_foundRegions (hstable : StableUnderCleaning nfkc) {r : Region CodeUnit}
    (hr : r ∈ foundRegions nfkc (baseContentOf nfkc content (edits.map normalize)) edits) :
    r.stop ≤ (baseContentOf nfkc content (edits.map normalize)).length := by
  obtain ⟨edit, hedit, hmap⟩ := mem_filterMap.mp hr
  obtain ⟨found, hfound, rfl⟩ := Option.map_eq_some_iff.mp hmap
  have hfind := hfound
  rw [fuzzyFindText] at hfind
  split at hfind
  · rename_i exactIndex hexact
    cases hfind
    exact (indexOf?_eq_some hexact).1.add_length_le
  · obtain ⟨fuzzyIndex, hindex, hresult⟩ := Option.map_eq_some_iff.mp hfind
    subst hresult
    rw [normalize_baseContentOf hstable hedit hfound rfl] at hindex
    exact (indexOf?_eq_some hindex).1.add_length_le

theorem sortMatches_perm (matchedEdits : List MatchedEdit) :
    (sortMatches matchedEdits).Perm matchedEdits := mergeSort_perm _ _

theorem matchIndex_le_trans (a b c : MatchedEdit) :
    decide (a.matchIndex ≤ b.matchIndex) = true → decide (b.matchIndex ≤ c.matchIndex) = true →
      decide (a.matchIndex ≤ c.matchIndex) = true := by
  simp only [decide_eq_true_iff]
  exact Nat.le_trans

theorem matchIndex_le_total (a b : MatchedEdit) :
    (decide (a.matchIndex ≤ b.matchIndex) || decide (b.matchIndex ≤ a.matchIndex)) = true := by
  rw [Bool.or_eq_true, decide_eq_true_iff, decide_eq_true_iff]
  exact Nat.le_total _ _

theorem sortMatches_endsBefore {matchedEdits : List MatchedEdit}
    (hapart : (matchedEdits.map region).Pairwise Region.Apart)
    (hcommutes : (matchedEdits.map region).Pairwise Region.Commutes) :
    (sortMatches matchedEdits).Pairwise EndsBefore := by
  have hperm := sortMatches_perm matchedEdits
  have hsorted : (sortMatches matchedEdits).Pairwise fun a b =>
      decide (a.matchIndex ≤ b.matchIndex) = true :=
    pairwise_mergeSort matchIndex_le_trans matchIndex_le_total _
  have hapart' := hperm.symm.pairwise (pairwise_map.mp hapart) Region.Apart.symm
  have hcommutes' := hperm.symm.pairwise (pairwise_map.mp hcommutes) Region.Commutes.symm
  refine (hsorted.and (hapart'.and hcommutes')).imp ?_
  rintro a b ⟨hle, hab, htie⟩
  rw [decide_eq_true_iff] at hle
  rcases hab with hbefore | hafter
  · exact hbefore
  · -- the second ends before the first, so both are empty and at one place
    have hend : b.matchIndex + b.matchLength ≤ a.matchIndex := hafter
    have hstart : a.matchIndex = b.matchIndex := by omega
    have hlength : a.matchLength = 0 := (htie hstart).1
    rw [EndsBefore]
    omega

theorem length_eq_zero_of_sublist {content path : JsString} {edits : List Edit}
    {r : AppliedEditsResult} (hok : applyEditsToNormalizedContent nfkc content edits path = .ok r)
    {a b : Region CodeUnit} (hpair : [a, b].Sublist (foundRegions nfkc r.baseContent edits))
    (hstart : a.start = b.start) : a.length = 0 := by
  obtain ⟨hpasses, -, rfl⟩ := applyEdits_eq_ok_iff.mp hok
  rw [← map_region_foundEdits _ 0] at hpair
  obtain ⟨ms, hms, heq⟩ := sublist_map_iff.mp hpair
  obtain ⟨m, ms', rfl, rfl, hrest⟩ := map_eq_cons_iff.mp heq.symm
  obtain ⟨m', rfl, rfl⟩ := map_eq_singleton_iff.mp hrest
  have hle : decide (m.matchIndex ≤ m'.matchIndex) = true :=
    decide_eq_true (Nat.le_of_eq hstart)
  have hsorted := pair_sublist_mergeSort matchIndex_le_trans matchIndex_le_total hle hms
  have hends : m.matchIndex + m.matchLength ≤ m'.matchIndex :=
    pairwise_iff_forall_sublist.mp hpasses.disjoint hsorted
  have hindex : m.matchIndex = m'.matchIndex := hstart
  have hlength : m.matchLength = 0 := by omega
  exact hlength

section

variable (hstable : StableUnderCleaning nfkc)
include hstable

theorem inOrder_sortMatches
    (hdisjoint : (sortMatches (foundEdits nfkc (baseContentOf nfkc content (edits.map normalize)) 0 (edits.map normalize))).Pairwise EndsBefore)
    : InOrder (baseContentOf nfkc content (edits.map normalize))
      ((sortMatches (foundEdits nfkc (baseContentOf nfkc content (edits.map normalize)) 0
        (edits.map normalize))).map region) := by
  refine ⟨pairwise_map.mpr hdisjoint, fun r hr => stop_le_of_mem_foundRegions hstable ?_⟩
  rw [← map_region_foundEdits _ 0]
  exact ((sortMatches_perm _).map _).mem_iff.mp hr

theorem applyEdits_perm {path : JsString} {edits' : List Edit} {r : AppliedEditsResult}
    (hok : applyEditsToNormalizedContent nfkc content edits path = .ok r)
    (hcommutes : (foundRegions nfkc r.baseContent edits).Pairwise Region.Commutes)
    (hperm : edits'.Perm edits) :
    applyEditsToNormalizedContent nfkc content edits' path = .ok r := by
  obtain ⟨hpasses, honce, rfl⟩ := applyEdits_eq_ok_iff.mp hok
  have hperm' := hperm.map normalize
  have hbase := @baseContentOf_perm nfkc content _ _ hperm'
  have horder := inOrder_sortMatches hstable hpasses.disjoint
  have hregions := ((sortMatches_perm (foundEdits nfkc
    (baseContentOf nfkc content (edits.map normalize)) 0 (edits.map normalize))).map
      region)
  rw [map_region_foundEdits] at hregions
  have hfound := @foundRegions_perm nfkc (baseContentOf nfkc content (edits.map normalize)) _ _
    hperm
  have hapart := hregions.pairwise (horder.disjoint.imp Or.inl) Region.Apart.symm
  have hdisjoint := @sortMatches_endsBefore (foundEdits nfkc
    (baseContentOf nfkc content (edits.map normalize)) 0 (edits'.map normalize))
    (by rw [map_region_foundEdits]; exact hfound.symm.pairwise hapart Region.Apart.symm)
    (by rw [map_region_foundEdits]; exact hfound.symm.pairwise hcommutes Region.Commutes.symm)
  rw [← hbase] at hdisjoint
  have horder' := inOrder_sortMatches hstable hdisjoint
  have hregions' := ((sortMatches_perm (foundEdits nfkc
    (baseContentOf nfkc content (edits'.map normalize)) 0 (edits'.map normalize))).map
      region)
  rw [map_region_foundEdits, hbase] at hregions'
  have hreplace := replaceMatches_eq_splice horder'
  rw [hbase] at hreplace horder' hdisjoint
  rw [splice_perm (hregions'.trans (hfound.trans hregions.symm)) horder'.disjoint horder.disjoint
    (hregions'.symm.pairwise (hfound.symm.pairwise hcommutes Region.Commutes.symm)
      Region.Commutes.symm), ← replaceMatches_eq_splice horder] at hreplace
  have hmem (edit : Edit) (hedit : edit ∈ edits'.map normalize) :
      edit ∈ edits.map normalize := hperm'.mem_iff.mp hedit
  rw [applyEdits_eq_ok_iff, hbase]
  refine ⟨⟨fun edit hedit => hpasses.oldText_ne_nil edit (hmem edit hedit), ?_, ?_, ?_⟩,
    fun edit hedit => honce edit (hmem edit hedit), ?_⟩
  · rw [hbase]
    exact fun edit hedit => hpasses.found edit (hmem edit hedit)
  · rw [hbase]
    exact hdisjoint
  · rw [hbase, hreplace]
    exact hpasses.changed
  · rw [hreplace]

/-- A successful application replaces all regions at once, whatever the order of the edits, unless
two edits are found at one place where their new texts may not stand in either order. -/
theorem applyEdits_atOnce_iff {content path : JsString} {edits : List Edit} {r : AppliedEditsResult}
    (hok : applyEditsToNormalizedContent nfkc content edits path = .ok r) :
    AppliedAtOnce nfkc content edits path r ↔
      (foundRegions nfkc r.baseContent edits).Pairwise Region.Commutes := by
  constructor
  · intro h
    rw [pairwise_iff_forall_sublist]
    intro a b hpair hstart
    have hreverse := h.anyOrder edits.reverse edits.reverse_perm
    have hback : foundRegions nfkc r.baseContent edits.reverse =
        (foundRegions nfkc r.baseContent edits).reverse := by
      rw [foundRegions, foundRegions, map_reverse, filterMap_reverse]
    have hpair' : [b, a].Sublist (foundRegions nfkc r.baseContent edits.reverse) := by
      rw [hback]
      exact hpair.reverse
    have ha := length_eq_zero_of_sublist hok hpair hstart
    have hb := length_eq_zero_of_sublist hreverse hpair' hstart.symm
    obtain ⟨rest, hrest⟩ := hpair.exists_perm_append
    exact ⟨ha, hb, (h.atOnce.perm hrest).text_comm hstart ha hb⟩
  · intro hcommutes
    refine ⟨?_, fun edits' hperm => applyEdits_perm hstable hok hcommutes hperm⟩
    obtain ⟨hpasses, -, rfl⟩ := applyEdits_eq_ok_iff.mp hok
    have horder := inOrder_sortMatches hstable hpasses.disjoint
    dsimp only at hcommutes ⊢
    rw [replaceMatches_eq_splice horder]
    refine atOnce_of_inOrder ?_ horder hcommutes
    rw [← map_region_foundEdits _ 0]
    exact (sortMatches_perm _).map _

end

end

/-- A word is replaced. -/
theorem applyEdits_atOnce_iff_word :
    AppliedAtOnce id (js "a b") [⟨js "b", js "c"⟩] (js "p") ⟨js "a b", js "a c"⟩ ↔
      (foundRegions id (js "a b") [⟨js "b", js "c"⟩]).Pairwise Region.Commutes :=
  applyEdits_atOnce_iff (fun _ => rfl) (by decide +kernel)

deriving instance DecidableEq for MatchedEdit

deriving instance DecidableEq for Region

/-- Blanks that do not occur are found in front of the text, where another edit is found. -/
theorem applyEdits_order_matters :
    ¬ ∀ (content path : JsString) (edits : List Edit) (r : AppliedEditsResult),
      applyEditsToNormalizedContent id content edits path = .ok r →
        AppliedAtOnce id content edits path r := by
  intro h
  have hsorted : sortMatches [⟨0, 0, 0, js "X"⟩, ⟨1, 0, 1, js "Y"⟩] =
      [⟨0, 0, 0, js "X"⟩, ⟨1, 0, 1, js "Y"⟩] := by
    rw [sortMatches]
    exact mergeSort_of_pairwise (by simp)
  have hmatch : matchEdits id (js "ab") (js "p") 2 0 [⟨js "  ", js "X"⟩, ⟨js "a", js "Y"⟩] =
      .ok [⟨0, 0, 0, js "X"⟩, ⟨1, 0, 1, js "Y"⟩] := by decide +kernel
  have hbase : baseContentOf id (js "ab") [⟨js "  ", js "X"⟩, ⟨js "a", js "Y"⟩] = js "ab" := by
    decide +kernel
  have hnormal : [⟨js "  ", js "X"⟩, ⟨js "a", js "Y"⟩].map Edit.normalize =
      [⟨js "  ", js "X"⟩, ⟨js "a", js "Y"⟩] := by decide +kernel
  have hok : applyEditsToNormalizedContent id (js "ab") [⟨js "  ", js "X"⟩, ⟨js "a", js "Y"⟩]
      (js "p") = .ok ⟨js "ab", js "XYb"⟩ := by
    rw [applyEditsToNormalizedContent]
    simp only [hnormal, hbase, except_bind_eq_ok_iff]
    refine ⟨(), by decide +kernel, _, hmatch, (), ?_, ?_⟩
    all_goals
      rw [hsorted]
      decide +kernel
  have hswap := (h _ _ _ _ hok).anyOrder [⟨js "a", js "Y"⟩, ⟨js "  ", js "X"⟩] (.swap _ _ _)
  have hregions : foundRegions id (js "ab") [⟨js "a", js "Y"⟩, ⟨js "  ", js "X"⟩] =
      [⟨0, 1, js "Y"⟩, ⟨0, 0, js "X"⟩] := by decide +kernel
  have hzero := @length_eq_zero_of_sublist id _ _ _ _ hswap ⟨0, 1, js "Y"⟩ ⟨0, 0, js "X"⟩
    (by rw [hregions]) rfl
  cases hzero

end AcademicAgent
