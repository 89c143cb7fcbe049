import Mathlib.Data.List.Lex
import Mathlib.Data.List.Pairwise
import AcademicAgent.CodingAgent.ModelResolver
import AcademicAgent.Core.StableSelect

/-!
# Exact model references

The text `provider/id` of a model resolves to the model, unless an earlier rule of the
resolution finds another one.
-/

namespace AcademicAgent

open List Option

namespace ModelResolver

section References

variable (toLowerCase : JsString → JsString) (localeCompare : JsString → JsString → Int)

/-- What is known of `toLowerCase`: a slash stays, and what is on one side of it does not depend
on the other side; and a text without its surrounding whitespace does not become longer. -/
structure KeepsReferences : Prop where
  slash : ∀ a b, toLowerCase (a ++ Path.slash :: b) =
    toLowerCase a ++ Path.slash :: toLowerCase b
  trim : ∀ s, (toLowerCase (trim s)).length ≤ (toLowerCase s).length

/-- What is known of `localeCompare`: a comparison with no further argument is a preorder. -/
structure ConsistentCompare : Prop where
  trans : ∀ a b c, localeCompare a b ≤ 0 → localeCompare b c ≤ 0 → localeCompare a c ≤ 0
  total : ∀ a b, localeCompare a b ≤ 0 ∨ localeCompare b a ≤ 0

variable {x : RegistryModel} {models : List RegistryModel} {pattern provider : JsString}

/-- No two models have the same provider and id up to case. -/
def UniqueReferences (models : List RegistryModel) : Prop :=
  models.Pairwise fun a b =>
    ¬ (toLowerCase a.provider = toLowerCase b.provider ∧ toLowerCase a.id = toLowerCase b.id)

/-- The two parts of a reference are the provider and the id of a model. -/
def NamesParts (trimmedReference : JsString) (model : RegistryModel) : Prop :=
  match splitSlash trimmedReference with
  | none => False
  | some (provider, modelId) =>
    (trim provider ≠ [] ∧ trim modelId ≠ []) ∧
      toLowerCase model.provider = toLowerCase (trim provider) ∧
      toLowerCase model.id = toLowerCase (trim modelId)

instance (trimmedReference : JsString) (model : RegistryModel) :
    Decidable (NamesParts toLowerCase trimmedReference model) :=
  match h : splitSlash trimmedReference with
  | none => isFalse (by rw [NamesParts, h]; exact id)
  | some (provider, modelId) =>
    decidable_of_iff
      ((trim provider ≠ [] ∧ trim modelId ≠ []) ∧
        toLowerCase model.provider = toLowerCase (trim provider) ∧
        toLowerCase model.id = toLowerCase (trim modelId)) (by rw [NamesParts, h])

/-- A text, without the whitespace around it, is the reference of a model, its provider and
its id, or its id. -/
def RefersTo (modelReference : JsString) (model : RegistryModel) : Prop :=
  trim modelReference ≠ [] ∧
    (toLowerCase model.reference = toLowerCase (trim modelReference) ∨
      NamesParts toLowerCase (trim modelReference) model ∨
      toLowerCase model.id = toLowerCase (trim modelReference))

/-- A pattern without some of the thinking levels at its end. -/
inductive StripsLevels : JsString → JsString → Prop where
  | refl (pattern : JsString) : StripsLevels pattern pattern
  | strip {pattern before suffix rest : JsString} :
    splitLastColon pattern = some (before, suffix) → isValidThinkingLevel suffix = true →
      StripsLevels before rest → StripsLevels pattern rest

/-- The provider of the last model whose provider is a text, up to case. -/
def namedProvider (text : JsString) (models : List RegistryModel) : Option JsString :=
  nonEmpty ((models.reverse.find? fun m => toLowerCase m.provider = toLowerCase text).map
    RegistryModel.provider)

section

variable (models : List RegistryModel) (model : RegistryModel)

/-- A model is the first one whose id or reference is its reference. -/
def FirstVerbatim : Prop :=
  ∃ before after, models = before ++ model :: after ∧ ∀ x ∈ before,
    toLowerCase x.id ≠ toLowerCase model.reference ∧
      toLowerCase x.reference ≠ toLowerCase model.reference

/-- A model leads, in descending order of ids, those that contain its id and are aliases like
it; and it is an alias, if any of them is. -/
def SortsFirst : Prop :=
  let found := models.filter (containsPattern toLowerCase model.id)
  (isAlias model.id = true ∨ ∀ x ∈ found, isAlias x.id = false) ∧
    Leads (fun a b => decide (localeCompare b.id a.id ≤ 0))
      (found.filter fun x => isAlias x.id == isAlias model.id) model

/-- The condition under which the reference of a model resolves to it. -/
def ReferenceWins : Prop :=
  match namedProvider toLowerCase (model.reference.takeWhile (· != Path.slash)) models with
  | none => FirstVerbatim toLowerCase models model
  | some provider =>
    let candidates := models.filter fun x => x.provider = provider
    if provider = model.provider then
      (∀ x ∈ candidates, x ≠ model → ¬ RefersTo toLowerCase model.id x) ∧
        ((trim model.id ≠ [] ∧ toLowerCase model.id = toLowerCase (trim model.id)) ∨
          SortsFirst toLowerCase localeCompare candidates model)
    else
      (∀ pattern, StripsLevels (model.reference.dropWhile (· != Path.slash)).tail pattern →
        ∀ x ∈ candidates, ¬ RefersTo toLowerCase pattern x ∧
          containsPattern toLowerCase pattern x = false) ∧
        FirstVerbatim toLowerCase models model

end

variable {toLowerCase localeCompare}

theorem providerMatches_eq (trimmedReference : JsString) (models : List RegistryModel) :
    providerMatches toLowerCase trimmedReference models =
      models.filter fun m => decide (NamesParts toLowerCase trimmedReference m) := by
  cases hsplit : splitSlash trimmedReference with
  | none =>
    rw [providerMatches, hsplit]
    refine (filter_eq_nil_iff.mpr fun m _ => ?_).symm
    rw [decide_eq_true_eq, NamesParts, hsplit]
    exact id
  | some parts =>
    obtain ⟨provider, modelId⟩ := parts
    have hnames (m : RegistryModel) : NamesParts toLowerCase trimmedReference m ↔
        (trim provider ≠ [] ∧ trim modelId ≠ []) ∧
          toLowerCase m.provider = toLowerCase (trim provider) ∧
          toLowerCase m.id = toLowerCase (trim modelId) := by
      rw [NamesParts, hsplit]
    rw [providerMatches, hsplit]
    dsimp only
    split
    · rename_i hparts
      refine filter_congr fun m _ => decide_eq_decide.mpr ?_
      exact ((hnames m).trans (and_iff_right hparts)).symm
    · rename_i hparts
      refine (filter_eq_nil_iff.mpr fun m _ => ?_).symm
      rw [decide_eq_true_eq, hnames m]
      exact fun h => hparts h.1

section

variable {models : List RegistryModel}

theorem onlyOne_filter (hnodup : models.Nodup) {p : RegistryModel → Bool}
    (hunique : ∀ x ∈ models, ∀ y ∈ models, p x = true → p y = true → x = y)
    (otherwise : Option RegistryModel) :
    onlyOne (models.filter p) otherwise = (models.find? p).or otherwise := by
  rw [← head?_filter]
  cases hfilter : models.filter p with
  | nil => rfl
  | cons x rest =>
    cases rest with
    | nil => rfl
    | cons y rest =>
      have hx : x ∈ models.filter p := by rw [hfilter]; exact mem_cons_self
      have hy : y ∈ models.filter p := by
        rw [hfilter]
        exact mem_cons_of_mem x mem_cons_self
      obtain ⟨hxm, hpx⟩ := mem_filter.mp hx
      obtain ⟨hym, hpy⟩ := mem_filter.mp hy
      have heq := hunique x hxm y hym hpx hpy
      have hrest := hnodup.filter p
      rw [hfilter, heq, nodup_cons] at hrest
      exact absurd mem_cons_self hrest.1

theorem UniqueReferences.eq (h : UniqueReferences toLowerCase models) {y : RegistryModel}
    (hx : x ∈ models) (hy : y ∈ models)
    (hprovider : toLowerCase x.provider = toLowerCase y.provider)
    (hid : toLowerCase x.id = toLowerCase y.id) : x = y := by
  by_contra hne
  have : Std.Symm fun a b : RegistryModel =>
      ¬ (toLowerCase a.provider = toLowerCase b.provider ∧ toLowerCase a.id = toLowerCase b.id) :=
    ⟨fun a b hab hba => hab ⟨hba.1.symm, hba.2.symm⟩⟩
  exact List.Pairwise.forall h hx hy hne ⟨hprovider, hid⟩

theorem UniqueReferences.nodup (h : UniqueReferences toLowerCase models) : models.Nodup :=
  h.imp fun hab heq => hab ⟨congrArg _ (congrArg _ heq), congrArg _ (congrArg _ heq)⟩

end

section Candidates

variable {models : List RegistryModel} {provider : JsString}

theorem findExactModelReferenceMatch_eq (hlower : KeepsReferences toLowerCase)
    (hunique : UniqueReferences toLowerCase models)
    (hprovider : ∀ x ∈ models, x.provider = provider) {modelReference : JsString}
    (hne : trim modelReference ≠ []) :
    findExactModelReferenceMatch toLowerCase modelReference models =
      (models.find? fun m => toLowerCase m.reference = toLowerCase (trim modelReference)).or
        ((models.find? fun m => decide (NamesParts toLowerCase (trim modelReference) m)).or
          (models.find? fun m => toLowerCase m.id = toLowerCase (trim modelReference))) := by
  have heq {x y : RegistryModel} (hx : x ∈ models) (hy : y ∈ models)
      (hid : toLowerCase x.id = toLowerCase y.id) : x = y :=
    hunique.eq hx hy (by rw [hprovider x hx, hprovider y hy]) hid
  rw [findExactModelReferenceMatch]
  rw [if_neg hne, providerMatches_eq, onlyOne_filter hunique.nodup, onlyOne_filter hunique.nodup,
    onlyOne_filter hunique.nodup, or_none]
  · intro x hx y hy hpx hpy
    exact heq hx hy ((of_decide_eq_true hpx).trans (of_decide_eq_true hpy).symm)
  · intro x hx y hy hpx hpy
    have hpx := of_decide_eq_true hpx
    have hpy := of_decide_eq_true hpy
    unfold NamesParts at hpx hpy
    split at hpx
    · exact hpx.elim
    · rename_i hsplit
      rw [hsplit] at hpy
      exact heq hx hy (hpx.2.2.trans hpy.2.2.symm)
  · intro x hx y hy hpx hpy
    have href := (of_decide_eq_true hpx).trans (of_decide_eq_true hpy).symm
    rw [RegistryModel.reference, RegistryModel.reference, hlower.slash, hlower.slash,
      hprovider x hx, hprovider y hy] at href
    exact heq hx hy (List.cons.inj (append_cancel_left href)).2

theorem findExactModelReferenceMatch_eq_none (hlower : KeepsReferences toLowerCase)
    (hunique : UniqueReferences toLowerCase models)
    (hprovider : ∀ x ∈ models, x.provider = provider) (modelReference : JsString) :
    findExactModelReferenceMatch toLowerCase modelReference models = none ↔
      ∀ x ∈ models, ¬ RefersTo toLowerCase modelReference x := by
  by_cases hne : trim modelReference = []
  · rw [findExactModelReferenceMatch]
    exact iff_of_true (if_pos hne) fun x _ h => h.1 hne
  · rw [findExactModelReferenceMatch_eq hlower hunique hprovider hne, or_eq_none_iff,
      or_eq_none_iff, find?_eq_none, find?_eq_none, find?_eq_none]
    simp only [decide_eq_true_eq, RefersTo, not_and, not_or]
    exact ⟨fun h x hx _ => ⟨h.1 x hx, h.2.1 x hx, h.2.2 x hx⟩,
      fun h => ⟨fun x hx => (h x hx hne).1, fun x hx => (h x hx hne).2.1,
        fun x hx => (h x hx hne).2.2⟩⟩

theorem findExactModelReferenceMatch_spec {modelReference : JsString}
    (hlower : KeepsReferences toLowerCase) (hunique : UniqueReferences toLowerCase models)
    (hprovider : ∀ x ∈ models, x.provider = provider)
    (h : findExactModelReferenceMatch toLowerCase modelReference models = some x) :
    x ∈ models ∧ RefersTo toLowerCase modelReference x := by
  by_cases hne : trim modelReference = []
  · rw [findExactModelReferenceMatch] at h
    rw [show (if trim modelReference = [] then none else _) = none from if_pos hne] at h
    cases h
  · rw [findExactModelReferenceMatch_eq hlower hunique hprovider hne] at h
    rcases or_eq_some_iff.mp h with h | ⟨-, h⟩
    · have href := find?_some h
      exact ⟨mem_of_find?_eq_some h, hne, .inl (of_decide_eq_true href)⟩
    · rcases or_eq_some_iff.mp h with h | ⟨-, h⟩
      · have hparts := find?_some h
        exact ⟨mem_of_find?_eq_some h, hne, .inr (.inl (of_decide_eq_true hparts))⟩
      · have hid := find?_some h
        exact ⟨mem_of_find?_eq_some h, hne, .inr (.inr (of_decide_eq_true hid))⟩

end Candidates

theorem sortDescending_perm (models : List RegistryModel) :
    (sortDescending localeCompare models).Perm models := mergeSort_perm _ _

theorem head?_sortDescending_eq_none :
    (sortDescending localeCompare models).head? = none ↔ models = [] := by
  rw [head?_eq_none_iff]
  constructor
  · intro h
    have hperm : (sortDescending localeCompare models).Perm models := sortDescending_perm models
    rw [h] at hperm
    exact hperm.nil_eq.symm
  · rintro rfl
    exact mergeSort_nil

theorem mem_of_head?_sortDescending (h : (sortDescending localeCompare models).head? = some x) :
    x ∈ models :=
  (sortDescending_perm models).mem_iff.mp (mem_of_head? h)

section

variable {modelPattern : JsString} {models : List RegistryModel}

theorem bestPartialMatch_eq_none :
    bestPartialMatch toLowerCase localeCompare modelPattern models = none ↔
      ∀ x ∈ models, containsPattern toLowerCase modelPattern x = false := by
  rw [bestPartialMatch]
  constructor
  · intro h x hx
    by_contra hcontains
    have hfound : x ∈ models.filter (containsPattern toLowerCase modelPattern) :=
      mem_filter.mpr ⟨hx, by simpa using hcontains⟩
    split at h
    · rename_i haliases
      exact haliases (head?_sortDescending_eq_none.mp h)
    · rename_i haliases
      have hdated := head?_sortDescending_eq_none.mp h
      have hnot := filter_eq_nil_iff.mp (not_not.mp haliases) x hfound
      have hyes := filter_eq_nil_iff.mp hdated x hfound
      simp [hnot] at hyes
  · intro h
    have hnone : models.filter (containsPattern toLowerCase modelPattern) = [] :=
      filter_eq_nil_iff.mpr fun x hx => by simp [h x hx]
    rw [hnone]
    exact head?_sortDescending_eq_none.mpr rfl

theorem mem_of_bestPartialMatch
    (h : bestPartialMatch toLowerCase localeCompare modelPattern models = some x) : x ∈ models := by
  rw [bestPartialMatch] at h
  split at h
  all_goals exact (mem_filter.mp (mem_filter.mp (mem_of_head?_sortDescending h)).1).1

end

theorem head?_sortDescending_iff (hcompare : ConsistentCompare localeCompare)
    (hnodup : models.Nodup) {m : RegistryModel} :
    (sortDescending localeCompare models).head? = some m ↔
      Leads (fun a b => decide (localeCompare b.id a.id ≤ 0)) models m := by
  refine head?_mergeSort_iff (fun a b c hab hbc => ?_) (fun a b => ?_) hnodup
  · exact decide_eq_true (hcompare.trans _ _ _ (of_decide_eq_true hbc) (of_decide_eq_true hab))
  · rw [Bool.or_eq_true]
    exact (hcompare.total b.id a.id).imp decide_eq_true decide_eq_true

theorem bestPartialMatch_eq_some (hcompare : ConsistentCompare localeCompare)
    (hnodup : models.Nodup) {m : RegistryModel} :
    bestPartialMatch toLowerCase localeCompare m.id models = some m ↔
      SortsFirst toLowerCase localeCompare models m := by
  rw [bestPartialMatch, SortsFirst]
  have hgroup (b : Bool) (hb : isAlias m.id = b) :
      ((models.filter (containsPattern toLowerCase m.id)).filter
        fun x => isAlias x.id == isAlias m.id) =
      (models.filter (containsPattern toLowerCase m.id)).filter
        fun x => if b then isAlias x.id else !isAlias x.id := by
    refine filter_congr fun x _ => ?_
    rw [hb]
    cases b <;> cases isAlias x.id <;> rfl
  have hhead (p : RegistryModel → Bool) :=
    head?_sortDescending_iff hcompare ((hnodup.filter (containsPattern toLowerCase m.id)).filter p)
      (m := m)
  split
  · rename_i haliases
    constructor
    · intro h
      have halias := (mem_filter.mp (mem_of_head?_sortDescending h)).2
      refine ⟨.inl halias, ?_⟩
      rw [hgroup true halias]
      exact (hhead _).mp h
    · rintro ⟨hor, h⟩
      have halias : isAlias m.id = true := by
        refine hor.resolve_right fun hnone => haliases ?_
        exact filter_eq_nil_iff.mpr fun x hx => by simp [hnone x hx]
      rw [hgroup true halias] at h
      exact (hhead _).mpr h
  · rename_i haliases
    have hnone := filter_eq_nil_iff.mp (not_not.mp haliases)
    constructor
    · intro h
      have hdated := (mem_filter.mp (mem_of_head?_sortDescending h)).2
      refine ⟨.inr fun x hx => by simpa using hnone x hx, ?_⟩
      rw [hgroup false (by simpa using hdated)]
      exact (hhead _).mp h
    · rintro ⟨-, h⟩
      have hmem : m ∈ models.filter (containsPattern toLowerCase m.id) := by
        obtain ⟨front, back, hsplit, -⟩ := h
        have hm : m ∈ front ++ m :: back := mem_append_right front mem_cons_self
        rw [← hsplit] at hm
        exact (mem_filter.mp hm).1
      rw [hgroup false (by simpa using hnone m hmem)] at h
      exact (hhead _).mpr h

section Candidates

variable {models : List RegistryModel} {provider : JsString}

theorem tryMatchModel_eq_none (hlower : KeepsReferences toLowerCase)
    (hunique : UniqueReferences toLowerCase models)
    (hprovider : ∀ x ∈ models, x.provider = provider) {modelPattern : JsString} :
    tryMatchModel toLowerCase localeCompare modelPattern models = none ↔
      ∀ x ∈ models, ¬ RefersTo toLowerCase modelPattern x ∧
        containsPattern toLowerCase modelPattern x = false := by
  have hexact := findExactModelReferenceMatch_eq_none hlower hunique hprovider modelPattern
  rw [tryMatchModel]
  cases h : findExactModelReferenceMatch toLowerCase modelPattern models with
  | some x =>
    refine iff_of_false (fun h => by cases h) fun hnone => ?_
    rw [hexact.mpr fun x hx => (hnone x hx).1] at h
    cases h
  | none =>
    exact bestPartialMatch_eq_none.trans
      ⟨fun hcontains x hx => ⟨hexact.mp h x hx, hcontains x hx⟩, fun hnone x hx => (hnone x hx).2⟩

theorem mem_of_tryMatchModel {modelPattern : JsString} (hlower : KeepsReferences toLowerCase)
    (hunique : UniqueReferences toLowerCase models)
    (hprovider : ∀ x ∈ models, x.provider = provider)
    (h : tryMatchModel toLowerCase localeCompare modelPattern models = some x) : x ∈ models := by
  rw [tryMatchModel] at h
  split at h
  · rename_i hexact
    obtain rfl := some.inj h
    exact (findExactModelReferenceMatch_spec hlower hunique hprovider hexact).1
  · exact mem_of_bestPartialMatch h

end Candidates

theorem parseModelPattern_of_tryMatch {allowFallback : Bool}
    (h : tryMatchModel toLowerCase localeCompare pattern models = some x) :
    parseModelPattern toLowerCase localeCompare allowFallback models pattern =
      { model := some x } := by
  rw [parseModelPattern, h]

section

variable {models : List RegistryModel}

theorem model_parseModelPattern_of_none
    (h : tryMatchModel toLowerCase localeCompare pattern models = none) :
    (parseModelPattern toLowerCase localeCompare false models pattern).model =
      match splitLastColon pattern with
      | none => none
      | some (before, suffix) =>
        if isValidThinkingLevel suffix then
          (parseModelPattern toLowerCase localeCompare false models before).model
        else none := by
  rw [parseModelPattern, h]
  dsimp only
  split
  · rename_i hsplit
    rw [hsplit]
  · rename_i before suffix hsplit
    rw [hsplit]
    dsimp only
    split
    · split
      · rfl
      · rfl
    · rfl

theorem parseModelPattern_eq_none :
    (parseModelPattern toLowerCase localeCompare false models pattern).model = none ↔
      ∀ rest, StripsLevels pattern rest →
        tryMatchModel toLowerCase localeCompare rest models = none := by
  induction hlength : pattern.length using Nat.strong_induction_on generalizing pattern with
  | _ n ih =>
    cases h : tryMatchModel toLowerCase localeCompare pattern models with
    | some x =>
      rw [parseModelPattern_of_tryMatch h]
      refine iff_of_false (fun h => by cases h) fun hnone => ?_
      rw [hnone pattern (.refl pattern)] at h
      cases h
    | none =>
      rw [model_parseModelPattern_of_none h]
      -- without a level behind the last colon the pattern is all there is to try
      have hrefl (hlast : ∀ before suffix, splitLastColon pattern = some (before, suffix) →
          isValidThinkingLevel suffix ≠ true) : ∀ rest, StripsLevels pattern rest →
          tryMatchModel toLowerCase localeCompare rest models = none := by
        intro rest hrest
        cases hrest with
        | refl => exact h
        | strip hsplit hlevel _ => exact absurd hlevel (hlast _ _ hsplit)
      cases hsplit : splitLastColon pattern with
      | none => exact iff_of_true rfl (hrefl fun before suffix h' => by rw [hsplit] at h'; cases h')
      | some parts =>
        obtain ⟨before, suffix⟩ := parts
        dsimp only
        split
        · rename_i hlevel
          have hshorter := length_fst_splitLastColon hsplit
          rw [ih before.length (hlength ▸ hshorter) rfl]
          constructor
          · intro hnone rest hrest
            cases hrest with
            | refl => exact h
            | strip hsplit' _ hrest =>
              rw [hsplit] at hsplit'
              obtain ⟨rfl, rfl⟩ := Prod.mk.inj (some.inj hsplit')
              exact hnone rest hrest
          · exact fun hnone rest hrest => hnone rest (.strip hsplit hlevel hrest)
        · rename_i hlevel
          refine iff_of_true rfl (hrefl fun before' suffix' h' => ?_)
          rw [hsplit] at h'
          obtain ⟨rfl, rfl⟩ := Prod.mk.inj (some.inj h')
          exact hlevel

theorem mem_of_parseModelPattern (hlower : KeepsReferences toLowerCase)
    (hunique : UniqueReferences toLowerCase models)
    (hprovider : ∀ x ∈ models, x.provider = provider)
    (h : (parseModelPattern toLowerCase localeCompare false models pattern).model = some x) :
    x ∈ models := by
  induction hlength : pattern.length using Nat.strong_induction_on generalizing pattern with
  | _ n ih =>
    cases htry : tryMatchModel toLowerCase localeCompare pattern models with
    | some y =>
      rw [parseModelPattern_of_tryMatch htry] at h
      obtain rfl := some.inj h
      exact mem_of_tryMatchModel hlower hunique hprovider htry
    | none =>
      rw [model_parseModelPattern_of_none htry] at h
      split at h
      · cases h
      · rename_i before suffix hsplit
        have hshorter := length_fst_splitLastColon hsplit
        split at h
        · exact ih before.length (hlength ▸ hshorter) h rfl
        · cases h

end

theorem takeWhile_before_slash {before after : JsString} (h : Path.slash ∉ before) :
    (before ++ Path.slash :: after).takeWhile (· != Path.slash) = before := by
  rw [takeWhile_append_of_pos fun c hc => bne_iff_ne.mpr (ne_of_mem_of_not_mem hc h),
    takeWhile_cons_of_neg (by simp), append_nil]

theorem dropWhile_before_slash {before after : JsString} (h : Path.slash ∉ before) :
    (before ++ Path.slash :: after).dropWhile (· != Path.slash) = Path.slash :: after := by
  rw [dropWhile_append_of_pos fun c hc => bne_iff_ne.mpr (ne_of_mem_of_not_mem hc h),
    dropWhile_cons_of_neg (by simp)]

theorem splitSlash_eq_some {text before after : JsString}
    (h : splitSlash text = some (before, after)) : text = before ++ Path.slash :: after := by
  rw [splitSlash] at h
  split at h
  · rename_i hmem
    obtain ⟨rfl, rfl⟩ := Prod.mk.inj (some.inj h)
    obtain ⟨before, after, rfl, hbefore⟩ := eq_append_cons_of_mem hmem
    rw [takeWhile_before_slash hbefore, dropWhile_before_slash hbefore, tail_cons]
  · cases h

namespace RegistryModel

section

variable (hlower : KeepsReferences toLowerCase) (m : RegistryModel)
include hlower

theorem length_lower_id_lt : (toLowerCase m.id).length < (toLowerCase m.reference).length := by
  rw [reference, hlower.slash, length_append, length_cons]
  omega

theorem reference_ne_id : toLowerCase m.reference ≠ toLowerCase (trim m.id) := by
  intro heq
  have hlt := m.length_lower_id_lt hlower
  have hle := hlower.trim m.id
  rw [heq] at hlt
  omega

theorem not_namesParts_id : ¬ NamesParts toLowerCase (trim m.id) m := by
  intro hparts
  unfold NamesParts at hparts
  split at hparts
  · exact hparts
  · rename_i before after hsplit
    have hid := congrArg length hparts.2.2
    have hafter := hlower.trim after
    have htrim := hlower.trim m.id
    rw [splitSlash_eq_some hsplit, hlower.slash, length_append, length_cons] at htrim
    omega

end

end RegistryModel

section OwnProvider

variable {models : List RegistryModel} {m : RegistryModel}

theorem find?_eq_none_of_or {p : RegistryModel → Bool} {otherwise : Option RegistryModel}
    (h : (models.find? p).or otherwise = some m) (hm : p m = false) : models.find? p = none := by
  cases hfind : models.find? p with
  | none => rfl
  | some y =>
    rw [hfind, some_or] at h
    have hy := find?_some hfind
    rw [some.inj h, hm] at hy
    cases hy

section

variable (hlower : KeepsReferences toLowerCase)
include hlower

theorem not_refersTo_of_exact (hunique : UniqueReferences toLowerCase models)
    (hprovider : ∀ x ∈ models, x.provider = m.provider) (hm : m ∈ models)
    (h : findExactModelReferenceMatch toLowerCase m.id models = some m) (hx : x ∈ models)
    (hne : x ≠ m) : ¬ RefersTo toLowerCase m.id x := by
  rintro ⟨htrim, hrefers⟩
  rw [findExactModelReferenceMatch_eq hlower hunique hprovider htrim] at h
  have hself := (findExactModelReferenceMatch_spec hlower hunique hprovider (by
    rw [findExactModelReferenceMatch_eq hlower hunique hprovider htrim]; exact h)).2
  have hid := (hself.2.resolve_left (m.reference_ne_id hlower)).resolve_left
    (m.not_namesParts_id hlower)
  -- an earlier stage that finds anything does not find the model itself
  have hfirst := find?_eq_none_of_or h (decide_eq_false (m.reference_ne_id hlower))
  rw [hfirst, none_or] at h
  have hsecond := find?_eq_none_of_or h (decide_eq_false (m.not_namesParts_id hlower))
  rcases hrefers with href | hparts | hidx
  · exact find?_eq_none.mp hfirst x hx (decide_eq_true href)
  · exact find?_eq_none.mp hsecond x hx (decide_eq_true hparts)
  · refine hne (hunique.eq hx hm ?_ (hidx.trans hid.symm))
    rw [hprovider x hx]

theorem tryMatchModel_id_iff
    (hcompare : ConsistentCompare localeCompare) (hunique : UniqueReferences toLowerCase models)
    (hprovider : ∀ x ∈ models, x.provider = m.provider) (hm : m ∈ models) :
    tryMatchModel toLowerCase localeCompare m.id models = some m ↔
      (∀ x ∈ models, x ≠ m → ¬ RefersTo toLowerCase m.id x) ∧
        ((trim m.id ≠ [] ∧ toLowerCase m.id = toLowerCase (trim m.id)) ∨
          SortsFirst toLowerCase localeCompare models m) := by
  have hnone := findExactModelReferenceMatch_eq_none hlower hunique hprovider m.id
  rw [tryMatchModel]
  cases hexact : findExactModelReferenceMatch toLowerCase m.id models with
  | none =>
    have hrefers := hnone.mp hexact
    rw [bestPartialMatch_eq_some hcompare hunique.nodup]
    constructor
    · exact fun h => ⟨fun x hx _ => hrefers x hx, .inr h⟩
    · rintro ⟨-, hself | hsorts⟩
      · exact absurd ⟨hself.1, .inr (.inr hself.2)⟩ (hrefers m hm)
      · exact hsorts
  | some x =>
    obtain ⟨hx, hrefers⟩ := findExactModelReferenceMatch_spec hlower hunique hprovider hexact
    constructor
    · intro h
      obtain rfl := some.inj h
      have hid := (hrefers.2.resolve_left (x.reference_ne_id hlower)).resolve_left
        (x.not_namesParts_id hlower)
      exact ⟨fun y hy hne => not_refersTo_of_exact hlower hunique hprovider hm hexact hy hne,
        .inl ⟨hrefers.1, hid⟩⟩
    · rintro ⟨hothers, -⟩
      by_contra hne
      exact hothers x hx (fun h => hne (congrArg some h)) hrefers

theorem exists_tryMatchModel_id (hunique : UniqueReferences toLowerCase models)
    (hprovider : ∀ x ∈ models, x.provider = m.provider) (hm : m ∈ models) :
    ∃ x, tryMatchModel toLowerCase localeCompare m.id models = some x := by
  rw [← ne_none_iff_exists']
  intro h
  have hinfix := infix_refl (toLowerCase m.id)
  have hcontains : containsPattern toLowerCase m.id m = true := by
    simp only [containsPattern, hinfix, decide_true, Bool.true_or]
  rw [((tryMatchModel_eq_none hlower hunique hprovider).mp h m hm).2] at hcontains
  cases hcontains

end

end OwnProvider

theorem get_providerMap (models : List RegistryModel) (key : JsString) :
    (providerMap toLowerCase models).get key =
      (models.reverse.find? fun m => toLowerCase m.provider = key).map RegistryModel.provider := by
  rw [providerMap]
  induction models using reverseRecOn with
  | nil => rfl
  | append_singleton models m ih =>
    rw [foldl_append, reverse_append]
    change (JsMap.set _ _ _).get key = (find? _ (m :: models.reverse)).map _
    rw [JsMap.get_set, ih, find?_cons]
    by_cases h : toLowerCase m.provider = key
    · rw [if_pos h, decide_eq_true h]
      rfl
    · rw [if_neg h, decide_eq_false h]

theorem provider_of_namedProvider {text : JsString}
    (h : namedProvider toLowerCase text models = some provider) :
    ∃ x : RegistryModel, toLowerCase x.provider = toLowerCase text ∧ x.provider = provider := by
  rw [namedProvider] at h
  cases hfind : models.reverse.find? fun m => toLowerCase m.provider = toLowerCase text with
  | none =>
    rw [hfind] at h
    cases h
  | some x =>
    have hname := find?_some hfind
    rw [hfind, map_some, nonEmpty] at h
    split at h
    · cases h
    · exact ⟨x, of_decide_eq_true hname, some.inj h⟩

namespace RegistryModel

variable (m : RegistryModel)

theorem slash_mem_reference : Path.slash ∈ m.reference :=
  mem_append_right _ mem_cons_self

theorem inferProvider_reference (models : List RegistryModel) :
    inferProvider toLowerCase m.reference models =
      (namedProvider toLowerCase (m.reference.takeWhile (· != Path.slash)) models).map
        fun provider => (provider, (m.reference.dropWhile (· != Path.slash)).tail) := by
  rw [inferProvider, splitSlash, if_pos m.slash_mem_reference]
  dsimp only
  rw [get_providerMap, namedProvider]
  cases nonEmpty ((models.reverse.find? fun x =>
    toLowerCase x.provider = toLowerCase (m.reference.takeWhile (· != Path.slash))).map
      provider) with
  | none => rfl
  | some provider => rfl

theorem findVerbatim_reference_iff (models : List RegistryModel) :
    findVerbatim toLowerCase m.reference models = some m ↔ FirstVerbatim toLowerCase models m := by
  rw [findVerbatim, FirstVerbatim, find?_eq_some_iff_append]
  simp only [decide_true, Bool.or_true, true_and, Bool.not_eq_true', Bool.or_eq_false_iff,
    decide_eq_false_iff_not, ne_eq]

theorem exists_findVerbatim_reference (hm : m ∈ models) :
    ∃ x, findVerbatim toLowerCase m.reference models = some x := by
  rw [← ne_none_iff_exists', findVerbatim]
  intro h
  have hm := find?_eq_none.mp h m hm
  exact hm (by rw [decide_eq_true rfl, Bool.or_true])

theorem tail_reference (hlower : KeepsReferences toLowerCase)
    (h : namedProvider toLowerCase (m.reference.takeWhile (· != Path.slash)) models = some m.provider)
    : (m.reference.dropWhile (· != Path.slash)).tail = m.id := by
  by_cases hslash : Path.slash ∈ m.provider
  · obtain ⟨before, after, hsplit, hbefore⟩ := eq_append_cons_of_mem hslash
    rw [reference, hsplit, append_assoc, cons_append, takeWhile_before_slash hbefore] at h
    obtain ⟨x, hname, hx⟩ := provider_of_namedProvider h
    -- the text before the slash would be the provider with the slash
    rw [hx, hlower.slash] at hname
    have hlength := congrArg length hname
    rw [length_append, length_cons] at hlength
    omega
  · rw [reference, dropWhile_before_slash hslash, tail_cons]

end RegistryModel

theorem provider_of_mem_filter (models : List RegistryModel) (provider : JsString) :
    ∀ x ∈ models.filter (fun x => x.provider = provider), x.provider = provider :=
  fun _ hx => of_decide_eq_true (mem_filter.mp hx).2

section Registry

variable {models : List RegistryModel} {m : RegistryModel}

theorem resolve_of_not_named (hm : m ∈ models)
    (hnamed : namedProvider toLowerCase (m.reference.takeWhile (· != Path.slash)) models = none) :
    ∃ x, findVerbatim toLowerCase m.reference models = some x ∧
      resolveCliModel toLowerCase localeCompare none (some m.reference) models =
        { model := some x } := by
  obtain ⟨x, hx⟩ : ∃ x, findVerbatim toLowerCase m.reference models = some x :=
    m.exists_findVerbatim_reference hm
  refine ⟨x, hx, ?_⟩
  rw [resolveCliModel, nonEmpty, if_neg (ne_nil_of_mem m.slash_mem_reference)]
  dsimp only
  rw [if_neg (ne_nil_of_mem hm), m.inferProvider_reference, hnamed, hx]
  rfl

theorem resolve_of_named (hm : m ∈ models)
    (hnamed : namedProvider toLowerCase (m.reference.takeWhile (· != Path.slash)) models = some provider)
    : resolveCliModel toLowerCase localeCompare none (some m.reference) models =
      resolveWithin toLowerCase localeCompare (some provider) true
        (m.reference.dropWhile (· != Path.slash)).tail m.reference models := by
  rw [resolveCliModel, nonEmpty, if_neg (ne_nil_of_mem m.slash_mem_reference)]
  dsimp only
  rw [if_neg (ne_nil_of_mem hm), m.inferProvider_reference, hnamed]
  rfl

section

variable (hlower : KeepsReferences toLowerCase)
include hlower

theorem resolve_own_iff (hunique : UniqueReferences toLowerCase models) (hm : m ∈ models)
    (hnamed : namedProvider toLowerCase (m.reference.takeWhile (· != Path.slash)) models =
      some m.provider) :
    (resolveCliModel toLowerCase localeCompare none (some m.reference) models).model = some m ∧
        (resolveCliModel toLowerCase localeCompare none (some m.reference) models).thinkingLevel =
          none ↔
      tryMatchModel toLowerCase localeCompare m.id
        (models.filter fun x => x.provider = m.provider) = some m := by
  have hprovider := provider_of_mem_filter models m.provider
  obtain ⟨x, hx⟩ : ∃ x, tryMatchModel toLowerCase localeCompare m.id
      (models.filter fun x => x.provider = m.provider) = some x :=
    exists_tryMatchModel_id hlower (hunique.filter _) hprovider
      (mem_filter.mpr ⟨hm, decide_eq_true rfl⟩)
  rw [resolve_of_named hm hnamed, m.tail_reference hlower hnamed, resolveWithin]
  rw [parseModelPattern_of_tryMatch hx, hx]
  exact and_iff_left rfl

theorem resolve_other_iff (hunique : UniqueReferences toLowerCase models) (hm : m ∈ models)
    (hnamed : namedProvider toLowerCase (m.reference.takeWhile (· != Path.slash)) models = some provider)
    (hother : provider ≠ m.provider) :
    (resolveCliModel toLowerCase localeCompare none (some m.reference) models).model = some m ∧
        (resolveCliModel toLowerCase localeCompare none (some m.reference) models).thinkingLevel =
          none ↔
      (parseModelPattern toLowerCase localeCompare false
          (models.filter fun x => x.provider = provider)
          (m.reference.dropWhile (· != Path.slash)).tail).model = none ∧
        findVerbatim toLowerCase m.reference models = some m := by
  have hprovider := provider_of_mem_filter models provider
  obtain ⟨y, hy⟩ : ∃ y, findVerbatim toLowerCase m.reference models = some y :=
    m.exists_findVerbatim_reference hm
  rw [resolve_of_named hm hnamed, resolveWithin]
  cases hparse : (parseModelPattern toLowerCase localeCompare false
      (models.filter fun x => x.provider = provider)
      (m.reference.dropWhile (· != Path.slash)).tail).model with
  | none =>
    rw [hy]
    simp
  | some x =>
    have hx := mem_of_parseModelPattern hlower (hunique.filter _) hprovider hparse
    refine iff_of_false (fun h => ?_) fun h => by cases h.1
    obtain rfl := some.inj h.1
    exact hother (hprovider _ hx).symm

/-- The reference of a model resolves to the model when no earlier rule of the resolution finds
another one. -/
theorem resolveCliModel_reference_iff
    (hcompare : ConsistentCompare localeCompare) (hunique : UniqueReferences toLowerCase models)
    (hm : m ∈ models) :
    ((resolveCliModel toLowerCase localeCompare none (some m.reference) models).model = some m ∧
        (resolveCliModel toLowerCase localeCompare none (some m.reference) models).thinkingLevel =
          none) ↔
      ReferenceWins toLowerCase localeCompare models m := by
  rw [ReferenceWins]
  cases hnamed : namedProvider toLowerCase (m.reference.takeWhile (· != Path.slash)) models with
  | none =>
    obtain ⟨x, hx, hresolve⟩ := @resolve_of_not_named toLowerCase localeCompare models m hm hnamed
    rw [hresolve, ← m.findVerbatim_reference_iff, hx]
    exact and_iff_left rfl
  | some provider =>
    have hprovider := provider_of_mem_filter models provider
    dsimp only
    split
    · rename_i hown
      subst hown
      rw [resolve_own_iff hlower hunique hm hnamed]
      exact tryMatchModel_id_iff hlower hcompare (hunique.filter _) hprovider
        (mem_filter.mpr ⟨hm, decide_eq_true rfl⟩)
    · rename_i hother
      rw [resolve_other_iff hlower hunique hm hnamed hother, parseModelPattern_eq_none,
        m.findVerbatim_reference_iff]
      refine and_congr (forall_congr' fun pattern => imp_congr_right fun _ => ?_) Iff.rfl
      exact tryMatchModel_eq_none hlower (hunique.filter _) hprovider

end

end Registry

end References

def compareUnits (a b : JsString) : Int :=
  if a.map UInt16.toNat < b.map UInt16.toNat then -1
  else if a.map UInt16.toNat = b.map UInt16.toNat then 0
  else 1

theorem compareUnits_le_zero {a b : JsString} :
    compareUnits a b ≤ 0 ↔ a.map UInt16.toNat ≤ b.map UInt16.toNat := by
  have hle := @le_iff_lt_or_eq _ _ (a.map UInt16.toNat) (b.map UInt16.toNat)
  rw [compareUnits, hle]
  split
  · rename_i hlt
    exact iff_of_true (by decide) (.inl hlt)
  · rename_i hlt
    split
    · rename_i heq
      exact iff_of_true le_rfl (.inr heq)
    · rename_i hne
      exact iff_of_false (by decide) (not_or.mpr ⟨hlt, hne⟩)

theorem consistentCompare_units : ConsistentCompare compareUnits where
  trans _ _ _ hab hbc := compareUnits_le_zero.mpr
    ((compareUnits_le_zero.mp hab).trans (compareUnits_le_zero.mp hbc))
  total a b := (le_total (a.map UInt16.toNat) (b.map UInt16.toNat)).imp
    compareUnits_le_zero.mpr compareUnits_le_zero.mpr

theorem keepsReferences_id : KeepsReferences id where
  slash _ _ := rfl
  trim _ := (( rdropWhile_prefix _ _).sublist.trans (dropWhile_sublist _)).length_le

/-- The providers `openai` and `openrouter`, where a model of the second is named after the
first. -/
def vendorModel : RegistryModel := ⟨js "openrouter", js "openai/gpt-4o:high", none⟩

def vendorRegistry : List RegistryModel :=
  [⟨js "openai", js "gpt-4o", none⟩, vendorModel]

theorem resolveCliModel_reference_iff_vendor :
    (resolveCliModel id compareUnits none (some (js "openrouter/openai/gpt-4o:high"))
        vendorRegistry).model = some vendorModel ∧
      (resolveCliModel id compareUnits none (some (js "openrouter/openai/gpt-4o:high"))
        vendorRegistry).thinkingLevel = none := by
  have hunique : UniqueReferences id vendorRegistry :=
    pairwise_pair.mpr (by decide)
  have hm : vendorModel ∈ vendorRegistry := mem_cons_of_mem _ mem_cons_self
  refine (resolveCliModel_reference_iff keepsReferences_id consistentCompare_units hunique
    hm).mpr ?_
  have hnamed : namedProvider id (vendorModel.reference.takeWhile (· != Path.slash))
      vendorRegistry = some vendorModel.provider := by decide
  rw [ReferenceWins, hnamed]
  dsimp only
  rw [if_pos rfl]
  refine ⟨fun x hx hne => absurd ?_ hne, .inl (by decide)⟩
  have hfilter : (vendorRegistry.filter fun x => x.provider = vendorModel.provider) =
      [vendorModel] := by decide
  rw [hfilter] at hx
  exact mem_singleton.mp hx

/-- Two models of one provider, where the id of one is the reference of the other. -/
def autoModel : RegistryModel := ⟨js "openrouter", js "auto", none⟩

def openrouterAutoModel : RegistryModel := ⟨js "openrouter", js "openrouter/auto", none⟩

/-- The reference of the second model resolves to the first one. -/
theorem resolveCliModel_captures_reference : UniqueReferences id [autoModel, openrouterAutoModel] ∧
      openrouterAutoModel.reference = js "openrouter/openrouter/auto" ∧
      (resolveCliModel id compareUnits none (some (js "openrouter/openrouter/auto"))
        [autoModel, openrouterAutoModel]).model = some autoModel ∧
      autoModel ≠ openrouterAutoModel := by
  refine ⟨pairwise_pair.mpr (by decide), by decide, ?_, by decide⟩
  have hinfer : inferProvider id (js "openrouter/openrouter/auto")
      [autoModel, openrouterAutoModel] = some (js "openrouter", js "openrouter/auto") := by decide
  have htry : tryMatchModel id compareUnits (js "openrouter/auto")
      [autoModel, openrouterAutoModel] = some autoModel := by
    have hexact : findExactModelReferenceMatch id (js "openrouter/auto")
        [autoModel, openrouterAutoModel] = some autoModel := by decide
    rw [tryMatchModel, hexact]
  have hfilter : ([autoModel, openrouterAutoModel].filter fun m =>
      m.provider = js "openrouter") = [autoModel, openrouterAutoModel] := by decide
  rw [resolveCliModel, nonEmpty, if_neg (by decide)]
  dsimp only
  rw [if_neg (by decide), hinfer]
  change (resolveWithin id compareUnits (some (js "openrouter")) true (js "openrouter/auto")
    (js "openrouter/openrouter/auto") [autoModel, openrouterAutoModel]).model = some autoModel
  rw [resolveWithin]
  dsimp only
  rw [hfilter, parseModelPattern_of_tryMatch htry]
  rfl

end ModelResolver

end AcademicAgent
