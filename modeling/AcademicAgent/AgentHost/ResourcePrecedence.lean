import AcademicAgent.AgentHost.GitPackages
import AcademicAgent.Core.JsMap
import AcademicAgent.Core.StableSelect

/-!
# Precedence of resources

A resource that is contributed more than once is kept once: first by the text of its path, for
which the first contribution stands, and then by its canonical path, for which the one of the
best rank stands.
-/

namespace AcademicAgent.AgentHost

open List

inductive ResourceOrigin where
  | package
  | topLevel
  deriving DecidableEq

structure PathMetadata where
  source : JsString
  scope : SourceScope
  origin : ResourceOrigin
  baseDir : Option JsString := none
  deriving DecidableEq

/-- A contribution of a resource, and a resource that is resolved. -/
structure ResolvedResource where
  path : JsString
  enabled : Bool
  metadata : PathMetadata
  deriving DecidableEq

def resourcePrecedenceRank (m : PathMetadata) : Nat :=
  if m.origin = .package then 4
  else (if m.scope = .project then 0 else 2) + (if m.source = js "local" then 0 else 1)

/-- The resources of a type by the text of their paths. -/
abbrev ResourceMap := JsMap JsString (PathMetadata × Bool)

def addResource (map : ResourceMap) (path : JsString) (metadata : PathMetadata) (enabled : Bool) :
    ResourceMap :=
  if path = [] then map
  else if map.has path then map
  else map.set path (metadata, enabled)

/-- `Array.from(entries.entries()).map(...)`. -/
def ResourceMap.resources (map : ResourceMap) : List ResolvedResource :=
  map.entries.map fun (path, metadata, enabled) => ⟨path, enabled, metadata⟩

def ResolvedResource.rank (r : ResolvedResource) : Nat := resourcePrecedenceRank r.metadata

section

variable (canonicalizePath : JsString → JsString)

/-- `mapToResolved(entries)`: sorted by rank, and then the first of each canonical path. -/
def mapToResolved (map : ResourceMap) : List ResolvedResource :=
  keepFirst (fun r => canonicalizePath r.path) []
    (map.resources.mergeSort (rankLe ResolvedResource.rank))

section

variable (contributions : List ResolvedResource)

/-- What `resolve` returns for a type of resources whose contributions are added in order. -/
def resolveResources : List ResolvedResource :=
  mapToResolved canonicalizePath
    (contributions.foldl (fun map c => addResource map c.path c.metadata c.enabled) .empty)

def named : List ResolvedResource :=
  contributions.filter fun c => decide (c.path ≠ [])

/-- The contributions that no earlier one has the same text of a path with. -/
def unshadowed : List ResolvedResource :=
  keepFirst ResolvedResource.path [] (named contributions)

end

def withPath (path : JsString) (contributions : List ResolvedResource) : List ResolvedResource :=
  contributions.filter fun c => decide (canonicalizePath c.path = path)

end

variable (canonicalizePath : JsString → JsString) (contributions : List ResolvedResource)

/-- Each canonical path is resolved once, with the metadata and the flag of the contribution
of the best rank, the first one on ties. -/
structure PrecedenceHonoured (resolved : List ResolvedResource) : Prop where
  once : (resolved.map fun r => canonicalizePath r.path).Nodup
  complete : ∀ path, (∃ r ∈ resolved, canonicalizePath r.path = path) ↔
    ∃ c ∈ named contributions, canonicalizePath c.path = path
  best : ∀ r ∈ resolved, ∀ c,
    Wins ResolvedResource.rank
      (withPath canonicalizePath (canonicalizePath r.path) (named contributions)) c →
    r.metadata = c.metadata ∧ r.enabled = c.enabled

/-- For each canonical path, the best of the contributions that none precedes with the same
text has the metadata and the flag of the best one of all. -/
def BestUnshadowed : Prop :=
  ∀ path first best,
    Wins ResolvedResource.rank (withPath canonicalizePath path (unshadowed contributions)) first →
    Wins ResolvedResource.rank (withPath canonicalizePath path (named contributions)) best →
    first.metadata = best.metadata ∧ first.enabled = best.enabled

variable {canonicalizePath contributions}

theorem resources_foldl_addResource (map : ResourceMap) {seen : List JsString}
    (hseen : ∀ path, path ∈ seen ↔ path ∈ map.entries.map Prod.fst) :
    (contributions.foldl (fun map c => addResource map c.path c.metadata c.enabled) map).resources =
      map.resources ++ keepFirst ResolvedResource.path seen (named contributions) := by
  induction contributions generalizing map seen with
  | nil => exact (append_nil _).symm
  | cons c cs ih =>
    rw [foldl_cons]
    by_cases hempty : c.path = []
    · have hnamed : named (c :: cs) = named cs := by
        rw [named, filter_cons, if_neg (by simp [hempty])]
        rfl
      rw [addResource, if_pos hempty, hnamed]
      exact ih map hseen
    · have hnamed : named (c :: cs) = c :: named cs := by
        rw [named, filter_cons, if_pos (by simp [hempty])]
        rfl
      rw [addResource, if_neg hempty, hnamed, keepFirst]
      by_cases hhas : map.has c.path = true
      · have hmem : c.path ∈ seen := by
          rw [hseen]
          by_contra hnot
          rw [JsMap.has, JsMap.get, (assocGet_eq_none_iff _ _).mpr hnot] at hhas
          cases hhas
        rw [if_pos hhas, if_pos hmem]
        exact ih map hseen
      · have hnotin : c.path ∉ map.entries.map Prod.fst := by
          rw [← assocGet_eq_none_iff]
          exact (JsMap.has_eq_false_iff map c.path).mp (Bool.eq_false_iff.mpr hhas)
        have hentries : (map.set c.path (c.metadata, c.enabled)).entries =
            map.entries ++ [(c.path, (c.metadata, c.enabled))] := assocSet_of_not_mem _ hnotin
        rw [if_neg hhas, if_neg fun h => hnotin ((hseen _).mp h)]
        rw [@ih (map.set c.path (c.metadata, c.enabled)) (c.path :: seen), ResourceMap.resources,
          hentries, map_append, append_assoc]
        · rfl
        · intro path
          rw [hentries, map_append, mem_cons, mem_append, hseen, or_comm]
          simp

theorem resolveResources_eq : resolveResources canonicalizePath contributions =
      keepFirst (fun r => canonicalizePath r.path) []
        ((unshadowed contributions).mergeSort (rankLe ResolvedResource.rank)) := by
  have hresources := @resources_foldl_addResource contributions .empty [] fun _ => Iff.rfl
  rw [resolveResources, mapToResolved, hresources]
  rfl

theorem unshadowed_nodup : (unshadowed contributions).Nodup :=
  List.Nodup.of_map _ (nodup_keys_keepFirst ResolvedResource.path [] _)

theorem mem_resolveResources_iff {r : ResolvedResource} :
    r ∈ resolveResources canonicalizePath contributions ↔ Wins ResolvedResource.rank
        (withPath canonicalizePath (canonicalizePath r.path) (unshadowed contributions)) r := by
  rw [resolveResources_eq]
  exact mem_keepFirst_mergeSort_iff unshadowed_nodup

theorem resolveResources_complete (path : JsString) :
    (∃ r ∈ resolveResources canonicalizePath contributions, canonicalizePath r.path = path) ↔
      ∃ c ∈ named contributions, canonicalizePath c.path = path := by
  have hperm := mergeSort_perm (unshadowed contributions) (rankLe ResolvedResource.rank)
  rw [resolveResources_eq]
  constructor
  · rintro ⟨r, hr, hpath⟩
    have hmem := hperm.mem_iff.mp ((keepFirst_sublist _ _ _).subset hr)
    exact ⟨r, (keepFirst_sublist _ _ _).subset hmem, hpath⟩
  · rintro ⟨c, hc, hpath⟩
    obtain ⟨d, hd, hdc⟩ := @exists_mem_keepFirst _ _ _ ResolvedResource.path _ _ hc
    obtain ⟨r, hr, hrd⟩ := @exists_mem_keepFirst _ _ _
      (fun r : ResolvedResource => canonicalizePath r.path) _ _ (hperm.mem_iff.mpr hd)
    exact ⟨r, hr, by rw [hrd, hdc, hpath]⟩

/-- Precedence is honoured exactly when, for each canonical path, the best contribution that
none precedes with the same text agrees with the best one of all. -/
theorem resolveResources_honoured_iff (canonicalizePath : JsString → JsString)
    (contributions : List ResolvedResource) : PrecedenceHonoured canonicalizePath contributions
        (resolveResources canonicalizePath contributions) ↔
      BestUnshadowed canonicalizePath contributions := by
  constructor
  · intro h path first best hfirst hbest
    have hpath : canonicalizePath first.path = path :=
      of_decide_eq_true (mem_filter.mp hfirst.mem).2
    subst hpath
    exact h.best first (mem_resolveResources_iff.mpr hfirst) best hbest
  · intro h
    refine ⟨?_, resolveResources_complete, fun r hr c hc => ?_⟩
    · rw [resolveResources_eq]
      exact nodup_keys_keepFirst _ _ _
    · exact h _ r c (mem_resolveResources_iff.mp hr) hc

def packageSkill : ResolvedResource :=
  ⟨js "/skills/a.md", true, ⟨js "npm:skills", .user, .package, none⟩⟩

/-- The same file, which the project settings disable. -/
def disabledSkill : ResolvedResource :=
  ⟨js "/skills/a.md", false, ⟨js "local", .project, .topLevel, none⟩⟩

/-- The project disables a file of a package, and it stays enabled. -/
theorem resolveResources_drops_project_setting :
    packageSkill ∈ resolveResources id [packageSkill, disabledSkill] ∧
      ¬ PrecedenceHonoured id [packageSkill, disabledSkill]
        (resolveResources id [packageSkill, disabledSkill]) := by
  have hmem : packageSkill ∈ resolveResources id [packageSkill, disabledSkill] :=
    mem_resolveResources_iff.mpr ⟨[], [], by decide, by simp, by simp⟩
  refine ⟨hmem, fun h => ?_⟩
  have hbest := h.best packageSkill hmem disabledSkill ⟨[packageSkill], [], by decide, by decide,
    by simp⟩
  exact absurd hbest.2 (by decide)

end AcademicAgent.AgentHost
