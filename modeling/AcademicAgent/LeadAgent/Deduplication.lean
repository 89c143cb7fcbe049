import AcademicAgent.Core.Occurrence
import AcademicAgent.LeadAgent.LiteratureSearch

/-!
# Merging literature candidates

Candidates are collected under one key each, so that the records are the classes of equal keys,
in whatever order they come.
-/

namespace AcademicAgent.LeadAgent

open List

structure LiteratureProviderProvenance where
  provider : LiteratureProviderId
  providerRecordId : JsString
  sourceQuery : JsString
  rawScore : Option Decimal
  retrievedAt : JsString

structure LiteratureCandidate where
  id : JsString
  provider : LiteratureProviderId
  providerRecordId : JsString
  title : JsString
  authors : List JsString := []
  year : Option Int := none
  venue : Option JsString := none
  doi : Option JsString := none
  pmid : Option JsString := none
  arxivId : Option JsString := none
  url : Option JsString := none
  abstract : Option JsString := none
  publicationType : Option JsString := none
  isOpenAccess : Option Bool := none
  citationCount : Option Int := none
  sourceQuery : JsString
  rawScore : Option Decimal := none
  retrievedAt : JsString
  provenance : Option (List LiteratureProviderProvenance) := none
  rankingNotes : Option (List JsString) := none

/-- What the normalization asks of the Unicode tables and of the locale. -/
structure TextTables where
  toLowerCase : JsString → JsString
  /-- `replace(/[^\p{L}\p{N}\s]/gu, "")`. -/
  stripSymbols : JsString → JsString
  localeCompare : JsString → JsString → Int

def nonEmptyText (value : Option JsString) : Option JsString := value.filter (· ≠ [])

/-- The prefixes that `^https?:\/\/(dx\.)?doi\.org\/` matches. -/
def doiUrls : List JsString :=
  [js "https://dx.doi.org/", js "https://doi.org/", js "http://dx.doi.org/", js "http://doi.org/"]

/-- `replace(/^https?:\/\/(dx\.)?doi\.org\//, "")`. -/
def stripDoiUrl (value : JsString) : JsString :=
  match doiUrls.find? (· <+: value) with
  | some url => value.drop url.length
  | none => value

/-- `replace(/^doi:\s*/, "")`. -/
def stripDoiScheme (value : JsString) : JsString :=
  if js "doi:" <+: value then (value.drop 4).dropWhile isWhitespace else value

/-- `replace(/\s+/g, " ")`. -/
def collapseSpaces : JsString → JsString
  | [] => []
  | c :: rest =>
    if isWhitespace c then
      if rest.head?.any isWhitespace then collapseSpaces rest else 0x20 :: collapseSpaces rest
    else c :: collapseSpaces rest

section

variable (tables : TextTables)

def normalizeDoi (value : Option JsString) : Option JsString :=
  (nonEmptyText value).bind fun value =>
    nonEmptyText (some (stripDoiScheme (stripDoiUrl (tables.toLowerCase (trim value)))))

def normalizeTitle (value : JsString) : JsString :=
  trim (tables.stripSymbols (collapseSpaces (tables.toLowerCase value)))

section

variable (candidate : LiteratureCandidate)

def candidateKey : JsString :=
  match normalizeDoi tables candidate.doi with
  | some doi => js "doi:" ++ doi
  | none =>
    match nonEmptyText candidate.pmid with
    | some pmid => js "pmid:" ++ trim pmid
    | none =>
      match nonEmptyText candidate.arxivId with
      | some arxivId => js "arxiv:" ++ tables.toLowerCase (trim arxivId)
      | none =>
        if candidate.provider = .semanticScholar then js "s2:" ++ candidate.providerRecordId
        else js "title-year:" ++ normalizeTitle tables candidate.title ++ js ":" ++
          (candidate.year.map fun year => (Decimal.ofInt year).toString).getD (js "unknown")

def provenanceFor : LiteratureProviderProvenance where
  provider := candidate.provider
  providerRecordId := candidate.providerRecordId
  sourceQuery := candidate.sourceQuery
  rawScore := candidate.rawScore
  retrievedAt := candidate.retrievedAt

/-- `candidate.provenance ?? [provenanceFor(candidate)]`. -/
def provenanceOf : List LiteratureProviderProvenance :=
  candidate.provenance.getD [provenanceFor candidate]

end

def countProviders (provenance : List LiteratureProviderProvenance) : Nat :=
  (provenance.map (·.provider)).dedup.length

def returnedByNote (providerCount : Nat) : JsString :=
  js "returned by " ++ decimalText providerCount ++ js " providers"

def mergeCandidate (left right : LiteratureCandidate) : LiteratureCandidate :=
  let provenance := provenanceOf left ++ provenanceOf right
  let providerCount := countProviders provenance
  let citationCount := max (left.citationCount.getD 0) (right.citationCount.getD 0)
  { left with
    title := if left.title = [] then right.title else left.title
    authors := if left.authors = [] then right.authors else left.authors
    year := left.year.or right.year
    venue := left.venue.or right.venue
    doi := (normalizeDoi tables left.doi).or (normalizeDoi tables right.doi)
    pmid := left.pmid.or right.pmid
    arxivId := left.arxivId.or right.arxivId
    url := left.url.or right.url
    abstract := left.abstract.or right.abstract
    publicationType := left.publicationType.or right.publicationType
    isOpenAccess := left.isOpenAccess.or right.isOpenAccess
    citationCount := if citationCount = 0 then none else some citationCount
    provenance := some provenance
    rankingNotes :=
      if 1 < providerCount then some [returnedByNote providerCount] else left.rankingNotes }

def addNote (notes : List JsString) (note : JsString) : List JsString :=
  if note ∈ notes then notes else notes ++ [note]

/-- `score`, in tenths, and the notes. -/
def score (candidate : LiteratureCandidate) (query : JsString) : Int × List JsString :=
  let queryTerms := ((normalizeTitle tables query).splitOn 0x20).filter (2 < ·.length)
  let title := normalizeTitle tables candidate.title
  let matchesQuery := !queryTerms.isEmpty && queryTerms.all fun term => (indexOf? term title).isSome
  let providerCount := countProviders (provenanceOf candidate)
  let notes := (candidate.rankingNotes.getD []).foldl addNote []
  let notes := if matchesQuery then addNote notes (js "matched query terms") else notes
  let notes := if 1 < providerCount then addNote notes (returnedByNote providerCount) else notes
  let named := (nonEmptyText candidate.doi).or
    ((nonEmptyText candidate.pmid).or (nonEmptyText candidate.arxivId))
  ((if matchesQuery then 400 else 0) + (if 1 < providerCount then 100 * providerCount else 0) +
    ((candidate.year.filter (· ≠ 0)).map fun year => 10 * min (max (year - 2000) 0) 30).getD 0 +
    2 * min (candidate.citationCount.getD 0) 50 +
    (if (nonEmptyText candidate.abstract).isSome then 50 else 0) +
    (if named.isSome then 50 else 0), notes)

def rank (query : JsString) (candidate : LiteratureCandidate) : LiteratureCandidate :=
  let ranked := score tables candidate query
  { candidate with
    rankingNotes := some ranked.2
    rawScore := some (.make (decide (ranked.1 < 0)) ranked.1.natAbs (-1)) }

/-- The order of the records: by falling score, and then by title. -/
def rankedBefore (a b : LiteratureCandidate) : Bool :=
  let scoreOf (candidate : LiteratureCandidate) := candidate.rawScore.getD (.ofInt 0)
  (scoreOf b).lt (scoreOf a) ||
    (!(scoreOf a).lt (scoreOf b) && decide (tables.localeCompare a.title b.title ≤ 0))

def normalized (candidate : LiteratureCandidate) : LiteratureCandidate :=
  { candidate with doi := normalizeDoi tables candidate.doi }

def mergeKey (candidate : LiteratureCandidate) : JsString :=
  candidateKey tables (normalized tables candidate)

/-- One more candidate is merged with the record of its key. -/
def collect (merged : JsMap JsString LiteratureCandidate) (candidate : LiteratureCandidate) :
    JsMap JsString LiteratureCandidate :=
  merged.set (mergeKey tables candidate)
    (match merged.get (mergeKey tables candidate) with
    | some existing => mergeCandidate tables existing (normalized tables candidate)
    | none => normalized tables candidate)

def dedupeAndRankCandidates (candidates : List LiteratureCandidate) (query : JsString) :
    List LiteratureCandidate :=
  insertionSort (fun a b => rankedBefore tables a b)
    (((candidates.foldl (collect tables) .empty).entries.map Prod.snd).map (rank tables query))

end

def sourceOf (candidate : LiteratureCandidate) : LiteratureProviderId × JsString :=
  (candidate.provider, candidate.providerRecordId)

/-- The sources that a record represents, as its own or in its provenance. -/
def sourcesOf (record : LiteratureCandidate) : List (LiteratureProviderId × JsString) :=
  (provenanceOf record).map fun p => (p.provider, p.providerRecordId)

variable {tables : TextTables} {candidates : List LiteratureCandidate}

theorem sourcesOf_mergeCandidate (left right : LiteratureCandidate) :
    sourcesOf (mergeCandidate tables left right) = sourcesOf left ++ sourcesOf right :=
  map_append

theorem sourcesOf_of_own {c : LiteratureCandidate} (h : c.provenance = none) :
    sourcesOf c = [sourceOf c] := by
  rw [sourcesOf, provenanceOf, h]
  rfl

theorem sourcesOf_rank (query : JsString) (record : LiteratureCandidate) :
    sourcesOf (rank tables query record) = sourcesOf record := by
  rw [sourcesOf, sourcesOf, provenanceOf, provenanceOf, rank]
  cases record.provenance <;> rfl

/-- The candidates that are collected under a key. -/
def groupOf (tables : TextTables) (candidates : List LiteratureCandidate) (key : JsString) :
    List LiteratureCandidate :=
  candidates.filter (mergeKey tables · = key)

/-- The record of a key represents the candidates that were collected under it. -/
theorem sourcesOf_collected (candidates : List LiteratureCandidate) (key : JsString) :
    ((candidates.foldl (collect tables) .empty).get key).map sourcesOf =
      if groupOf tables candidates key = [] then none
      else some ((groupOf tables candidates key).flatMap sourcesOf) := by
  induction candidates using reverseRecOn with
  | nil => rfl
  | append_singleton candidates c ih =>
    have hc : sourcesOf (normalized tables c) = sourcesOf c := rfl
    rw [foldl_append, foldl_cons, foldl_nil, collect, JsMap.get_set, groupOf, filter_append]
    rw [groupOf] at ih
    by_cases hkey : mergeKey tables c = key
    · subst hkey
      cases hget : (candidates.foldl (collect tables) .empty).get (mergeKey tables c) with
      | none =>
        rw [hget] at ih
        simp_all
      | some existing =>
        rw [hget] at ih
        simp_all [sourcesOf_mergeCandidate]
    · simp_all

theorem assocGet_of_mem {κ υ : Type} [DecidableEq κ] {m : List (κ × υ)}
    (hnodup : (m.map Prod.fst).Nodup) {p : κ × υ} (hp : p ∈ m) : assocGet p.1 m = some p.2 := by
  induction m with
  | nil => cases hp
  | cons q m ih =>
    rw [map_cons, nodup_cons] at hnodup
    rcases mem_cons.mp hp with rfl | hp
    · exact if_pos rfl
    · have hne : q.1 ≠ p.1 := fun heq => hnodup.1 (heq ▸ mem_map_of_mem hp)
      rw [assocGet, if_neg hne]
      exact ih hnodup.2 hp

/-- The records represent the candidates of one key each, and those of every key. -/
def Represents (tables : TextTables) (candidates records : List LiteratureCandidate) : Prop :=
  ∃ keys : List JsString, keys.Nodup ∧
    (∀ key, key ∈ keys ↔ ∃ c ∈ candidates, mergeKey tables c = key) ∧
    records.map sourcesOf ~ keys.map fun key => (groupOf tables candidates key).flatMap sourcesOf

theorem dedupeAndRankCandidates_represents (candidates : List LiteratureCandidate)
    (query : JsString) :
    Represents tables candidates (dedupeAndRankCandidates tables candidates query) := by
  have hcollected := @sourcesOf_collected tables candidates
  rw [dedupeAndRankCandidates]
  generalize candidates.foldl (collect tables) .empty = merged at hcollected ⊢
  refine ⟨merged.entries.map Prod.fst, merged.nodup, fun key => ?_, ?_⟩
  · have hempty : merged.get key = none ↔ groupOf tables candidates key = [] := by
      rw [← Option.map_eq_none_iff, hcollected key]
      split <;> simp_all
    rw [← not_iff_not, ← assocGet_eq_none_iff]
    exact hempty.trans (by simp [groupOf])
  · have hrecords : (merged.entries.map Prod.snd).map sourcesOf =
        (merged.entries.map Prod.fst).map fun key =>
          (groupOf tables candidates key).flatMap sourcesOf := by
      rw [map_map, map_map]
      refine map_congr_left fun p hp => ?_
      have hkey := hcollected p.1
      rw [JsMap.get, assocGet_of_mem merged.nodup hp] at hkey
      split at hkey
      · cases hkey
      · exact Option.some.inj hkey
    have hranked : ((merged.entries.map Prod.snd).map (rank tables query)).map sourcesOf =
        (merged.entries.map Prod.snd).map sourcesOf := by
      rw [map_map]
      exact map_congr_left fun record _ => sourcesOf_rank query record
    rw [← hrecords, ← hranked]
    exact (perm_insertionSort _ _).map sourcesOf

theorem Represents.of_perm {others records records' : List LiteratureCandidate}
    (h : Represents tables candidates records) (h' : Represents tables others records')
    (hperm : candidates ~ others) {record : LiteratureCandidate} (hrecord : record ∈ records) :
    ∃ record' ∈ records', sourcesOf record ~ sourcesOf record' := by
  obtain ⟨keys, -, hkeys, hgroups⟩ := h
  obtain ⟨keys', -, hkeys', hgroups'⟩ := h'
  obtain ⟨key, hkey, hgroup⟩ := mem_map.mp (hgroups.subset (mem_map_of_mem hrecord))
  have hkey' : key ∈ keys' := by
    obtain ⟨c, hc, hsame⟩ := (hkeys key).mp hkey
    exact (hkeys' key).mpr ⟨c, hperm.subset hc, hsame⟩
  obtain ⟨record', hrecord', hgroup'⟩ :=
    mem_map.mp (hgroups'.symm.subset (mem_map_of_mem hkey'))
  refine ⟨record', hrecord', ?_⟩
  rw [← hgroup, hgroup']
  exact (hperm.filter _).flatMap_right _

/-- Tables for texts in which nothing has to be changed. -/
def plainTables : TextTables := ⟨id, id, fun _ _ => 0⟩

/-- A candidate with a DOI and a PMID, and one with the same PMID only. -/
def linkedCandidates : List LiteratureCandidate :=
  [{ id := js "a", provider := .pubmed, providerRecordId := js "7", title := js "T"
     doi := some (js "10.1/x"), pmid := some (js "7"), sourceQuery := [], retrievedAt := [] },
    { id := js "b", provider := .crossref, providerRecordId := js "9", title := js "T"
      pmid := some (js "7"), sourceQuery := [], retrievedAt := [] }]

end AcademicAgent.LeadAgent
