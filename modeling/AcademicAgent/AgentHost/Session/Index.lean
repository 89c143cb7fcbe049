import Mathlib.Data.List.Perm.Subperm
import AcademicAgent.AgentHost.Session.Manager

/-!
# Walks to the root

The loop that collects a path is characterized by the chain of parents it visits.
-/

namespace AcademicAgent

open List Option

variable {byId : EntryMap}

variable {cur next : Option SessionEntry} {xs ys : List SessionEntry} {e : SessionEntry}

/-- The entries from a leaf up to a root, leaf first. -/
inductive Ancestry (byId : EntryMap) : Option SessionEntry → List SessionEntry → Prop where
  | root : Ancestry byId none []
  | child (e : SessionEntry) {chain : List SessionEntry} :
      Ancestry byId (parentOf byId e) chain → Ancestry byId (some e) (e :: chain)

theorem walk_eq_some_iff {fuel : Nat} {acc path : List SessionEntry} :
    walk byId fuel cur acc = some path ↔
      ∃ chain, Ancestry byId cur chain ∧ chain.length ≤ fuel ∧ path = chain.reverse ++ acc := by
  induction fuel generalizing cur acc with
  | zero =>
    cases cur with
    | none =>
      simp only [walk, some.injEq]
      constructor
      · rintro rfl
        exact ⟨[], .root, le_rfl, rfl⟩
      · rintro ⟨chain, hchain, _, rfl⟩
        cases hchain
        rfl
    | some e =>
      simp only [walk, reduceCtorEq, false_iff]
      rintro ⟨chain, hchain, hlen, _⟩
      cases hchain
      simp at hlen
  | succ fuel ih =>
    cases cur with
    | none =>
      simp only [walk, some.injEq]
      constructor
      · rintro rfl
        exact ⟨[], .root, Nat.zero_le _, rfl⟩
      · rintro ⟨chain, hchain, _, rfl⟩
        cases hchain
        rfl
    | some e =>
      rw [walk, ih]
      constructor
      · rintro ⟨chain, hchain, hlen, rfl⟩
        exact ⟨e :: chain, .child e hchain, by simpa using hlen, by simp⟩
      · rintro ⟨_, hchain, hlen, rfl⟩
        cases hchain with
        | child _ hchain => exact ⟨_, hchain, by simpa using hlen, by simp⟩

section

variable {cur : Option SessionEntry}

theorem Ancestry.unique (hx : Ancestry byId cur xs) (hy : Ancestry byId cur ys) : xs = ys := by
  induction hx generalizing ys with
  | root => cases hy; rfl
  | child e _ ih =>
    cases hy with
    | child _ hy => rw [ih hy]

theorem Ancestry.suffix (h : Ancestry byId cur (xs ++ e :: ys)) :
    Ancestry byId (some e) (e :: ys) := by
  induction xs generalizing cur with
  | nil =>
    cases h with
    | child _ h => exact .child e h
  | cons x xs ih =>
    cases h with
    | child _ h => exact ih h

theorem Ancestry.nodup {chain : List SessionEntry} (h : Ancestry byId cur chain) : chain.Nodup := by
  induction h with
  | root => exact nodup_nil
  | child e h ih =>
    rename_i chain
    refine nodup_cons.mpr ⟨?_, ih⟩
    intro hmem
    -- A second visit would give the entry a proper suffix of its own chain.
    obtain ⟨xs, ys, rfl⟩ := append_of_mem hmem
    have heq := (Ancestry.child e h).unique h.suffix
    have hlen := congrArg List.length heq
    simp only [length_cons, length_append] at hlen
    omega

end

/-- Every value of the index is filed under its own id. -/
def Indexed (byId : EntryMap) : Prop := ∀ k e, byId.get k = some e → e.id = k

theorem get_parentOf {p : SessionEntry} (hidx : Indexed byId) (h : parentOf byId e = some p) :
    e.parentRef = some p.id ∧ byId.get p.id = some p := by
  obtain ⟨k, hk, hp⟩ := bind_eq_some_iff.mp h
  rw [hidx k p hp]
  exact ⟨hk, hp⟩

section

variable {cur : Option SessionEntry} {chain : List SessionEntry} (h : Ancestry byId cur chain)
  (hidx : Indexed byId)
include h hidx

theorem Ancestry.get_id (hcur : ∀ e, cur = some e → byId.get e.id = some e) :
    ∀ e ∈ chain, byId.get e.id = some e := by
  induction h with
  | root => simp
  | child e _ ih =>
    intro x hx
    rcases mem_cons.mp hx with rfl | hx
    · exact hcur x rfl
    · exact ih (fun p hp => (get_parentOf hidx hp).2) x hx

theorem Ancestry.id_ne_nil (hcur : ∀ e, cur = some e → e.id ≠ []) : ∀ e ∈ chain, e.id ≠ [] := by
  induction h with
  | root => simp
  | child e _ ih =>
    intro x hx
    rcases mem_cons.mp hx with rfl | hx
    · exact hcur x rfl
    · refine ih (fun p hp => ?_) x hx
      exact (SessionEntry.parentRef_eq_some.mp (get_parentOf hidx hp).1).2

theorem Ancestry.nodup_ids (hcur : ∀ e, cur = some e → byId.get e.id = some e) :
    (chain.map SessionEntry.id).Nodup := by
  refine List.Nodup.map_on ?_ h.nodup
  intro x hx y hy hxy
  have hgx := h.get_id hidx hcur x hx
  have hgy := h.get_id hidx hcur y hy
  rw [hxy] at hgx
  exact some.inj (hgx.symm.trans hgy)

end

theorem Ancestry.length_le {chain : List SessionEntry} (h : Ancestry byId cur chain)
    (hidx : Indexed byId) (hcur : ∀ e, cur = some e → byId.get e.id = some e) :
    chain.length ≤ byId.entries.length := by
  have hsub : chain.map SessionEntry.id ⊆ byId.entries.map Prod.fst := by
    intro k hk
    obtain ⟨e, he, rfl⟩ := mem_map.mp hk
    by_contra hno
    have hnone : byId.get e.id = none := (assocGet_eq_none_iff _ _).mpr hno
    rw [h.get_id hidx hcur e he] at hnone
    contradiction
  simpa using (subperm_of_subset (h.nodup_ids hidx hcur) hsub).length_le

theorem pathTo_eq_some_iff {leaf : SessionEntry} {path : List SessionEntry}
    (hidx : Indexed byId) (hleaf : byId.get leaf.id = some leaf) :
    pathTo byId (some leaf) = some path ↔ Ancestry byId (some leaf) path.reverse := by
  have hcur (e : SessionEntry) (he : some leaf = some e) : byId.get e.id = some e := by
    cases he
    exact hleaf
  rw [pathTo, walk_eq_some_iff]
  constructor
  · rintro ⟨chain, hchain, _, rfl⟩
    simpa using hchain
  · intro h
    exact ⟨path.reverse, h, (h.length_le hidx hcur).trans (Nat.le_succ _), by simp⟩

/-- Each entry of a list is the parent of the one before it, and `next` of the last. -/
def Segment (byId : EntryMap) : List SessionEntry → Option SessionEntry → Prop
  | [], _ => True
  | e :: es, next => parentOf byId e = es.head?.or next ∧ Segment byId es next

theorem Segment.ancestry_iff {es : List SessionEntry} {next : Option SessionEntry}
    (h : Segment byId es next) {chain : List SessionEntry} :
    Ancestry byId (es.head?.or next) chain ↔
      ∃ rest, chain = es ++ rest ∧ Ancestry byId next rest := by
  induction es generalizing chain with
  | nil => simp
  | cons e es ih =>
    constructor
    · intro hchain
      cases hchain with
      | child _ hchain =>
        rw [h.1, ih h.2] at hchain
        obtain ⟨rest, rfl, hrest⟩ := hchain
        exact ⟨rest, rfl, hrest⟩
    · rintro ⟨rest, rfl, hrest⟩
      refine .child e ?_
      rw [h.1, ih h.2]
      exact ⟨rest, rfl, hrest⟩

theorem Ancestry.segment (h : Ancestry byId cur (xs ++ ys)) :
    Segment byId xs ys.head? ∧ cur = (xs ++ ys).head? := by
  induction xs generalizing cur with
  | nil =>
    refine ⟨trivial, ?_⟩
    cases h <;> rfl
  | cons x xs ih =>
    cases h with
    | child _ h =>
      obtain ⟨hseg, hparent⟩ := ih h
      refine ⟨⟨?_, hseg⟩, rfl⟩
      rw [hparent, head?_append]

theorem Segment.right (h : Segment byId (xs ++ ys) next) : Segment byId ys next := by
  induction xs with
  | nil => exact h
  | cons x xs ih => exact ih h.2

theorem Segment.parentOf_getLast {es : List SessionEntry} (h : Segment byId es next)
    (he : es.getLast? = some e) : parentOf byId e = next := by
  obtain ⟨xs, rfl⟩ := getLast?_eq_some_iff.mp he
  induction xs with
  | nil => exact h.1
  | cons x xs ih => exact ih h.2 (by simp)

theorem Segment.transfer {byId' : EntryMap} {es : List SessionEntry} (h : Segment byId es next)
    (hidx : Indexed byId) (hget : ∀ e ∈ es, byId'.get e.id = some e) :
    Segment byId' es (es.getLast?.bind (parentOf byId')) := by
  induction es with
  | nil => trivial
  | cons e es ih =>
    have htail := ih h.2 fun x hx => hget x (mem_cons_of_mem _ hx)
    cases es with
    | nil => exact ⟨rfl, trivial⟩
    | cons p es =>
      refine ⟨?_, htail⟩
      have hparent := (get_parentOf hidx h.1).1
      rw [parentOf, hparent, bind_some, hget p (by simp)]
      rfl

theorem Segment.append (hx : Segment byId xs (ys.head?.or next)) (hy : Segment byId ys next) :
    Segment byId (xs ++ ys) next := by
  induction xs with
  | nil => exact hy
  | cons x xs ih =>
    refine ⟨?_, ih hx.2⟩
    change parentOf byId x = (xs ++ ys).head?.or next
    rw [hx.1, head?_append, Option.or_assoc]

end AcademicAgent

/-!
# The index of a session manager

What `_buildIndex` computes and what it leaves alone.
-/

namespace AcademicAgent

open List

variable {byId : EntryMap} {es : List SessionEntry}

theorem Indexed.empty : Indexed .empty := by
  intro k e h
  contradiction

theorem Indexed.set (h : Indexed byId) (e : SessionEntry) : Indexed (byId.set e.id e) := by
  intro k x hx
  rw [JsMap.get_set] at hx
  split at hx
  · rename_i hk
    cases hx
    exact hk
  · exact h k x hx

theorem indexed_foldl_set (h : Indexed byId) (es : List SessionEntry) :
    Indexed (es.foldl (fun m e => m.set e.id e) byId) := by
  induction es generalizing byId with
  | nil => exact h
  | cons e es ih => exact ih (h.set e)

theorem indexed_indexById (es : List SessionEntry) : Indexed (indexById es) :=
  indexed_foldl_set .empty es

theorem get_foldl_set_of_notMem {k : JsString} (h : k ∉ es.map SessionEntry.id) :
    (es.foldl (fun m e => m.set e.id e) byId).get k = byId.get k := by
  induction es generalizing byId with
  | nil => rfl
  | cons e es ih =>
    rw [map_cons, mem_cons, not_or] at h
    rw [foldl_cons, ih h.2, JsMap.get_set, if_neg (Ne.symm h.1)]

theorem get_indexById_of_notMem {k : JsString} (h : k ∉ es.map SessionEntry.id) :
    (indexById es).get k = none :=
  get_foldl_set_of_notMem h

theorem get_indexById (h : (es.map SessionEntry.id).Nodup) {e : SessionEntry} (he : e ∈ es) :
    (indexById es).get e.id = some e := by
  obtain ⟨xs, ys, rfl⟩ := append_of_mem he
  have hnot : e.id ∉ ys.map SessionEntry.id := by
    rw [map_append, map_cons] at h
    exact (nodup_cons.mp (nodup_append.mp h).2.1).1
  rw [indexById, foldl_append, foldl_cons, get_foldl_set_of_notMem hnot, JsMap.get_set_self]

namespace SessionManager

section

variable (s : SessionManager)

/-- A manager without its index: what `_buildIndex` leaves alone. -/
def withoutIndex : SessionManager :=
  { s with byId := .empty, labelsById := .empty, labelTimestampsById := .empty, leafId := none }

theorem withoutIndex_indexEntry (e : SessionEntry) :
    (s.indexEntry e).withoutIndex = s.withoutIndex := by
  unfold indexEntry
  split
  · split <;> rfl
  · rfl
  · rfl

theorem withoutIndex_buildIndex : s.buildIndex.withoutIndex = s.withoutIndex := by
  have hfold (es : List SessionEntry) (t : SessionManager) :
      (es.foldl indexEntry t).withoutIndex = t.withoutIndex := by
    induction es generalizing t with
    | nil => rfl
    | cons e es ih => rw [foldl_cons, ih, withoutIndex_indexEntry]
  exact hfold _ _

@[simp] theorem buildIndex_fileEntries : s.buildIndex.fileEntries = s.fileEntries :=
  (congrArg fileEntries s.withoutIndex_buildIndex :)

@[simp] theorem buildIndex_sessionFile : s.buildIndex.sessionFile = s.sessionFile :=
  (congrArg sessionFile s.withoutIndex_buildIndex :)

@[simp] theorem buildIndex_persist : s.buildIndex.persist = s.persist :=
  (congrArg persist s.withoutIndex_buildIndex :)

@[simp] theorem buildIndex_disk : s.buildIndex.disk = s.disk :=
  (congrArg disk s.withoutIndex_buildIndex :)

@[simp] theorem buildIndex_flushed : s.buildIndex.flushed = s.flushed :=
  (congrArg flushed s.withoutIndex_buildIndex :)

theorem indexEntry_byId (e : SessionEntry) : (s.indexEntry e).byId = s.byId.set e.id e := by
  unfold indexEntry
  split
  · split <;> rfl
  · rfl
  · rfl

theorem indexEntry_leafId (e : SessionEntry) : (s.indexEntry e).leafId = some e.id := by
  unfold indexEntry
  split
  · split <;> rfl
  · rfl
  · rfl

theorem buildIndex_byId : s.buildIndex.byId = indexById (getEntries s.fileEntries) := by
  have hfold (es : List SessionEntry) (t : SessionManager) :
      (es.foldl indexEntry t).byId = es.foldl (fun m e => m.set e.id e) t.byId := by
    induction es generalizing t with
    | nil => rfl
    | cons e es ih => rw [foldl_cons, foldl_cons, ih, indexEntry_byId]
  exact hfold _ _

theorem buildIndex_leafId :
    s.buildIndex.leafId = (getEntries s.fileEntries).getLast?.map SessionEntry.id := by
  have hfold (es : List SessionEntry) (t : SessionManager) :
      (es.foldl indexEntry t).leafId = (es.getLast?.map SessionEntry.id).or t.leafId := by
    induction es generalizing t with
    | nil => rfl
    | cons e es ih =>
      rw [foldl_cons, ih, indexEntry_leafId, getLast?_cons]
      cases es.getLast? <;> rfl
  exact (hfold _ _).trans Option.or_none

end

/-- The managers that the constructor and the operations produce; the file
system may change in between. -/
inductive IsReachable (codec : LineCodec FileEntry) : SessionManager → Prop where
  | make (d : Draws) (cwd sessionDir : JsString) (sessionFile : Option JsString) (persist : Bool)
      (disk : Files) : IsReachable codec (make codec d cwd sessionDir sessionFile persist disk)
  | step {s t : SessionManager} (i : SessionOp × Draws) :
      IsReachable codec s → s.step codec i = some t → IsReachable codec t
  | setSessionFile {s : SessionManager} (d : Draws) (path : JsString) :
      IsReachable codec s → IsReachable codec (setSessionFile codec s d path)
  | newSession {s : SessionManager} (d : Draws) (id parentSession : Option JsString) :
      IsReachable codec s → IsReachable codec (s.newSession d id parentSession)
  | disk {s : SessionManager} (disk : Files) :
      IsReachable codec s → IsReachable codec { s with disk }

variable {codec : LineCodec FileEntry}

section

variable (s : SessionManager)

theorem rewriteFile_byId : (rewriteFile codec s).byId = s.byId := by
  unfold rewriteFile
  split <;> rfl

theorem persistEntry_byId (e : SessionEntry) : (persistEntry codec s e).byId = s.byId := by
  unfold persistEntry
  split
  · split
    · rfl
    · split <;> rfl
  · rfl

theorem indexed_buildIndex : Indexed s.buildIndex.byId := by
  rw [buildIndex_byId]
  exact indexed_indexById _

theorem indexed_setSessionFile (d : Draws) (path : JsString) :
    Indexed (setSessionFile codec s d path).byId := by
  unfold setSessionFile
  dsimp only
  split
  · split
    · rw [rewriteFile_byId]
      exact .empty
    · exact indexed_buildIndex _
  · exact .empty

theorem switchToBranch_eq (d : Draws) (path : List SessionEntry) :
    getEntries (switchToBranch codec s d path).fileEntries = s.branchedEntries d path ∧
      (switchToBranch codec s d path).byId = indexById (s.branchedEntries d path) ∧
        (switchToBranch codec s d path).leafId =
          (s.branchedEntries d path).getLast?.map SessionEntry.id := by
  have hindex (t : SessionManager) (hentries : t.fileEntries =
      .session (s.branchedHeader d) :: (s.branchedEntries d path).map .entry) :
      getEntries t.buildIndex.fileEntries = s.branchedEntries d path ∧
        t.buildIndex.byId = indexById (s.branchedEntries d path) ∧
          t.buildIndex.leafId = (s.branchedEntries d path).getLast?.map SessionEntry.id := by
    have hget : getEntries t.fileEntries = s.branchedEntries d path := by
      rw [hentries, getEntries_session, getEntries_map_entry]
    refine ⟨?_, ?_, ?_⟩
    · rw [buildIndex_fileEntries, hget]
    · rw [buildIndex_byId, hget]
    · rw [buildIndex_leafId, hget]
  unfold switchToBranch
  dsimp only
  split
  · split
    · unfold rewriteFile
      split
      · exact hindex _ rfl
      · exact hindex _ rfl
    · exact hindex _ rfl
  · exact hindex _ rfl

end

theorem IsReachable.indexed {s : SessionManager} (h : IsReachable codec s) : Indexed s.byId := by
  induction h with
  | make d cwd sessionDir sessionFile persist disk =>
    cases sessionFile with
    | none => exact .empty
    | some path => exact indexed_setSessionFile _ d path
  | step i _ hstep ih =>
    obtain ⟨op, d⟩ := i
    rcases step_cases hstep with ⟨leaf, rfl⟩ | ⟨leaf, body, labels, times, _, rfl⟩ |
      ⟨leafId, path, _, _, _, rfl⟩
    · exact ih
    · rw [appendEntry, persistEntry_byId]
      exact ih.set _
    · rw [(switchToBranch_eq _ d path).2.1]
      exact indexed_indexById _
  | setSessionFile d path _ _ => exact indexed_setSessionFile _ d path
  | newSession d id parentSession _ _ => exact .empty
  | disk disk _ ih => exact ih

end SessionManager

end AcademicAgent
