import AcademicAgent.AgentHost.Session.Persistence
import AcademicAgent.AgentHost.Session.Tree

/-!
# Opening a session file

The walks of `getBranch` and `buildSessionContext` follow parents without a set of visited
entries, and `getTree` guards against an entry that is its own parent only.
-/

namespace AcademicAgent

open List Option

variable {entries : List SessionEntry}

/-- The entries a manager holds after it opened a file. -/
def openedEntries (codec : LineCodec FileEntry) (d : Draws) (disk : Files) (path : JsString) :
    List SessionEntry :=
  match loadEntriesFromFile codec disk path with
  | [] => []
  | fileEntries => getEntries (migrateToCurrentVersion d.uuid fileEntries).1

/-- No indexed entry is its own proper ancestor; of two entries with one id the
later is indexed. -/
def NoParentCycle (entries : List SessionEntry) : Prop :=
  ∀ e ∈ entries, ¬ Relation.TransGen (fun x y => parentOf (indexById entries) x = some y) e e

/-- No cycle of links is reachable from a root; an id has the parents of all its
entries. -/
def NoTreeCycle (entries : List SessionEntry) : Prop :=
  ∀ r, TreeRoot entries r → ∀ id, Relation.ReflTransGen (TreeChild entries) r id →
    ¬ Relation.TransGen (TreeChild entries) id id

theorem exists_ancestry_iff_acc (byId : EntryMap) (e : SessionEntry) :
    (∃ chain, Ancestry byId (some e) chain) ↔ Acc (fun y x => parentOf byId x = some y) e := by
  constructor
  · rintro ⟨chain, hchain⟩
    induction chain generalizing e with
    | nil => cases hchain
    | cons x chain ih =>
      cases hchain with
      | child _ hchain =>
        refine ⟨_, fun p hp => ih p ?_⟩
        rwa [hp] at hchain
  · intro hacc
    induction hacc with
    | intro e _ ih =>
      cases hp : parentOf byId e with
      | none => exact ⟨[e], .child e (by rw [hp]; exact .root)⟩
      | some p =>
        obtain ⟨chain, hchain⟩ := ih p hp
        exact ⟨e :: chain, .child e (by rwa [hp])⟩

theorem get_indexById_mem {k : JsString} {e : SessionEntry} (h : (indexById entries).get k = some e)
    : e ∈ entries := by
  have hfold (es : List SessionEntry) (m : EntryMap)
      (hm : ∀ k x, m.get k = some x → x ∈ entries) (hes : ∀ x ∈ es, x ∈ entries) :
      ∀ k x, (es.foldl (fun m e => m.set e.id e) m).get k = some x → x ∈ entries := by
    induction es generalizing m with
    | nil => exact hm
    | cons y es ih =>
      refine ih _ (fun k x hx => ?_) fun x hx => hes x (mem_cons_of_mem _ hx)
      rw [JsMap.get_set] at hx
      split at hx
      · cases hx
        exact hes y (by simp)
      · exact hm k x hx
  exact hfold entries .empty (fun _ _ hx => by cases hx) (fun _ hx => hx) k e h

theorem pathTo_isSome_iff {leaf : SessionEntry}
    (hleaf : (indexById entries).get leaf.id = some leaf) :
    (pathTo (indexById entries) (some leaf)).isSome ↔
      ∀ e, Relation.ReflTransGen (fun x y => parentOf (indexById entries) x = some y) leaf e →
        ¬ Relation.TransGen (fun x y => parentOf (indexById entries) x = some y) e e := by
  have hends : (pathTo (indexById entries) (some leaf)).isSome ↔
      ∃ chain, Ancestry (indexById entries) (some leaf) chain := by
    rw [isSome_iff_exists]
    constructor
    · rintro ⟨path, hpath⟩
      exact ⟨path.reverse, (pathTo_eq_some_iff (indexed_indexById entries) hleaf).mp hpath⟩
    · rintro ⟨chain, hchain⟩
      exact ⟨chain.reverse, (pathTo_eq_some_iff (indexed_indexById entries) hleaf).mpr
        (by rwa [reverse_reverse])⟩
  rw [hends, exists_ancestry_iff_acc]
  refine @acc_iff_no_cycle _ (fun x y => parentOf (indexById entries) x = some y) entries
    (fun x y hxy => ?_) leaf
  obtain ⟨k, -, hk⟩ := bind_eq_some_iff.mp hxy
  exact get_indexById_mem hk

namespace SessionManager

variable {codec : LineCodec FileEntry}

theorem setSessionFile_opened (s : SessionManager) (d : Draws) (path : JsString) :
    getEntries (setSessionFile codec s d path).fileEntries = openedEntries codec d s.disk path ∧
      (setSessionFile codec s d path).byId = indexById (openedEntries codec d s.disk path) ∧
      (setSessionFile codec s d path).leafId =
        (openedEntries codec d s.disk path).getLast?.map SessionEntry.id := by
  unfold setSessionFile openedEntries
  dsimp only
  split
  · cases hload : loadEntriesFromFile codec s.disk path with
    | nil =>
      dsimp only
      unfold rewriteFile
      split <;> exact ⟨rfl, rfl, rfl⟩
    | cons first rest =>
      dsimp only
      have hindex (t : SessionManager) (entries : List FileEntry) (ht : t.fileEntries = entries) :
          getEntries t.buildIndex.fileEntries = getEntries entries ∧
            t.buildIndex.byId = indexById (getEntries entries) ∧
            t.buildIndex.leafId = (getEntries entries).getLast?.map SessionEntry.id := by
        rw [buildIndex_fileEntries, buildIndex_byId, buildIndex_leafId, ht]
        exact ⟨rfl, rfl, rfl⟩
      refine hindex _ _ ?_
      split
      · unfold rewriteFile
        split <;> rfl
      · rfl
  · rename_i hmissing
    have hload : loadEntriesFromFile codec s.disk path = [] := by
      unfold loadEntriesFromFile
      cases hdisk : s.disk path with
      | none => rfl
      | some content =>
        rw [hdisk] at hmissing
        exact absurd rfl hmissing
    rw [hload]
    exact ⟨rfl, rfl, rfl⟩

/-- Reading the opened session comes to an end: from every entry, in the current
context and over the whole tree. -/
def ReadsEnd (s : SessionManager) : Prop :=
  (∀ fromId, (s.getBranch fromId).isSome) ∧ s.buildSessionContext.isSome ∧
    ∃ fuel, (s.getTree fuel).isSome

theorem pathTo_isSome (hno : NoParentCycle entries) {leaf : SessionEntry}
    (hleaf : (indexById entries).get leaf.id = some leaf) :
    (pathTo (indexById entries) (some leaf)).isSome := by
  rw [pathTo_isSome_iff hleaf]
  intro x hreach
  refine hno x ?_
  rcases Relation.ReflTransGen.cases_tail hreach with rfl | ⟨y, -, hy⟩
  · exact get_indexById_mem hleaf
  · obtain ⟨k, -, hk⟩ := bind_eq_some_iff.mp hy
    exact get_indexById_mem hk

theorem getBranch_isSome_iff {s : SessionManager} (hbyId : s.byId = indexById entries) :
    (∀ fromId, (s.getBranch fromId).isSome) ↔ NoParentCycle entries := by
  constructor
  · intro hall e he hcycle
    -- An entry on a cycle is indexed, as it is the parent of another.
    obtain ⟨x, -, hx⟩ := Relation.TransGen.tail'_iff.mp hcycle
    obtain ⟨hparent, hget⟩ := get_parentOf (indexed_indexById entries) hx
    have hne : e.id ≠ [] := (SessionEntry.parentRef_eq_some.mp hparent).2
    have hbranch := hall (some e.id)
    rw [getBranch, hbyId, some_or, bind_some, if_neg hne, hget,
      pathTo_isSome_iff hget] at hbranch
    exact hbranch e .refl hcycle
  · intro hno fromId
    rw [getBranch, hbyId]
    cases hstart : (fromId.or s.leafId).bind fun id =>
        if id = [] then none else (indexById entries).get id with
    | none => rfl
    | some e =>
      obtain ⟨id, -, hid⟩ := bind_eq_some_iff.mp hstart
      have hget : (indexById entries).get id = some e := by
        split at hid
        · cases hid
        · exact hid
      rw [← indexed_indexById entries id e hget] at hget
      exact pathTo_isSome hno hget

theorem get_indexById_getLast {last : SessionEntry} (h : entries.getLast? = some last) :
    (indexById entries).get last.id = some last := by
  obtain ⟨before, rfl⟩ := getLast?_eq_some_iff.mp h
  rw [indexById, foldl_append, foldl_cons, foldl_nil, JsMap.get_set_self]

theorem buildSessionContext_isSome {s : SessionManager}
    (hentries : getEntries s.fileEntries = entries) (hbyId : s.byId = indexById entries)
    (hno : NoParentCycle entries) : s.buildSessionContext.isSome := by
  rw [buildSessionContext, hentries, hbyId]
  unfold AcademicAgent.buildSessionContext
  cases hleafId : s.leafId with
  | none => rfl
  | some id =>
    dsimp only
    cases hleaf : ((some (some id)).join.bind fun id =>
        if id = [] then none else (indexById entries).get id).or entries.getLast? with
    | none => rfl
    | some leaf =>
      dsimp only
      rw [isSome_map]
      refine pathTo_isSome hno ?_
      rcases or_eq_some_iff.mp hleaf with hfound | ⟨-, hlast⟩
      · obtain ⟨id', -, hid⟩ := bind_eq_some_iff.mp hfound
        split at hid
        · cases hid
        · rw [indexed_indexById entries id' leaf hid]
          exact hid
      · exact get_indexById_getLast hlast

/-- Reading an opened session file ends exactly when its entries hold no cycle of
parents and no cycle of links below a root. -/
theorem opening_ends_iff (codec : LineCodec FileEntry) (s : SessionManager) (d : Draws)
    (path : JsString) : ReadsEnd (setSessionFile codec s d path) ↔
      NoParentCycle (openedEntries codec d s.disk path) ∧
        NoTreeCycle (openedEntries codec d s.disk path) := by
  obtain ⟨hentries, hbyId, -⟩ := @setSessionFile_opened codec s d path
  have htree := getTree_terminates_iff (setSessionFile codec s d path)
  rw [hentries] at htree
  constructor
  · rintro ⟨hbranch, -, hdrains⟩
    exact ⟨(getBranch_isSome_iff hbyId).mp hbranch, htree.mp hdrains⟩
  · rintro ⟨hno, hlinks⟩
    exact ⟨(getBranch_isSome_iff hbyId).mpr hno,
      buildSessionContext_isSome hentries hbyId hno, htree.mpr hlinks⟩

def selfParentFile : Files := fun p =>
  if p = sampleFile then
    some (entryCodec.serialize [.session ⟨some 3, js "s", js "t", js "/w", none⟩,
      .entry ⟨js "p", some (js "p"), js "t", .message (.user ⟨.string (js "hi"), 0⟩)⟩])
  else none

def selfParentSession : SessionManager :=
  setSessionFile entryCodec (blank (js "/w") [] true selfParentFile) (.repeating 0x30) sampleFile

/-- The walk from an entry that is its own parent does not end. -/
theorem opening_does_not_end :
    ¬ ∀ (codec : LineCodec FileEntry) (s : SessionManager) (d : Draws) (path : JsString),
      ReadsEnd (setSessionFile codec s d path) := by
  intro hall
  have hends : (selfParentSession.getBranch none).isSome := (hall _ _ _ _).1 none
  exact absurd hends (by decide +kernel)

end SessionManager

end AcademicAgent
