import AcademicAgent.AgentHost.Session.Branching
import AcademicAgent.AgentHost.Session.EntryCodec
import AcademicAgent.Core.Run

/-!
# The walk in a branched session

The leaf of a branched session is the last label it recreated, and the walk from there goes
through these labels and the entries that were kept to an entry whose parent is gone.
-/

namespace AcademicAgent

open List Option

variable {path : List SessionEntry} {s : SessionManager}

/-- Every fallback id that recreating the labels may draw is new, as `randomUUID()`
promises. -/
structure Draws.Fresh (d : Draws) (s : SessionManager) : Prop where
  unused : ∀ k < s.labelsById.entries.length, s.byId.has (d.uuid k 100).text = false
  distinct : ∀ j < s.labelsById.entries.length, ∀ k < s.labelsById.entries.length,
    (d.uuid j 100).text = (d.uuid k 100).text → j = k

namespace SessionManager

section

variable {uuid : Nat → Nat → Uuid} {k : Nat} {taken : List JsString} {parentId : Option JsString}
  {ls : List (JsString × JsString × JsString)}

theorem isLabel_of_mem_labelEntries :
    ∀ e ∈ labelEntries uuid k taken parentId ls, e.isLabel = true := by
  induction ls generalizing k taken parentId with
  | nil => simp [labelEntries]
  | cons l ls ih =>
    intro e he
    rw [labelEntries] at he
    rcases mem_cons.mp he with rfl | he
    · rfl
    · exact ih e he

theorem id_ne_nil_of_mem_labelEntries : ∀ e ∈ labelEntries uuid k taken parentId ls, e.id ≠ [] := by
  induction ls generalizing k taken parentId with
  | nil => simp [labelEntries]
  | cons l ls ih =>
    intro e he
    rw [labelEntries] at he
    rcases mem_cons.mp he with rfl | he
    · exact generateId_ne_nil (uuid k) fun i => decide (i ∈ taken)
    · exact ih e he

theorem nodup_ids_labelEntries (hdistinct : ∀ i < k + ls.length, ∀ j < k + ls.length,
      (uuid i 100).text = (uuid j 100).text → i = j)
    (hunused : ∀ j, k ≤ j → j < k + ls.length → (uuid j 100).text ∉ taken) (htaken : taken.Nodup) :
    (taken ++ ids (labelEntries uuid k taken parentId ls)).Nodup := by
  induction ls generalizing k taken parentId with
  | nil => simpa [labelEntries] using htaken
  | cons l ls ih =>
    rw [labelEntries, ids_cons]
    have hlen : k + 1 + ls.length = k + (l :: ls).length := by
      rw [length_cons]
      omega
    have hk : k < k + (l :: ls).length := by simp
    have hnew : generateId (uuid k) (fun i => decide (i ∈ taken)) ∉ taken := by
      simpa using has_generateId (uuid k) (fun i => decide (i ∈ taken))
        (by simpa using hunused k le_rfl hk)
    have htaken' : (taken ++ [generateId (uuid k) fun i => decide (i ∈ taken)]).Nodup := by
      rw [nodup_append]
      refine ⟨htaken, by simp, ?_⟩
      intro a ha b hb hab
      rw [mem_singleton] at hb
      exact hnew (hb ▸ hab ▸ ha)
    have hunused' : ∀ j, k + 1 ≤ j → j < k + 1 + ls.length →
        (uuid j 100).text ∉ taken ++ [generateId (uuid k) fun i => decide (i ∈ taken)] := by
      intro j hj hjlen hmem
      rw [hlen] at hjlen
      rcases mem_append.mp hmem with hmem | hmem
      · exact hunused j (Nat.le_of_succ_le hj) hjlen hmem
      · rw [mem_singleton] at hmem
        rcases length_generateId (uuid k) (fun i => decide (i ∈ taken)) with hlen | heq
        · have := (uuid j 100).length_text
          rw [hmem] at this
          omega
        · have := hdistinct j hjlen k hk (hmem.trans heq)
          omega
    simpa using ih (hlen ▸ hdistinct) hunused' htaken'

end

theorem segment_labelEntries {byId : EntryMap} {uuid : Nat → Nat → Uuid} {k : Nat}
    {taken : List JsString} {parentId : Option JsString} {next : Option SessionEntry}
    {ls : List (JsString × JsString × JsString)}
    (hget : ∀ e ∈ labelEntries uuid k taken parentId ls, byId.get e.id = some e)
    (hnext : ∀ e : SessionEntry, e.parentId = parentId → parentOf byId e = next) :
    Segment byId (labelEntries uuid k taken parentId ls).reverse next := by
  induction ls generalizing k taken parentId next with
  | nil => trivial
  | cons l ls ih =>
    rw [labelEntries] at hget ⊢
    rw [reverse_cons]
    refine Segment.append (ih (fun e he => hget e (mem_cons_of_mem _ he)) ?_) ⟨hnext _ rfl, trivial⟩
    intro e he
    have href := SessionEntry.parentRef_eq_some.mpr ⟨he, generateId_ne_nil _ _⟩
    rw [parentOf, href, bind_some, hget _ mem_cons_self]
    rfl

section

variable (s : SessionManager) (d : Draws) (path : List SessionEntry)

def recreatedLabels : List SessionEntry :=
  labelEntries d.uuid 0 ((path.filter fun e => !e.isLabel).map SessionEntry.id)
    (lastId (path.filter fun e => !e.isLabel))
    (s.labelsToWrite (path.filter fun e => !e.isLabel))

theorem branchedEntries_eq : s.branchedEntries d path =
      (path.filter fun e => !e.isLabel) ++ s.recreatedLabels d path := rfl

/-- The parent of the oldest entry kept does not come back as a recreated label. -/
def ParentGone : Prop :=
  ∀ e p, (keptSuffix path).head? = some e → e.parentRef = some p →
    p ∉ ids (s.recreatedLabels d path)

end

theorem branchedEntries_eq_nil (s : SessionManager) (d : Draws) (h : keptSuffix path = []) :
    s.branchedEntries d path = [] := by
  have hfilter : path.filter (fun e => !e.isLabel) = [] := by
    rw [filter_label, cutOff_eq_nil_of_keptSuffix h, h]
    rfl
  rw [branchedEntries_eq, recreatedLabels, hfilter]
  simp [labelsToWrite, labelEntries]

theorem getBranch_eq_some (hidx : Indexed s.byId) {leafId : JsString}
    (hpath : s.getBranch (some leafId) = some path) (hne : path ≠ []) :
    ∃ leaf, leafId ≠ [] ∧ leaf.id = leafId ∧ s.byId.get leafId = some leaf ∧
      Ancestry s.byId (some leaf) path.reverse := by
  rw [getBranch, some_or, bind_some] at hpath
  split at hpath
  · rw [pathTo, walk] at hpath
    exact absurd (some.inj hpath).symm hne
  · rename_i hleafId
    cases hleaf : s.byId.get leafId with
    | none =>
      rw [hleaf, pathTo, walk] at hpath
      exact absurd (some.inj hpath).symm hne
    | some leaf =>
      have hid := hidx leafId leaf hleaf
      refine ⟨leaf, hleafId, hid, rfl, ?_⟩
      rw [hleaf] at hpath
      exact (pathTo_eq_some_iff hidx (hid ▸ hleaf)).mp hpath

theorem createBranchedSession_of_getBranch {codec : LineCodec FileEntry} {s : SessionManager}
    {d : Draws} {leafId : JsString} {path : List SessionEntry}
    (hpath : s.getBranch (some leafId) = some path) (hne : path ≠ []) :
    s.createBranchedSession codec d leafId = some (.ok (switchToBranch codec s d path,
      if s.persist then some (s.sessionPath d.now d.sessionId) else none)) := by
  rw [createBranchedSession, hpath, map_some, if_neg hne]

theorem buildSessionContext_of_getBranch (hidx : Indexed s.byId) {leafId : JsString}
    (hpath : s.getBranch (some leafId) = some path) (hne : path ≠ []) :
    AcademicAgent.buildSessionContext (getEntries s.fileEntries) (some (some leafId)) s.byId =
      some (pathContext path) := by
  obtain ⟨leaf, hleafId, _, hleaf, _⟩ := getBranch_eq_some hidx hpath hne
  rw [getBranch, some_or, bind_some, if_neg hleafId, hleaf] at hpath
  simp only [AcademicAgent.buildSessionContext, join_some, bind_some,
    if_neg hleafId, hleaf, some_or, hpath, map_some]

theorem nodup_ids_branchedEntries {d : Draws} (hfresh : d.Fresh s) (hids : (ids path).Nodup)
    (hget : ∀ e ∈ path, s.byId.get e.id = some e) : (ids (s.branchedEntries d path)).Nodup := by
  have hlen : (s.labelsToWrite (path.filter fun e => !e.isLabel)).length ≤
      s.labelsById.entries.length := by
    rw [labelsToWrite, length_map]
    exact length_filter_le _ _
  rw [branchedEntries_eq, ids_append]
  refine nodup_ids_labelEntries (fun i hi j hj => hfresh.distinct i (by omega) j (by omega)) ?_
    (hids.sublist (filter_sublist.map _))
  intro j _ hj hmem
  obtain ⟨e, he, heq⟩ := mem_map.mp hmem
  have hnone := (JsMap.has_eq_false_iff _ _).mp (hfresh.unused j (by omega))
  rw [← heq, hget e (mem_of_mem_filter he)] at hnone
  contradiction

theorem buildSessionContext_getLast {entries : List SessionEntry} {leaf : SessionEntry}
    (hlast : entries.getLast? = some leaf) (hid : leaf.id ≠ [])
    (hget : (indexById entries).get leaf.id = some leaf) :
    AcademicAgent.buildSessionContext entries (some (entries.getLast?.map SessionEntry.id))
        (indexById entries) =
      (pathTo (indexById entries) (some leaf)).map pathContext := by
  simp only [hlast, map_some, AcademicAgent.buildSessionContext, join_some,
    bind_some, if_neg hid, hget, some_or]

section Branched

variable {s : SessionManager} {d : Draws} {path : List SessionEntry} {leaf : SessionEntry}

theorem segment_keptSuffix (hchain : Ancestry s.byId (some leaf) path.reverse) :
    Segment s.byId (keptSuffix path).reverse (cutOff path).getLast? := by
  have hsplit : path.reverse = ((trailingLabels path).reverse ++ (keptSuffix path).reverse) ++
      (cutOff path).reverse := by
    conv_lhs => rw [← cutOff_append path]
    simp
  rw [hsplit] at hchain
  simpa using hchain.segment.1.right

theorem parentOf_oldest (hchain : Ancestry s.byId (some leaf) path.reverse)
    (hget : ∀ e ∈ path, s.byId.get e.id = some e) {oldest p : SessionEntry}
    (holdest : (keptSuffix path).head? = some oldest)
    (hp : parentOf (indexById (s.branchedEntries d path)) oldest = some p) :
    oldest.parentRef = some p.id ∧ p.id ∈ ids (s.recreatedLabels d path) := by
  obtain ⟨href, hpget⟩ := get_parentOf (indexed_indexById _) hp
  refine ⟨href, ?_⟩
  have hmem : p.id ∈ ids (s.branchedEntries d path) := by
    by_contra hno
    rw [get_indexById_of_notMem hno] at hpget
    contradiction
  rw [branchedEntries_eq, ids_append] at hmem
  refine (mem_append.mp hmem).resolve_left ?_
  intro hin
  -- Its parent on the old path is what was cut off last, a label.
  obtain ⟨y, hy, hyid⟩ := mem_map.mp hin
  obtain ⟨hypath, hylabel⟩ := mem_filter.mp hy
  have hparent : parentOf s.byId oldest = some y := by
    rw [parentOf, href, bind_some, ← hyid, hget y hypath]
  have hlast := (segment_keptSuffix hchain).parentOf_getLast (by rw [getLast?_reverse, holdest])
  rw [isLabel_of_getLast_cutOff (hlast.symm.trans hparent)] at hylabel
  contradiction

theorem segment_branched (hidx : Indexed s.byId) (hchain : Ancestry s.byId (some leaf) path.reverse)
    (hnodup : (ids (s.branchedEntries d path)).Nodup) {last : SessionEntry}
    (hlast : (keptSuffix path).getLast? = some last) (hid : last.id ≠ []) :
    Segment (indexById (s.branchedEntries d path))
      ((s.recreatedLabels d path).reverse ++ (keptSuffix path).reverse)
      ((keptSuffix path).head?.bind (parentOf (indexById (s.branchedEntries d path)))) := by
  have hget : ∀ e ∈ s.branchedEntries d path,
      (indexById (s.branchedEntries d path)).get e.id = some e :=
    fun e he => get_indexById hnodup he
  have hlastPath : (path.filter fun e => !e.isLabel).getLast? = some last := by
    rw [filter_label, getLast?_append, hlast, some_or]
  have hkept : ∀ e ∈ keptSuffix path, e ∈ s.branchedEntries d path := by
    intro e he
    rw [branchedEntries_eq, filter_label]
    exact mem_append_left _ (mem_append_right _ he)
  have hmemLast : last ∈ s.branchedEntries d path :=
    hkept last (mem_of_getLast? hlast)
  refine Segment.append ?_ ?_
  · refine segment_labelEntries (fun e he => hget e (mem_append_right _ he)) ?_
    intro e he
    rw [lastId, hlastPath] at he
    simp only [if_neg hid] at he
    have href := SessionEntry.parentRef_eq_some.mpr ⟨he, hid⟩
    rw [parentOf, href, bind_some, hget last hmemLast, head?_reverse, hlast, some_or]
  · rw [← getLast?_reverse]
    exact (segment_keptSuffix hchain).transfer hidx fun e he => hget e (hkept e (mem_reverse.mp he))

theorem getLast?_branchedEntries {last : SessionEntry}
    (hlast : (keptSuffix path).getLast? = some last) : (s.branchedEntries d path).getLast? =
      ((s.recreatedLabels d path).reverse ++ (keptSuffix path).reverse).head? := by
  rw [branchedEntries_eq, getLast?_append, filter_label, getLast?_append, hlast,
    head?_append, head?_reverse, head?_reverse, hlast, some_or]

theorem pathTo_branched (hidx : Indexed s.byId) (hchain : Ancestry s.byId (some leaf) path.reverse)
    (hget : ∀ e ∈ path, s.byId.get e.id = some e) (hne : ∀ e ∈ path, e.id ≠ [])
    (hnodup : (ids (s.branchedEntries d path)).Nodup) (hkept : keptSuffix path ≠ [])
    {newLeaf : SessionEntry} (hleaf : (s.branchedEntries d path).getLast? = some newLeaf) :
    s.ParentGone d path ∧ pathTo (indexById (s.branchedEntries d path)) (some newLeaf) =
        some (keptSuffix path ++ s.recreatedLabels d path) ∨
      ¬ s.ParentGone d path ∧
        pathTo (indexById (s.branchedEntries d path)) (some newLeaf) = none := by
  obtain ⟨last, hlast⟩ := isSome_iff_exists.mp (getLast?_isSome.mpr hkept)
  obtain ⟨oldest, holdest⟩ := isSome_iff_exists.mp (isSome_head?.mpr hkept)
  have hlastPath : last ∈ path := by
    rw [← cutOff_append path]
    exact mem_append_left _ (mem_append_right _ (mem_of_getLast? hlast))
  have hseg := segment_branched hidx hchain hnodup hlast (hne last hlastPath)
  have hhead := (getLast?_branchedEntries hlast).symm.trans hleaf
  have hpathTo (p : List SessionEntry) :=
    @pathTo_eq_some_iff _ _ p (indexed_indexById _) (get_indexById hnodup (mem_of_getLast? hleaf))
  have hwalk := fun chain => @Segment.ancestry_iff _ _ _ hseg chain
  rw [hhead, some_or] at hwalk
  cases hparent : parentOf (indexById (s.branchedEntries d path)) oldest with
  | none =>
    refine Or.inl ⟨?_, ?_⟩
    · intro e p he hp hmem
      cases some.inj (holdest.symm.trans he)
      obtain ⟨x, hx, rfl⟩ := mem_map.mp hmem
      have hxget := get_indexById hnodup (mem_append_right _ hx)
      rw [parentOf, hp, bind_some, hxget] at hparent
      contradiction
    · rw [hpathTo, hwalk]
      refine ⟨[], by simp, ?_⟩
      rw [holdest, bind_some, hparent]
      exact .root
  | some p =>
    obtain ⟨href, hmem⟩ := parentOf_oldest hchain hget holdest hparent
    refine Or.inr ⟨fun hgone => hgone oldest p.id holdest href hmem, ?_⟩
    -- The walk would visit the label twice.
    rw [eq_none_iff_forall_ne_some]
    intro found hfound
    have hancestry := (hpathTo found).mp hfound
    obtain ⟨rest, hrest, htail⟩ := (hwalk found.reverse).mp hancestry
    rw [holdest, bind_some, hparent] at htail
    have hvisited := hancestry.nodup
    obtain ⟨x, hx, hxid⟩ := mem_map.mp hmem
    have hxp : x = p := by
      have hxget := get_indexById hnodup (mem_append_right _ hx)
      rw [hxid, (get_parentOf (indexed_indexById _) hparent).2] at hxget
      exact (some.inj hxget).symm
    rw [hrest] at hvisited
    refine (nodup_append.mp hvisited).2.2 x ?_ p ?_ hxp
    · exact mem_append_left _ (mem_reverse.mpr hx)
    · cases htail with
      | child _ _ => exact mem_cons_self

end Branched

/-- Whatever the manager, the branch and the draws, the new session has the old
context exactly when what was cut off contributes nothing to it and the parent
of the oldest entry kept does not come back as a recreated label. -/
theorem createBranchedSession_keeps_context_iff {codec : LineCodec FileEntry}
    {s t : SessionManager} (hs : IsReachable codec s) {d : Draws} (hfresh : d.Fresh s)
    {leafId : JsString} {path : List SessionEntry} {file : Option JsString}
    (hpath : s.getBranch (some leafId) = some path)
    (hcall : s.createBranchedSession codec d leafId = some (.ok (t, file))) :
    t.buildSessionContext =
        AcademicAgent.buildSessionContext (getEntries s.fileEntries) (some (some leafId)) s.byId ↔
      ContextKept (cutOff path) (keptSuffix path) ∧ s.ParentGone d path := by
  have hidx := hs.indexed
  have hne : path ≠ [] := by
    rintro rfl
    rw [createBranchedSession, hpath, Option.map_some, if_pos rfl] at hcall
    exact absurd (Option.some.inj hcall) (by simp)
  rw [createBranchedSession_of_getBranch hpath hne, Option.some.injEq, Except.ok.injEq,
    Prod.mk.injEq] at hcall
  obtain ⟨rfl, _⟩ := hcall
  obtain ⟨hentries, hbyId, hleafId⟩ := @switchToBranch_eq codec s d path
  rw [buildSessionContext, hentries, hbyId, hleafId,
    buildSessionContext_of_getBranch hidx hpath hne]
  obtain ⟨leaf, hleafNe, rfl, hleaf, hchain⟩ := getBranch_eq_some hidx hpath hne
  have hcur (e : SessionEntry) (he : some leaf = some e) : s.byId.get e.id = some e := by
    cases he
    exact hleaf
  have hget : ∀ e ∈ path, s.byId.get e.id = some e := fun e he =>
    hchain.get_id hidx hcur e (mem_reverse.mpr he)
  have hidNe : ∀ e ∈ path, e.id ≠ [] := fun e he =>
    hchain.id_ne_nil hidx (fun e he => by cases he; exact hleafNe) e (mem_reverse.mpr he)
  have hids : (ids path).Nodup := by
    have := hchain.nodup_ids hidx hcur
    rwa [map_reverse, nodup_reverse] at this
  have hold : pathContext path = pathContext (cutOff path ++ keptSuffix path) := by
    conv_lhs => rw [← cutOff_append path]
    refine pathContext_append_labels ?_ isLabel_of_mem_trailingLabels
    rw [← cutOff_append path, ids_append] at hids
    exact (nodup_append.mp hids).1
  rw [hold]
  by_cases hkept : keptSuffix path = []
  · have hcut := cutOff_eq_nil_of_keptSuffix hkept
    have hgone : s.ParentGone d path := by
      intro e p he
      rw [hkept] at he
      contradiction
    rw [branchedEntries_eq_nil s d hkept, hcut, hkept, ← pathContext_append_eq_iff (by simp)]
    exact ⟨fun _ => ⟨rfl, hgone⟩, fun _ => rfl⟩
  · have hnodup := nodup_ids_branchedEntries hfresh hids hget
    have hcutKept : (ids (cutOff path ++ keptSuffix path)).Nodup := by
      rw [← cutOff_append path, ids_append] at hids
      exact (nodup_append.mp hids).1
    have hkeptNodup : (ids (keptSuffix path)).Nodup := by
      rw [ids_append] at hcutKept
      exact (nodup_append.mp hcutKept).2.1
    obtain ⟨last, hlast⟩ := Option.isSome_iff_exists.mp (getLast?_isSome.mpr hkept)
    obtain ⟨newLeaf, hnewLeaf⟩ : ∃ e, (s.branchedEntries d path).getLast? = some e := by
      rw [branchedEntries_eq, getLast?_append, filter_label, getLast?_append, hlast]
      cases (s.recreatedLabels d path).getLast? with
      | none => exact ⟨_, rfl⟩
      | some e => exact ⟨e, rfl⟩
    have hmemLeaf := mem_of_getLast? hnewLeaf
    have hleafId : newLeaf.id ≠ [] := by
      rw [branchedEntries_eq] at hmemLeaf
      rcases mem_append.mp hmemLeaf with hmem | hmem
      · exact hidNe newLeaf (mem_of_mem_filter hmem)
      · exact id_ne_nil_of_mem_labelEntries newLeaf hmem
    rw [buildSessionContext_getLast hnewLeaf hleafId (get_indexById hnodup hmemLeaf),
      ← pathContext_append_eq_iff hcutKept]
    rcases pathTo_branched hidx hchain hget hidNe hnodup hkept hnewLeaf with
      ⟨hgone, hwalk⟩ | ⟨hgone, hwalk⟩
    · rw [hwalk, Option.map_some, Option.some.injEq,
        @pathContext_append_labels _ (s.recreatedLabels d path) hkeptNodup
          isLabel_of_mem_labelEntries]
      exact ⟨fun h => ⟨h.symm, hgone⟩, fun h => h.1.symm⟩
    · rw [hwalk, Option.map_none]
      exact ⟨fun h => absurd h (by simp), fun h => absurd h.2 hgone⟩

/-- A session in memory after some calls, each with ids of its own. -/
def sampleSession (ops : List SessionOp) : SessionManager :=
  let start := inMemory entryCodec (.repeating 0x30) (js "/w") fun _ => none
  (run (step entryCodec) start
    (ops.zipIdx.map fun p => (p.1, .repeating (UInt16.ofNat (0x31 + p.2))))).getD start

theorem isReachable_sampleSession (ops : List SessionOp) :
    IsReachable entryCodec (sampleSession ops) := by
  unfold sampleSession
  dsimp only
  have hstart : IsReachable entryCodec
      (inMemory entryCodec (.repeating 0x30) (js "/w") fun _ => none) := .make _ _ _ _ _ _
  cases hrun : run (step entryCodec) _ _ with
  | none => exact hstart
  | some t => exact Reachable.invariant (fun _ i _ hs ht => .step i hs ht) hstart ⟨_, hrun⟩

/-- A prompt, the first entry of a sample session. -/
def samplePrompt : SessionOp := .appendMessage (.user ⟨.string (js "hi"), 0⟩)

def sampleLabel : SessionOp := .appendLabelChange (replicate 8 0x31) (some (js "x"))

def sampleAnswer : SessionOp :=
  .appendMessage (.assistant ⟨[.text ⟨js "hello", none⟩], js "api", js "provider", js "model",
    none, none, none, EMPTY_USAGE, .stop, none, 0⟩)

/-- The path that branching the third entry of a sample session takes. -/
def samplePath (ops : List SessionOp) : List SessionEntry :=
  ((sampleSession ops).getBranch (some (replicate 8 0x33))).getD []

/-- Branching the answer to a labelled prompt forgets the prompt. -/
theorem createBranchedSession_forgets_prompt :
    ¬ ∀ (codec : LineCodec FileEntry) (s t : SessionManager) (d : Draws) (leafId : JsString)
      (file : Option JsString), IsReachable codec s → d.Fresh s →
        s.createBranchedSession codec d leafId = some (.ok (t, file)) →
          t.buildSessionContext = AcademicAgent.buildSessionContext (getEntries s.fileEntries)
            (some (some leafId)) s.byId := by
  intro hall
  let s := sampleSession [samplePrompt, sampleLabel, sampleAnswer]
  let d := Draws.repeating 0x41
  let leafId : JsString := replicate 8 0x33
  have hfresh : d.Fresh s := ⟨by decide, by decide⟩
  have hpath : s.getBranch (some leafId) =
      some (samplePath [samplePrompt, sampleLabel, sampleAnswer]) := by decide
  have hcall := @createBranchedSession_of_getBranch entryCodec _ d _ _ hpath (by decide)
  have hsame := hall _ s _ d leafId _ (isReachable_sampleSession _) hfresh hcall
  exact absurd hsame (by decide)

/-- Branching the label on an answered prompt keeps both messages. -/
theorem createBranchedSession_keeps_context_iff_answered :
    ∃ t file, (sampleSession [samplePrompt, sampleAnswer, sampleLabel]).createBranchedSession
        entryCodec (.repeating 0x41) (replicate 8 0x33) = some (.ok (t, file)) ∧
      (t.buildSessionContext = AcademicAgent.buildSessionContext
          (getEntries (sampleSession [samplePrompt, sampleAnswer, sampleLabel]).fileEntries)
          (some (some (replicate 8 0x33)))
          (sampleSession [samplePrompt, sampleAnswer, sampleLabel]).byId ↔
        ContextKept (cutOff (samplePath [samplePrompt, sampleAnswer, sampleLabel]))
            (keptSuffix (samplePath [samplePrompt, sampleAnswer, sampleLabel])) ∧
          (sampleSession [samplePrompt, sampleAnswer, sampleLabel]).ParentGone
            (.repeating 0x41) (samplePath [samplePrompt, sampleAnswer, sampleLabel])) := by
  have hpath : (sampleSession [samplePrompt, sampleAnswer, sampleLabel]).getBranch
      (some (replicate 8 0x33)) =
        some (samplePath [samplePrompt, sampleAnswer, sampleLabel]) := by decide
  have hcall := @createBranchedSession_of_getBranch entryCodec _
    (.repeating 0x41) _ _ hpath (by decide)
  exact ⟨_, _, hcall, createBranchedSession_keeps_context_iff (isReachable_sampleSession _)
    ⟨by decide, by decide⟩ hpath hcall⟩

end SessionManager

end AcademicAgent
