import AcademicAgent.AgentHost.Session.BranchedContext
import AcademicAgent.AgentHost.Session.Termination

/-!
# Agreement of the index with the entries

Every mutating operation of the session manager updates the id index, the two label maps and
the leaf by itself.
-/

namespace AcademicAgent

open List Option

variable {known : List JsString} {e : SessionEntry} {s : SessionManager}

variable {t : SessionManager}

/-- Labels and their timestamps by the id of the entry they are on. -/
abbrev Labels := JsMap JsString JsString × JsMap JsString JsString

def indexLabel (labels : Labels) (e : SessionEntry) : Labels :=
  match e.body with
  | .label targetId (some label) =>
    if label = [] then (labels.1.delete targetId, labels.2.delete targetId)
    else (labels.1.set targetId label, labels.2.set targetId e.timestamp)
  | .label targetId none => (labels.1.delete targetId, labels.2.delete targetId)
  | _ => labels

section

variable (entries : List SessionEntry)

def labelIndex : Labels :=
  entries.foldl indexLabel (.empty, .empty)

theorem labelIndex_concat (e : SessionEntry) :
    labelIndex (entries ++ [e]) = indexLabel (labelIndex entries) e := by
  rw [labelIndex, labelIndex, foldl_append]
  rfl

theorem indexById_concat (e : SessionEntry) :
    indexById (entries ++ [e]) = (indexById entries).set e.id e := by
  rw [indexById, indexById, foldl_append]
  rfl

end

/-- Every parent is null, a known id or the id of an entry before. -/
def ParentsIn (known : List JsString) : List SessionEntry → Prop
  | [] => True
  | e :: es => (∀ p, e.parentId = some p → p ∈ known) ∧ ParentsIn (known ++ [e.id]) es

theorem parentsIn_append {xs ys : List SessionEntry} :
    ParentsIn known (xs ++ ys) ↔ ParentsIn known xs ∧ ParentsIn (known ++ ids xs) ys := by
  induction xs generalizing known with
  | nil => simp [ParentsIn, ids]
  | cons x xs ih =>
    simp only [cons_append, ParentsIn, ih, ids_cons, and_assoc, append_assoc, nil_append]

theorem ParentsIn.mem {es : List SessionEntry} (h : ParentsIn known es) (he : e ∈ es) {p : JsString}
    (hp : e.parentId = some p) : p ∈ known ∨ p ∈ ids es := by
  obtain ⟨before, after, rfl⟩ := append_of_mem he
  have hmem := (parentsIn_append.mp h).2.1 p hp
  rcases mem_append.mp hmem with hmem | hmem
  · exact .inl hmem
  · exact .inr (by rw [ids_append]; exact mem_append_left _ hmem)

/-- Entries as the program writes them: distinct ids, none empty, and every parent
null or the id of an earlier entry. -/
structure WellFormedEntries (entries : List SessionEntry) : Prop where
  distinct : (ids entries).Nodup
  parents : ParentsIn [] entries
  named : ∀ e ∈ entries, e.id ≠ []

theorem WellFormedEntries.nil : WellFormedEntries [] :=
  ⟨nodup_nil, trivial, fun _ h => by cases h⟩

theorem WellFormedEntries.concat {entries : List SessionEntry} (h : WellFormedEntries entries)
    (hnew : e.id ∉ ids entries) (hnamed : e.id ≠ [])
    (hparent : ∀ p, e.parentId = some p → p ∈ ids entries) :
    WellFormedEntries (entries ++ [e]) where
  distinct := by
    rw [ids_append, nodup_append]
    refine ⟨h.distinct, by simp [ids], ?_⟩
    rintro a ha b hb rfl
    simp only [ids, map_cons, map_nil, mem_singleton] at hb
    exact hnew (hb ▸ ha)
  parents := parentsIn_append.mpr ⟨h.parents, by simpa [ParentsIn] using hparent⟩
  named := by
    intro x hx
    rcases mem_append.mp hx with hx | hx
    · exact h.named x hx
    · rw [mem_singleton.mp hx]
      exact hnamed

namespace SessionManager

/-- The index agrees with the entries, which have distinct ids and earlier parents. -/
structure IndexAgrees (s : SessionManager) : Prop where
  distinct : (ids (getEntries s.fileEntries)).Nodup
  parents : ParentsIn [] (getEntries s.fileEntries)
  leaf : ∀ id, s.leafId = some id → id ∈ ids (getEntries s.fileEntries)
  byId : s.byId = s.buildIndex.byId
  labelsById : s.labelsById = s.buildIndex.labelsById
  labelTimestampsById : s.labelTimestampsById = s.buildIndex.labelTimestampsById

theorem indexEntry_labels (s : SessionManager) (e : SessionEntry) :
    ((s.indexEntry e).labelsById, (s.indexEntry e).labelTimestampsById) =
      indexLabel (s.labelsById, s.labelTimestampsById) e := by
  unfold indexEntry indexLabel
  cases e.body with
  | label targetId label =>
    cases label with
    | none => rfl
    | some label =>
      dsimp only
      split <;> rfl
  | _ => rfl

theorem buildIndex_labels (s : SessionManager) :
    (s.buildIndex.labelsById, s.buildIndex.labelTimestampsById) =
      labelIndex (getEntries s.fileEntries) := by
  have hfold (es : List SessionEntry) (t : SessionManager) :
      ((es.foldl indexEntry t).labelsById, (es.foldl indexEntry t).labelTimestampsById) =
        es.foldl indexLabel (t.labelsById, t.labelTimestampsById) := by
    induction es generalizing t with
    | nil => rfl
    | cons e es ih => rw [foldl_cons, ih, foldl_cons, indexEntry_labels]
  exact hfold _ _

structure Sound (s : SessionManager) : Prop where
  wellFormed : WellFormedEntries (getEntries s.fileEntries)
  leaf : ∀ id, s.leafId = some id → id ∈ ids (getEntries s.fileEntries)
  byId : s.byId = indexById (getEntries s.fileEntries)
  labels : (s.labelsById, s.labelTimestampsById) = labelIndex (getEntries s.fileEntries)

theorem Sound.indexAgrees (h : Sound s) : IndexAgrees s := by
  have hlabels := h.labels.trans s.buildIndex_labels.symm
  exact ⟨h.wellFormed.distinct, h.wellFormed.parents, h.leaf, h.byId.trans s.buildIndex_byId.symm,
    congrArg Prod.fst hlabels, congrArg Prod.snd hlabels⟩

theorem Sound.has_iff (h : Sound s) (id : JsString) :
    s.byId.has id = true ↔ id ∈ ids (getEntries s.fileEntries) := by
  rw [JsMap.has_eq_true_iff, h.byId]
  constructor
  · rintro ⟨e, he⟩
    rw [← indexed_indexById _ id e he]
    exact mem_ids (get_indexById_mem he)
  · intro hid
    obtain ⟨e, he, rfl⟩ := mem_map.mp hid
    exact ⟨e, get_indexById h.wellFormed.distinct he⟩

/-- The leaves an operation may append below: none, the current one or an indexed id. -/
def LeafOf (s : SessionManager) (leaf : Option JsString) : Prop :=
  leaf = none ∨ leaf = s.leafId ∨ ∃ id, leaf = some id ∧ s.byId.has id = true

theorem Sound.mem_of_leafOf (h : Sound s) {leaf : Option JsString} (hleaf : LeafOf s leaf) :
    ∀ id, leaf = some id → id ∈ ids (getEntries s.fileEntries) := by
  rintro id rfl
  rcases hleaf with hnone | hsame | ⟨id', hid, hhas⟩
  · cases hnone
  · exact h.leaf id hsame.symm
  · cases hid
    exact (h.has_iff id).mp hhas

/-- What an appended entry does to a manager, as far as the index goes. -/
structure Appended (s t : SessionManager) (e : SessionEntry) : Prop where
  fileEntries : getEntries t.fileEntries = getEntries s.fileEntries ++ [e]
  byId : t.byId = s.byId.set e.id e
  leafId : t.leafId = some e.id
  labels : (t.labelsById, t.labelTimestampsById) =
    indexLabel (s.labelsById, s.labelTimestampsById) e

variable {codec : LineCodec FileEntry}

theorem persistEntry_fields (s : SessionManager) (e : SessionEntry) :
    ∃ flushed disk, persistEntry codec s e = { s with flushed := flushed, disk := disk } := by
  unfold persistEntry
  split
  · split
    · exact ⟨false, s.disk, rfl⟩
    · split
      · exact ⟨true, _, rfl⟩
      · exact ⟨s.flushed, _, rfl⟩
  · exact ⟨s.flushed, s.disk, rfl⟩

theorem appended_appendEntry (s : SessionManager) (d : Draws) (leaf : Option JsString)
    (body : EntryBody) (labels : Labels)
    (hlabels : labels = indexLabel (s.labelsById, s.labelTimestampsById)
      (childEntry { s with leafId := leaf } d body)) :
    Appended s
      { appendEntry codec { s with leafId := leaf } (childEntry { s with leafId := leaf } d body)
        with labelsById := labels.1, labelTimestampsById := labels.2 }
      (childEntry { s with leafId := leaf } d body) := by
  obtain ⟨flushed, disk, hpersist⟩ := @persistEntry_fields codec
    { s with
      fileEntries := s.fileEntries ++ [.entry (childEntry { s with leafId := leaf } d body)]
      byId := s.byId.set (childEntry { s with leafId := leaf } d body).id
        (childEntry { s with leafId := leaf } d body)
      leafId := some (childEntry { s with leafId := leaf } d body).id }
    (childEntry { s with leafId := leaf } d body)
  rw [appendEntry, hpersist]
  exact ⟨by simp, rfl, rfl, hlabels⟩

theorem step_index_cases {op : SessionOp} {d : Draws}
    (hop : ∀ leafId, op ≠ .createBranchedSession leafId) (h : s.step codec (op, d) = some t) :
    (∃ leaf, LeafOf s leaf ∧ t = { s with leafId := leaf }) ∨
      ∃ leaf body, LeafOf s leaf ∧ Appended s t (childEntry { s with leafId := leaf } d body) := by
  have happend (leaf : Option JsString) (hleaf : LeafOf s leaf) (body : EntryBody)
      (hbody : ∀ targetId label, body ≠ .label targetId label)
      (ht : t = (appendBody codec { s with leafId := leaf } d body).1) :
      ∃ leaf body, LeafOf s leaf ∧ Appended s t (childEntry { s with leafId := leaf } d body) := by
    refine ⟨leaf, body, hleaf, ?_⟩
    have hsame := @appended_appendEntry codec s d leaf body
      (s.labelsById, s.labelTimestampsById) (by
        unfold indexLabel childEntry
        cases body with
        | label targetId label => exact absurd rfl (hbody targetId label)
        | _ => rfl)
    obtain ⟨flushed, disk, hpersist⟩ := @persistEntry_fields codec
      { s with
        fileEntries := s.fileEntries ++ [.entry (childEntry { s with leafId := leaf } d body)]
        byId := s.byId.set (childEntry { s with leafId := leaf } d body).id
          (childEntry { s with leafId := leaf } d body)
        leafId := some (childEntry { s with leafId := leaf } d body).id }
      (childEntry { s with leafId := leaf } d body)
    rw [ht, appendBody]
    rw [appendEntry, hpersist] at hsame ⊢
    exact hsame
  cases op with
  | appendMessage | appendThinkingLevelChange | appendModelChange | appendCompaction
  | appendCustomEntry | appendSessionInfo | appendCustomMessageEntry =>
    exact .inr (happend s.leafId (.inr (.inl rfl)) _ (by intro _ _ hbody; cases hbody)
      (some.inj h).symm)
  | appendLabelChange targetId label =>
    simp only [step, appendLabelChange, some.injEq] at h
    cases hhas : s.byId.has targetId with
    | false =>
      simp only [hhas, Bool.not_false, ite_true, afterCall] at h
      exact .inl ⟨s.leafId, .inr (.inl rfl), h.symm⟩
    | true =>
      refine .inr ⟨s.leafId, .label targetId label, .inr (.inl rfl), ?_⟩
      simp only [hhas, Bool.not_true, Bool.false_eq_true, ite_false] at h
      have hsame := @appended_appendEntry codec s d s.leafId (.label targetId label) _ rfl
      obtain ⟨flushed, disk, hpersist⟩ := @persistEntry_fields codec
        { s with
          fileEntries := s.fileEntries ++ [.entry (childEntry s d (.label targetId label))]
          byId := s.byId.set (childEntry s d (.label targetId label)).id
            (childEntry s d (.label targetId label))
          leafId := some (childEntry s d (.label targetId label)).id }
        (childEntry s d (.label targetId label))
      rw [appendEntry, hpersist] at hsame
      rw [appendBody, appendEntry, hpersist] at h
      cases label with
      | none =>
        rw [← h]
        exact hsame
      | some l =>
        by_cases hl : l = []
        · subst hl
          simp only [ite_true, afterCall] at h
          rw [← h]
          exact hsame
        · have hlabels : indexLabel (s.labelsById, s.labelTimestampsById)
              (childEntry s d (.label targetId (some l))) =
              (s.labelsById.set targetId l, s.labelTimestampsById.set targetId d.now) :=
            if_neg hl
          simp only [hl, ite_false, afterCall] at h
          rw [← h]
          rw [hlabels] at hsame
          exact hsame
  | branch id =>
    simp only [step, branch, some.injEq] at h
    cases hhas : s.byId.has id with
    | false =>
      simp only [hhas, Bool.not_false, ite_true, afterCall] at h
      exact .inl ⟨s.leafId, .inr (.inl rfl), h.symm⟩
    | true =>
      simp only [hhas, Bool.not_true, Bool.false_eq_true, ite_false, afterCall] at h
      exact .inl ⟨some id, .inr (.inr ⟨id, rfl, hhas⟩), h.symm⟩
  | resetLeaf => exact .inl ⟨none, .inl rfl, (some.inj h).symm⟩
  | branchWithSummary branchFromId summary details fromHook =>
    simp only [step, branchWithSummary, some.injEq] at h
    cases branchFromId with
    | none =>
      exact .inr (happend none (.inl rfl) _ (by intro _ _ hbody; cases hbody) h.symm)
    | some id =>
      cases hhas : s.byId.has id with
      | false =>
        simp only [hhas, Bool.not_false, ite_true, afterCall] at h
        exact .inl ⟨s.leafId, .inr (.inl rfl), h.symm⟩
      | true =>
        simp only [hhas, Bool.not_true, Bool.false_eq_true, ite_false, afterCall] at h
        exact .inr (happend (some id) (.inr (.inr ⟨id, rfl, hhas⟩)) _
          (by intro _ _ hbody; cases hbody) h.symm)
  | createBranchedSession leafId => exact absurd rfl (hop leafId)

theorem newSession_agrees_iff (s : SessionManager) (d : Draws)
    (id parentSession : Option JsString) :
    IndexAgrees (s.newSession d id parentSession) ↔ s.labelTimestampsById = .empty := by
  have hlabels := (s.newSession d id parentSession).buildIndex_labels
  have hbyId := (s.newSession d id parentSession).buildIndex_byId
  constructor
  · intro h
    exact h.labelTimestampsById.trans (congrArg Prod.snd hlabels)
  · intro hempty
    exact ⟨nodup_nil, trivial, fun _ hid => (by cases hid), hbyId.symm,
      (congrArg Prod.fst hlabels).symm, hempty.trans (congrArg Prod.snd hlabels).symm⟩

theorem sound_newSession (d : Draws) (id parentSession : Option JsString)
    (h : s.labelTimestampsById = .empty) : Sound (s.newSession d id parentSession) where
  wellFormed := .nil
  leaf := fun _ hid => by cases hid
  byId := rfl
  labels := congrArg (Prod.mk _) h

section

variable {s : SessionManager} {d : Draws} {path : JsString}

theorem setSessionFile_of_loaded (h : loadEntriesFromFile codec s.disk path ≠ []) :
    ((setSessionFile codec s d path).labelsById,
      (setSessionFile codec s d path).labelTimestampsById) =
      labelIndex (openedEntries codec d s.disk path) := by
  have hdisk : (s.disk path).isSome := by
    unfold loadEntriesFromFile at h
    cases hcontent : s.disk path with
    | none =>
      rw [hcontent] at h
      exact absurd rfl h
    | some content => rfl
  unfold setSessionFile openedEntries
  rw [if_pos hdisk]
  cases hload : loadEntriesFromFile codec s.disk path with
  | nil => exact absurd hload h
  | cons first rest =>
    have hindex (t : SessionManager) (entries : List FileEntry) (ht : t.fileEntries = entries) :
        (t.buildIndex.labelsById, t.buildIndex.labelTimestampsById) =
          labelIndex (getEntries entries) := by
      rw [buildIndex_labels, ht]
    refine hindex _ _ ?_
    split
    · unfold rewriteFile
      split <;> rfl
    · rfl

theorem setSessionFile_of_not_loaded (h : loadEntriesFromFile codec s.disk path = []) :
    (setSessionFile codec s d path).labelsById = .empty ∧
      (setSessionFile codec s d path).labelTimestampsById = s.labelTimestampsById := by
  unfold setSessionFile
  dsimp only
  split
  · rw [h]
    dsimp only
    unfold rewriteFile
    split <;> exact ⟨rfl, rfl⟩
  · exact ⟨rfl, rfl⟩

theorem sound_setSessionFile (hwell : WellFormedEntries (openedEntries codec d s.disk path))
    (h : loadEntriesFromFile codec s.disk path = [] → s.labelTimestampsById = .empty) :
    Sound (setSessionFile codec s d path) := by
  obtain ⟨hentries, hbyId, hleaf⟩ := @setSessionFile_opened codec s d path
  refine ⟨hentries ▸ hwell, fun id hid => ?_, hentries ▸ hbyId, ?_⟩
  · rw [hleaf, map_eq_some_iff] at hid
    obtain ⟨last, hlast, rfl⟩ := hid
    rw [hentries]
    exact mem_ids (mem_of_getLast? hlast)
  · rw [hentries]
    by_cases hload : loadEntriesFromFile codec s.disk path = []
    · obtain ⟨hlabels, htimes⟩ := setSessionFile_of_not_loaded (d := d) hload
      have hopened : openedEntries codec d s.disk path = [] := by rw [openedEntries, hload]
      rw [hlabels, htimes, h hload, hopened]
      rfl
    · exact setSessionFile_of_loaded hload

theorem IndexAgrees.of_setSessionFile (h : IndexAgrees (setSessionFile codec s d path))
    (hload : loadEntriesFromFile codec s.disk path = []) : s.labelTimestampsById = .empty := by
  obtain ⟨hentries, -, -⟩ := @setSessionFile_opened codec s d path
  have hopened : openedEntries codec d s.disk path = [] := by rw [openedEntries, hload]
  have hlabels := buildIndex_labels (setSessionFile codec s d path)
  rw [hentries, hopened] at hlabels
  rw [← (setSessionFile_of_not_loaded (d := d) hload).2, h.labelTimestampsById]
  exact congrArg Prod.snd hlabels

end

theorem parentsIn_labelEntries {uuid : Nat → Nat → Uuid} {k : Nat} {taken : List JsString}
    {parentId : Option JsString} {ls : List (JsString × JsString × JsString)}
    (hparent : ∀ p, parentId = some p → p ∈ known) :
    ParentsIn known (labelEntries uuid k taken parentId ls) := by
  induction ls generalizing k taken known parentId with
  | nil => trivial
  | cons l ls ih =>
    refine ⟨hparent, ih fun p hp => ?_⟩
    cases hp
    simp

theorem parentsIn_of_segment {byId : EntryMap} (hidx : Indexed byId) {es : List SessionEntry}
    (hseg : Segment byId es.reverse none)
    (hparent : ∀ e ∈ es, ∀ p, e.parentId = some p → ∃ x, parentOf byId e = some x) :
    ParentsIn [] es := by
  induction es using reverseRecOn with
  | nil => trivial
  | append_singleton es e ih =>
    rw [reverse_append, reverse_singleton, singleton_append] at hseg
    refine parentsIn_append.mpr ⟨ih hseg.2 fun x hx => hparent x (mem_append_left _ hx), ?_⟩
    refine ⟨fun p hp => ?_, trivial⟩
    obtain ⟨x, hx⟩ := hparent e (by simp) p hp
    have hlast := hseg.1
    rw [hx, head?_reverse, or_none] at hlast
    obtain ⟨href, -⟩ := get_parentOf hidx hx
    have hpx : p = x.id :=
      some.inj (hp.symm.trans (SessionEntry.parentRef_eq_some.mp href).1)
    rw [nil_append, hpx]
    exact mem_ids (mem_of_getLast? hlast.symm)

theorem switchToBranch_labels (s : SessionManager) (d : Draws) (path : List SessionEntry) :
    ((switchToBranch codec s d path).labelsById,
      (switchToBranch codec s d path).labelTimestampsById) =
      labelIndex (s.branchedEntries d path) := by
  have hindex (t : SessionManager) (hentries : t.fileEntries =
      .session (s.branchedHeader d) :: (s.branchedEntries d path).map .entry) :
      (t.buildIndex.labelsById, t.buildIndex.labelTimestampsById) =
        labelIndex (s.branchedEntries d path) := by
    rw [buildIndex_labels, hentries, getEntries_session, getEntries_map_entry]
  unfold switchToBranch
  dsimp only
  split
  · split
    · unfold rewriteFile
      split
      all_goals exact hindex _ rfl
    · exact hindex _ rfl
  · exact hindex _ rfl

section Branch

variable {s : SessionManager} {d : Draws} {leafId : JsString} {path : List SessionEntry}

theorem Sound.exists_parentOf (h : Sound s) (he : e ∈ getEntries s.fileEntries) {p : JsString}
    (hp : e.parentId = some p) : ∃ x, parentOf s.byId e = some x := by
  have hmem : p ∈ ids (getEntries s.fileEntries) :=
    (h.wellFormed.parents.mem he hp).resolve_left (by simp)
  obtain ⟨x, hx, rfl⟩ := mem_map.mp hmem
  have href := SessionEntry.parentRef_eq_some.mpr ⟨hp, h.wellFormed.named x hx⟩
  exact ⟨x, by rw [parentOf, href, bind_some, h.byId,
    get_indexById h.wellFormed.distinct hx]⟩

theorem Sound.path_cases (h : Sound s) (hpath : s.getBranch (some leafId) = some path)
    (hne : path ≠ []) : Indexed s.byId ∧ (∀ e ∈ path, s.byId.get e.id = some e) ∧ (ids path).Nodup ∧
      ∃ leaf, Ancestry s.byId (some leaf) path.reverse := by
  have hidx : Indexed s.byId := by
    rw [h.byId]
    exact indexed_indexById _
  obtain ⟨leaf, -, hleafId, hleaf, hchain⟩ := getBranch_eq_some hidx hpath hne
  have hcur : ∀ e, some leaf = some e → s.byId.get e.id = some e := by
    rintro e ⟨⟩
    rw [hleafId]
    exact hleaf
  refine ⟨hidx, fun e he => hchain.get_id hidx hcur e (mem_reverse.mpr he), ?_, leaf, hchain⟩
  have hnodup := hchain.nodup_ids hidx hcur
  rwa [map_reverse, nodup_reverse] at hnodup

theorem Sound.branchedEntries (h : Sound s) (hfresh : d.Fresh s)
    (hpath : s.getBranch (some leafId) = some path) (hne : path ≠ []) :
    (cutOff path = [] → WellFormedEntries (s.branchedEntries d path)) ∧
      (ParentsIn [] (s.branchedEntries d path) → cutOff path = []) := by
  obtain ⟨hidx, hget, hnodup, leaf, hchain⟩ := h.path_cases hpath hne
  have hmem : ∀ e ∈ path, e ∈ getEntries s.fileEntries := by
    intro e he
    have hfound := hget e he
    rw [h.byId] at hfound
    exact get_indexById_mem hfound
  constructor
  · intro hcut
    have hkept : path.filter (fun e => !e.isLabel) = keptSuffix path := by
      rw [filter_label, hcut]
      rfl
    have hkeptMem : ∀ e ∈ keptSuffix path, e ∈ path := by
      intro e he
      rw [← hkept] at he
      exact mem_of_mem_filter he
    refine ⟨nodup_ids_branchedEntries hfresh hnodup hget, ?_, ?_⟩
    · rw [branchedEntries_eq, parentsIn_append]
      constructor
      · rw [hkept]
        have hseg := segment_keptSuffix hchain
        rw [hcut] at hseg
        exact parentsIn_of_segment hidx hseg fun e he p hp =>
          h.exists_parentOf (hmem e (hkeptMem e he)) hp
      · refine parentsIn_labelEntries fun p hp => ?_
        unfold lastId at hp
        cases hlast : (path.filter fun e => !e.isLabel).getLast? with
        | none =>
          rw [hlast] at hp
          cases hp
        | some last =>
          rw [hlast] at hp
          dsimp only at hp
          split at hp
          · cases hp
          · cases hp
            exact mem_ids (mem_of_getLast? hlast)
    · intro e he
      rw [branchedEntries_eq] at he
      rcases mem_append.mp he with he | he
      · exact h.wellFormed.named e (hmem e (mem_of_mem_filter he))
      · exact id_ne_nil_of_mem_labelEntries e he
  · intro hparents
    by_contra hcut
    have hkept : keptSuffix path ≠ [] := fun hnil => hcut (cutOff_eq_nil_of_keptSuffix hnil)
    obtain ⟨oldest, rest, hsplit⟩ := exists_cons_of_ne_nil hkept
    obtain ⟨label, hlabel⟩ := isSome_iff_exists.mp (getLast?_isSome.mpr hcut)
    -- The oldest entry kept hangs below the last label that is cut off.
    have hparent : parentOf s.byId oldest = some label := by
      have hlast := (segment_keptSuffix hchain).parentOf_getLast (e := oldest)
        (by rw [getLast?_reverse, hsplit]; rfl)
      rw [hlast, hlabel]
    have hid : oldest.parentId = some label.id :=
      (SessionEntry.parentRef_eq_some.mp (get_parentOf hidx hparent).1).1
    rw [branchedEntries_eq, filter_label, hsplit, append_assoc] at hparents
    have hbefore : label.id ∈ ids ((cutOff path).filter fun e => !e.isLabel) := by
      simpa using (parentsIn_append.mp hparents).2.1 label.id hid
    obtain ⟨y, hy, hyid⟩ := mem_map.mp hbefore
    obtain ⟨hycut, hyplain⟩ := mem_filter.mp hy
    have hinPath : ∀ e ∈ cutOff path, e ∈ path := by
      intro e he
      rw [← cutOff_append path]
      exact mem_append_left _ (mem_append_left _ he)
    have hfoundY := hget y (hinPath y hycut)
    have hfoundLabel := hget label (hinPath label (mem_of_getLast? hlabel))
    rw [hyid, hfoundLabel] at hfoundY
    cases hfoundY
    rw [isLabel_of_getLast_cutOff hlabel] at hyplain
    cases hyplain

end Branch

/-- A call, a new session, another file, or a change that others make to the files. -/
inductive SessionAction where
  | call (op : SessionOp)
  | newSession (id parentSession : Option JsString)
  | setSessionFile (path : JsString)
  | files (disk : Files)

section

variable (codec : LineCodec FileEntry) (s : SessionManager)

/-- The state after an action with the draws it makes. -/
def act :
    SessionAction × Draws → Option SessionManager
  | (.call op, d) => s.step codec (op, d)
  | (.newSession id parentSession, d) => some (s.newSession d id parentSession)
  | (.setSessionFile path, d) => some (setSessionFile codec s d path)
  | (.files disk, _) => some { s with disk }

/-- Fallback ids are new, as `randomUUID()` promises, and opened files hold well-formed
sessions. -/
def Sensible : SessionAction × Draws → Prop
  | (.call (.createBranchedSession _), d) => d.Fresh s
  | (.call _, d) => s.byId.has (d.uuid 0 100).text = false
  | (.setSessionFile path, d) => WellFormedEntries (openedEntries codec d s.disk path)
  | _ => True

/-- No label timestamps are left when a session starts, and no entry of a branched path
hangs below a label. -/
def KeepsIndex : SessionAction × Draws → Prop
  | (.call (.createBranchedSession leafId), _) =>
    ∀ path, s.getBranch (some leafId) = some path → cutOff path = []
  | (.newSession _ _, _) => s.labelTimestampsById = .empty
  | (.setSessionFile path, _) =>
    loadEntriesFromFile codec s.disk path = [] → s.labelTimestampsById = .empty
  | _ => True

end

theorem Sound.appended (h : Sound s) (ht : Appended s t e)
    (hnew : e.id ∉ ids (getEntries s.fileEntries)) (hnamed : e.id ≠ [])
    (hparent : ∀ p, e.parentId = some p → p ∈ ids (getEntries s.fileEntries)) : Sound t where
  wellFormed := by
    rw [ht.fileEntries]
    exact h.wellFormed.concat hnew hnamed hparent
  leaf := by
    intro id hid
    rw [ht.leafId] at hid
    cases hid
    rw [ht.fileEntries]
    exact mem_ids (by simp)
  byId := by rw [ht.byId, h.byId, ht.fileEntries, indexById_concat]
  labels := by rw [ht.labels, h.labels, ht.fileEntries, labelIndex_concat]

theorem Sound.call {op : SessionOp} {d : Draws} (h : Sound s)
    (hop : ∀ leafId, op ≠ .createBranchedSession leafId)
    (hfresh : s.byId.has (d.uuid 0 100).text = false) (ht : s.step codec (op, d) = some t) :
    Sound t := by
  rcases step_index_cases hop ht with ⟨leaf, hleaf, rfl⟩ | ⟨leaf, body, hleaf, happended⟩
  · exact ⟨h.wellFormed, h.mem_of_leafOf hleaf, h.byId, h.labels⟩
  · refine h.appended happended ?_ (generateId_ne_nil _ _) (h.mem_of_leafOf hleaf)
    intro hmem
    have hnew := has_generateId (d.uuid 0) s.byId.has hfresh
    have hhas : s.byId.has (generateId (d.uuid 0) s.byId.has) = true := (h.has_iff _).mpr hmem
    rw [hnew] at hhas
    cases hhas

theorem Sound.switchToBranch {s : SessionManager} {d : Draws} {leafId : JsString}
    {path : List SessionEntry} (h : Sound s) (hfresh : d.Fresh s)
    (hpath : s.getBranch (some leafId) = some path) (hne : path ≠ []) :
    (cutOff path = [] → Sound (switchToBranch codec s d path)) ∧
      (IndexAgrees (switchToBranch codec s d path) → cutOff path = []) := by
  obtain ⟨hentries, hbyId, hleaf⟩ := @switchToBranch_eq codec s d path
  have hbranched := h.branchedEntries hfresh hpath hne
  constructor
  · intro hcut
    refine ⟨hentries ▸ hbranched.1 hcut, fun id hid => ?_, hentries ▸ hbyId, ?_⟩
    · rw [hleaf, map_eq_some_iff] at hid
      obtain ⟨last, hlast, rfl⟩ := hid
      rw [hentries]
      exact mem_ids (mem_of_getLast? hlast)
    · rw [hentries]
      exact switchToBranch_labels s d path
  · intro hagrees
    have hparents := hagrees.parents
    rw [hentries] at hparents
    exact hbranched.2 hparents

theorem Sound.act {i : SessionAction × Draws} (h : Sound s) (hi : Sensible codec s i)
    (ht : s.act codec i = some t) :
    (KeepsIndex codec s i → Sound t) ∧ (IndexAgrees t → KeepsIndex codec s i) := by
  obtain ⟨action, d⟩ := i
  cases action with
  | call op =>
    by_cases hop : ∃ leafId, op = .createBranchedSession leafId
    · obtain ⟨leafId, rfl⟩ := hop
      have hcall : (s.createBranchedSession codec d leafId).map (afterCall s Prod.fst) = some t :=
        ht
      rw [createBranchedSession, Option.map_map, Option.map_eq_some_iff] at hcall
      obtain ⟨path, hpath, htpath⟩ := hcall
      by_cases hne : path = []
      · simp only [Function.comp_apply, hne, if_true, afterCall] at htpath
        subst htpath
        refine ⟨fun _ => h, fun _ path' hpath' => ?_⟩
        rw [hpath, hne] at hpath'
        cases hpath'
        rfl
      · simp only [Function.comp_apply, hne, if_false, afterCall] at htpath
        subst htpath
        obtain ⟨hkeeps, honly⟩ := @Sound.switchToBranch codec s d leafId path h hi hpath hne
        refine ⟨fun hcut => hkeeps (hcut path hpath), fun hagrees path' hpath' => ?_⟩
        rw [hpath] at hpath'
        cases hpath'
        exact honly hagrees
    · have hother : ∀ leafId, op ≠ .createBranchedSession leafId :=
        fun leafId hleafId => hop ⟨leafId, hleafId⟩
      have hfresh : s.byId.has (d.uuid 0 100).text = false := by
        cases op with
        | createBranchedSession leafId => exact absurd rfl (hother leafId)
        | _ => exact hi
      refine ⟨fun _ => h.call hother hfresh ht, fun _ => ?_⟩
      cases op with
      | createBranchedSession leafId => exact absurd rfl (hother leafId)
      | _ => trivial
  | newSession id parentSession =>
    cases ht
    exact ⟨sound_newSession d id parentSession, (newSession_agrees_iff s d id parentSession).mp⟩
  | setSessionFile path =>
    cases ht
    exact ⟨sound_setSessionFile hi, fun hagrees hload => hagrees.of_setSessionFile hload⟩
  | files disk =>
    cases ht
    exact ⟨fun _ => ⟨h.wellFormed, h.leaf, h.byId, h.labels⟩, fun _ => trivial⟩

theorem sound_make {d : Draws} {cwd sessionDir : JsString} {sessionFile : Option JsString}
    {persist : Bool} {disk : Files} (hstart : ∀ path, sessionFile = some path →
      WellFormedEntries (openedEntries codec d disk path)) :
    Sound (make codec d cwd sessionDir sessionFile persist disk) := by
  cases sessionFile with
  | none => exact sound_newSession d none none rfl
  | some path => exact sound_setSessionFile (hstart path rfl) fun _ => rfl

/-- In every run that starts no session over left label timestamps and branches no path
on which an entry hangs below a label, the index agrees with the entries. -/
theorem index_agrees (codec : LineCodec FileEntry) (d : Draws) (cwd sessionDir : JsString)
    (sessionFile : Option JsString) (persist : Bool) (disk : Files)
    (hstart : ∀ path, sessionFile = some path → WellFormedEntries (openedEntries codec d disk path))
    (actions : List (SessionAction × Draws)) (t : SessionManager)
    (hsteps : Along (act codec) (fun s i => Sensible codec s i ∧ KeepsIndex codec s i)
      (make codec d cwd sessionDir sessionFile persist disk) actions)
    (hrun : run (act codec) (make codec d cwd sessionDir sessionFile persist disk) actions =
      some t) : IndexAgrees t :=
  (run_invariant (fun _ _ _ hs hp ht => (Sound.act hs hp.1 ht).1 hp.2) (sound_make hstart) hsteps
    hrun).indexAgrees

def labelledPrompt : List (SessionAction × Draws) :=
  [(.call samplePrompt, .repeating 0x31), (.call sampleLabel, .repeating 0x32)]

def restarted : List (SessionAction × Draws) :=
  labelledPrompt ++ [(.newSession none none, .repeating 0x33)]

theorem sensible_restarted : Along (act entryCodec) (Sensible entryCodec)
    (make entryCodec (.repeating 0x30) (js "/w") [] none false fun _ => none) restarted := by
  refine ⟨show JsMap.has _ _ = false by decide, fun t ht => ?_⟩
  cases ht
  refine ⟨show JsMap.has _ _ = false by decide, fun t ht => ?_⟩
  cases ht
  exact ⟨trivial, fun _ _ => trivial⟩

/-- A new session keeps the label timestamps of the one before. -/
theorem index_disagrees : ¬ ∀ (codec : LineCodec FileEntry) (d : Draws) (cwd sessionDir : JsString)
      (sessionFile : Option JsString) (persist : Bool) (disk : Files),
      (∀ path, sessionFile = some path → WellFormedEntries (openedEntries codec d disk path)) →
      ∀ (actions : List (SessionAction × Draws)) (t : SessionManager),
        Along (act codec) (Sensible codec)
          (make codec d cwd sessionDir sessionFile persist disk) actions →
        run (act codec) (make codec d cwd sessionDir sessionFile persist disk) actions = some t →
          IndexAgrees t := by
  intro hall
  have hrun : ∃ t, run (act entryCodec)
      (make entryCodec (.repeating 0x30) (js "/w") [] none false fun _ => none) restarted =
        some t ∧ t.labelTimestampsById.entries ≠ t.buildIndex.labelTimestampsById.entries :=
    ⟨_, rfl, by decide⟩
  obtain ⟨t, hrun, hdiffers⟩ := hrun
  have hagrees := hall entryCodec (.repeating 0x30) (js "/w") [] none false (fun _ => none)
    (fun _ h => by cases h) restarted t sensible_restarted hrun
  exact hdiffers (congrArg JsMap.entries hagrees.labelTimestampsById)

/-- A labelled prompt is in agreement. -/
theorem index_agrees_labelled : ∃ t, run (act entryCodec)
    (make entryCodec (.repeating 0x30) (js "/w") [] none false fun _ => none) labelledPrompt =
      some t ∧ IndexAgrees t := by
  refine ⟨_, rfl, index_agrees entryCodec (.repeating 0x30) (js "/w") [] none false (fun _ => none)
    (fun _ h => by cases h) labelledPrompt _ ?_ rfl⟩
  refine ⟨⟨show JsMap.has _ _ = false by decide, trivial⟩, fun t ht => ?_⟩
  cases ht
  exact ⟨⟨show JsMap.has _ _ = false by decide, trivial⟩, fun _ _ => trivial⟩

end SessionManager

end AcademicAgent
