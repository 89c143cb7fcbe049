import AcademicAgent.AgentHost.Compaction.Prepare
import AcademicAgent.AgentHost.Session.Index
import AcademicAgent.AgentHost.Session.PathContext

/-!
# What a compaction summarizes and what it keeps

The messages in force before a compaction are those it summarizes followed by
those the context still has after the new summary.
-/

namespace AcademicAgent

open List Option

open SessionEntry (isCompaction)

variable {path : List SessionEntry}

/-- A path from a root to a leaf: the ids are distinct, each entry is the child
of the one before it, and the first one has no parent on the path. -/
structure RootPath (path : List SessionEntry) : Prop where
  nodup : (ids path).Nodup
  linked : path.IsChain fun p e => e.parentRef = some p.id
  root : ∀ e p, path.head? = some e → e.parentRef = some p → p ∉ ids path

theorem segment_of_isChain {byId : EntryMap} (h : path.IsChain fun p e => e.parentRef = some p.id)
    (hget : ∀ e ∈ path, byId.get e.id = some e) :
    Segment byId path.reverse (path.head?.bind (parentOf byId)) := by
  induction path with
  | nil => trivial
  | cons e es ih =>
    rw [reverse_cons]
    refine Segment.append ?_ ⟨rfl, trivial⟩
    cases es with
    | nil => trivial
    | cons x es =>
      rw [isChain_cons_cons] at h
      have hseg := ih h.2 fun y hy => hget y (mem_cons_of_mem _ hy)
      have hparent : parentOf byId x = some e := by
        rw [parentOf, h.1, bind_some, hget e mem_cons_self]
      simpa only [head?_cons, bind_some, hparent, some_or] using hseg

theorem RootPath.buildSessionContext {path : List SessionEntry} (h : RootPath path) :
    buildSessionContext path = some (pathContext path) := by
  have hget : ∀ e ∈ path, (indexById path).get e.id = some e :=
    fun e he => get_indexById h.nodup he
  have hroot : path.head?.bind (parentOf (indexById path)) = none := by
    cases hhead : path.head? with
    | none => rfl
    | some e =>
      rw [bind_some, parentOf]
      cases href : e.parentRef with
      | none => rfl
      | some p => exact get_indexById_of_notMem (h.root e p hhead href)
  have hseg := segment_of_isChain h.linked hget
  rw [hroot] at hseg
  have hleaf : AcademicAgent.buildSessionContext path =
      path.getLast?.elim (some emptyContext) fun leaf =>
        (pathTo (indexById path) (some leaf)).map pathContext := by
    unfold AcademicAgent.buildSessionContext
    cases path.getLast? <;> rfl
  rw [hleaf]
  cases hlast : path.getLast? with
  | none =>
    rw [getLast?_eq_none_iff] at hlast
    subst hlast
    rfl
  | some leaf =>
    have hancestry := (@Segment.ancestry_iff _ _ _ hseg path.reverse).mpr ⟨[], by simp, .root⟩
    rw [head?_reverse, hlast, some_or] at hancestry
    have hwalk := (pathTo_eq_some_iff (indexed_indexById path)
      (hget leaf (mem_of_getLast? hlast))).mpr hancestry
    simp only [elim_some, hwalk, map_some]

theorem findIdx?_id {xs ys : List SessionEntry} {e : SessionEntry} (h : e.id ∉ ids xs) :
    (xs ++ e :: ys).findIdx? (fun x => decide (x.id = e.id)) = some xs.length := by
  rw [findIdx?_append, findIdx?_eq_none_iff.mpr, findIdx?_cons]
  · simp
  · intro x hx
    have hne : x.id ≠ e.id := fun heq => h (heq ▸ mem_ids hx)
    simp [hne]

theorem findIdx?_id_of_notMem {k : JsString} (h : k ∉ ids path) :
    path.findIdx? (fun x => decide (x.id = k)) = none := by
  rw [findIdx?_eq_none_iff]
  intro x hx
  have hne : x.id ≠ k := fun heq => h (heq ▸ mem_ids hx)
  simp [hne]

theorem prevCompactionIndex_of_none (h : ∀ e ∈ path, e.isCompaction = false) :
    prevCompactionIndex path = none := by
  rw [prevCompactionIndex, findIdx?_eq_none_iff.mpr, map_none]
  intro e he
  rw [h e (mem_reverse.mp he)]

section

variable {before after : List SessionEntry} {c : SessionEntry}

theorem prevCompactionIndex_append
    (hc : c.isCompaction = true) (hafter : ∀ e ∈ after, e.isCompaction = false) :
    prevCompactionIndex (before ++ c :: after) = some before.length := by
  have hidx : (before ++ c :: after).reverse.findIdx? isCompaction = some after.length := by
    rw [reverse_append, reverse_cons, append_assoc, findIdx?_append,
      findIdx?_eq_none_iff.mpr, singleton_append, findIdx?_cons, hc]
    · simp
    · intro e he
      rw [hafter e (mem_reverse.mp he)]
  rw [prevCompactionIndex, hidx, map_some]
  simp only [length_append, length_cons, some.injEq]
  omega

/-- The messages of a context without the summary it starts with. -/
def withoutSummary (path : List SessionEntry) (messages : List AgentMessage) : List AgentMessage :=
  if path.any isCompaction then messages.tail else messages

/-- No entry after the latest compaction is the first one it keeps. -/
def KeepsEarlier (path : List SessionEntry) : Prop :=
  match (getLatestCompactionEntry path).map SessionEntry.body with
  | some (.compaction _ firstKeptEntryId _ _ _ _) =>
    firstKeptEntryId ∉ ids (path.reverse.takeWhile fun e => !e.isCompaction)
  | _ => True

theorem KeepsEarlier.notMem
    {summary firstKept : JsString} {tokensBefore : Nat} {details : Option Json}
    {fromHook : Option Bool} {index : Option Nat} (h : KeepsEarlier (before ++ c :: after))
    (hbody : c.body = .compaction summary firstKept tokensBefore details fromHook index)
    (hafter : ∀ e ∈ after, e.isCompaction = false) : firstKept ∉ ids after := by
  have hc : c.isCompaction = true := SessionEntry.isCompaction_iff.mpr ⟨_, _, _, _, _, _, hbody⟩
  have htake : (before ++ c :: after).reverse.takeWhile (fun e => !e.isCompaction) =
      after.reverse := by
    rw [reverse_append, reverse_cons, append_assoc, takeWhile_append_of_pos]
    · simp [hc]
    · intro e he
      simp [hafter e (mem_reverse.mp he)]
  simp only [KeepsEarlier, getLatestCompactionEntry_append hc hafter, map_some, hbody,
    htake] at h
  intro hmem
  obtain ⟨e, he, rfl⟩ := mem_map.mp hmem
  exact h (mem_ids (mem_reverse.mpr he))

end

theorem appendMessages_drop_boundaryStart (hnodup : (ids path).Nodup) (hearlier : KeepsEarlier path)
    :
    appendMessages (path.drop (boundaryStart path)) = withoutSummary path (pathMessages path) := by
  rcases compaction_cases path with hnone | ⟨before, c, after, rfl, hc, hafter⟩
  · have hany : path.any isCompaction = false := by
      simpa using hnone
    rw [boundaryStart, prevCompactionIndex_of_none hnone, withoutSummary, hany,
      pathMessages_of_no_compaction hnone]
    rfl
  · obtain ⟨summary, firstKept, tokensBefore, details, fromHook, index, hbody⟩ :=
      SessionEntry.isCompaction_iff.mp hc
    have hids : c.id ∉ ids before := by
      intro hmem
      rw [ids_append, ids_cons] at hnodup
      exact (nodup_append.mp hnodup).2.2 _ hmem _ mem_cons_self rfl
    have hany : (before ++ c :: after).any isCompaction = true := by
      simp [hc]
    have hcompaction : (before ++ c :: after)[before.length]? = some c := by simp
    have hsilent := appendMessage_of_isCompaction hc
    have hboundary : boundaryStart (before ++ c :: after) =
        ((before ++ c :: after).findIdx? fun entry => decide (entry.id = firstKept)).getD
          (before.length + 1) := by
      simp only [boundaryStart, prevCompactionIndex_append hc hafter, hcompaction,
        map_some, hbody]
    rw [hboundary, withoutSummary, if_pos hany, pathMessages_of_compaction hids hbody hafter,
      tail_cons]
    by_cases hmem : firstKept ∈ ids before
    · obtain ⟨e, he, rfl⟩ := mem_map.mp hmem
      obtain ⟨xs, ys, rfl⟩ := append_of_mem he
      have hxs : e.id ∉ ids xs := by
        intro hin
        rw [append_assoc, ids_append, cons_append, ids_cons] at hnodup
        exact (nodup_append.mp hnodup).2.2 _ hin _ mem_cons_self rfl
      rw [append_assoc, cons_append, findIdx?_id hxs, getD_some,
        drop_left, keptEntries_split hxs, ← cons_append, appendMessages_append,
        appendMessages_cons c, hsilent]
      rfl
    · rw [keptEntries_of_notMem hmem]
      by_cases hself : firstKept = c.id
      · subst hself
        rw [findIdx?_id hids, getD_some, drop_left, appendMessages_cons, hsilent]
        rfl
      · have hnot : firstKept ∉ ids (before ++ c :: after) := by
          rw [ids_append, ids_cons, mem_append, mem_cons, not_or, not_or]
          exact ⟨hmem, hself, hearlier.notMem hbody hafter⟩
        rw [findIdx?_id_of_notMem hnot, getD_none, ← drop_drop, drop_left]
        rfl

theorem previousSummary_eq (path : List SessionEntry) :
    previousSummary path = (getLatestCompactionEntry path).bind fun c =>
      match c.body with
      | .compaction summary _ _ _ _ _ => some summary
      | _ => none := by
  rcases compaction_cases path with hnone | ⟨before, c, after, rfl, hc, hafter⟩
  · rw [previousSummary, prevCompactionIndex_of_none hnone, getLatestCompactionEntry_eq_none hnone]
    rfl
  · obtain ⟨_, _, _, _, _, _, hbody⟩ := SessionEntry.isCompaction_iff.mp hc
    have hcompaction : (before ++ c :: after)[before.length]? = some c := by simp
    rw [previousSummary, prevCompactionIndex_append hc hafter,
      getLatestCompactionEntry_append hc hafter, bind_some, bind_some, hcompaction,
      map_some, hbody]

/-- A message that is not a branch summary with empty text. -/
def AgentMessage.hasText : AgentMessage → Bool
  | .branchSummary m => decide (m.summary ≠ [])
  | _ => true

theorem filter_hasText_filterMap (es : List SessionEntry) :
    (es.filterMap getMessageFromEntryForCompaction).filter AgentMessage.hasText =
      (appendMessages es).filter AgentMessage.hasText := by
  rw [appendMessages, filter_filterMap, filter_filterMap]
  refine congrArg (es.filterMap ·) (funext fun e => ?_)
  unfold getMessageFromEntryForCompaction getMessageFromEntry appendMessage isCompaction
  cases e.body with
  | branchSummary fromId summary details fromHook =>
    by_cases h : summary = []
    · simp [h, filter, AgentMessage.hasText, createBranchSummaryMessage]
    · simp [h]
  | _ => rfl

theorem messagesForCompaction_append {a b c : Nat} (hab : a ≤ b) (hbc : b ≤ c) :
    messagesForCompaction path a b ++ messagesForCompaction path b c =
      messagesForCompaction path a c := by
  rw [messagesForCompaction, messagesForCompaction, messagesForCompaction, ← filterMap_append]
  refine congrArg (filterMap _) ?_
  have hsplit : path.take c = path.take b ++ (path.take c).drop b := by
    conv_lhs => rw [← take_append_drop b (path.take c)]
    rw [take_take, Nat.min_eq_left hbc]
  conv_rhs => rw [hsplit]
  by_cases hlen : a ≤ (path.take b).length
  · rw [drop_append_of_le_length hlen]
  · have hnil : (path.take c).drop b = [] := by
      rw [drop_eq_nil_iff]
      rw [length_take] at hlen ⊢
      omega
    rw [hnil, append_nil, append_nil]

section

variable {path : List SessionEntry} {settings : CompactionSettings}

theorem preparationAt_spec
    {tokensBefore : Nat} {keepRecentTokens : Rat} {prep : CompactionPreparation}
    (h : preparationAt path settings tokensBefore
      (findCutPoint path (boundaryStart path) path.length keepRecentTokens) = some prep) :
    ∃ j firstKept, boundaryStart path ≤ j ∧ path[j]? = some firstKept ∧
      prep.firstKeptEntryId = firstKept.id ∧
      prep.messagesToSummarize ++ prep.turnPrefixMessages =
        messagesForCompaction path (boundaryStart path) j ∧
      prep.previousSummary = previousSummary path := by
  obtain ⟨hlow, hturn⟩ := findCutPoint_bounds
    (rfl : findCutPoint path (boundaryStart path) path.length keepRecentTokens = _)
  generalize findCutPoint path (boundaryStart path) path.length keepRecentTokens = cut at h hlow hturn
  unfold preparationAt at h
  split at h
  · contradiction
  · rename_i firstKeptId hid
    split at h
    · contradiction
    · cases h
      obtain ⟨firstKept, hget, rfl⟩ := map_eq_some_iff.mp hid
      refine ⟨cut.firstKeptEntryIndex, firstKept, hlow, hget, rfl, ?_, rfl⟩
      cases hsplit : cut.isSplitTurn with
      | true =>
        obtain ⟨t, ht, htlow, hthigh⟩ := hturn hsplit
        simp only [ht, ite_true, getD_some]
        exact messagesForCompaction_append htlow hthigh
      | false =>
        simp only [Bool.false_eq_true, ite_false, append_nil]

/-- Compaction loses and repeats nothing: branch summaries with empty text apart,
the messages in force before it are those it summarizes, those of the turn it
splits and those the context has after the new summary. -/
theorem prepareCompaction_partition
    {prep : CompactionPreparation} {compaction : SessionEntry} {summary : JsString}
    {tokensBefore : Nat} {details : Option Json} {fromHook : Option Bool} {index : Option Nat}
    (hprep : prepareCompaction path settings = some (some prep)) (hpath : RootPath path)
    (hearlier : KeepsEarlier path) (hnew : RootPath (path ++ [compaction]))
    (hbody : compaction.body =
      .compaction summary prep.firstKeptEntryId tokensBefore details fromHook index) :
    ∃ before after, buildSessionContext path = some before ∧
      buildSessionContext (path ++ [compaction]) = some after ∧
      (∃ kept, after.messages =
          createCompactionSummaryMessage summary tokensBefore compaction.timestamp :: kept ∧
        (withoutSummary path before.messages).filter AgentMessage.hasText =
          (prep.messagesToSummarize ++ prep.turnPrefixMessages ++ kept).filter
            AgentMessage.hasText) ∧
      prep.previousSummary = (getLatestCompactionEntry path).bind fun c =>
        match c.body with
        | .compaction summary _ _ _ _ _ => some summary
        | _ => none := by
  have hcontext := hpath.buildSessionContext
  have hcontext' := hnew.buildSessionContext
  unfold prepareCompaction at hprep
  split at hprep
  · exact absurd (Option.some.inj hprep) (by simp)
  · rw [hcontext, Option.map_some, Option.some.injEq] at hprep
    obtain ⟨j, firstKept, hlow, hget, hid, hsummarized, hprevious⟩ := preparationAt_spec hprep
    refine ⟨_, _, hcontext, hcontext', ⟨appendMessages (path.drop j), ?_, ?_⟩, ?_⟩
    · have hfresh : compaction.id ∉ ids path := by
        intro hmem
        have hnodup := hnew.nodup
        rw [ids_append] at hnodup
        exact (nodup_append.mp hnodup).2.2 _ hmem _ (by simp) rfl
      have hsplit : path = path.take j ++ firstKept :: path.drop (j + 1) := by
        obtain ⟨hlt, rfl⟩ := List.getElem?_eq_some_iff.mp hget
        rw [getElem_cons_drop, take_append_drop]
      have hnodup := hpath.nodup
      have hnotMem : firstKept.id ∉ ids (path.take j) := by
        intro hmem
        rw [hsplit, ids_append, ids_cons] at hnodup
        exact (nodup_append.mp hnodup).2.2 _ hmem _ mem_cons_self rfl
      have hkept : keptEntries firstKept.id path = path.drop j := by
        obtain ⟨hlt, heq⟩ := List.getElem?_eq_some_iff.mp hget
        have hdrop : path.drop j = firstKept :: path.drop (j + 1) := by
          rw [← heq, getElem_cons_drop]
        rw [hdrop]
        conv_lhs => rw [hsplit]
        exact keptEntries_split hnotMem
      change pathMessages (path ++ [compaction]) = _
      rw [pathMessages_of_compaction hfresh hbody (by simp), hid, hkept, appendMessages_nil,
        append_nil]
    · change (withoutSummary path (pathMessages path)).filter AgentMessage.hasText = _
      rw [← appendMessages_drop_boundaryStart hpath.nodup hearlier, hsummarized,
        filter_append, messagesForCompaction, filter_hasText_filterMap, ← filter_append,
        ← appendMessages_append]
      refine congrArg (fun es => (appendMessages es).filter AgentMessage.hasText) ?_
      obtain ⟨hlt, _⟩ := List.getElem?_eq_some_iff.mp hget
      generalize boundaryStart path = b at hlow ⊢
      conv_lhs => rw [← take_append_drop j path]
      exact drop_append_of_le_length (by rw [length_take]; omega)
    · rw [hprevious, previousSummary_eq]

end

/-- An entry of a sample path, below the entry with the previous id. -/
def sampleEntry (n : Nat) (body : EntryBody) : SessionEntry where
  id := decimalText (n + 1)
  parentId := if n = 0 then none else some (decimalText n)
  timestamp := js "t"
  body := body

section

variable (bodies : List EntryBody)

def pathOf : List SessionEntry :=
  bodies.zipIdx.map fun b => sampleEntry b.2 b.1

def prompt (text : String) : EntryBody := .message (.user ⟨.string (js text), 0⟩)

def answer (text : String) : EntryBody :=
  .message (.assistant ⟨[.text ⟨js text, none⟩], js "api", js "provider", js "model", none, none,
    none, EMPTY_USAGE, .stop, none, 0⟩)

def compactionOf (summary firstKept : String) : EntryBody :=
  .compaction (js summary) (js firstKept) 0 none none none

/-- Settings that keep a message of four characters. -/
def keepOne : CompactionSettings := ⟨true, 0, 1⟩

theorem rootPath_pathOf (hnodup : (ids (pathOf bodies)).Nodup)
    (hlinked : (pathOf bodies).IsChain fun p e => e.parentRef = some p.id) :
    RootPath (pathOf bodies) := by
  refine ⟨hnodup, hlinked, ?_⟩
  intro e p he hp
  cases bodies with
  | nil => contradiction
  | cons body bodies =>
    cases he
    contradiction

theorem pathOf_concat (body : EntryBody) :
    pathOf (bodies ++ [body]) = pathOf bodies ++ [sampleEntry bodies.length body] := by
  simp [pathOf, zipIdx_append]

def newCompaction (prep : CompactionPreparation) : EntryBody :=
  .compaction (js "new") prep.firstKeptEntryId prep.tokensBefore none none none

def compactedPath (prep : CompactionPreparation) : List SessionEntry :=
  pathOf bodies ++ [sampleEntry bodies.length (newCompaction prep)]

end

theorem rootPath_compactedPath {bodies : List EntryBody} {prep : CompactionPreparation}
    (hnodup : (ids (compactedPath bodies prep)).Nodup)
    (hlinked : (compactedPath bodies prep).IsChain fun p e => e.parentRef = some p.id) :
    RootPath (compactedPath bodies prep) := by
  rw [compactedPath, ← pathOf_concat] at *
  exact rootPath_pathOf _ hnodup hlinked

/-- A branch summary without text before two prompts. -/
def emptySummaryBodies : List EntryBody :=
  [.branchSummary (js "root") [] none none, prompt "aaaa", prompt "bbbb"]

def laterKeptBodies : List EntryBody :=
  [prompt "aaaa", compactionOf "s" "4", prompt "bbbb", prompt "cccc"]

/-- A turn that a compaction kept in part, and another turn. -/
def keptTurnBodies : List EntryBody :=
  [prompt "aaaa", answer "bbbb", compactionOf "s" "2", prompt "cccc", answer "dddd"]

def preparationOf (bodies : List EntryBody) : Option CompactionPreparation :=
  (prepareCompaction (pathOf bodies) keepOne).join

/-- A branch summary without text is summarized although no context shows it, and a
compaction that names a later entry hides the messages in between from both. -/
theorem compaction_partition_fails : (∃ prep before after, RootPath (pathOf emptySummaryBodies) ∧
      RootPath (compactedPath emptySummaryBodies prep) ∧
      prepareCompaction (pathOf emptySummaryBodies) keepOne = some (some prep) ∧
      buildSessionContext (pathOf emptySummaryBodies) = some before ∧
      buildSessionContext (compactedPath emptySummaryBodies prep) = some after ∧
      (withoutSummary (pathOf emptySummaryBodies) before.messages).filter AgentMessage.hasText ≠
        prep.messagesToSummarize ++ prep.turnPrefixMessages ++ after.messages.tail) ∧
    ∃ prep before after, RootPath (pathOf laterKeptBodies) ∧
      RootPath (compactedPath laterKeptBodies prep) ∧
      prepareCompaction (pathOf laterKeptBodies) keepOne = some (some prep) ∧
      buildSessionContext (pathOf laterKeptBodies) = some before ∧
      buildSessionContext (compactedPath laterKeptBodies prep) = some after ∧
      (withoutSummary (pathOf laterKeptBodies) before.messages).filter AgentMessage.hasText ≠
        (prep.messagesToSummarize ++ prep.turnPrefixMessages ++ after.messages.tail).filter
          AgentMessage.hasText := by
  constructor
  · have hpath := rootPath_pathOf emptySummaryBodies (by decide) (by decide)
    have hnew : RootPath (compactedPath emptySummaryBodies
        ((preparationOf emptySummaryBodies).get (by decide))) :=
      rootPath_compactedPath (by decide) (by decide)
    exact ⟨(preparationOf emptySummaryBodies).get (by decide), _, _, hpath, hnew,
      by decide, hpath.buildSessionContext, hnew.buildSessionContext, by decide⟩
  · have hpath := rootPath_pathOf laterKeptBodies (by decide) (by decide)
    have hnew : RootPath (compactedPath laterKeptBodies
        ((preparationOf laterKeptBodies).get (by decide))) :=
      rootPath_compactedPath (by decide) (by decide)
    exact ⟨(preparationOf laterKeptBodies).get (by decide), _, _, hpath, hnew,
      by decide, hpath.buildSessionContext, hnew.buildSessionContext, by decide⟩

/-- A compaction that splits the turn after an earlier compaction. -/
theorem prepareCompaction_partition_split :
    ∃ prep before after, prepareCompaction (pathOf keptTurnBodies) keepOne = some (some prep) ∧
      prep.isSplitTurn = true ∧ buildSessionContext (pathOf keptTurnBodies) = some before ∧
      buildSessionContext (compactedPath keptTurnBodies prep) = some after ∧
      (∃ kept, after.messages = createCompactionSummaryMessage (js "new") prep.tokensBefore
          (js "t") :: kept ∧
        (withoutSummary (pathOf keptTurnBodies) before.messages).filter AgentMessage.hasText =
          (prep.messagesToSummarize ++ prep.turnPrefixMessages ++ kept).filter
            AgentMessage.hasText) ∧
      prep.previousSummary = some (js "s") := by
  have hpath := rootPath_pathOf keptTurnBodies (by decide) (by decide)
  have hnew : RootPath (compactedPath keptTurnBodies
      ((preparationOf keptTurnBodies).get (by decide))) :=
    rootPath_compactedPath (by decide) (by decide)
  obtain ⟨before, after, hbefore, hafter, hmessages, hprevious⟩ :=
    @prepareCompaction_partition _ keepOne ((preparationOf keptTurnBodies).get (by decide))
      _ _ _ _ _ _ (by decide) hpath
      (by decide : js "2" ∉ ids ((pathOf keptTurnBodies).reverse.takeWhile
        fun e => !e.isCompaction)) hnew rfl
  exact ⟨(preparationOf keptTurnBodies).get (by decide), before, after,
    by decide, by decide, hbefore, hafter, hmessages,
    hprevious.trans (by decide)⟩

end AcademicAgent
