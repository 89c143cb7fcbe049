import AcademicAgent.AgentHost.Session.Index
import AcademicAgent.AgentHost.Session.PathContext

/-!
# The context of a branched session

`createBranchedSession` drops the labels of a path and recreates them below its last entry.
-/

namespace AcademicAgent

open List Option SessionEntry

section

variable (path : List SessionEntry)

def trailingLabels : List SessionEntry :=
  (path.reverse.takeWhile SessionEntry.isLabel).reverse

/-- The entries that the new session still reaches: those above the trailing
labels and below the label before them. -/
def keptSuffix : List SessionEntry :=
  ((path.reverse.dropWhile SessionEntry.isLabel).takeWhile fun e => !e.isLabel).reverse

/-- The rest of the path, which ends with a label unless it is empty. -/
def cutOff : List SessionEntry :=
  ((path.reverse.dropWhile SessionEntry.isLabel).dropWhile fun e => !e.isLabel).reverse

theorem cutOff_append : cutOff path ++ keptSuffix path ++ trailingLabels path = path := by
  apply reverse_injective
  rw [cutOff, keptSuffix, trailingLabels, reverse_append, reverse_append]
  simp only [reverse_reverse, takeWhile_append_dropWhile]

end

section

variable {path : List SessionEntry}

theorem isLabel_of_mem_trailingLabels : ∀ e ∈ trailingLabels path, e.isLabel = true := by
  intro e he
  exact mem_takeWhile_imp (mem_reverse.mp he)

theorem not_isLabel_of_mem_keptSuffix : ∀ e ∈ keptSuffix path, e.isLabel = false := by
  intro e he
  simpa using mem_takeWhile_imp (mem_reverse.mp he)

theorem isLabel_of_getLast_cutOff {e : SessionEntry}
    (h : (cutOff path).getLast? = some e) : e.isLabel = true := by
  rw [cutOff, getLast?_reverse] at h
  simpa [h] using head?_dropWhile_not (fun e : SessionEntry => !e.isLabel)
    (path.reverse.dropWhile isLabel)

theorem cutOff_eq_nil_of_keptSuffix (h : keptSuffix path = []) : cutOff path = [] := by
  rw [keptSuffix, reverse_eq_nil_iff] at h
  rw [cutOff, reverse_eq_nil_iff]
  cases hrest : path.reverse.dropWhile isLabel with
  | nil => rfl
  | cons e es =>
    have hhead := head?_dropWhile_not isLabel path.reverse
    rw [hrest] at h hhead
    have hlabel : e.isLabel = false := by simpa using hhead
    simp [hlabel] at h

end

theorem filter_label (path : List SessionEntry) : path.filter (fun e => !e.isLabel) =
      (cutOff path).filter (fun e => !e.isLabel) ++ keptSuffix path := by
  conv_lhs => rw [← cutOff_append path]
  rw [filter_append, filter_append]
  have hkept : (keptSuffix path).filter (fun e => !e.isLabel) = keptSuffix path := by
    rw [filter_eq_self]
    intro e he
    simp [not_isLabel_of_mem_keptSuffix e he]
  have htrailing : (trailingLabels path).filter (fun e => !e.isLabel) = [] := by
    rw [filter_eq_nil_iff]
    intro e he
    simp [isLabel_of_mem_trailingLabels e he]
  rw [hkept, htrailing, append_nil]

theorem SessionEntry.silent_of_isLabel {e : SessionEntry} (h : e.isLabel = true) :
    e.isCompaction = false ∧ appendMessage e = none ∧ e.model? = none ∧
      e.thinkingLevel? = none := by
  unfold isLabel at h
  split at h
  · rename_i hbody
    simp [isCompaction, appendMessage, model?, thinkingLevel?, hbody]
  · contradiction

theorem pathMessages_append_labels {path labels : List SessionEntry}
    (hnodup : (ids path).Nodup) (hlabels : ∀ e ∈ labels, e.isLabel = true) :
    pathMessages (path ++ labels) = pathMessages path := by
  have hsilent : appendMessages labels = [] :=
    appendMessages_eq_nil_iff.mpr fun e he => (silent_of_isLabel (hlabels e he)).2.1
  have hnone : ∀ e ∈ labels, e.isCompaction = false :=
    fun e he => (silent_of_isLabel (hlabels e he)).1
  rcases compaction_cases path with hpath | ⟨before, c, after, rfl, hc, hafter⟩
  · rw [pathMessages_of_no_compaction hpath, pathMessages_of_no_compaction, appendMessages_append,
      hsilent, append_nil]
    intro e he
    rcases mem_append.mp he with he | he
    · exact hpath e he
    · exact hnone e he
  · obtain ⟨_, _, _, _, _, _, hbody⟩ := isCompaction_iff.mp hc
    have hids : c.id ∉ ids before := by
      intro hmem
      rw [ids_append, ids_cons] at hnodup
      exact (nodup_append.mp hnodup).2.2 _ hmem _ mem_cons_self rfl
    rw [append_assoc, cons_append, pathMessages_of_compaction hids hbody,
      pathMessages_of_compaction hids hbody hafter, appendMessages_append, hsilent,
      append_nil]
    intro e he
    rcases mem_append.mp he with he | he
    · exact hafter e he
    · exact hnone e he

theorem pathContext_append_labels {path labels : List SessionEntry}
    (hnodup : (ids path).Nodup) (hlabels : ∀ e ∈ labels, e.isLabel = true) :
    pathContext (path ++ labels) = pathContext path := by
  have hthinking : lastSome thinkingLevel? labels = none :=
    lastSome_eq_none_iff.mpr fun e he => (silent_of_isLabel (hlabels e he)).2.2.2
  have hmodel : lastSome model? labels = none :=
    lastSome_eq_none_iff.mpr fun e he => (silent_of_isLabel (hlabels e he)).2.2.1
  simp only [pathContext, pathThinkingLevel_eq, pathModel_eq, lastSome_append, hthinking, hmodel,
    none_or, pathMessages_append_labels hnodup hlabels]

/-- The messages do not depend on the part cut off. When what is kept has a
compaction, either that keeps nothing of the part cut off, or nothing from its
first kept entry on is a message; otherwise the part cut off has neither a
compaction nor a message. -/
def MessagesKept (cut kept : List SessionEntry) : Prop :=
  match getLatestCompactionEntry kept with
  | some c =>
    match c.body with
    | .compaction _ firstKept _ _ _ _ =>
      firstKept ∈ ids cut →
        ∀ e ∈ keptEntries firstKept (cut ++ kept.takeWhile fun e => e.id ≠ c.id),
          appendMessage e = none
    | _ => True
  | none => ∀ e ∈ cut, e.isCompaction = false ∧ appendMessage e = none

/-- The context does not depend on the part cut off. -/
structure ContextKept (cut kept : List SessionEntry) : Prop where
  messages : MessagesKept cut kept
  thinkingLevel : (∃ e ∈ kept, e.thinkingLevel? ≠ none) ∨ pathThinkingLevel cut = js "off"
  model : (∃ e ∈ kept, e.model? ≠ none) ∨ ∀ e ∈ cut, e.model? = none

theorem takeWhile_id {before after : List SessionEntry} {c : SessionEntry} (h : c.id ∉ ids before) :
    (before ++ c :: after).takeWhile (fun e => decide (e.id ≠ c.id)) = before := by
  rw [takeWhile_append_of_pos]
  · simp
  · intro e he
    have hne : e.id ≠ c.id := fun heq => h (heq ▸ mem_ids he)
    simpa using hne

theorem pathMessages_append_eq_iff {cut kept : List SessionEntry}
    (hnodup : (ids (cut ++ kept)).Nodup) :
    pathMessages (cut ++ kept) = pathMessages kept ↔ MessagesKept cut kept := by
  rcases compaction_cases kept with hkept | ⟨before, c, after, rfl, hc, hafter⟩
  · rw [MessagesKept, getLatestCompactionEntry_eq_none hkept, pathMessages_of_no_compaction hkept]
    rcases compaction_cases cut with hcut | ⟨before, c, after, rfl, hc, hafter⟩
    · have hall : ∀ e ∈ cut ++ kept, e.isCompaction = false := by
        intro e he
        rcases mem_append.mp he with he | he
        · exact hcut e he
        · exact hkept e he
      rw [pathMessages_of_no_compaction hall, appendMessages_append, append_left_eq_self,
        appendMessages_eq_nil_iff]
      exact ⟨fun h e he => ⟨hcut e he, h e he⟩, fun h e he => (h e he).2⟩
    · -- The summary is one message more than what is kept emits.
      obtain ⟨_, _, _, _, _, _, hbody⟩ := isCompaction_iff.mp hc
      have hids : c.id ∉ ids before := by
        intro hmem
        rw [append_assoc, ids_append, cons_append, ids_cons] at hnodup
        exact (nodup_append.mp hnodup).2.2 _ hmem _ mem_cons_self rfl
      have hrest : ∀ e ∈ after ++ kept, e.isCompaction = false := by
        intro e he
        rcases mem_append.mp he with he | he
        · exact hafter e he
        · exact hkept e he
      rw [append_assoc, cons_append, pathMessages_of_compaction hids hbody hrest]
      constructor
      · intro h
        have hlen := congrArg length h
        simp only [appendMessages_append, length_cons, length_append] at hlen
        omega
      · intro h
        have := (h c (mem_append_right _ mem_cons_self)).1
        rw [hc] at this
        contradiction
  · obtain ⟨_, firstKept, _, _, _, _, hbody⟩ := isCompaction_iff.mp hc
    have hids : c.id ∉ ids (cut ++ before) := by
      intro hmem
      rw [← append_assoc, ids_append, ids_cons] at hnodup
      exact (nodup_append.mp hnodup).2.2 _ hmem _ mem_cons_self rfl
    have hids' : c.id ∉ ids before := fun hmem =>
      hids (by rw [ids_append]; exact mem_append_right _ hmem)
    simp only [MessagesKept, getLatestCompactionEntry_append hc hafter, hbody, takeWhile_id hids']
    rw [← append_assoc, pathMessages_of_compaction hids hbody hafter,
      pathMessages_of_compaction hids' hbody hafter, cons_inj_right,
      append_left_inj]
    by_cases hmem : firstKept ∈ ids cut
    · have hbefore : firstKept ∉ ids before := by
        intro hmem'
        rw [ids_append, ids_append] at hnodup
        exact (nodup_append.mp hnodup).2.2 _ hmem _ (mem_append_left _ hmem') rfl
      rw [keptEntries_of_notMem hbefore, appendMessages_nil, appendMessages_eq_nil_iff]
      exact ⟨fun h _ => h, fun h => h hmem⟩
    · rw [keptEntries_append_of_notMem hmem]
      exact ⟨fun _ h => absurd h hmem, fun _ => rfl⟩

theorem pathThinkingLevel_append_eq_iff (cut kept : List SessionEntry) :
    pathThinkingLevel (cut ++ kept) = pathThinkingLevel kept ↔
      (∃ e ∈ kept, e.thinkingLevel? ≠ none) ∨ pathThinkingLevel cut = js "off" := by
  simp only [pathThinkingLevel_eq, lastSome_append]
  cases h : lastSome thinkingLevel? kept with
  | none =>
    rw [lastSome_eq_none_iff] at h
    simp only [none_or, getD_none]
    exact ⟨.inr, fun h' => h'.resolve_left fun ⟨e, he, hne⟩ => hne (h e he)⟩
  | some level =>
    simp only [some_or, true_iff]
    refine .inl ?_
    by_contra hno
    push Not at hno
    rw [lastSome_eq_none_iff.mpr hno] at h
    contradiction

theorem pathModel_append_eq_iff (cut kept : List SessionEntry) :
    pathModel (cut ++ kept) = pathModel kept ↔
      (∃ e ∈ kept, e.model? ≠ none) ∨ ∀ e ∈ cut, e.model? = none := by
  simp only [pathModel_eq, lastSome_append]
  cases h : lastSome model? kept with
  | none =>
    rw [none_or, lastSome_eq_none_iff]
    rw [lastSome_eq_none_iff] at h
    exact ⟨.inr, fun h' => h'.resolve_left fun ⟨e, he, hne⟩ => hne (h e he)⟩
  | some model =>
    simp only [some_or, true_iff]
    refine .inl ?_
    by_contra hno
    push Not at hno
    rw [lastSome_eq_none_iff.mpr hno] at h
    contradiction

theorem pathContext_append_eq_iff {cut kept : List SessionEntry}
    (hnodup : (ids (cut ++ kept)).Nodup) :
    pathContext (cut ++ kept) = pathContext kept ↔ ContextKept cut kept := by
  simp only [pathContext, SessionContext.mk.injEq, pathMessages_append_eq_iff hnodup,
    pathThinkingLevel_append_eq_iff, pathModel_append_eq_iff]
  exact ⟨fun ⟨h₁, h₂, h₃⟩ => ⟨h₁, h₂, h₃⟩, fun ⟨h₁, h₂, h₃⟩ => ⟨h₁, h₂, h₃⟩⟩

end AcademicAgent
