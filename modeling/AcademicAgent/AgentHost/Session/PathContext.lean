import AcademicAgent.AgentHost.Session.Context

/-!
# The context of a path

The loops of `buildSessionContext` put in closed form: a setting is the last
one on the path, and the messages are those of the whole path or, when the path
has a compaction, its summary with the messages kept before it and those after.
-/

namespace AcademicAgent

open List SessionEntry

variable {path : List SessionEntry} {e : SessionEntry} {firstKept : JsString}

def SessionEntry.thinkingLevel? (e : SessionEntry) : Option JsString :=
  match e.body with
  | .thinkingLevelChange level => some level
  | _ => none

section

variable {β : Type} (f : SessionEntry → Option β)

/-- The last value that a path has under `f`. -/
def lastSome (path : List SessionEntry) : Option β :=
  path.reverse.findSome? f

@[simp] theorem lastSome_nil : lastSome f [] = none := rfl

theorem lastSome_append (xs ys : List SessionEntry) :
    lastSome f (xs ++ ys) = (lastSome f ys).or (lastSome f xs) := by
  rw [lastSome, reverse_append, findSome?_append]
  rfl

end

theorem lastSome_eq_none_iff {β : Type} {f : SessionEntry → Option β} :
    lastSome f path = none ↔ ∀ e ∈ path, f e = none := by
  simp [lastSome]

theorem pathThinkingLevel_eq (path : List SessionEntry) :
    pathThinkingLevel path = (lastSome thinkingLevel? path).getD (js "off") := by
  have hfold (es : List SessionEntry) (level : JsString) : es.foldl (fun level e =>
        match e.body with
        | .thinkingLevelChange l => l
        | _ => level) level = (lastSome thinkingLevel? es).getD level := by
    induction es generalizing level with
    | nil => rfl
    | cons e es ih =>
      rw [foldl_cons, ih, ← singleton_append, lastSome_append]
      cases lastSome thinkingLevel? es with
      | some l => rfl
      | none =>
        simp only [Option.getD_none, Option.none_or, lastSome, reverse_singleton,
          findSome?_singleton, thinkingLevel?]
        split <;> rfl
  exact hfold path _

theorem pathModel_eq (path : List SessionEntry) :
    pathModel path = lastSome model? path := by
  have hfold (es : List SessionEntry) (model : Option ModelRef) :
      es.foldl (fun model e => e.model?.or model) model =
        (lastSome model? es).or model := by
    induction es generalizing model with
    | nil => rfl
    | cons e es ih =>
      rw [foldl_cons, ih, ← singleton_append, lastSome_append, Option.or_assoc]
      simp [lastSome]
  exact (hfold path none).trans Option.or_none

@[simp] theorem appendMessages_nil : appendMessages [] = [] := rfl

@[simp] theorem appendMessages_append (xs ys : List SessionEntry) :
    appendMessages (xs ++ ys) = appendMessages xs ++ appendMessages ys :=
  filterMap_append

theorem appendMessages_cons (e : SessionEntry) (es : List SessionEntry) :
    appendMessages (e :: es) = (appendMessage e).toList ++ appendMessages es := by
  rw [appendMessages, filterMap_cons]
  cases appendMessage e <;> rfl

theorem appendMessages_eq_nil_iff : appendMessages path = [] ↔ ∀ e ∈ path, appendMessage e = none :=
  filterMap_eq_nil_iff

theorem appendMessage_of_isCompaction (h : e.isCompaction = true) : appendMessage e = none := by
  unfold isCompaction at h
  unfold appendMessage
  split at h <;> simp_all

theorem SessionEntry.isCompaction_iff :
    e.isCompaction = true ↔ ∃ summary firstKept tokensBefore details fromHook index,
      e.body = .compaction summary firstKept tokensBefore details fromHook index := by
  cases h : e.body <;> simp [isCompaction, h]

theorem compaction_cases (path : List SessionEntry) : (∀ e ∈ path, e.isCompaction = false) ∨
      ∃ before c after, path = before ++ c :: after ∧ c.isCompaction = true ∧
        ∀ e ∈ after, e.isCompaction = false := by
  induction path with
  | nil => exact .inl (by simp)
  | cons e es ih =>
    rcases ih with hnone | ⟨before, c, after, rfl, hc, hafter⟩
    · cases he : e.isCompaction with
      | true => exact .inr ⟨[], e, es, rfl, he, hnone⟩
      | false =>
        refine .inl fun x hx => ?_
        rcases mem_cons.mp hx with rfl | hx
        · exact he
        · exact hnone x hx
    · exact .inr ⟨e :: before, c, after, rfl, hc, hafter⟩

theorem getLatestCompactionEntry_eq_none (h : ∀ e ∈ path, e.isCompaction = false) :
    getLatestCompactionEntry path = none := by
  rw [getLatestCompactionEntry, find?_eq_none]
  intro e he
  simp [h e (mem_reverse.mp he)]

section

variable {before after : List SessionEntry} {c : SessionEntry}

theorem getLatestCompactionEntry_append
    (hc : c.isCompaction = true) (hafter : ∀ e ∈ after, e.isCompaction = false) :
    getLatestCompactionEntry (before ++ c :: after) = some c := by
  rw [getLatestCompactionEntry, reverse_append, find?_append, reverse_cons, find?_append]
  have hnone : after.reverse.find? isCompaction = none :=
    getLatestCompactionEntry_eq_none hafter
  simp [hnone, hc]

theorem pathMessages_of_no_compaction (h : ∀ e ∈ path, e.isCompaction = false) :
    pathMessages path = appendMessages path := by
  rw [pathMessages, getLatestCompactionEntry_eq_none h]

def ids (es : List SessionEntry) : List JsString := es.map SessionEntry.id

@[simp] theorem ids_nil : ids [] = [] := rfl

@[simp] theorem ids_cons (e : SessionEntry) (es : List SessionEntry) :
    ids (e :: es) = e.id :: ids es := rfl

@[simp] theorem ids_append (xs ys : List SessionEntry) : ids (xs ++ ys) = ids xs ++ ids ys :=
  map_append

theorem mem_ids {es : List SessionEntry} (h : e ∈ es) : e.id ∈ ids es :=
  mem_map_of_mem h

theorem findIdx_id (hids : c.id ∉ ids before) (hc : c.isCompaction = true) :
    (before ++ c :: after).findIdx (fun e => e.isCompaction && decide (e.id = c.id)) =
      before.length := by
  rw [findIdx_append, findIdx_eq_length_of_false]
  · simp [findIdx_cons, hc]
  · intro e he
    have hne : e.id ≠ c.id := fun heq => hids (heq ▸ mem_ids he)
    simp [hne]

theorem pathMessages_of_compaction {summary : JsString} {tokensBefore : Nat} {details : Option Json}
    {fromHook : Option Bool} {index : Option Nat} (hids : c.id ∉ ids before)
    (hbody : c.body = .compaction summary firstKept tokensBefore details fromHook index)
    (hafter : ∀ e ∈ after, e.isCompaction = false) : pathMessages (before ++ c :: after) =
      createCompactionSummaryMessage summary tokensBefore c.timestamp ::
        (appendMessages (keptEntries firstKept before) ++ appendMessages after) := by
  have hc : c.isCompaction = true := isCompaction_iff.mpr ⟨_, _, _, _, _, _, hbody⟩
  have hdrop : (before ++ c :: after).drop (before.length + 1) = after := by
    rw [drop_append, drop_eq_nil_of_le (Nat.le_succ _)]
    simp
  simp only [pathMessages, getLatestCompactionEntry_append hc hafter, hbody,
    findIdx_id hids hc, take_left, hdrop]

end

theorem keptEntries_of_notMem {xs : List SessionEntry} (h : firstKept ∉ ids xs) :
    keptEntries firstKept xs = [] := by
  rw [keptEntries, dropWhile_eq_nil_iff]
  intro e he
  simpa using fun heq : e.id = firstKept => h (heq ▸ mem_ids he)

theorem keptEntries_append_of_notMem {xs ys : List SessionEntry} (h : firstKept ∉ ids xs) :
    keptEntries firstKept (xs ++ ys) = keptEntries firstKept ys := by
  rw [keptEntries, dropWhile_append, ← keptEntries, keptEntries_of_notMem h]
  rfl

theorem keptEntries_split {xs ys : List SessionEntry} (h : e.id ∉ ids xs) :
    keptEntries e.id (xs ++ e :: ys) = e :: ys := by
  rw [keptEntries_append_of_notMem h, keptEntries, dropWhile_cons_of_neg (by simp)]

end AcademicAgent
