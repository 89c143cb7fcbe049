import AcademicAgent.AgentHost.Session.Termination

/-!
# The entries of an abandoned branch

`collectEntriesForBranchSummary` compares the paths of the old leaf and of the target: what
it collects is the old path behind the deepest entry that is on both.
-/

namespace AcademicAgent

open List Option

structure CollectEntriesResult where
  entries : List SessionEntry
  commonAncestorId : Option JsString
  deriving DecidableEq

/-- `id ? byId.get(id) : undefined`. -/
def entryOf (byId : EntryMap) (id : Option JsString) : Option SessionEntry :=
  id.bind fun id => if id = [] then none else byId.get id

/-- The entry of the next iteration, while `current && current !== commonAncestorId` and the
entry exists. -/
def nextCollected (byId : EntryMap) (commonAncestorId current : Option JsString) :
    Option SessionEntry :=
  if current = commonAncestorId then none else entryOf byId current

/-- The loop that pushes the entries from `current` up; more iterations than the index has
entries repeat one of them. -/
def collectUp (byId : EntryMap) (commonAncestorId : Option JsString) :
    Nat → Option JsString → List SessionEntry → Option (List SessionEntry)
  | fuel, current, entries =>
    match nextCollected byId commonAncestorId current, fuel with
    | none, _ => some entries
    | some _, 0 => none
    | some e, fuel + 1 => collectUp byId commonAncestorId fuel e.parentId (entries ++ [e])

/-- `collectEntriesForBranchSummary(session, oldLeafId, targetId)`, if its loops end. -/
def collectEntriesForBranchSummary (session : SessionManager) (oldLeafId : Option JsString)
    (targetId : JsString) : Option CollectEntriesResult :=
  match oldLeafId with
  | none | some [] => some ⟨[], none⟩
  | some oldLeafId => do
    let oldPath ← session.getBranch (some oldLeafId)
    let targetPath ← session.getBranch (some targetId)
    let commonAncestorId :=
      (targetPath.reverse.find? fun e => decide (e.id ∈ oldPath.map SessionEntry.id)).map
        SessionEntry.id
    let entries ← collectUp session.byId commonAncestorId (session.byId.entries.length + 1)
      (some oldLeafId) []
    some ⟨entries.reverse, commonAncestorId⟩

/-- The path from the root to a leaf; without a leaf it is empty. -/
def leafPath (session : SessionManager) : Option JsString → Option (List SessionEntry)
  | none => some []
  | some id => session.getBranch (some id)

/-- The entries of a session form a tree: each is filed under its id, and from each one the
parents lead to a root. -/
structure SessionTree (byId : EntryMap) : Prop where
  indexed : Indexed byId
  rooted : ∀ id e, byId.get id = some e → ∃ chain, Ancestry byId (some e) chain

variable {byId : EntryMap} {session : SessionManager}

theorem entryOf_parentId (e : SessionEntry) : entryOf byId e.parentId = parentOf byId e := by
  rw [parentOf, entryOf, SessionEntry.parentRef]
  cases e.parentId with
  | none => rfl
  | some id =>
    rw [bind_some]
    dsimp only
    split <;> rfl

theorem get_entryOf (hidx : Indexed byId) {id : Option JsString} {e : SessionEntry}
    (h : entryOf byId id = some e) : id = some e.id ∧ e.id ≠ [] ∧ byId.get e.id = some e := by
  obtain ⟨k, rfl, hk⟩ := bind_eq_some_iff.mp h
  split at hk
  · cases hk
  · rename_i hne
    have hid := hidx k e hk
    rw [hid]
    exact ⟨rfl, hne, hk⟩

theorem SessionTree.exists_ancestry (htree : SessionTree byId) (id : Option JsString) :
    ∃ chain, Ancestry byId (entryOf byId id) chain := by
  cases hentry : entryOf byId id with
  | none => exact ⟨[], .root⟩
  | some e => exact htree.rooted e.id e (get_entryOf htree.indexed hentry).2.2

theorem getBranch_of_ancestry (hidx : Indexed session.byId) {id : JsString}
    {chain : List SessionEntry} (h : Ancestry session.byId (entryOf session.byId (some id)) chain) :
    session.getBranch (some id) = some chain.reverse := by
  rw [SessionManager.getBranch, some_or]
  change pathTo session.byId (entryOf session.byId (some id)) = some chain.reverse
  cases hentry : entryOf session.byId (some id) with
  | none =>
    rw [hentry] at h
    cases h
    rfl
  | some e =>
    rw [hentry] at h
    rw [pathTo_eq_some_iff hidx (get_entryOf hidx hentry).2.2, reverse_reverse]
    exact h

theorem collectUp_stop {common current : Option JsString}
    (h : nextCollected byId common current = none) (fuel : Nat) (entries : List SessionEntry) :
    collectUp byId common fuel current entries = some entries := by
  unfold collectUp
  rw [h]

theorem collectUp_step {common current : Option JsString} {e : SessionEntry}
    (h : nextCollected byId common current = some e) (fuel : Nat) (entries : List SessionEntry) :
    collectUp byId common (fuel + 1) current entries =
      collectUp byId common fuel e.parentId (entries ++ [e]) := by
  conv_lhs => unfold collectUp
  rw [h]

theorem collectUp_of_ancestry (hidx : Indexed byId) {common : Option JsString}
    {cur : Option SessionEntry} {chain : List SessionEntry} (h : Ancestry byId cur chain)
    {current : Option JsString} (hcur : entryOf byId current = cur) {fuel : Nat}
    (hfuel : chain.length ≤ fuel) (entries : List SessionEntry) :
    collectUp byId common fuel current entries =
      some (entries ++ chain.takeWhile fun e => decide (some e.id ≠ common)) := by
  induction h generalizing current fuel entries with
  | root =>
    have hstop : nextCollected byId common current = none := by
      unfold nextCollected
      rw [hcur, ite_self]
    rw [collectUp_stop hstop, takeWhile_nil, append_nil]
  | child e h ih =>
    obtain ⟨rfl, -, -⟩ := get_entryOf hidx hcur
    rw [takeWhile_cons]
    by_cases hcommon : some e.id = common
    · have hstop : nextCollected byId common (some e.id) = none := if_pos hcommon
      rw [collectUp_stop hstop, if_neg (by simp [hcommon]), append_nil]
    · have hstep : nextCollected byId common (some e.id) = some e := by
        unfold nextCollected
        rw [if_neg hcommon, hcur]
      rw [if_pos (by simp [hcommon])]
      cases fuel with
      | zero => exact absurd hfuel (by simp)
      | succ fuel =>
        rw [collectUp_step hstep, ih (entryOf_parentId e) (Nat.le_of_succ_le_succ hfuel),
          append_assoc]
        rfl

theorem Ancestry.common (hidx : Indexed byId) {old target : Option SessionEntry}
    {oldChain targetChain : List SessionEntry} (hold : Ancestry byId old oldChain)
    (htarget : Ancestry byId target targetChain)
    (hgetOld : ∀ e, old = some e → byId.get e.id = some e)
    (hgetTarget : ∀ e, target = some e → byId.get e.id = some e) :
    ∃ left right shared, oldChain = left ++ shared ∧ targetChain = right ++ shared ∧
      (∀ e ∈ left, e ∉ targetChain) ∧
      (∀ e ∈ left, ∀ f ∈ shared, e.id ≠ f.id) ∧
      (targetChain.find? fun e => decide (e.id ∈ oldChain.map SessionEntry.id)) = shared.head? := by
  have hid : ∀ e ∈ targetChain, e.id ∈ oldChain.map SessionEntry.id → e ∈ oldChain := by
    intro e he hmem
    obtain ⟨f, hf, hfe⟩ := mem_map.mp hmem
    have hgete := htarget.get_id hidx hgetTarget e he
    rw [← hfe, hold.get_id hidx hgetOld f hf] at hgete
    cases hgete
    exact hf
  cases hfind : targetChain.find? fun e => decide (e.id ∈ oldChain.map SessionEntry.id) with
  | none =>
    refine ⟨oldChain, targetChain, [], (append_nil _).symm, (append_nil _).symm, ?_, ?_, rfl⟩
    · intro e he hmem
      have hnot := find?_eq_none.mp hfind e hmem
      exact hnot (decide_eq_true (mem_map_of_mem he))
    · intro e _ f hf
      cases hf
  | some a =>
    obtain ⟨ha, right, shared, rfl, hright⟩ := find?_eq_some_iff_append.mp hfind
    have hmem : a ∈ oldChain := hid a (by simp) (of_decide_eq_true ha)
    obtain ⟨left, rest, rfl⟩ := append_of_mem hmem
    have hrest : a :: rest = a :: shared := hold.suffix.unique htarget.suffix
    cases hrest
    have hnodup := hold.nodup_ids hidx hgetOld
    rw [map_append] at hnodup
    have hdisjoint := (nodup_append.mp hnodup).2.2
    have hids : ∀ e ∈ left, ∀ f ∈ a :: shared, e.id ≠ f.id := fun e he f hf =>
      hdisjoint _ (mem_map_of_mem he) _ (mem_map_of_mem hf)
    refine ⟨left, right, a :: shared, rfl, rfl, ?_, hids, rfl⟩
    intro e he hmem
    rcases mem_append.mp hmem with hin | hin
    · have hnot := hright e hin
      rw [decide_eq_true (mem_map_of_mem (mem_append_left _ he))] at hnot
      cases hnot
    · exact hids e he e hin rfl

theorem takeWhile_before_shared {left shared : List SessionEntry}
    (h : ∀ e ∈ left, ∀ f ∈ shared, e.id ≠ f.id) :
    ((left ++ shared).takeWhile fun e => decide (some e.id ≠ shared.head?.map SessionEntry.id)) =
      left := by
  induction left with
  | nil =>
    cases shared with
    | nil => rfl
    | cons f shared => simp
  | cons e left ih =>
    have hne : some e.id ≠ shared.head?.map SessionEntry.id := by
      cases shared with
      | nil => exact some_ne_none _
      | cons f shared =>
        intro heq
        exact h e mem_cons_self f mem_cons_self (some.inj heq)
    rw [cons_append, takeWhile_cons, if_pos (decide_eq_true hne),
      ih fun x hx => h x (mem_cons_of_mem e hx)]

/-- In a session tree the two paths share their front, the entries collected are the rest of
the old one, none of them is on the other, and the common ancestor is the last one shared. -/
theorem collectEntriesForBranchSummary_exact (htree : SessionTree session.byId)
    (oldLeafId : Option JsString) (targetId : JsString) : ∃ oldPath targetPath result shared rest,
      leafPath session oldLeafId = some oldPath ∧
      session.getBranch (some targetId) = some targetPath ∧
      collectEntriesForBranchSummary session oldLeafId targetId = some result ∧
      oldPath = shared ++ result.entries ∧ targetPath = shared ++ rest ∧
      result.entries = oldPath.filter (fun e => decide (e ∉ targetPath)) ∧
      result.commonAncestorId = shared.getLast?.map SessionEntry.id := by
  obtain ⟨targetChain, htarget⟩ := htree.exists_ancestry (some targetId)
  have htargetPath := getBranch_of_ancestry htree.indexed htarget
  match oldLeafId with
  | none => exact ⟨[], _, ⟨[], none⟩, [], _, rfl, htargetPath, rfl, rfl, rfl, rfl, rfl⟩
  | some [] => exact ⟨[], _, ⟨[], none⟩, [], _, rfl, htargetPath, rfl, rfl, rfl, rfl, rfl⟩
  | some (c :: cs) =>
    obtain ⟨oldChain, hold⟩ := htree.exists_ancestry (some (c :: cs))
    have holdPath := getBranch_of_ancestry htree.indexed hold
    obtain ⟨left, right, shared, rfl, rfl, hdisjoint, hids, hfind⟩ :=
      Ancestry.common htree.indexed hold htarget (fun e he => (get_entryOf htree.indexed he).2.2)
        (fun e he => (get_entryOf htree.indexed he).2.2)
    have hlength : (left ++ shared).length ≤ session.byId.entries.length + 1 :=
      (hold.length_le htree.indexed
        fun e he => (get_entryOf htree.indexed he).2.2).trans (Nat.le_succ _)
    have hcollect : collectEntriesForBranchSummary session (some (c :: cs)) targetId =
        some ⟨left.reverse, shared.head?.map SessionEntry.id⟩ := by
      unfold collectEntriesForBranchSummary
      simp only [holdPath, htargetPath, bind, Option.bind, reverse_reverse, map_reverse,
        mem_reverse, hfind, collectUp_of_ancestry htree.indexed hold rfl hlength,
        nil_append, takeWhile_before_shared hids]
    have hshared : shared.reverse.filter
        (fun e => decide (e ∉ (right ++ shared).reverse)) = [] := by
      refine filter_eq_nil_iff.mpr fun e he => ?_
      simp [mem_reverse.mp he]
    have hleft : left.reverse.filter
        (fun e => decide (e ∉ (right ++ shared).reverse)) = left.reverse := by
      refine filter_eq_self.mpr fun e he => ?_
      rw [mem_reverse] at he
      exact decide_eq_true fun hmem => hdisjoint e he (mem_reverse.mp hmem)
    refine ⟨_, _, _, shared.reverse, right.reverse, holdPath, htargetPath, hcollect,
      reverse_append, reverse_append, ?_, ?_⟩
    · dsimp only
      rw [@reverse_append _ left, filter_append, hshared, hleft, nil_append]
    · dsimp only
      rw [getLast?_reverse]

theorem sessionTree_of_pathTo {entries : List SessionEntry}
    (h : ∀ e ∈ entries, (pathTo (indexById entries) (some e)).isSome = true) :
    SessionTree (indexById entries) := by
  refine ⟨indexed_indexById entries, fun id e he => ?_⟩
  have hid := indexed_indexById entries id e he
  rw [← hid] at he
  obtain ⟨path, hpath⟩ := isSome_iff_exists.mp (h e (get_indexById_mem he))
  obtain ⟨chain, hchain, -, -⟩ := walk_eq_some_iff.mp hpath
  exact ⟨chain, hchain⟩

/-- A prompt with two answers, one of which was left for the other. -/
def forkedSession : SessionManager :=
  { SessionManager.blank [] [] false fun _ => none with
    byId := indexById
      [⟨js "p", none, [], .sessionInfo none⟩, ⟨js "old", some (js "p"), [], .sessionInfo none⟩,
        ⟨js "new", some (js "p"), [], .sessionInfo none⟩] }

/-- The answer that was left is collected, and the prompt is the common ancestor. -/
theorem collectEntriesForBranchSummary_exact_forked :
    (collectEntriesForBranchSummary forkedSession (some (js "old")) (js "new")).map
        CollectEntriesResult.commonAncestorId = some (some (js "p")) ∧
      ∃ oldPath targetPath result shared rest,
        leafPath forkedSession (some (js "old")) = some oldPath ∧
        forkedSession.getBranch (some (js "new")) = some targetPath ∧
        collectEntriesForBranchSummary forkedSession (some (js "old")) (js "new") = some result ∧
        oldPath = shared ++ result.entries ∧ targetPath = shared ++ rest ∧
        result.entries = oldPath.filter (fun e => decide (e ∉ targetPath)) ∧
        result.commonAncestorId = shared.getLast?.map SessionEntry.id :=
  ⟨by decide, collectEntriesForBranchSummary_exact (sessionTree_of_pathTo (by decide)) _ _⟩

end AcademicAgent
