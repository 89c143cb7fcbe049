import AcademicAgent.AgentHost.Session.Index
import AcademicAgent.AgentHost.Session.PathContext
import AcademicAgent.Core.Worklist

/-!
# The tree of a session

`getTree` makes a node for each id, links every entry to the node of its parent and sorts the
children of every node it reaches from the roots.
-/

namespace AcademicAgent

open List

structure SessionTreeNode where
  entry : SessionEntry
  children : List JsString
  label : Option JsString
  labelTimestamp : Option JsString

abbrev NodeMap := JsMap JsString SessionTreeNode

namespace NodeMap

def childrenOf (nodes : NodeMap) (id : JsString) : List JsString :=
  match nodes.get id with
  | some node => node.children
  | none => []

/-- `new Date(a.entry.timestamp).getTime() - new Date(b.entry.timestamp).getTime()` is not
positive; an invalid date compares as equal. -/
def notLater (nodes : NodeMap) (a b : JsString) : Bool :=
  match (nodes.get a).bind fun n => Date.getTime n.entry.timestamp,
      (nodes.get b).bind fun n => Date.getTime n.entry.timestamp with
  | some x, some y => decide (x ≤ y)
  | _, _ => true

/-- One entry of the second loop: a root, or a child of its parent's node. -/
def link (acc : List JsString × NodeMap) (e : SessionEntry) : List JsString × NodeMap :=
  match e.parentId with
  | none => (acc.1 ++ [e.id], acc.2)
  | some p =>
    if p = e.id then (acc.1 ++ [e.id], acc.2)
    else
      match acc.2.get p with
      | some parent => (acc.1, acc.2.set p { parent with children := parent.children ++ [e.id] })
      | none => (acc.1 ++ [e.id], acc.2)

/-- Sorts the children of the node on top of the stack and pushes them. -/
def visit (nodes : NodeMap) (id : JsString) : NodeMap × List JsString :=
  match nodes.get id with
  | some node =>
    let sorted := node.children.mergeSort nodes.notLater
    (nodes.set id { node with children := sorted }, sorted.reverse)
  | none => (nodes, [])

end NodeMap

namespace SessionManager

section

variable (s : SessionManager)

/-- A node for every id, with the labels resolved. -/
def treeNodes : NodeMap :=
  (getEntries s.fileEntries).foldl (fun nodes e => nodes.set e.id
    ⟨e, [], s.labelsById.get e.id, s.labelTimestampsById.get e.id⟩) .empty

/-- The roots and the nodes once every entry is linked. -/
def linkedNodes : List JsString × NodeMap :=
  (getEntries s.fileEntries).foldl NodeMap.link ([], s.treeNodes)

/-- `getTree()`: the roots and the nodes, if the loop ends within some steps. -/
def getTree (fuel : Nat) : Option (List JsString × NodeMap) :=
  (drain NodeMap.visit fuel s.linkedNodes.2 s.linkedNodes.1.reverse).map
    fun nodes => (s.linkedNodes.1, nodes)

end

end SessionManager

/-- An entry with the id `c` names the present and different id `p` as its parent. -/
def TreeChild (entries : List SessionEntry) (p c : JsString) : Prop :=
  p ∈ ids entries ∧ ∃ e ∈ entries, e.id = c ∧ e.parentId = some p ∧ p ≠ c

/-- An entry with this id has no parent, itself or a missing one. -/
def TreeRoot (entries : List SessionEntry) (r : JsString) : Prop :=
  ∃ e ∈ entries, e.id = r ∧ ∀ p, e.parentId = some p → p = r ∨ p ∉ ids entries

namespace NodeMap

theorem childrenOf_set (nodes : NodeMap) (k p : JsString) (node : SessionTreeNode) :
    childrenOf (nodes.set k node) p = if k = p then node.children else nodes.childrenOf p := by
  unfold childrenOf
  rw [JsMap.get_set]
  by_cases hk : k = p
  · rw [if_pos hk, if_pos hk]
  · rw [if_neg hk, if_neg hk]

theorem foldl_link (es : List SessionEntry) (roots : List JsString) (nodes : NodeMap) :
    let linked := es.foldl link (roots, nodes)
    (∀ p c, c ∈ linked.2.childrenOf p ↔ c ∈ nodes.childrenOf p ∨
      (nodes.has p = true ∧ ∃ e ∈ es, e.id = c ∧ e.parentId = some p ∧ p ≠ c)) ∧
    (∀ r, r ∈ linked.1 ↔ r ∈ roots ∨
      ∃ e ∈ es, e.id = r ∧ ∀ p, e.parentId = some p → p = r ∨ nodes.has p = false) := by
  induction es generalizing roots nodes with
  | nil => simp
  | cons e es ih =>
    rw [foldl_cons]
    by_cases hroot : ∀ p, e.parentId = some p → p = e.id ∨ nodes.has p = false
    · have hlink : link (roots, nodes) e = (roots ++ [e.id], nodes) := by
        unfold link
        cases hp : e.parentId with
        | none => rfl
        | some p =>
          by_cases hself : p = e.id
          · simp [hself]
          · have hmissing := (hroot p hp).resolve_left hself
            rw [JsMap.has_eq_false_iff] at hmissing
            simp [hself, hmissing]
      rw [hlink]
      obtain ⟨hchildren, hroots⟩ := ih (roots ++ [e.id]) nodes
      refine ⟨fun p c => ?_, fun r => ?_⟩
      · rw [hchildren]
        refine or_congr_right (and_congr_right fun hhas => ⟨?_, ?_⟩)
        · rintro ⟨x, hx, h⟩
          exact ⟨x, mem_cons_of_mem _ hx, h⟩
        · rintro ⟨x, hx, hid, hparent, hne⟩
          rcases mem_cons.mp hx with rfl | hx
          · rcases hroot p hparent with hself | hmissing
            · exact absurd (hself.trans hid) hne
            · rw [hhas] at hmissing
              cases hmissing
          · exact ⟨x, hx, hid, hparent, hne⟩
      · rw [hroots]
        simp only [mem_append, mem_cons, not_mem_nil, or_false, exists_eq_or_imp]
        constructor
        · rintro ((h | h) | h)
          · exact .inl h
          · subst h
            exact .inr (.inl ⟨rfl, hroot⟩)
          · exact .inr (.inr h)
        · rintro (h | ⟨h, -⟩ | h)
          · exact .inl (.inl h)
          · exact .inl (.inr h.symm)
          · exact .inr h
    · push Not at hroot
      obtain ⟨p, hp, hself, hhas⟩ := hroot
      have hhas : nodes.has p = true := by simpa using hhas
      obtain ⟨parent, hparent⟩ := (JsMap.has_eq_true_iff nodes p).mp hhas
      have hlink : link (roots, nodes) e =
          (roots, nodes.set p { parent with children := parent.children ++ [e.id] }) := by
        unfold link
        simp [hp, hself, hparent]
      rw [hlink]
      have hkeys : ∀ k, (nodes.set p
          { parent with children := parent.children ++ [e.id] }).has k = nodes.has k := by
        intro k
        rw [JsMap.has, JsMap.has, JsMap.get_set]
        split
        · rename_i hk
          rw [← hk, hparent]
          rfl
        · rfl
      obtain ⟨hchildren, hroots⟩ := ih roots (nodes.set p
        { parent with children := parent.children ++ [e.id] })
      refine ⟨fun q c => ?_, fun r => ?_⟩
      · rw [hchildren, childrenOf_set, hkeys]
        simp only [mem_cons, exists_eq_or_imp]
        by_cases hq : p = q
        · subst hq
          have hold : nodes.childrenOf p = parent.children := by simp [childrenOf, hparent]
          rw [if_pos rfl, hold, mem_append, mem_singleton]
          constructor
          · rintro ((h | rfl) | ⟨h, hrest⟩)
            · exact .inl h
            · exact .inr ⟨hhas, .inl ⟨rfl, hp, hself⟩⟩
            · exact .inr ⟨h, .inr hrest⟩
          · rintro (h | ⟨h, ⟨rfl, -, -⟩ | hrest⟩)
            · exact .inl (.inl h)
            · exact .inl (.inr rfl)
            · exact .inr ⟨h, hrest⟩
        · rw [if_neg hq]
          refine or_congr_right (and_congr_right fun _ => ⟨.inr, ?_⟩)
          rintro (⟨-, hother, -⟩ | h)
          · exact absurd (Option.some.inj (hp.symm.trans hother)) hq
          · exact h
      · rw [hroots]
        simp only [hkeys, mem_cons, exists_eq_or_imp]
        refine or_congr_right ⟨.inr, ?_⟩
        rintro (⟨rfl, h⟩ | h)
        · rcases h p hp with hsame | hmissing
          · exact absurd hsame hself
          · rw [hhas] at hmissing
            cases hmissing
        · exact h

theorem mem_childrenOf_visit (nodes : NodeMap) (id p c : JsString) :
    c ∈ (visit nodes id).1.childrenOf p ↔ c ∈ nodes.childrenOf p := by
  unfold visit
  cases hnode : nodes.get id with
  | none => rfl
  | some node =>
    rw [childrenOf_set]
    split
    · rename_i hid
      rw [mem_mergeSort, childrenOf, ← hid, hnode]
    · rfl

theorem mem_visit (nodes : NodeMap) (id c : JsString) :
    c ∈ (visit nodes id).2 ↔ c ∈ nodes.childrenOf id := by
  unfold visit childrenOf
  cases nodes.get id with
  | none => rfl
  | some node => simp

end NodeMap

namespace SessionManager

variable (s : SessionManager)

theorem treeNodes_has (k : JsString) :
    s.treeNodes.has k = true ↔ k ∈ ids (getEntries s.fileEntries) := by
  have hfold (es : List SessionEntry) (nodes : NodeMap) : (es.foldl (fun nodes e => nodes.set e.id
        (⟨e, [], s.labelsById.get e.id, s.labelTimestampsById.get e.id⟩ : SessionTreeNode))
        nodes).has k = true ↔ nodes.has k = true ∨ k ∈ ids es := by
    induction es generalizing nodes with
    | nil => simp [ids]
    | cons e es ih =>
      rw [foldl_cons, ih, JsMap.has, JsMap.get_set, JsMap.has]
      by_cases hk : e.id = k
      · simp [hk, ids]
      · simp [hk, ids, Ne.symm hk]
  simpa [treeNodes] using hfold (getEntries s.fileEntries) .empty

theorem treeNodes_childrenOf (p : JsString) : s.treeNodes.childrenOf p = [] := by
  have hfold (es : List SessionEntry) (nodes : NodeMap) (h : nodes.childrenOf p = []) :
      NodeMap.childrenOf (es.foldl (fun nodes e => nodes.set e.id
        (⟨e, [], s.labelsById.get e.id, s.labelTimestampsById.get e.id⟩ : SessionTreeNode))
        nodes) p = [] := by
    induction es generalizing nodes with
    | nil => exact h
    | cons e es ih =>
      refine ih _ ?_
      rw [NodeMap.childrenOf_set]
      split
      · rfl
      · exact h
  exact hfold _ _ rfl

theorem mem_childrenOf_linkedNodes (p c : JsString) :
    c ∈ s.linkedNodes.2.childrenOf p ↔ TreeChild (getEntries s.fileEntries) p c := by
  rw [linkedNodes, (NodeMap.foldl_link _ _ _).1, treeNodes_childrenOf, treeNodes_has]
  simp [TreeChild]

theorem mem_roots_linkedNodes (r : JsString) :
    r ∈ s.linkedNodes.1 ↔ TreeRoot (getEntries s.fileEntries) r := by
  rw [linkedNodes, (NodeMap.foldl_link _ _ _).2]
  simp only [not_mem_nil, false_or, TreeRoot]
  refine exists_congr fun e => and_congr_right fun _ => and_congr_right fun _ =>
    forall_congr' fun p => imp_congr_right fun _ => or_congr_right ?_
  rw [← Bool.not_eq_true, treeNodes_has]

theorem getTree_terminates_iff : (∃ fuel, (s.getTree fuel).isSome) ↔
    ∀ r, TreeRoot (getEntries s.fileEntries) r → ∀ id,
      Relation.ReflTransGen (TreeChild (getEntries s.fileEntries)) r id →
        ¬ Relation.TransGen (TreeChild (getEntries s.fileEntries)) id id := by
  have hdrains : (∃ fuel, (s.getTree fuel).isSome) ↔
      Drains NodeMap.visit s.linkedNodes.2 s.linkedNodes.1.reverse :=
    exists_congr fun fuel => by rw [getTree, Option.isSome_map]
  rw [hdrains, drains_iff (fun nodes id (h : ∀ p c, c ∈ NodeMap.childrenOf nodes p ↔
      TreeChild (getEntries s.fileEntries) p c) p c =>
        (NodeMap.mem_childrenOf_visit nodes id p c).trans (h p c))
    (fun nodes id h c => (NodeMap.mem_visit nodes id c).trans (h id c))
    s.mem_childrenOf_linkedNodes]
  have htargets : ∀ p c, TreeChild (getEntries s.fileEntries) p c →
      c ∈ ids (getEntries s.fileEntries) := by
    rintro p c ⟨-, e, he, rfl, -⟩
    exact mem_ids he
  refine forall_congr' fun r => ?_
  rw [mem_reverse, mem_roots_linkedNodes]
  exact imp_congr_right fun _ => acc_iff_no_cycle htargets r

end SessionManager

end AcademicAgent
