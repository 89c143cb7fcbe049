import AcademicAgent.AgentHost.Session.Manager
import AcademicAgent.AgentHost.Session.PathContext
import Mathlib.Data.List.Chain

/-!
# Migration of files without ids

What the first migration makes of the records of a file, and when its entries form one
chain in which every compaction refers to the entry that its index pointed at.
-/

namespace AcademicAgent

open List Option

open FileEntry ( entry?)

/-- The id that the record at an index gets: nothing is ever taken, so the first draw. -/
def migratedId (uuid : Nat → Nat → Uuid) (i : Nat) : JsString := (uuid i 0).text.take 8

theorem generateId_of_none_taken (uuid : Nat → Uuid) :
    generateId uuid (fun _ => false) = (uuid 0).text.take 8 := by
  rw [generateId, range_succ_eq_map, find?_cons]
  rfl

theorem length_migratedId (uuid : Nat → Nat → Uuid) (i : Nat) : (migratedId uuid i).length = 8 := by
  have hlength := (uuid i 0).length_text
  rw [migratedId, length_take]
  omega

variable (uuid : Nat → Nat → Uuid) (fileEntries : List FileEntry)

def previousId : Nat → Option JsString
  | 0 => none
  | n + 1 =>
    match fileEntries[n]? with
    | some (.entry _) => some (migratedId uuid n)
    | _ => previousId n

/-- The id that the record at `index` has when the one at `i` is migrated. -/
def idSeenAt (i index : Nat) : Option JsString :=
  (fileEntries[index]?.bind entry?).map fun target =>
    if index ≤ i then migratedId uuid index else target.id

/-- The body of the entry at `i` after the migration. -/
def migratedBody (i : Nat) : EntryBody → EntryBody
  | .compaction summary firstKept tokensBefore details fromHook (some index) =>
    .compaction summary ((idSeenAt uuid fileEntries i index).getD firstKept) tokensBefore details
      fromHook none
  | body => body

/-- The record at `i` after the migration. -/
def migratedAt (i : Nat) : FileEntry → FileEntry
  | .session h => .session { h with version := some 2 }
  | .entry e =>
    .entry { e with
      id := migratedId uuid i
      parentId := previousId uuid fileEntries i
      body := migratedBody uuid fileEntries i e.body }

variable {uuid fileEntries}

section

variable {front rest : List FileEntry}

theorem getElem?_of_split {r : FileEntry}
    (hfile : fileEntries = front ++ r :: rest) : fileEntries[front.length]? = some r := by
  rw [hfile, getElem?_append_right (le_refl _), Nat.sub_self]
  rfl

theorem map_id_migratedAt (i : Nat) (r : FileEntry) :
    ( entry? (migratedAt uuid fileEntries i r)).map SessionEntry.id =
      ( entry? r).map fun _ => migratedId uuid i := by
  cases r <;> rfl

theorem targetId_eq {e e' : SessionEntry} (hfile : fileEntries = front ++ .entry e :: rest)
    (he' : e'.id = migratedId uuid front.length) (index : Nat) :
    (((front.mapIdx (migratedAt uuid fileEntries) ++ .entry e' :: rest)[index]?).bind
        entry?).map SessionEntry.id =
      idSeenAt uuid fileEntries front.length index := by
  have hlength : (front.mapIdx (migratedAt uuid fileEntries)).length = front.length :=
    length_mapIdx
  rcases Nat.lt_trichotomy index front.length with hlt | rfl | hlt
  · have hget : fileEntries[index]? = some front[index] := by
      rw [hfile, getElem?_append_left hlt, getElem?_eq_getElem hlt]
    rw [getElem?_append_left (by omega), getElem?_mapIdx, getElem?_eq_getElem hlt,
      map_some, bind_some, map_id_migratedAt, idSeenAt, hget, bind_some]
    cases entry? front[index] with
    | none => rfl
    | some t => rw [map_some, map_some, if_pos hlt.le]
  · rw [getElem?_append_right (by omega), hlength, Nat.sub_self, idSeenAt, getElem?_of_split hfile]
    simp [ entry?, he']
  · obtain ⟨k, rfl⟩ := Nat.exists_eq_add_of_lt hlt
    have hget : fileEntries[front.length + k + 1]? = rest[k]? := by
      rw [hfile, getElem?_append_right (by omega),
        show front.length + k + 1 - front.length = k + 1 by omega]
      rfl
    have hout : (front.mapIdx (migratedAt uuid fileEntries) ++
        .entry e' :: rest)[front.length + k + 1]? = rest[k]? := by
      rw [getElem?_append_right (by omega), hlength,
        show front.length + k + 1 - front.length = k + 1 by omega]
      rfl
    rw [hout, idSeenAt, hget]
    cases rest[k]?.bind entry? with
    | none => rfl
    | some t =>
      rw [map_some, map_some, if_neg (by omega)]

theorem migrateV1ToV2_append (hfile : fileEntries = front ++ rest) :
    migrateV1ToV2 uuid (front.mapIdx (migratedAt uuid fileEntries))
        (previousId uuid fileEntries front.length) rest =
      fileEntries.mapIdx (migratedAt uuid fileEntries) := by
  induction rest generalizing front with
  | nil =>
    rw [migrateV1ToV2]
    congr 1
    rw [hfile, append_nil]
  | cons r rest ih =>
    have hfile' : fileEntries = (front ++ [r]) ++ rest := by
      rw [hfile, append_assoc]
      rfl
    specialize ih hfile'
    rw [mapIdx_concat, length_append, length_singleton, previousId, getElem?_of_split hfile] at ih
    cases r with
    | session h => exact ih
    | entry e =>
      rw [← ih, migrateV1ToV2]
      dsimp only
      rw [length_mapIdx, generateId_of_none_taken]
      congr 2
      cases hbody : e.body with
      | compaction summary firstKept tokensBefore details fromHook index =>
        cases index with
        | none => simp [migratedAt, migratedBody, migratedId, hbody]
        | some index =>
          dsimp only
          rw [targetId_eq hfile rfl]
          simp [migratedAt, migratedBody, migratedId, hbody]
      | _ => simp [migratedAt, migratedBody, migratedId, hbody]

end

theorem migrateV1ToV2_eq_mapIdx (uuid : Nat → Nat → Uuid) (fileEntries : List FileEntry) :
    migrateV1ToV2 uuid [] none fileEntries = fileEntries.mapIdx (migratedAt uuid fileEntries) :=
  @migrateV1ToV2_append uuid fileEntries [] fileEntries rfl

/-- Entries that form one chain in file order: distinct ids, and every entry behind the first
one has the entry before it as its parent. -/
structure FileChain (es : List SessionEntry) : Prop where
  nodup : (ids es).Nodup
  linked : es.IsChain fun p e => e.parentId = some p.id
  root : ∀ e, es.head? = some e → e.parentId = none

def entryIndices (fileEntries : List FileEntry) : List Nat :=
  (range fileEntries.length).filter fun i => (fileEntries[i]?.bind entry?).isSome

theorem entryIndices_nodup : (entryIndices fileEntries).Nodup := nodup_range.filter _

section

variable (front : List FileEntry)

theorem entryIndices_concat (r : FileEntry) : entryIndices (front ++ [r]) =
      entryIndices front ++ if ( entry? r).isSome then [front.length] else [] := by
  have hfront : (range front.length).filter
        (fun i => ((front ++ [r])[i]?.bind entry?).isSome) = entryIndices front := by
    refine filter_congr fun i hi => ?_
    rw [getElem?_append_left (mem_range.mp hi)]
  rw [entryIndices, length_append, length_singleton, range_succ, filter_append,
    hfront, filter_cons, filter_nil, getElem?_append_right (le_refl _), Nat.sub_self]
  rfl

theorem toList_session (h : SessionHeader) : ( entry? (.session h)).toList = [] := rfl

theorem toList_entry (e : SessionEntry) : ( entry? (.entry e)).toList = [e] := rfl

theorem getEntries_mapIdx_concat (r : FileEntry) :
    getEntries ((front ++ [r]).mapIdx (migratedAt uuid fileEntries)) =
      getEntries (front.mapIdx (migratedAt uuid fileEntries)) ++
        ( entry? (migratedAt uuid fileEntries front.length r)).toList := by
  rw [mapIdx_concat, getEntries_append]
  cases r <;> rfl

theorem ids_migrated : ids (getEntries (front.mapIdx (migratedAt uuid fileEntries))) =
      (entryIndices front).map (migratedId uuid) := by
  induction front using reverseRecOn with
  | nil => rfl
  | append_singleton front r ih =>
    rw [getEntries_mapIdx_concat, ids, map_append, ← ids, ih, entryIndices_concat, map_append]
    cases r <;> rfl

end

theorem migrated_linked {front rest : List FileEntry} (hfile : fileEntries = front ++ rest) :
    (getEntries (front.mapIdx (migratedAt uuid fileEntries))).IsChain
        (fun p e => e.parentId = some p.id) ∧
      (∀ e, (getEntries (front.mapIdx (migratedAt uuid fileEntries))).head? = some e →
        e.parentId = none) ∧
      previousId uuid fileEntries front.length =
        (getEntries (front.mapIdx (migratedAt uuid fileEntries))).getLast?.map SessionEntry.id := by
  induction front using reverseRecOn generalizing rest with
  | nil => exact ⟨.nil, fun e he => absurd he (by simp), rfl⟩
  | append_singleton front r ih =>
    rw [append_assoc] at hfile
    obtain ⟨hlinked, hroot, hlast⟩ := ih hfile
    rw [getEntries_mapIdx_concat, length_append, length_singleton, previousId,
      getElem?_of_split hfile]
    cases r with
    | session h =>
      rw [migratedAt, toList_session, append_nil]
      exact ⟨hlinked, hroot, hlast⟩
    | entry e =>
      rw [migratedAt, toList_entry]
      refine ⟨isChain_append.mpr ⟨hlinked, .singleton _, ?_⟩, ?_, ?_⟩
      · intro p hp e' he'
        cases he'
        rw [hlast, hp, map_some]
      · intro e' he'
        cases hes : getEntries (front.mapIdx (migratedAt uuid fileEntries)) with
        | nil =>
          rw [hes] at he' hlast
          cases he'
          exact hlast
        | cons first others =>
          rw [hes] at he' hroot
          exact hroot e' he'
      · rw [getLast?_concat, map_some]

/-- A file without ids: the empty string stands for an id that is absent. -/
def WithoutIds (fileEntries : List FileEntry) : Prop :=
  ∀ e ∈ getEntries fileEntries, e.id = []

instance (fileEntries : List FileEntry) : Decidable (WithoutIds fileEntries) :=
  inferInstanceAs (Decidable (∀ e ∈ getEntries fileEntries, e.id = []))

/-- The entry that a compaction says is the first one kept. -/
def SessionEntry.firstKept? (e : SessionEntry) : Option JsString :=
  match e.body with
  | .compaction _ firstKept _ _ _ _ => some firstKept
  | _ => none

/-- The index of the first entry kept, in a compaction of a file without ids. -/
def SessionEntry.firstKeptIndex? (e : SessionEntry) : Option Nat :=
  match e.body with
  | .compaction _ _ _ _ _ index => index
  | _ => none

/-- Every compaction whose index pointed at an entry names the id that this entry has now. -/
def CompactionsKept (before after : List FileEntry) : Prop :=
  ∀ (i index : Nat) (e target : SessionEntry), before[i]? = some (.entry e) →
    e.firstKeptIndex? = some index → before[index]? = some (.entry target) →
      ∃ e' target' : SessionEntry, after[i]? = some (.entry e') ∧
        after[index]? = some (.entry target') ∧ e'.firstKept? = some target'.id

/-- The entries draw distinct short ids at their first try. -/
def DrawsDistinct (uuid : Nat → Nat → Uuid) (fileEntries : List FileEntry) : Prop :=
  ∀ i ∈ entryIndices fileEntries, ∀ j ∈ entryIndices fileEntries,
    migratedId uuid i = migratedId uuid j → i = j

instance (uuid : Nat → Nat → Uuid) (fileEntries : List FileEntry) :
    Decidable (DrawsDistinct uuid fileEntries) :=
  inferInstanceAs (Decidable (∀ i ∈ entryIndices fileEntries, ∀ j ∈ entryIndices fileEntries,
    migratedId uuid i = migratedId uuid j → i = j))

def NoForwardIndex (fileEntries : List FileEntry) : Prop :=
  ∀ (i index : Nat) (e target : SessionEntry), fileEntries[i]? = some (.entry e) →
    e.firstKeptIndex? = some index → fileEntries[index]? = some (.entry target) → index ≤ i

theorem migrated_getElem? (i : Nat) : (fileEntries.mapIdx (migratedAt uuid fileEntries))[i]? =
      fileEntries[i]?.map (migratedAt uuid fileEntries i) :=
  getElem?_mapIdx

theorem firstKept?_migratedBody {i index : Nat} {e : SessionEntry} (id : JsString)
    (parentId : Option JsString) (hindex : e.firstKeptIndex? = some index) {target : SessionEntry}
    (htarget : fileEntries[index]? = some (.entry target)) :
    ({ e with id := id, parentId := parentId, body := migratedBody uuid fileEntries i e.body } :
        SessionEntry).firstKept? =
      some (if index ≤ i then migratedId uuid index else target.id) := by
  obtain ⟨_, _, timestamp, body⟩ := e
  cases body with
  | compaction summary firstKept tokensBefore details fromHook index' =>
    cases hindex
    simp [SessionEntry.firstKept?, migratedBody, idSeenAt, htarget, entry?]
  | _ => cases hindex

theorem compactionsKept_iff (hwithout : WithoutIds fileEntries) :
    CompactionsKept fileEntries (fileEntries.mapIdx (migratedAt uuid fileEntries)) ↔
      NoForwardIndex fileEntries := by
  constructor
  · intro h i index e target he hindex htarget
    obtain ⟨e', target', he', htarget', hkept⟩ := h i index e target he hindex htarget
    rw [migrated_getElem?, he, map_some, migratedAt] at he'
    rw [migrated_getElem?, htarget, map_some, migratedAt] at htarget'
    cases he'
    cases htarget'
    rw [firstKept?_migratedBody _ _ hindex htarget] at hkept
    by_contra hlt
    rw [if_neg hlt, hwithout target (mem_filterMap.mpr ⟨_, mem_of_getElem? htarget, rfl⟩)] at hkept
    have hid : [] = migratedId uuid index := some.inj hkept
    have hlength := length_migratedId uuid index
    rw [← hid] at hlength
    cases hlength
  · intro h i index e target he hindex htarget
    have hle := h i index e target he hindex htarget
    refine ⟨_, _, by rw [migrated_getElem?, he, map_some, migratedAt],
      by rw [migrated_getElem?, htarget, map_some, migratedAt], ?_⟩
    rw [firstKept?_migratedBody _ _ hindex htarget, if_pos hle]

theorem fileChain_migrated_iff :
    FileChain (getEntries (fileEntries.mapIdx (migratedAt uuid fileEntries))) ↔
      DrawsDistinct uuid fileEntries := by
  have hnodup : (ids (getEntries (fileEntries.mapIdx (migratedAt uuid fileEntries)))).Nodup ↔
      DrawsDistinct uuid fileEntries := by
    rw [ids_migrated, nodup_map_iff_inj_on entryIndices_nodup]
    rfl
  obtain ⟨hlinked, hroot, -⟩ :=
    @migrated_linked uuid fileEntries fileEntries [] (append_nil _).symm
  exact ⟨fun h => hnodup.mp h.nodup, fun h => ⟨hnodup.mpr h, hlinked, hroot⟩⟩

/-- The migration of a file without ids makes one chain with the compactions it had exactly
when the first draws are distinct and no compaction points at an entry behind it. -/
theorem migrateV1ToV2_chain_iff (uuid : Nat → Nat → Uuid) (fileEntries : List FileEntry)
    (hwithout : WithoutIds fileEntries) :
    (FileChain (getEntries (migrateV1ToV2 uuid [] none fileEntries)) ∧
        CompactionsKept fileEntries (migrateV1ToV2 uuid [] none fileEntries)) ↔
      DrawsDistinct uuid fileEntries ∧ NoForwardIndex fileEntries := by
  rw [migrateV1ToV2_eq_mapIdx, fileChain_migrated_iff, compactionsKept_iff hwithout]

def promptWithoutId (text : String) : FileEntry :=
  .entry ⟨[], none, js "t", .message (.user ⟨.string (js text), 0⟩)⟩

def compactionWithoutId (index : Nat) : FileEntry :=
  .entry ⟨[], none, js "t", .compaction (js "s") [] 0 none none (some index)⟩

/-- Two prompts that draw the same id get it both. -/
theorem migrateV1ToV2_repeats_id : WithoutIds [promptWithoutId "a", promptWithoutId "b"] ∧
      ¬ FileChain (getEntries (migrateV1ToV2 (fun _ _ => ⟨replicate 36 0x30, rfl⟩) [] none
        [promptWithoutId "a", promptWithoutId "b"])) := by
  refine ⟨by decide, fun h => ?_⟩
  have hnot : ¬ (ids (getEntries (migrateV1ToV2 (fun _ _ => ⟨replicate 36 0x30, rfl⟩) [] none
      [promptWithoutId "a", promptWithoutId "b"]))).Nodup := by decide
  exact hnot h.nodup

/-- Distinct draws and a compaction that points back. -/
theorem migrateV1ToV2_chain_iff_sample :
    CompactionsKept [promptWithoutId "a", promptWithoutId "b", compactionWithoutId 1]
      (migrateV1ToV2 (Draws.repeating 0x30).uuid [] none
        [promptWithoutId "a", promptWithoutId "b", compactionWithoutId 1]) := by
  refine ((migrateV1ToV2_chain_iff _ _ (by decide)).mpr ⟨by decide, ?_⟩).2
  intro i index e target he hindex htarget
  match i with
  | 0 | 1 =>
    cases he
    cases hindex
  | 2 =>
    cases he
    cases hindex
    decide
  | n + 3 => cases he

end AcademicAgent
