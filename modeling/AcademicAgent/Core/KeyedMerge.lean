import AcademicAgent.Core.JsMap
import Mathlib.Data.List.Induction

/-!
# Merging by key

Elements are collected one after another, each under its own key: an element whose key is new
comes last, and one whose key is there takes the place of the element before.
-/

namespace AcademicAgent

open List

section

variable {α κ : Type} [DecidableEq κ] (key : α → κ)

variable {m : List α}

/-- Put an element in the place of the one with its key, or last. -/
def place (a : α) : List α → List α
  | [] => [a]
  | b :: rest => if key b = key a then a :: rest else b :: place a rest

def placeAll (merged xs : List α) : List α := xs.foldl (fun merged a => place key a merged) merged

def mergeByKey (xs : List α) : List α := placeAll key [] xs

variable {key}

theorem keys_place (a : α) (m : List α) : (place key a m).map key =
      if key a ∈ m.map key then m.map key else m.map key ++ [key a] := by
  induction m with
  | nil => rfl
  | cons b m ih =>
    by_cases hb : key b = key a
    · simp [place, hb]
    · simp only [place, hb, ite_false, map_cons, ih, mem_cons, Ne.symm hb, false_or]
      split
      · rfl
      · rfl

theorem mem_keys_place {a : α} {k : κ} :
    k ∈ (place key a m).map key ↔ k = key a ∨ k ∈ m.map key := by
  rw [keys_place]
  split
  · rename_i hmem
    constructor
    · exact .inr
    · rintro (rfl | hk)
      · exact hmem
      · exact hk
  · rw [mem_append, mem_singleton, or_comm]

theorem nodup_keys_place (a : α) (h : (m.map key).Nodup) : ((place key a m).map key).Nodup := by
  rw [keys_place]
  split
  · exact h
  · rename_i hmem
    rw [← concat_eq_append]
    exact h.concat hmem

theorem find?_place (a : α) (m : List α) (k : κ) :
    (place key a m).find? (fun b => decide (key b = k)) =
      if key a = k then some a else m.find? fun b => decide (key b = k) := by
  induction m with
  | nil =>
    by_cases ha : key a = k
    · simp [place, ha]
    · simp [place, ha]
  | cons b m ih =>
    by_cases hb : key b = key a
    · by_cases ha : key a = k
      all_goals simp [place, hb, ha]
    · by_cases ha : key a = k
      · have hbk : key b ≠ k := fun h => hb (h.trans ha.symm)
        simp only [place, hb, ite_false, find?_cons, hbk, decide_false]
        rw [ih]
      · simp only [place, hb, ite_false, find?_cons, ha] at ih ⊢
        rw [ih]

theorem place_place_of_eq {a b : α} (h : key b = key a) (m : List α) :
    place key a (place key b m) = place key a m := by
  induction m with
  | nil => simp [place, h]
  | cons c m ih =>
    by_cases hc : key c = key a
    · simp [place, h, hc]
    · simp [place, h, hc, ih]

/-- Two elements with different keys can be placed in either order when the first has
its place already. -/
theorem place_comm {a c : α} (hne : key a ≠ key c) (hmem : key a ∈ m.map key) :
    place key a (place key c m) = place key c (place key a m) := by
  induction m with
  | nil => cases hmem
  | cons b m ih =>
    by_cases hc : key b = key c
    · have ha : key b ≠ key a := fun h => hne (h.symm.trans hc)
      simp [place, hc, hne.symm]
    · by_cases ha : key b = key a
      · simp [place, ha, hne]
      · have hrest : key a ∈ m.map key := by
          rw [map_cons, mem_cons] at hmem
          exact hmem.resolve_left fun h => ha h.symm
        simp [place, hc, ha, ih hrest]

@[simp] theorem placeAll_cons (m : List α) (a : α) (xs : List α) :
    placeAll key m (a :: xs) = placeAll key (place key a m) xs := rfl

theorem placeAll_append (m xs ys : List α) :
    placeAll key m (xs ++ ys) = placeAll key (placeAll key m xs) ys :=
  foldl_append

/-- An element that has its place can be placed before elements with other keys. -/
theorem place_placeAll {a : α} {xs : List α} (hmem : key a ∈ m.map key) (hxs : key a ∉ xs.map key) :
    place key a (placeAll key m xs) = placeAll key (place key a m) xs := by
  induction xs generalizing m with
  | nil => rfl
  | cons c xs ih =>
    rw [map_cons, mem_cons, not_or] at hxs
    rw [placeAll_cons, placeAll_cons, ih (mem_keys_place.mpr (.inr hmem)) hxs.2,
      place_comm hxs.1 hmem]

/-- Placing an element among distinct ones and then those is the same as placing it last. -/
theorem placeAll_place (a : α) {xs : List α} (hxs : (xs.map key).Nodup) :
    placeAll key m (place key a xs) = place key a (placeAll key m xs) := by
  induction xs generalizing m with
  | nil => rfl
  | cons b xs ih =>
    rw [map_cons, nodup_cons] at hxs
    by_cases hb : key b = key a
    · have hmem : key a ∈ (place key b m).map key := mem_keys_place.mpr (.inl hb.symm)
      rw [place, if_pos hb, placeAll_cons, placeAll_cons, place_placeAll hmem (hb ▸ hxs.1),
        place_place_of_eq hb]
    · rw [place, if_neg hb, placeAll_cons, placeAll_cons, ih hxs.2]

theorem nodup_keys_placeAll (h : (m.map key).Nodup) (xs : List α) :
    ((placeAll key m xs).map key).Nodup := by
  induction xs generalizing m with
  | nil => exact h
  | cons a xs ih => exact ih (nodup_keys_place a h)

theorem nodup_keys_mergeByKey (xs : List α) : ((mergeByKey key xs).map key).Nodup :=
  nodup_keys_placeAll (m := []) nodup_nil xs

theorem placeAll_mergeByKey (m xs : List α) :
    placeAll key m (mergeByKey key xs) = placeAll key m xs := by
  induction xs using reverseRecOn with
  | nil => rfl
  | append_singleton xs a ih =>
    have hmerge : mergeByKey key (xs ++ [a]) = place key a (mergeByKey key xs) :=
      placeAll_append [] xs [a]
    rw [hmerge, placeAll_place a (nodup_keys_mergeByKey xs), ih, placeAll_append]
    rfl

theorem mergeByKey_merged_append (xs ys : List α) :
    mergeByKey key (mergeByKey key xs ++ ys) = mergeByKey key (xs ++ ys) := by
  rw [mergeByKey, placeAll_append, placeAll_mergeByKey, ← placeAll_append, mergeByKey]

theorem mergeByKey_append_merged (xs ys : List α) :
    mergeByKey key (xs ++ mergeByKey key ys) = mergeByKey key (xs ++ ys) := by
  rw [mergeByKey, placeAll_append, placeAll_mergeByKey, ← placeAll_append, mergeByKey]

theorem find?_mergeByKey (xs : List α) (k : κ) :
    (mergeByKey key xs).find? (fun a => decide (key a = k)) =
      xs.reverse.find? fun a => decide (key a = k) := by
  induction xs using reverseRecOn with
  | nil => rfl
  | append_singleton xs a ih =>
    have hmerge : mergeByKey key (xs ++ [a]) = place key a (mergeByKey key xs) :=
      placeAll_append [] xs [a]
    rw [hmerge, find?_place, ih, reverse_append, reverse_singleton, singleton_append, find?_cons]
    by_cases ha : key a = k
    · simp [ha]
    · simp [ha]

theorem assocSet_keyed (a : α) (m : List α) :
    assocSet (key a) a (m.map fun b => (key b, b)) = (place key a m).map fun b => (key b, b) := by
  induction m with
  | nil => rfl
  | cons b m ih =>
    by_cases hb : key b = key a
    · simp [assocSet, place, hb]
    · simp [assocSet, place, hb, ih]

end

end AcademicAgent
