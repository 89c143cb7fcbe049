import Mathlib.Data.List.Nodup

/-!
# Insertion-ordered maps

The `Map` of the language: at most one value per key, iterated in the order in which the keys
were first set.
-/

namespace AcademicAgent

open List

variable {κ υ : Type} [DecidableEq κ]

variable {m : List (κ × υ)}

/-- Replace the value of a present key in place, or add the key at the end. -/
def assocSet (k : κ) (v : υ) : List (κ × υ) → List (κ × υ)
  | [] => [(k, v)]
  | (k', v') :: rest => if k' = k then (k, v) :: rest else (k', v') :: assocSet k v rest

def assocGet (k : κ) : List (κ × υ) → Option υ
  | [] => none
  | (k', v') :: rest => if k' = k then some v' else assocGet k rest

theorem assocGet_assocSet (k k' : κ) (v : υ) (m : List (κ × υ)) :
    assocGet k' (assocSet k v m) = if k = k' then some v else assocGet k' m := by
  induction m with
  | nil => simp [assocSet, assocGet]
  | cons p rest ih =>
    obtain ⟨k₀, v₀⟩ := p
    by_cases hk : k₀ = k
    · subst hk
      by_cases hk' : k₀ = k'
      · simp [assocSet, assocGet, hk']
      · simp [assocSet, assocGet, hk']
    · by_cases hk' : k₀ = k'
      · subst hk'
        simp [assocSet, assocGet, hk, Ne.symm hk]
      · simp [assocSet, assocGet, hk, hk', ih]

theorem mem_keys_assocSet (k k' : κ) (v : υ) (m : List (κ × υ)) :
    k' ∈ (assocSet k v m).map Prod.fst ↔ k' = k ∨ k' ∈ m.map Prod.fst := by
  induction m with
  | nil => simp [assocSet]
  | cons p rest ih =>
    obtain ⟨k₀, v₀⟩ := p
    by_cases hk : k₀ = k
    · subst hk
      simp [assocSet]
    · simp only [assocSet, hk, ite_false, map_cons, mem_cons, ih]
      tauto

theorem nodup_keys_assocSet (k : κ) (v : υ) (h : (m.map Prod.fst).Nodup) :
    ((assocSet k v m).map Prod.fst).Nodup := by
  induction m with
  | nil => simp [assocSet]
  | cons p rest ih =>
    obtain ⟨k₀, v₀⟩ := p
    simp only [map_cons, nodup_cons] at h
    by_cases hk : k₀ = k
    · subst hk
      simpa [assocSet] using h
    · rw [assocSet, if_neg hk, map_cons, nodup_cons, mem_keys_assocSet, not_or]
      exact ⟨⟨hk, h.1⟩, ih h.2⟩

theorem assocSet_of_not_mem {k : κ} (v : υ) (h : k ∉ m.map Prod.fst) :
    assocSet k v m = m ++ [(k, v)] := by
  induction m with
  | nil => rfl
  | cons p rest ih =>
    rw [map_cons, mem_cons, not_or] at h
    rw [assocSet, if_neg (Ne.symm h.1), ih h.2, cons_append]

theorem mem_assocSet {k : κ} {v : υ} {p : κ × υ} (h : p ∈ assocSet k v m) : p = (k, v) ∨ p ∈ m := by
  induction m with
  | nil => exact .inl (mem_singleton.mp h)
  | cons q rest ih =>
    rw [assocSet] at h
    split_ifs at h
    · rcases mem_cons.mp h with rfl | hrest
      · exact .inl rfl
      · exact .inr (mem_cons_of_mem _ hrest)
    · rcases mem_cons.mp h with rfl | hrest
      · exact .inr mem_cons_self
      · exact (ih hrest).imp_right fun hmem => mem_cons_of_mem _ hmem

omit [DecidableEq κ] in
theorem nodup_keys_filter (p : κ × υ → Bool) (h : (m.map Prod.fst).Nodup) :
    ((m.filter p).map Prod.fst).Nodup :=
  h.sublist (filter_sublist.map Prod.fst)

theorem assocGet_filter_ne (k k' : κ) (m : List (κ × υ)) :
    assocGet k' (m.filter fun p => !decide (p.1 = k)) = if k = k' then none else assocGet k' m := by
  induction m with
  | nil => simp [assocGet]
  | cons p rest ih =>
    obtain ⟨k₀, v₀⟩ := p
    by_cases hk : k₀ = k
    · subst hk
      by_cases hk' : k₀ = k' <;> simp_all [assocGet]
    · by_cases hk' : k₀ = k'
      · subst hk'
        simp [assocGet, hk, Ne.symm hk]
      · simp_all [assocGet]

theorem assocGet_eq_none_iff (k : κ) (m : List (κ × υ)) :
    assocGet k m = none ↔ k ∉ m.map Prod.fst := by
  induction m with
  | nil => simp [assocGet]
  | cons p rest ih =>
    obtain ⟨k₀, v₀⟩ := p
    by_cases hk : k₀ = k
    · simp [assocGet, hk]
    · simp only [assocGet, hk, ite_false, ih, map_cons, mem_cons, not_or]
      exact ⟨fun h => ⟨Ne.symm hk, h⟩, fun h => h.2⟩

/-- A map with its keys in insertion order, each key once. -/
structure JsMap (κ υ : Type) [DecidableEq κ] where
  /-- The pairs, in iteration order. -/
  entries : List (κ × υ)
  /-- No key occurs twice. -/
  nodup : (entries.map Prod.fst).Nodup

namespace JsMap

def empty : JsMap κ υ := ⟨[], nodup_nil⟩

section

variable (m : JsMap κ υ) (k : κ)

def get : Option υ := assocGet k m.entries

def has : Bool := (m.get k).isSome

def set (v : υ) : JsMap κ υ :=
  ⟨assocSet k v m.entries, nodup_keys_assocSet k v m.nodup⟩

def delete : JsMap κ υ :=
  ⟨m.entries.filter fun p => !decide (p.1 = k), nodup_keys_filter _ m.nodup⟩

end

@[simp] theorem get_empty (k : κ) : (empty : JsMap κ υ).get k = none := rfl

@[simp] theorem has_empty (k : κ) : (empty : JsMap κ υ).has k = false := rfl

section

variable (m : JsMap κ υ)

theorem get_set (k k' : κ) (v : υ) : (m.set k v).get k' = if k = k' then some v else m.get k' :=
  assocGet_assocSet k k' v m.entries

@[simp] theorem get_set_self (k : κ) (v : υ) : (m.set k v).get k = some v := by
  simp [get_set]

theorem get_delete (k k' : κ) : (m.delete k).get k' = if k = k' then none else m.get k' :=
  assocGet_filter_ne k k' m.entries

theorem has_eq_true_iff (k : κ) : m.has k = true ↔ ∃ v, m.get k = some v := by
  rw [has, Option.isSome_iff_exists]

theorem has_eq_false_iff (k : κ) : m.has k = false ↔ m.get k = none := by
  rw [has, Option.isSome_eq_false_iff, Option.isNone_iff_eq_none]

end

end JsMap

end AcademicAgent
