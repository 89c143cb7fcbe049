import Mathlib.Data.List.Basic

/-!
# Writing behind

A store keeps its values in memory and marks what was assigned since the last write that
succeeded.
-/

namespace AcademicAgent

open List

/-- A queued write: what it assigns, what it may change with it, and its values. -/
structure QueuedWrite (P V : Type*) where
  paths : P → Prop
  touches : P → Prop
  values : P → V

/-- The store: what is in the file and in memory, what is marked, and the queue. -/
structure WriteBehind (P V : Type*) where
  file : P → V
  memory : P → V
  marked : P → Prop
  queue : List (QueuedWrite P V)
  /-- What was assigned, and what may have changed with it, ever. -/
  assigned : P → Prop
  touched : P → Prop
  /-- What the file last held that was not written here. -/
  origin : P → V
  /-- The last write succeeded. -/
  written : Prop

namespace WriteBehind

variable {P V : Type*}

def Retained (s : WriteBehind P V) (p : P) : Prop :=
  s.marked p ∨ (∃ w ∈ s.queue, w.paths p) ∨ s.file p = s.memory p

structure Inv (s : WriteBehind P V) : Prop where
  marked_assigned : ∀ p, s.marked p → s.assigned p
  queued_assigned : ∀ w ∈ s.queue, ∀ p, w.paths p → s.assigned p
  queued_touched : ∀ w ∈ s.queue, ∀ p, w.touches p → s.touched p
  latest : ∀ front w back p, s.queue = front ++ w :: back → w.paths p →
    (∀ v ∈ back, ¬ v.paths p) → w.values p = s.memory p
  last_marked : ∀ front w p, s.queue = front ++ [w] → s.marked p → w.paths p
  clean : s.queue = [] → s.written → ∀ p, ¬ s.marked p
  retained : ∀ p, s.assigned p → s.Retained p
  untouched : ∀ p, ¬ s.touched p → s.file p = s.origin p

/-- Once the queue is empty and the last write has succeeded, every assignment is in the
file, and nothing else has changed. -/
theorem Inv.drained {s : WriteBehind P V} (h : s.Inv) (hqueue : s.queue = [])
    (hwritten : s.written) :
    (∀ p, s.assigned p → s.file p = s.memory p) ∧ ∀ p, ¬ s.touched p → s.file p = s.origin p := by
  refine ⟨fun p hp => ?_, h.untouched⟩
  rcases h.retained p hp with hmarked | ⟨w, hw, -⟩ | hfile
  · exact absurd hmarked (h.clean hqueue hwritten p)
  · rw [hqueue] at hw
    cases hw
  · exact hfile

/-- An assignment marks and queues what it assigns. -/
structure Assign (s t : WriteBehind P V) (paths touches : P → Prop) : Prop where
  file_eq : t.file = s.file
  origin_eq : t.origin = s.origin
  memory_eq : ∀ p, ¬ paths p → s.assigned p → t.memory p = s.memory p
  marked_iff : ∀ p, t.marked p ↔ s.marked p ∨ paths p
  queue_eq : ∃ w, t.queue = s.queue ++ [w] ∧ (∀ p, w.paths p ↔ t.marked p) ∧
    (∀ p, w.touches p → t.touched p) ∧ w.values = t.memory
  assigned_iff : ∀ p, t.assigned p ↔ s.assigned p ∨ paths p
  touched_of : ∀ p, s.touched p ∨ touches p → t.touched p

structure Commit (s t : WriteBehind P V) (w : QueuedWrite P V) : Prop where
  queue_eq : s.queue = w :: t.queue
  memory_eq : t.memory = s.memory
  origin_eq : t.origin = s.origin
  file_paths : ∀ p, w.paths p → t.file p = w.values p
  file_other : ∀ p, s.assigned p → ¬ w.paths p → t.file p = s.file p
  file_untouched : ∀ p, ¬ w.touches p → t.file p = s.file p
  not_marked : ∀ p, ¬ t.marked p
  assigned_eq : t.assigned = s.assigned
  touched_eq : t.touched = s.touched

/-- A write that fails, or a change of the file, that loses no assignment. -/
structure Disturb (s t : WriteBehind P V) : Prop where
  queue_eq : t.queue = s.queue ∨ ∃ w, s.queue = w :: t.queue
  memory_eq : t.memory = s.memory
  marked_eq : t.marked = s.marked
  assigned_eq : t.assigned = s.assigned
  touched_eq : t.touched = s.touched
  written_of : t.queue = [] → t.written → s.queue = [] ∧ s.written
  untouched : ∀ p, ¬ t.touched p → t.file p = t.origin p
  retained : ∀ p, s.assigned p → t.Retained p

section

variable {s t : WriteBehind P V}

theorem Inv.assign {paths touches : P → Prop} (h : s.Inv) (hstep : Assign s t paths touches) :
    t.Inv := by
  obtain ⟨w, hqueue, hpaths, htouches, hvalues⟩ := hstep.queue_eq
  have hmarked (p : P) (hp : t.marked p) : t.assigned p := by
    rw [hstep.assigned_iff]
    rcases (hstep.marked_iff p).mp hp with hp | hp
    · exact .inl (h.marked_assigned p hp)
    · exact .inr hp
  refine ⟨hmarked, ?_, ?_, ?_, ?_, ?_, ?_, ?_⟩
  · intro v hv p hp
    rw [hqueue, mem_append, mem_singleton] at hv
    rcases hv with hv | rfl
    · exact (hstep.assigned_iff p).mpr (.inl (h.queued_assigned v hv p hp))
    · exact hmarked p ((hpaths p).mp hp)
  · intro v hv p hp
    rw [hqueue, mem_append, mem_singleton] at hv
    rcases hv with hv | rfl
    · exact hstep.touched_of p (.inl (h.queued_touched v hv p hp))
    · exact htouches p hp
  · intro front v back p hsplit hp hback
    rcases eq_nil_or_concat back with rfl | ⟨back, last, rfl⟩
    · -- the write that was queued now
      have hsame : w = v := by
        rw [hqueue] at hsplit
        exact (append_inj_right' hsplit rfl |> List.cons.inj).1
      rw [← hsame, hvalues]
    · rw [hqueue, concat_eq_append, ← cons_append, ← append_assoc] at hsplit
      obtain ⟨hfront, hlast⟩ := append_inj' hsplit rfl
      have hsame : w = last := (List.cons.inj hlast).1
      have hnot : ¬ t.marked p := fun hm =>
        hback last (by simp) (hsame ▸ (hpaths p).mpr hm)
      have hno : ¬ paths p := fun hpp => hnot ((hstep.marked_iff p).mpr (.inr hpp))
      have hmem : v ∈ s.queue := by
        rw [hfront]
        simp
      rw [hstep.memory_eq p hno (h.queued_assigned v hmem p hp)]
      exact h.latest front v back p hfront hp fun u hu => hback u (by simp [hu])
  · intro front v p hsplit hp
    have hsame : w = v := by
      rw [hqueue] at hsplit
      exact (List.cons.inj (append_inj_right' hsplit rfl)).1
    rw [← hsame]
    exact (hpaths p).mpr hp
  · intro hnil
    rw [hqueue] at hnil
    exact absurd hnil (by simp)
  · intro p hp
    rw [hstep.assigned_iff] at hp
    by_cases hm : t.marked p
    · exact .inl hm
    · have hno : ¬ paths p := fun hpp => hm ((hstep.marked_iff p).mpr (.inr hpp))
      have hold : s.assigned p := hp.resolve_right hno
      rcases h.retained p hold with hmarked | ⟨v, hv, hvp⟩ | hfile
      · exact .inl ((hstep.marked_iff p).mpr (.inl hmarked))
      · exact .inr (.inl ⟨v, by rw [hqueue]; exact mem_append_left _ hv, hvp⟩)
      · refine .inr (.inr ?_)
        rw [hstep.file_eq, hfile, hstep.memory_eq p hno hold]
  · intro p hp
    rw [hstep.file_eq, hstep.origin_eq]
    exact h.untouched p fun htouched => hp (hstep.touched_of p (.inl htouched))

theorem Inv.commit {w : QueuedWrite P V} (h : s.Inv) (hstep : Commit s t w) : t.Inv := by
  have hmem {v : QueuedWrite P V} (hv : v ∈ t.queue) : v ∈ s.queue := by
    rw [hstep.queue_eq]
    exact mem_cons_of_mem _ hv
  refine ⟨fun p hp => absurd hp (hstep.not_marked p), ?_, ?_, ?_,
    fun front v p _ hp => absurd hp (hstep.not_marked p), fun _ _ => hstep.not_marked, ?_, ?_⟩
  · intro v hv p hp
    rw [hstep.assigned_eq]
    exact h.queued_assigned v (hmem hv) p hp
  · intro v hv p hp
    rw [hstep.touched_eq]
    exact h.queued_touched v (hmem hv) p hp
  · intro front v back p hsplit hp hback
    rw [hstep.memory_eq]
    refine h.latest (w :: front) v back p ?_ hp hback
    rw [hstep.queue_eq, hsplit]
    rfl
  · intro p hp
    rw [hstep.assigned_eq] at hp
    by_cases hlater : ∃ v ∈ t.queue, v.paths p
    · exact .inr (.inl hlater)
    have hno : ∀ v ∈ t.queue, ¬ v.paths p := fun v hv hvp => hlater ⟨v, hv, hvp⟩
    by_cases hw : w.paths p
    · refine .inr (.inr ?_)
      rw [hstep.file_paths p hw, hstep.memory_eq]
      exact h.latest [] w t.queue p hstep.queue_eq hw hno
    · rcases h.retained p hp with hmarked | ⟨v, hv, hvp⟩ | hfile
      · -- what was marked is in the last write, which is another than this one
        obtain ⟨front, last, hsplit⟩ : ∃ front last, s.queue = front ++ [last] := by
          rcases eq_nil_or_concat s.queue with hnil | ⟨front, last, hlast⟩
          · rw [hstep.queue_eq] at hnil
            cases hnil
          · exact ⟨front, last, by rw [hlast, concat_eq_append]⟩
        have hlast := h.last_marked front last p hsplit hmarked
        have hin : last ∈ w :: t.queue := by
          rw [← hstep.queue_eq, hsplit]
          simp
        rcases mem_cons.mp hin with rfl | hin
        · exact absurd hlast hw
        · exact absurd hlast (hno last hin)
      · rw [hstep.queue_eq] at hv
        rcases mem_cons.mp hv with rfl | hv
        · exact absurd hvp hw
        · exact absurd hvp (hno v hv)
      · refine .inr (.inr ?_)
        rw [hstep.file_other p hp hw, hfile, hstep.memory_eq]
  · intro p hp
    rw [hstep.touched_eq] at hp
    have hw : ¬ w.touches p := fun hw => hp (h.queued_touched w
      (by rw [hstep.queue_eq]; exact mem_cons_self) p hw)
    rw [hstep.file_untouched p hw, hstep.origin_eq]
    exact h.untouched p hp

theorem Inv.disturb (h : s.Inv) (hstep : Disturb s t) : t.Inv := by
  have hsuffix : ∃ gone, s.queue = gone ++ t.queue := by
    rcases hstep.queue_eq with heq | ⟨w, heq⟩
    · exact ⟨[], heq.symm⟩
    · exact ⟨[w], heq⟩
  obtain ⟨gone, hqueue⟩ := hsuffix
  have hmem {v : QueuedWrite P V} (hv : v ∈ t.queue) : v ∈ s.queue := by
    rw [hqueue]
    exact mem_append_right _ hv
  refine ⟨?_, ?_, ?_, ?_, ?_, ?_, ?_, hstep.untouched⟩
  · rw [hstep.marked_eq, hstep.assigned_eq]
    exact h.marked_assigned
  · intro v hv p hp
    rw [hstep.assigned_eq]
    exact h.queued_assigned v (hmem hv) p hp
  · intro v hv p hp
    rw [hstep.touched_eq]
    exact h.queued_touched v (hmem hv) p hp
  · intro front v back p hsplit hp hback
    rw [hstep.memory_eq]
    refine h.latest (gone ++ front) v back p ?_ hp hback
    rw [hqueue, hsplit, append_assoc]
  · intro front v p hsplit hp
    rw [hstep.marked_eq] at hp
    refine h.last_marked (gone ++ front) v p ?_ hp
    rw [hqueue, hsplit, append_assoc]
  · intro hnil hwritten
    obtain ⟨hnil', hwritten'⟩ := hstep.written_of hnil hwritten
    rw [hstep.marked_eq]
    exact h.clean hnil' hwritten'
  · rw [hstep.assigned_eq]
    exact hstep.retained

end

end WriteBehind

end AcademicAgent
