import Mathlib.Data.List.Perm.Basic

/-!
# Replacing regions of a sequence

A list of regions in order cuts a sequence into stretches that are kept and regions that are
replaced.
-/

namespace AcademicAgent

open List

variable {α β : Type*}

/-- A region of a sequence and what takes its place. -/
structure Region (α : Type*) where
  start : Nat
  length : Nat
  text : List α

namespace Region

def stop (r : Region α) : Nat := r.start + r.length

def map (f : α → β) (r : Region α) : Region β := ⟨r.start, r.length, r.text.map f⟩

def erase (r : Region α) : Region α := ⟨r.start, r.length, []⟩

end Region

/-- The stretches behind a position that lie outside the regions, with the texts of
the regions between them. -/
def splice (xs : List α) : Nat → List (Region α) → List α
  | pos, [] => xs.drop pos
  | pos, r :: rs => (xs.take r.start).drop pos ++ r.text ++ splice xs r.stop rs

def outside (xs : List α) (rs : List (Region α)) : List α := splice xs 0 (rs.map Region.erase)

/-- Regions in order, none of which reaches into the next or behind the end. -/
structure InOrder (xs : List α) (rs : List (Region α)) : Prop where
  disjoint : rs.Pairwise fun r s => r.stop ≤ s.start
  bounded : ∀ r ∈ rs, r.stop ≤ xs.length

section Splice

variable {xs : List α} {rs : List (Region α)}

theorem map_splice (f : α → β) (pos : Nat) :
    (splice xs pos rs).map f = splice (xs.map f) pos (rs.map (Region.map f)) := by
  induction rs generalizing pos with
  | nil => exact map_drop
  | cons r rs ih =>
    simp only [splice, map_append, map_cons, map_drop, map_take, ih]
    rfl

theorem mem_splice {x : α} {pos : Nat} :
    x ∈ splice xs pos rs ↔ x ∈ splice xs pos (rs.map Region.erase) ∨ ∃ r ∈ rs, x ∈ r.text := by
  induction rs generalizing pos with
  | nil => simp only [map_nil, not_mem_nil, false_and, exists_false, or_false]
  | cons r rs ih =>
    have hstop : r.erase.stop = r.stop := rfl
    simp only [splice, map_cons, mem_append, ih, hstop, exists_mem_cons_iff]
    simp only [Region.erase, not_mem_nil, or_false]
    tauto

theorem take_append_splice {pos q : Nat} (hpos : pos ≤ q) (hq : q ≤ xs.length)
    (hbehind : ∀ r ∈ rs, q ≤ r.start) :
    splice xs pos rs = (xs.take q).drop pos ++ splice xs q rs := by
  cases rs with
  | nil =>
    have hcut := take_append_drop q xs
    have hlength : pos ≤ (xs.take q).length := by
      rw [length_take]
      omega
    calc xs.drop pos = (xs.take q ++ xs.drop q).drop pos := by rw [hcut]
      _ = (xs.take q).drop pos ++ xs.drop q := drop_append_of_le_length hlength
  | cons r rs =>
    have hstart : q ≤ r.start := hbehind r mem_cons_self
    have hcut : xs.take r.start = xs.take q ++ (xs.take r.start).drop q := by
      have htake := take_append_drop q (xs.take r.start)
      rw [take_take, Nat.min_eq_left hstart] at htake
      exact htake.symm
    have hlength : pos ≤ (xs.take q).length := by
      rw [length_take]
      omega
    have hdrop : (xs.take r.start).drop pos = (xs.take q).drop pos ++ (xs.take r.start).drop q := by
      conv_lhs => rw [hcut]
      exact drop_append_of_le_length hlength
    rw [splice, splice, hdrop]
    simp only [append_assoc]

/-- Replacing the regions one after another, the last one first, reads as `splice`. -/
theorem foldr_eq_splice (h : InOrder xs rs) :
    rs.foldr (fun r ys => ys.take r.start ++ r.text ++ ys.drop r.stop) xs = splice xs 0 rs := by
  obtain ⟨hdisjoint, hbounded⟩ := h
  induction rs with
  | nil => exact (drop_zero).symm
  | cons r rs ih =>
    rw [pairwise_cons] at hdisjoint
    rw [forall_mem_cons] at hbounded
    have hrest := ih hdisjoint.2 hbounded.2
    have hstop : r.stop ≤ xs.length := hbounded.1
    have hstart : r.start ≤ r.stop := Nat.le_add_right _ _
    -- what is left of the end of the region is as it was, because the later ones are behind it
    have hsplit : splice xs 0 rs = xs.take r.stop ++ splice xs r.stop rs := by
      rw [take_append_splice (Nat.zero_le _) hstop hdisjoint.1, drop_zero]
    have hlength : (xs.take r.stop).length = r.stop := by
      rw [length_take]
      omega
    rw [foldr_cons, hrest, hsplit, splice, drop_zero]
    congr 1
    · rw [take_append_of_le_length (by omega), take_take, Nat.min_eq_left hstart]
    · rw [drop_append_of_le_length (by omega), drop_eq_nil_of_le (by omega), nil_append]

end Splice

/-- Two regions of which neither reaches into the other. -/
def Region.Apart (r s : Region α) : Prop := r.stop ≤ s.start ∨ s.stop ≤ r.start

/-- Regions at one place are empty there, and their texts may stand in either order. -/
def Region.Commutes (r s : Region α) : Prop :=
  r.start = s.start → r.length = 0 ∧ s.length = 0 ∧ r.text ++ s.text = s.text ++ r.text

theorem Region.Apart.symm {r s : Region α} (h : r.Apart s) : s.Apart r := Or.symm h

theorem Region.Commutes.symm {r s : Region α} (h : r.Commutes s) : s.Commutes r := by
  intro hstart
  obtain ⟨hr, hs, htext⟩ := h hstart.symm
  exact ⟨hs, hr, htext.symm⟩

theorem splice_insert (xs : List α) (pos : Nat) (front back : List (Region α)) {r s : Region α}
    (hstart : r.start = s.start) (hr : r.length = 0) (hs : s.length = 0) :
    ∃ x y, splice xs pos (front ++ r :: s :: back) = x ++ (r.text ++ s.text) ++ y ∧
      splice xs pos (front ++ s :: r :: back) = x ++ (s.text ++ r.text) ++ y := by
  have hstop : r.stop = r.start := by rw [Region.stop, hr, Nat.add_zero]
  have hstop' : s.stop = r.start := by rw [Region.stop, hs, hstart, Nat.add_zero]
  have hnone : (xs.take r.start).drop r.start = [] :=
    drop_eq_nil_of_le (length_take_le _ _)
  induction front generalizing pos with
  | nil =>
    refine ⟨(xs.take r.start).drop pos, splice xs r.start back, ?_, ?_⟩
    all_goals simp only [nil_append, splice, hstop, hstop', ← hstart, hnone, append_assoc]
  | cons q front ih =>
    obtain ⟨x, y, hx, hy⟩ := ih q.stop
    refine ⟨(xs.take q.start).drop pos ++ q.text ++ x, y, ?_, ?_⟩
    · rw [cons_append, splice, hx]
      simp only [append_assoc]
    · rw [cons_append, splice, hy]
      simp only [append_assoc]

theorem splice_move (xs : List α) (pos : Nat) {front : List (Region α)} (back : List (Region α))
    {r : Region α} (hstart : ∀ q ∈ front, q.start = r.start)
    (hcommutes : ∀ q ∈ front, q.Commutes r) :
    splice xs pos (front ++ r :: back) = splice xs pos (r :: (front ++ back)) := by
  induction front generalizing pos with
  | nil => rfl
  | cons q front ih =>
    obtain ⟨hq, hstart⟩ := forall_mem_cons.mp hstart
    obtain ⟨hqr, hcommutes⟩ := forall_mem_cons.mp hcommutes
    obtain ⟨hlq, hlr, htext⟩ := hqr hq
    obtain ⟨x, y, hx, hy⟩ := splice_insert xs pos [] (front ++ back) hq hlq hlr
    rw [nil_append] at hx hy
    calc
      splice xs pos (q :: front ++ r :: back) = splice xs pos (q :: r :: (front ++ back)) := by
        rw [cons_append, splice, ih q.stop hstart hcommutes]
        rfl
      _ = splice xs pos (r :: (q :: front ++ back)) := by rw [hx, htext, ← hy, cons_append]

theorem splice_perm {xs : List α} {rs ss : List (Region α)} (hperm : rs.Perm ss)
    (hr : rs.Pairwise fun r s => r.stop ≤ s.start) (hs : ss.Pairwise fun r s => r.stop ≤ s.start)
    (hcommutes : rs.Pairwise Region.Commutes) (pos : Nat) :
    splice xs pos rs = splice xs pos ss := by
  induction rs generalizing ss pos with
  | nil => rw [nil_perm.mp hperm]
  | cons r rs ih =>
    obtain ⟨front, back, rfl⟩ := append_of_mem (hperm.mem_iff.mp mem_cons_self)
    have hrest : rs.Perm (front ++ back) := (hperm.trans perm_middle).cons_inv
    rw [pairwise_cons] at hr hcommutes
    obtain ⟨hfront, hback, hacross⟩ := pairwise_append.mp hs
    have hplace (q : Region α) (hq : q ∈ front) : q.start = r.start := by
      have hbefore : q.start + q.length ≤ r.start := hacross q hq r mem_cons_self
      have hafter : r.start + r.length ≤ q.start :=
        hr.1 q (hrest.mem_iff.mpr (mem_append_left _ hq))
      omega
    rw [splice_move xs pos back hplace fun q hq =>
      (hcommutes.1 q (hrest.mem_iff.mpr (mem_append_left _ hq))).symm, splice, splice]
    refine congrArg _ (ih hrest hr.2 ?_ hcommutes.2 _)
    exact pairwise_append.mpr ⟨hfront, (pairwise_cons.mp hback).2,
      fun q hq s hsm => hacross q hq s (mem_cons_of_mem _ hsm)⟩

/-- Regions are replaced at once when none reaches into another and the result does not depend on
the order in which those at one place are written down. -/
structure AtOnce (xs : List α) (rs : List (Region α)) (ys : List α) : Prop where
  apart : rs.Pairwise Region.Apart
  ordered : ∃ ss, ss.Perm rs ∧ InOrder xs ss
  result : ∀ ss, ss.Perm rs → InOrder xs ss → ys = splice xs 0 ss

/-- Regions in order whose texts may stand in any order at one place are replaced at once. -/
theorem atOnce_of_inOrder {xs : List α} {rs ss : List (Region α)} (hperm : ss.Perm rs)
    (h : InOrder xs ss) (hcommutes : rs.Pairwise Region.Commutes) :
    AtOnce xs rs (splice xs 0 ss) where
  apart := hperm.pairwise (h.disjoint.imp Or.inl) Region.Apart.symm
  ordered := ⟨ss, hperm, h⟩
  result _ hts ht := splice_perm (hperm.trans hts.symm) h.disjoint ht.disjoint
    (hperm.symm.pairwise hcommutes Region.Commutes.symm) 0

theorem AtOnce.perm {xs ys : List α} {rs ss : List (Region α)} (h : AtOnce xs rs ys)
    (hperm : rs.Perm ss) : AtOnce xs ss ys where
  apart := hperm.pairwise h.apart Region.Apart.symm
  ordered := by
    obtain ⟨ts, hts, horder⟩ := h.ordered
    exact ⟨ts, hts.trans hperm, horder⟩
  result ts hts horder := h.result ts (hts.trans hperm.symm) horder

theorem pairwise_insert {before behind : List (Region α)} {r s t : Region α}
    (h : (before ++ s :: behind).Pairwise fun r s => r.stop ≤ s.start) (hs : s.length = 0)
    (hr : r.start = s.start ∧ r.length = 0) (ht : t.start = s.start ∧ t.length = 0) :
    (before ++ r :: t :: behind).Pairwise fun r s => r.stop ≤ s.start := by
  obtain ⟨hbefore, hbehind, hacross⟩ := pairwise_append.mp h
  obtain ⟨hnext, hbehind⟩ := pairwise_cons.mp hbehind
  have hplace (q : Region α) (hq : q.start = s.start ∧ q.length = 0) :
      q.stop = s.start ∧ s.stop = s.start := by
    rw [Region.stop, Region.stop, hs, hq.1, hq.2]
    exact ⟨rfl, rfl⟩
  refine pairwise_append.mpr ⟨hbefore, ?_, fun q hq x hx => ?_⟩
  · refine pairwise_cons.mpr ⟨fun x hx => ?_, pairwise_cons.mpr ⟨fun x hx => ?_, hbehind⟩⟩
    · have hstop := hplace r hr
      rcases mem_cons.mp hx with rfl | hx
      · omega
      · have := hnext x hx
        omega
    · have hstop := hplace t ht
      have := hnext x hx
      omega
  · have hq' := hacross q hq
    rcases mem_cons.mp hx with rfl | hx
    · exact hr.1 ▸ hq' s mem_cons_self
    rcases mem_cons.mp hx with rfl | hx
    · exact ht.1 ▸ hq' s mem_cons_self
    · exact hq' x (mem_cons_of_mem _ hx)

theorem AtOnce.text_comm {xs ys : List α} {r s : Region α} {rs : List (Region α)}
    (h : AtOnce xs (r :: s :: rs) ys) (hstart : r.start = s.start) (hr : r.length = 0)
    (hs : s.length = 0) : r.text ++ s.text = s.text ++ r.text := by
  obtain ⟨ss, hperm, hdisjoint, hbounded⟩ := h.ordered
  obtain ⟨front, back, rfl⟩ := append_of_mem (hperm.mem_iff.mpr mem_cons_self)
  have hrest : (front ++ back).Perm (s :: rs) :=
    (perm_middle.symm.trans hperm).cons_inv
  obtain ⟨before, behind, hcut⟩ :=
    append_of_mem (hrest.mem_iff.mpr mem_cons_self)
  -- without `r`, the others are still in order, and `r` fits in on both sides of `s`
  have hothers : (before ++ s :: behind).Pairwise fun r s => r.stop ≤ s.start := by
    rw [← hcut]
    exact hdisjoint.sublist ((sublist_cons_self r back).append_left front)
  have hall : (before ++ r :: s :: behind).Perm (front ++ r :: back) :=
    perm_middle.trans ((hcut ▸ List.Perm.refl _ : (r :: (before ++ s :: behind)).Perm
      (r :: (front ++ back))).trans perm_middle.symm)
  have hswap : (before ++ s :: r :: behind).Perm (before ++ r :: s :: behind) :=
    (List.Perm.swap r s behind).append_left before
  have hresult (ws : List (Region α)) (hws : ws.Perm (front ++ r :: back))
      (hpairs : ws.Pairwise fun r s => r.stop ≤ s.start) : ys = splice xs 0 ws :=
    h.result ws (hws.trans hperm) ⟨hpairs, fun q hq => hbounded q (hws.mem_iff.mp hq)⟩
  have hfirst := hresult _ hall (pairwise_insert hothers hs ⟨hstart, hr⟩ ⟨rfl, hs⟩)
  have hsecond := hresult _ (hswap.trans hall) (pairwise_insert hothers hs ⟨rfl, hs⟩ ⟨hstart, hr⟩)
  obtain ⟨x, y, hx, hy⟩ := splice_insert xs 0 before behind hstart hr hs
  rw [hfirst, hx, hy] at hsecond
  exact append_cancel_left (append_cancel_right hsecond)

end AcademicAgent
