import AcademicAgent.Core.Rewriter

/-!
# Passes over a text in stretches

What several rewriters find at once cuts a text into stretches: the matches, each of one
rewriter, and the elements between them.
-/

namespace AcademicAgent

open List Option Rewriter

namespace Rewriter

variable {α : Type}

/-- A match has elements, all of them in the list. -/
def Fits (m : Rewriter α) : Prop :=
  ∀ xs length content, m xs = some (length, content) → 0 < length ∧ length ≤ xs.length

/-- The first of several rewriters that matches, with its number. -/
def firstMatch : List (Rewriter α) → List α → Option (Nat × Nat × List α)
  | [], _ => none
  | m :: ms, xs =>
    match m xs with
    | some found => some (0, found)
    | none => (firstMatch ms xs).map fun (number, found) => (number + 1, found)

end Rewriter

/-- A stretch of a text: a match, with the number of the rewriter that found it and what
replaces it, or an element that is in no match. -/
structure Stretch (α : Type) where
  source : List α
  found : Option (Nat × List α)

namespace Stretch

variable {α : Type}

/-- The stretch, once the rewriters with lower numbers have made their passes. -/
def after (pass : Nat) (s : Stretch α) : List α :=
  match s.found with
  | some (number, content) => if number < pass then content else s.source
  | none => s.source

/-- The stretch is a match of the rewriter with this number. -/
def IsOf (number : Nat) (s : Stretch α) : Prop := s.found.map Prod.fst = some number

instance (number : Nat) (s : Stretch α) : Decidable (s.IsOf number) :=
  inferInstanceAs (Decidable (_ = _))

/-- The text of stretches, once the rewriters with lower numbers have made their passes. -/
def text (pass : Nat) (ss : List (Stretch α)) : List α := ss.flatMap (after pass)

/-- The stretches of a text, with elements still to be skipped. -/
def cutFrom (ms : List (Rewriter α)) : Nat → List α → List (Stretch α)
  | _, [] => []
  | skip + 1, _ :: xs => cutFrom ms skip xs
  | 0, x :: xs =>
    match Rewriter.firstMatch ms (x :: xs) with
    | some (number, length + 1, content) =>
      ⟨(x :: xs).take (length + 1), some (number, content)⟩ :: cutFrom ms length xs
    | _ => ⟨[x], none⟩ :: cutFrom ms 0 xs

/-- The stretches into which several rewriters cut a text. -/
def cut (ms : List (Rewriter α)) (xs : List α) : List (Stretch α) := cutFrom ms 0 xs

/-- A stretch before the text of others is what several rewriters find there. -/
def Found (ms : List (Rewriter α)) (s : Stretch α) (ss : List (Stretch α)) : Prop :=
  match s.found with
  | some (number, content) =>
    Rewriter.firstMatch ms (s.source ++ text 0 ss) = some (number, s.source.length, content) ∧
      0 < s.source.length
  | none => Rewriter.firstMatch ms (s.source ++ text 0 ss) = none ∧ s.source.length = 1

/-- Every stretch is what several rewriters find where it starts. -/
def AllFound (ms : List (Rewriter α)) : List (Stretch α) → Prop
  | [] => True
  | s :: ss => s.Found ms ss ∧ AllFound ms ss

/-- In the text before its pass, no match of a rewriter starts in a stretch of another. -/
def OnlyOwn (m : Rewriter α) (number : Nat) : List (Stretch α) → Prop
  | [] => True
  | s :: ss =>
    (s.IsOf number ∨
      ∀ i < (s.after number).length, m ((s.after number).drop i ++ text number ss) = none) ∧
    OnlyOwn m number ss

instance decidableOnlyOwn [DecidableEq α] (m : Rewriter α) (number : Nat) :
    ∀ ss : List (Stretch α), Decidable (OnlyOwn m number ss)
  | [] => isTrue trivial
  | s :: ss =>
    have := decidableOnlyOwn m number ss
    inferInstanceAs (Decidable ((s.IsOf number ∨
      ∀ i < (s.after number).length, m ((s.after number).drop i ++ text number ss) = none) ∧
      OnlyOwn m number ss))

theorem text_cons (pass : Nat) (s : Stretch α) (ss : List (Stretch α)) :
    text pass (s :: ss) = s.after pass ++ text pass ss := flatMap_cons

theorem after_zero (s : Stretch α) : s.after 0 = s.source := by
  rw [after]
  split
  · exact if_neg (Nat.not_lt_zero _)
  · rfl

/-- The stretches of a text with skipped elements have the rest as their text. -/
theorem text_cutFrom {ms : List (Rewriter α)} (skip : Nat) (xs : List α) :
    text 0 (cutFrom ms skip xs) = xs.drop skip := by
  fun_induction cutFrom ms skip xs with
  | case1 => rw [drop_nil]; rfl
  | case2 skip x xs ih => rw [ih, drop_succ_cons]
  | case3 x xs number length content h ih =>
    rw [text_cons, after_zero, ih, drop_zero, take_succ_cons, cons_append, take_append_drop]
  | case4 x xs h ih => rw [text_cons, after_zero, ih]; rfl

theorem text_cut (ms : List (Rewriter α)) (xs : List α) : text 0 (cut ms xs) = xs :=
  text_cutFrom 0 xs

end Stretch

namespace Rewriter

variable {α : Type}

theorem firstMatch_eq_some {ms : List (Rewriter α)} {xs : List α} {number : Nat}
    {found : Nat × List α} (h : firstMatch ms xs = some (number, found)) :
    ∃ m, ms[number]? = some m ∧ m xs = some found ∧
      ∀ i < number, ∀ m', ms[i]? = some m' → m' xs = none := by
  induction ms generalizing number with
  | nil => cases h
  | cons m ms ih =>
    rw [firstMatch] at h
    cases hm : m xs with
    | some f =>
      rw [hm] at h
      obtain ⟨rfl, rfl⟩ := Prod.mk.inj (some.inj h)
      exact ⟨m, rfl, hm, fun i hi => absurd hi (Nat.not_lt_zero i)⟩
    | none =>
      rw [hm] at h
      obtain ⟨⟨n, f⟩, hrest, hpair⟩ := map_eq_some_iff.mp h
      obtain ⟨rfl, rfl⟩ := Prod.mk.inj hpair
      obtain ⟨m', hget, hmatch, hbefore⟩ := ih hrest
      refine ⟨m', hget, hmatch, fun i hi m'' hm'' => ?_⟩
      cases i with
      | zero => exact some.inj hm'' ▸ hm
      | succ i => exact hbefore i (Nat.lt_of_succ_lt_succ hi) m'' hm''

theorem firstMatch_eq_none {ms : List (Rewriter α)} {xs : List α} :
    firstMatch ms xs = none ↔ ∀ m ∈ ms, m xs = none := by
  induction ms with
  | nil => simp [firstMatch]
  | cons m ms ih =>
    rw [firstMatch, forall_mem_cons]
    cases hm : m xs with
    | some f => simp
    | none => simp [ih]

theorem atOnce_eq_firstMatch (ms : List (Rewriter α)) (xs : List α) :
    atOnce ms xs = (firstMatch ms xs).map Prod.snd := by
  induction ms with
  | nil => rfl
  | cons m ms ih =>
    rw [atOnce, findSome?_cons, firstMatch]
    cases hm : m xs with
    | some f => rfl
    | none =>
      rw [atOnce] at ih
      simp only [ih, Option.map_map]
      rfl

end Rewriter

namespace Stretch

variable {α : Type} {ms : List (Rewriter α)}

variable {ss : List (Stretch α)}

theorem allFound_cutFrom (hfits : ∀ m ∈ ms, m.Fits) (skip : Nat) (xs : List α) :
    AllFound ms (cutFrom ms skip xs) := by
  fun_induction cutFrom ms skip xs with
  | case1 => trivial
  | case2 skip x xs ih => exact ih
  | case3 x xs number length content h ih =>
    obtain ⟨m, hget, hmatch, -⟩ := firstMatch_eq_some h
    obtain ⟨-, hle⟩ := hfits m (mem_of_getElem? hget) _ _ _ hmatch
    have hlength : ((x :: xs).take (length + 1)).length = length + 1 :=
      length_take_of_le hle
    refine ⟨⟨?_, ?_⟩, ih⟩
    · simp only
      rw [text_cutFrom, hlength, ← drop_succ_cons (a := x), take_append_drop, h]
    · rw [hlength]
      exact Nat.succ_pos length
  | case4 x xs h ih =>
    refine ⟨⟨?_, rfl⟩, ih⟩
    rw [text_cutFrom]
    cases hfirst : firstMatch ms (x :: xs) with
    | none => exact hfirst
    | some found =>
      obtain ⟨number, length, content⟩ := found
      obtain ⟨m, hget, hmatch, -⟩ := firstMatch_eq_some hfirst
      obtain ⟨hpos, -⟩ := hfits m (mem_of_getElem? hget) _ _ _ hmatch
      cases length with
      | zero => exact absurd hpos (Nat.lt_irrefl 0)
      | succ length => exact absurd hfirst (h number length content)

theorem allFound_cut (hfits : ∀ m ∈ ms, m.Fits) (xs : List α) : AllFound ms (cut ms xs) :=
  allFound_cutFrom hfits 0 xs

theorem replaceAll_atOnce (ss : List (Stretch α)) (h : AllFound ms ss) :
    (atOnce ms).replaceAll (text 0 ss) = text ms.length ss := by
  induction ss with
  | nil => rfl
  | cons s ss ih =>
    obtain ⟨hfound, hrest⟩ := h
    obtain ⟨source, found⟩ := s
    rw [text_cons, text_cons, after_zero]
    cases found with
    | none =>
      obtain ⟨hnone, hone⟩ := hfound
      obtain ⟨x, rfl⟩ := length_eq_one_iff.mp hone
      have honce : atOnce ms (x :: text 0 ss) = none := by
        rw [atOnce_eq_firstMatch, ← singleton_append, hnone]
        rfl
      calc (atOnce ms).replaceAll (x :: text 0 ss)
          = x :: text ms.length ss := by rw [replaceAll_of_none honce, ih hrest]
    | some f =>
      obtain ⟨number, content⟩ := f
      obtain ⟨hsome, hpos⟩ := hfound
      obtain ⟨m, hget, -, -⟩ := firstMatch_eq_some hsome
      obtain ⟨hlt, -⟩ := List.getElem?_eq_some_iff.mp hget
      have honce : atOnce ms (source ++ text 0 ss) = some (source.length, content) := by
        rw [atOnce_eq_firstMatch, hsome]
        rfl
      rw [replaceAll_of_match hpos (by simp) honce, drop_left, ih hrest]
      simp only [after]
      rw [if_pos hlt]

theorem replaceAll_append_of_none {m : Rewriter α} {xs ys : List α}
    (h : ∀ i < xs.length, m (xs.drop i ++ ys) = none) :
    m.replaceAll (xs ++ ys) = xs ++ m.replaceAll ys := by
  induction xs with
  | nil => rfl
  | cons x xs ih =>
    have hhead : m (x :: (xs ++ ys)) = none := h 0 (Nat.succ_pos _)
    rw [cons_append, replaceAll_of_none hhead, ih, cons_append]
    exact fun i hi => h (i + 1) (Nat.succ_lt_succ hi)

section Pass

variable {m : Rewriter α} {number : Nat}

theorem after_succ_of_not_isOf {s : Stretch α} (h : ¬ s.IsOf number) :
    s.after (number + 1) = s.after number := by
  obtain ⟨source, found⟩ := s
  cases found with
  | none => rfl
  | some f =>
    obtain ⟨n, content⟩ := f
    have hne : n ≠ number := fun heq => h (congrArg some heq)
    have hiff : n < number + 1 ↔ n < number := by omega
    simp only [after, hiff]

theorem match_own (hget : ms[number]? = some m) (hlocal : number = 0 ∨ m.Local) {source : List α}
    {content : List α} (h : (Stretch.mk source (some (number, content))).Found ms ss) :
    m (source ++ text number ss) = some (source.length, content) := by
  obtain ⟨m', hget', hmatch, -⟩ := firstMatch_eq_some h.1
  rw [hget] at hget'
  obtain rfl := some.inj hget'
  rcases hlocal with rfl | hlocal
  · exact hmatch
  · refine hlocal _ _ _ hmatch _ ?_
    simp only
    rw [take_left, take_left]

theorem replaceAll_pass (hget : ms[number]? = some m) (hlocal : number = 0 ∨ m.Local)
    (hfound : AllFound ms ss) (hown : OnlyOwn m number ss) :
    m.replaceAll (text number ss) = text (number + 1) ss := by
  induction ss with
  | nil => rfl
  | cons s ss ih =>
    obtain ⟨hhead, hrest⟩ := hfound
    obtain ⟨hor, htail⟩ := hown
    rw [text_cons, text_cons]
    by_cases hof : s.IsOf number
    · obtain ⟨source, found⟩ := s
      obtain ⟨⟨n, content⟩, rfl, heq⟩ := map_eq_some_iff.mp hof
      obtain rfl : n = number := heq
      have hmatch := match_own hget hlocal hhead
      have hbefore : after n ⟨source, some (n, content)⟩ = source := if_neg (Nat.lt_irrefl n)
      have hafter : after (n + 1) ⟨source, some (n, content)⟩ = content :=
        if_pos (Nat.lt_succ_self n)
      rw [hbefore, hafter, replaceAll_of_match hhead.2 (by simp) hmatch, drop_left,
        ih hrest htail]
    · rw [replaceAll_append_of_none (hor.resolve_left hof), ih hrest htail,
        after_succ_of_not_isOf hof]

/-- The first rewriter finds only its own stretches, when none of its matches starts inside
a match of another. -/
theorem onlyOwn_first (hget : ms[0]? = some m) (hapart : ∀ m' ∈ ms, Rewriter.Apart m m')
    (hfound : AllFound ms ss) : OnlyOwn m 0 ss := by
  induction ss with
  | nil => trivial
  | cons s ss ih =>
    obtain ⟨hhead, hrest⟩ := hfound
    refine ⟨?_, ih hrest⟩
    rw [after_zero]
    obtain ⟨source, found⟩ := s
    cases found with
    | none =>
      obtain ⟨hnone, hone⟩ := hhead
      right
      intro i hi
      obtain rfl : i = 0 := Nat.lt_one_iff.mp (hone ▸ hi)
      exact firstMatch_eq_none.mp hnone m (mem_of_getElem? hget)
    | some f =>
      obtain ⟨n, content⟩ := f
      obtain ⟨m', hget', hmatch, hbefore⟩ := firstMatch_eq_some hhead.1
      by_cases hn : n = 0
      · exact .inl (congrArg some hn)
      right
      intro i hi
      cases i with
      | zero => exact hbefore 0 (Nat.pos_of_ne_zero hn) m hget
      | succ i =>
        rw [← drop_append_of_le_length (Nat.le_of_lt hi)]
        exact hapart m' (mem_of_getElem? hget') _ _ _ hmatch (i + 1) (Nat.succ_pos i) hi

/-- Where a rewriter finds only its own stretches and matches, it has a stretch. -/
theorem OnlyOwn.exists_isOf (hown : OnlyOwn m number ss) {i : Nat}
    (hi : i < (text number ss).length) (hmatch : m ((text number ss).drop i) ≠ none) :
    ∃ s ∈ ss, s.IsOf number := by
  induction ss generalizing i with
  | nil => cases hi
  | cons s ss ih =>
    obtain ⟨hor, htail⟩ := hown
    by_cases hof : s.IsOf number
    · exact ⟨s, mem_cons_self, hof⟩
    rw [text_cons] at hi hmatch
    by_cases hlt : i < (s.after number).length
    · rw [drop_append_of_le_length (Nat.le_of_lt hlt)] at hmatch
      exact absurd (hor.resolve_left hof i hlt) hmatch
    · obtain ⟨j, rfl⟩ := Nat.exists_eq_add_of_le (Nat.le_of_not_lt hlt)
      rw [length_append] at hi
      rw [drop_append, Nat.add_sub_cancel_left, drop_eq_nil_of_le (Nat.le_add_right _ _),
        nil_append] at hmatch
      obtain ⟨s', hs', hof'⟩ := ih htail (Nat.lt_of_add_lt_add_left hi) hmatch
      exact ⟨s', mem_cons_of_mem s hs', hof'⟩

end Pass

end Stretch

end AcademicAgent
