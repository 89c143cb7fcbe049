import Mathlib.Data.List.Basic

/-!
# Replacing matches in a list

A rewriter looks at the head of a list and gives the length of a match and what replaces it.
-/

namespace AcademicAgent

open List

variable {length : Nat}

/-- The length of a match at the head of a list, and what replaces it. -/
abbrev Rewriter (α : Type) := List α → Option (Nat × List α)

namespace Rewriter

variable {α : Type}

variable {m : Rewriter α} {xs : List (α × Bool)} {content : List α}

/-- The global replacement, with elements still to be skipped. -/
def replaceFrom (m : Rewriter α) : Nat → List α → List α
  | _, [] => []
  | skip + 1, _ :: xs => replaceFrom m skip xs
  | 0, x :: xs =>
    match m (x :: xs) with
    | some (length + 1, content) => content ++ replaceFrom m length xs
    | _ => x :: replaceFrom m 0 xs

section

variable (m : Rewriter α)

def replaceAll (xs : List α) : List α := replaceFrom m 0 xs

/-- A match has elements, all of them in the list, and is replaced by something. -/
def Proper : Prop :=
  ∀ xs length content, m xs = some (length, content) →
    0 < length ∧ length ≤ xs.length ∧ content ≠ []

def Local : Prop :=
  ∀ xs length content, m xs = some (length, content) →
    ∀ ys, ys.take length = xs.take length → m ys = some (length, content)

end

/-- No match of the first starts inside a match of the second. -/
def Apart (m m' : Rewriter α) : Prop :=
  ∀ xs length content, m' xs = some (length, content) →
    ∀ i, 0 < i → i < length → m (xs.drop i) = none

def atOnce (ms : List (Rewriter α)) : Rewriter α := fun xs => ms.findSome? fun m => m xs

/-- The rewriter on marked elements, whose replacements are marked. -/
def marked (m : Rewriter α) : Rewriter (α × Bool) := fun xs =>
  (m (xs.map Prod.fst)).map fun (length, content) => (length, content.map fun c => (c, true))

def plain (xs : List α) : List (α × Bool) := xs.map fun x => (x, false)

def OnlyPlain (m : Rewriter α) : Nat → List (α × Bool) → Prop
  | _, [] => True
  | skip + 1, _ :: xs => OnlyPlain m skip xs
  | 0, x :: xs =>
    match m ((x :: xs).map Prod.fst) with
    | some (length + 1, _) =>
      (∀ y ∈ (x :: xs).take (length + 1), y.2 = false) ∧ OnlyPlain m length xs
    | _ => OnlyPlain m 0 xs

instance decidableOnlyPlain (m : Rewriter α) : ∀ skip xs, Decidable (OnlyPlain m skip xs)
  | _, [] => decidable_of_iff True (by simp [OnlyPlain])
  | skip + 1, _ :: xs => decidableOnlyPlain m skip xs
  | 0, x :: xs =>
    match h : m ((x :: xs).map Prod.fst) with
    | some (length + 1, _) =>
      have : Decidable (OnlyPlain m length xs) := decidableOnlyPlain m length xs
      have : Decidable (∀ y ∈ (x :: xs).take (length + 1), y.2 = false) := decidableBAll _ _
      decidable_of_iff
        ((∀ y ∈ (x :: xs).take (length + 1), y.2 = false) ∧ OnlyPlain m length xs)
        (by rw [OnlyPlain, h])
    | some (0, _) =>
      have : Decidable (OnlyPlain m 0 xs) := decidableOnlyPlain m 0 xs
      decidable_of_iff (OnlyPlain m 0 xs) (by rw [OnlyPlain, h])
    | none =>
      have : Decidable (OnlyPlain m 0 xs) := decidableOnlyPlain m 0 xs
      decidable_of_iff (OnlyPlain m 0 xs) (by rw [OnlyPlain, h])

/-- No match of any rewriter contains an element that an earlier one brought in. -/
def Undisturbed : List (Rewriter α) → List (α × Bool) → Prop
  | [], _ => True
  | m :: ms, xs => OnlyPlain m 0 xs ∧ Undisturbed ms (replaceAll m.marked xs)

instance decidableUndisturbed : ∀ (ms : List (Rewriter α)) (xs : List (α × Bool)),
    Decidable (Undisturbed ms xs)
  | [], _ => isTrue trivial
  | m :: ms, xs =>
    have : Decidable (Undisturbed ms (replaceAll m.marked xs)) := decidableUndisturbed ms _
    inferInstanceAs (Decidable (_ ∧ _))

theorem replaceFrom_eq (m : Rewriter α) (skip : Nat) (xs : List α) :
    m.replaceFrom skip xs = m.replaceAll (xs.drop skip) := by
  induction skip generalizing xs with
  | zero => rfl
  | succ skip ih =>
    cases xs with
    | nil => rfl
    | cons x xs => exact ih xs

theorem replaceAll_of_none {x : α} {xs : List α} (h : m (x :: xs) = none) :
    m.replaceAll (x :: xs) = x :: m.replaceAll xs := by
  rw [replaceAll, replaceFrom, h]
  rfl

theorem replaceAll_of_match {xs : List α} (hpos : 0 < length) (hle : length ≤ xs.length)
    (h : m xs = some (length, content)) :
    m.replaceAll xs = content ++ m.replaceAll (xs.drop length) := by
  cases xs with
  | nil =>
    rw [length_nil] at hle
    omega
  | cons x xs =>
    obtain ⟨n, rfl⟩ : ∃ n, length = n + 1 := ⟨length - 1, by omega⟩
    rw [replaceAll, replaceFrom, h]
    simp only
    rw [replaceFrom_eq, drop_succ_cons]

theorem replaceAll_of_some (hm : m.Proper) {xs : List α} (h : m xs = some (length, content)) :
    m.replaceAll xs = content ++ m.replaceAll (xs.drop length) :=
  replaceAll_of_match (hm xs length content h).1 (hm xs length content h).2.1 h

theorem onlyPlain_eq (m : Rewriter α) (skip : Nat) (xs : List (α × Bool)) :
    m.OnlyPlain skip xs ↔ m.OnlyPlain 0 (xs.drop skip) := by
  induction skip generalizing xs with
  | zero => rfl
  | succ skip ih =>
    cases xs with
    | nil => exact Iff.rfl
    | cons x xs => exact ih xs

section

variable {m : Rewriter α}

theorem OnlyPlain.of_none {x : α × Bool} (hplain : m.OnlyPlain 0 (x :: xs))
    (h : m ((x :: xs).map Prod.fst) = none) : m.OnlyPlain 0 xs := by
  rw [OnlyPlain, h] at hplain
  exact hplain

theorem OnlyPlain.of_some (hm : m.Proper) (hplain : m.OnlyPlain 0 xs)
    (h : m (xs.map Prod.fst) = some (length, content)) :
    (∀ y ∈ xs.take length, y.2 = false) ∧ m.OnlyPlain 0 (xs.drop length) := by
  obtain ⟨hpos, hle, -⟩ := hm _ length content h
  cases xs with
  | nil =>
    rw [map_nil, length_nil] at hle
    omega
  | cons x xs =>
    obtain ⟨n, rfl⟩ : ∃ n, length = n + 1 := ⟨length - 1, by omega⟩
    rw [OnlyPlain, h] at hplain
    simp only at hplain
    rw [onlyPlain_eq m n xs] at hplain
    exact hplain

theorem marked_eq_none : m.marked xs = none ↔ m (xs.map Prod.fst) = none := Option.map_eq_none_iff

theorem marked_of_some (h : m (xs.map Prod.fst) = some (length, content)) :
    m.marked xs = some (length, content.map fun c => (c, true)) := by
  rw [marked, h]
  rfl

end

theorem Proper.marked (hm : m.Proper) : m.marked.Proper := by
  intro xs length content h
  obtain ⟨⟨n, c⟩, hmatch, hpair⟩ := Option.map_eq_some_iff.mp h
  obtain ⟨rfl, rfl⟩ := Prod.mk.inj hpair
  obtain ⟨hpos, hle, hne⟩ := hm _ n c hmatch
  rw [length_map] at hle
  exact ⟨hpos, hle, fun hnil => hne (map_eq_nil_iff.mp hnil)⟩

section

variable {m : Rewriter α}

theorem map_fst_replaceAll (hm : m.Proper) (xs : List (α × Bool)) :
    (m.marked.replaceAll xs).map Prod.fst = m.replaceAll (xs.map Prod.fst) := by
  induction hn : xs.length using Nat.strongRecOn generalizing xs with
  | ind n ih =>
    cases hmatch : m (xs.map Prod.fst) with
    | none =>
      cases xs with
      | nil => rfl
      | cons x xs =>
        rw [replaceAll_of_none (marked_eq_none.mpr hmatch), map_cons, map_cons,
          replaceAll_of_none (by rw [← map_cons]; exact hmatch)]
        rw [ih xs.length (by rw [← hn, length_cons]; omega) xs rfl]
    | some found =>
      obtain ⟨length, content⟩ := found
      obtain ⟨hpos, hle, -⟩ := hm _ length content hmatch
      rw [length_map] at hle
      rw [replaceAll_of_some hm.marked (marked_of_some hmatch), replaceAll_of_some hm hmatch,
        map_append, map_map,
        ih _ (by rw [length_drop]; omega) (xs.drop length) rfl, map_drop]
      congr 1
      exact map_id' content

theorem replaceAll_marked_append (hm : m.Proper) (content : List α)
    {rest : List (α × Bool)} (hplain : m.OnlyPlain 0 ((content.map fun c => (c, true)) ++ rest)) :
    m.marked.replaceAll ((content.map fun c => (c, true)) ++ rest) =
        (content.map fun c => (c, true)) ++ m.marked.replaceAll rest ∧ m.OnlyPlain 0 rest := by
  induction content with
  | nil => exact ⟨rfl, hplain⟩
  | cons c content ih =>
    rw [map_cons, cons_append] at hplain ⊢
    have hnone : m (((c, true) :: ((content.map fun c => (c, true)) ++ rest)).map Prod.fst) =
        none := by
      cases hmatch : m (((c, true) :: ((content.map fun c => (c, true)) ++ rest)).map Prod.fst) with
      | none => rfl
      | some found =>
        obtain ⟨length, replacement⟩ := found
        obtain ⟨hpos, -, -⟩ := hm _ length replacement hmatch
        obtain ⟨n, rfl⟩ : ∃ n, length = n + 1 := ⟨length - 1, by omega⟩
        have := (hplain.of_some hm hmatch).1 (c, true) mem_cons_self
        cases this
    obtain ⟨hpass, hrest⟩ := ih (hplain.of_none hnone)
    rw [replaceAll_of_none (marked_eq_none.mpr hnone), hpass, cons_append]
    exact ⟨rfl, hrest⟩

/-- Elements at which nothing matches stay, up to where the next match may start. -/
theorem take_replaceAll_plain {n : Nat} :
    ∀ {xs : List α}, n ≤ xs.length → (∀ i < n, m (xs.drop i) = none) →
      (m.marked.replaceAll (plain xs)).take n = plain (xs.take n) ∧
        (m.marked.replaceAll (plain xs)).drop n = m.marked.replaceAll (plain (xs.drop n)) := by
  induction n with
  | zero =>
    intro xs _ _
    simp [plain]
  | succ n ih =>
    intro xs hle hnone
    cases xs with
    | nil => cases hle
    | cons x xs =>
      have hhead : m (((x, false) :: plain xs).map Prod.fst) = none := by
        have := hnone 0 (Nat.succ_pos n)
        simpa [plain, Function.comp_def] using this
      have hcons : m.marked.replaceAll (plain (x :: xs)) =
          (x, false) :: m.marked.replaceAll (plain xs) :=
        replaceAll_of_none (marked_eq_none.mpr hhead)
      obtain ⟨htake, hdrop⟩ := @ih xs (Nat.le_of_succ_le_succ hle) fun i hi =>
        hnone (i + 1) (Nat.succ_lt_succ hi)
      rw [hcons, take_succ_cons, drop_succ_cons, htake, hdrop]
      exact ⟨rfl, rfl⟩

theorem none_of_not_marked (hm : m.Proper) {n : Nat} :
    ∀ {xs : List α}, n ≤ (m.marked.replaceAll (plain xs)).length →
      (∀ y ∈ (m.marked.replaceAll (plain xs)).take n, y.2 = false) →
        n ≤ xs.length ∧ ∀ i < n, m (xs.drop i) = none := by
  induction n with
  | zero =>
    intro xs _ _
    exact ⟨Nat.zero_le _, fun i hi => by omega⟩
  | succ n ih =>
    intro xs hle hunmarked
    have hmap : (plain xs).map Prod.fst = xs := by simp [plain, Function.comp_def]
    cases hmatch : m xs with
    | some found =>
      obtain ⟨length, content⟩ := found
      have hreplaced := replaceAll_of_some hm.marked (marked_of_some (by rw [hmap]; exact hmatch))
      obtain ⟨-, -, hne⟩ := hm xs length content hmatch
      obtain ⟨c, content, rfl⟩ := exists_cons_of_ne_nil hne
      rw [hreplaced, map_cons, cons_append, take_succ_cons] at hunmarked
      cases hunmarked (c, true) mem_cons_self
    | none =>
      cases xs with
      | nil => cases hle
      | cons x xs =>
        have hcons : m.marked.replaceAll (plain (x :: xs)) =
            (x, false) :: m.marked.replaceAll (plain xs) :=
          replaceAll_of_none (marked_eq_none.mpr (by rw [← hmap] at hmatch; exact hmatch))
        rw [hcons, length_cons] at hle
        rw [hcons, take_succ_cons] at hunmarked
        obtain ⟨hlength, hrest⟩ := ih (Nat.le_of_succ_le_succ hle) fun y hy =>
          hunmarked y (mem_cons_of_mem _ hy)
        refine ⟨Nat.succ_le_succ hlength, fun i hi => ?_⟩
        cases i with
        | zero => exact hmatch
        | succ i => exact hrest i (Nat.lt_of_succ_lt_succ hi)

end

theorem replaceAll_or {m' : Rewriter α} (hm : m.Proper) (hm' : m'.Proper) (hlocal : m'.Local)
    (hapart : Apart m m') {both : Rewriter α} (hboth : both.Proper)
    (hor : ∀ xs, both xs = (m xs).or (m' xs)) (xs : List α)
    (hplain : m'.OnlyPlain 0 (m.marked.replaceAll (plain xs))) :
    m'.marked.replaceAll (m.marked.replaceAll (plain xs)) = both.marked.replaceAll (plain xs) := by
  induction hn : xs.length using Nat.strongRecOn generalizing xs with
  | ind n ih =>
    have hmap : ∀ ys : List α, (plain ys).map Prod.fst = ys := fun ys => by
      simp [plain, Function.comp_def]
    have hdrop : ∀ length, (plain xs).drop length = plain (xs.drop length) := fun length =>
      (map_drop ..).symm
    -- where nothing matches below, the result starts with the list itself
    have hsame : ∀ length, length ≤ xs.length → (∀ i < length, m (xs.drop i) = none) →
        ((m.marked.replaceAll (plain xs)).map Prod.fst).take length = xs.take length := by
      intro length hle hnone
      rw [← map_take, (take_replaceAll_plain hle hnone).1, hmap]
    cases hmatch : m xs with
    | some found =>
      obtain ⟨length, content⟩ := found
      obtain ⟨hpos, hle, -⟩ := hm xs length content hmatch
      have hmarked : m.marked (plain xs) = some (length, content.map fun c => (c, true)) :=
        marked_of_some (by rw [hmap]; exact hmatch)
      rw [replaceAll_of_some hm.marked hmarked] at hplain ⊢
      obtain ⟨hpass, hrest⟩ := replaceAll_marked_append hm' content hplain
      have hfound : both.marked (plain xs) = some (length, content.map fun c => (c, true)) :=
        marked_of_some (by rw [hmap, hor, hmatch, Option.some_or])
      rw [hdrop] at hpass hrest ⊢
      rw [hpass, replaceAll_of_some hboth.marked hfound, hdrop,
        ih _ (by rw [length_drop]; omega) (xs.drop length) hrest rfl]
    | none =>
      cases hxs : xs with
      | nil => rfl
      | cons x rest =>
        subst hxs
        have hcons : m.marked.replaceAll (plain (x :: rest)) =
            (x, false) :: m.marked.replaceAll (plain rest) :=
          replaceAll_of_none (marked_eq_none.mpr (by
            rw [← hmap (x :: rest)] at hmatch
            exact hmatch))
        cases hsecond : m' ((m.marked.replaceAll (plain (x :: rest))).map Prod.fst) with
        | some found =>
          obtain ⟨length, content⟩ := found
          obtain ⟨hpos, hle, -⟩ := hm' _ length content hsecond
          rw [length_map] at hle
          obtain ⟨hunmarked, hafter⟩ := hplain.of_some hm' hsecond
          obtain ⟨hlength, hnone⟩ := none_of_not_marked hm hle hunmarked
          have hfirst : m' (x :: rest) = some (length, content) :=
            hlocal _ length content hsecond _ (hsame length hlength hnone).symm
          have hfound : both.marked (plain (x :: rest)) =
              some (length, content.map fun c => (c, true)) :=
            marked_of_some (by rw [hmap, hor, hmatch, Option.none_or, hfirst])
          rw [(take_replaceAll_plain hlength hnone).2] at hafter
          rw [replaceAll_of_some hm'.marked (marked_of_some hsecond),
            (take_replaceAll_plain hlength hnone).2, replaceAll_of_some hboth.marked hfound, hdrop,
            ih _ (by rw [length_drop]; omega) _ hafter rfl]
        | none =>
          have hfirst : m' (x :: rest) = none := by
            cases hcase : m' (x :: rest) with
            | none => rfl
            | some found =>
              obtain ⟨length, content⟩ := found
              obtain ⟨hpos, hle, -⟩ := hm' _ length content hcase
              have hnone : ∀ i < length, m ((x :: rest).drop i) = none := by
                intro i hi
                cases i with
                | zero => exact hmatch
                | succ i => exact hapart _ length content hcase (i + 1) (Nat.succ_pos i) hi
              rw [hlocal _ length content hcase _ (hsame length hle hnone)] at hsecond
              cases hsecond
          have hneither : both ((plain (x :: rest)).map Prod.fst) = none := by
            rw [hmap, hor, hmatch, Option.none_or, hfirst]
          rw [hcons] at hplain hsecond ⊢
          rw [replaceAll_of_none (marked_eq_none.mpr hsecond),
            ih rest.length (by rw [← hn, length_cons]; omega) rest (hplain.of_none hsecond) rfl]
          exact (replaceAll_of_none (marked_eq_none.mpr hneither)).symm

section

variable {ms : List (Rewriter α)}

theorem atOnce_eq_some {xs : List α} {found : Nat × List α}
    (h : atOnce ms xs = some found) : ∃ m ∈ ms, m xs = some found :=
  exists_of_findSome?_eq_some h

theorem atOnce_eq_none {xs : List α} (h : ∀ m ∈ ms, m xs = none) :
    atOnce ms xs = none := findSome?_eq_none_iff.mpr h

theorem Proper.atOnce (h : ∀ m ∈ ms, m.Proper) : (atOnce ms).Proper := by
  intro xs length content hfound
  obtain ⟨m, hm, hmatch⟩ := atOnce_eq_some hfound
  exact h m hm xs length content hmatch

end

theorem replaceAll_atOnce_nil (xs : List α) : (atOnce []).replaceAll xs = xs := by
  induction xs with
  | nil => rfl
  | cons x xs ih => rw [replaceAll_of_none rfl, ih]

section Sequence

variable {ms : List (Rewriter α)}

theorem foldl_marked {done : List (Rewriter α)} (hproper : ∀ m ∈ done ++ ms, m.Proper)
    (hlocal : ∀ m ∈ ms, m.Local) (hapart : ∀ m ∈ done ++ ms, ∀ m' ∈ ms, Apart m m') (xs : List α)
    (h : Undisturbed ms ((atOnce done).marked.replaceAll (plain xs))) :
    ms.foldl (fun ys m => m.marked.replaceAll ys) ((atOnce done).marked.replaceAll (plain xs)) =
      (atOnce (done ++ ms)).marked.replaceAll (plain xs) := by
  induction ms generalizing done with
  | nil => rw [append_nil, foldl_nil]
  | cons m ms ih =>
    have hassoc : done ++ m :: ms = done ++ [m] ++ ms := by rw [append_assoc]; rfl
    have hdone : (atOnce done).Proper :=
      Proper.atOnce fun d hd => hproper d (mem_append_left _ hd)
    have hmem : m ∈ done ++ m :: ms := mem_append_right _ mem_cons_self
    have hboth : (atOnce (done ++ [m])).Proper := Proper.atOnce fun d hd => hproper d (by
      rw [hassoc]
      exact mem_append_left _ hd)
    have hfirst : Apart (atOnce done) m := by
      intro ys length content hmatch i hpos hi
      exact atOnce_eq_none fun d hd =>
        hapart d (mem_append_left _ hd) m mem_cons_self ys length content hmatch i hpos hi
    have hor : ∀ ys, atOnce (done ++ [m]) ys = (atOnce done ys).or (m ys) := by
      intro ys
      rw [atOnce, findSome?_append]
      cases hm : m ys <;> simp [atOnce, hm]
    have hstep := replaceAll_or hdone (hproper m hmem) (hlocal m mem_cons_self) hfirst hboth
      hor xs h.1
    rw [foldl_cons, hassoc, hstep]
    rw [hassoc] at hproper hapart
    refine ih hproper (fun d hd => hlocal d (mem_cons_of_mem _ hd))
      (fun d hd d' hd' => hapart d hd d' (mem_cons_of_mem _ hd')) ?_
    rw [← hstep]
    exact h.2

/-- Rewriters one after another replace what they replace at once, where no match contains
what an earlier one brought in. -/
theorem foldl_replaceAll (hproper : ∀ m ∈ ms, m.Proper) (hlocal : ∀ m ∈ ms, m.Local)
    (hapart : ∀ m ∈ ms, ∀ m' ∈ ms, Apart m m') (xs : List α) (h : Undisturbed ms (plain xs)) :
    ms.foldl (fun ys m => m.replaceAll ys) xs = (atOnce ms).replaceAll xs := by
  have hmap : (plain xs).map Prod.fst = xs := by simp [plain, Function.comp_def]
  have hnone : (atOnce ([] : List (Rewriter α))).marked.replaceAll (plain xs) = plain xs := by
    have := replaceAll_atOnce_nil (plain xs)
    exact this
  have hfold : ∀ (rest : List (Rewriter α)), (∀ m ∈ rest, m.Proper) → ∀ ys : List (α × Bool),
      (rest.foldl (fun ys m => m.marked.replaceAll ys) ys).map Prod.fst =
        rest.foldl (fun ys m => m.replaceAll ys) (ys.map Prod.fst) := by
    intro rest
    induction rest with
    | nil => exact fun _ _ => rfl
    | cons m rest ih =>
      intro hrest ys
      rw [foldl_cons, foldl_cons, ih (fun d hd => hrest d (mem_cons_of_mem _ hd)),
        map_fst_replaceAll (hrest m mem_cons_self)]
  have hmarked := @foldl_marked α ms [] hproper hlocal hapart xs (by rw [hnone]; exact h)
  rw [hnone, nil_append] at hmarked
  have hunmarked := congrArg (map Prod.fst) hmarked
  rw [hfold ms hproper, map_fst_replaceAll (Proper.atOnce hproper), hmap] at hunmarked
  exact hunmarked

end Sequence

end Rewriter

end AcademicAgent
