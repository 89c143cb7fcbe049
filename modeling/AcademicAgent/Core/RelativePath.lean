import AcademicAgent.Core.Path

/-!
# Relative paths below a directory

The segments of a relative path, resolved on their own, climb some levels and then name
entries.
-/

namespace AcademicAgent.Path

open List

variable {last : JsString} {more : List JsString}

/-- How many levels the resolved segments climb before they name anything. -/
def climbs (xs : List JsString) : Nat := ((resolve true xs).takeWhile (· = dotdot)).length

def names (xs : List JsString) : List JsString := (resolve true xs).dropWhile (· = dotdot)

/-- The names below a directory that the segments of a relative path reach: all
the names if they do not climb, and otherwise those that follow the last segments
of the directory. -/
def namesBelow (root : JsString) (xs : List JsString) : Option (List JsString) :=
  let own := (segments root).drop ((segments root).length - climbs xs)
  if (isAbsolute root = true ∨ climbs xs ≤ (segments root).length) ∧
      own <+: names xs ∧ own ≠ names xs then
    some ((names xs).drop own.length)
  else none

/-- A path below a directory and not the directory itself. -/
def StrictlyBelow (directory path : JsString) : Prop :=
  Within directory path ∧ segments path ≠ segments directory

instance (directory path : JsString) : Decidable (StrictlyBelow directory path) :=
  inferInstanceAs (Decidable (_ ∧ _))

theorem splitOn_intercalate_flatMap {parts : List JsString} (hne : parts ≠ []) :
    ([slash].intercalate parts).splitOn slash = parts.flatMap (·.splitOn slash) := by
  induction parts with
  | nil => exact absurd rfl hne
  | cons part parts ih =>
    cases parts with
    | nil => simp [intercalate]
    | cons next parts =>
      have htext : [slash].intercalate (part :: next :: parts) =
          part ++ slash :: [slash].intercalate (next :: parts) := by
        simp [intercalate]
      rw [htext, splitOn_append_cons_self, ih (cons_ne_nil _ _)]
      rfl

theorem foldl_filter_parts (above : Bool) (parts : List JsString) (done : List JsString) :
    ((parts.filter (· ≠ [])).flatMap (·.splitOn slash)).foldl (pushSegment above) done =
      (parts.flatMap (·.splitOn slash)).foldl (pushSegment above) done := by
  induction parts generalizing done with
  | nil => rfl
  | cons part parts ih =>
    by_cases hpart : part = []
    · subst hpart
      rw [filter_cons_of_neg (by simp), ih, flatMap_cons, foldl_append]
      rfl
    · rw [filter_cons_of_pos (by simpa using hpart), flatMap_cons, flatMap_cons,
        foldl_append, foldl_append, ih]

theorem isAbsolute_join (parts : List JsString) :
    isAbsolute (join parts) = ((parts.filter (· ≠ [])).head?.any isAbsolute) := by
  unfold join
  cases hparts : parts.filter (· ≠ []) with
  | nil => rfl
  | cons part rest =>
    have hpart : part ≠ [] := by
      have hmem : part ∈ parts.filter (· ≠ []) := hparts ▸ mem_cons_self ..
      simpa using (mem_filter.mp hmem).2
    simp only [cons_ne_nil, ite_false, head?_cons, Option.any_some]
    rw [(segments_normalize _).1]
    cases rest with
    | nil => simp [intercalate]
    | cons next rest =>
      have htext : [slash].intercalate (part :: next :: rest) =
          part ++ slash :: [slash].intercalate (next :: rest) := by
        simp [intercalate]
      rw [htext, isAbsolute_append hpart]

theorem segments_join_parts (parts : List JsString) : segments (join parts) =
      resolve (!isAbsolute (join parts)) (parts.flatMap (·.splitOn slash)) := by
  by_cases hparts : parts.filter (· ≠ []) = []
  · have hjoin : join parts = dot := by
      simp only [join, hparts, ite_true]
    have hfold := foldl_filter_parts (!isAbsolute dot) parts []
    rw [hparts] at hfold
    rw [hjoin, resolve, ← hfold]
    rfl
  · have hjoin : join parts = normalize ([slash].intercalate (parts.filter (· ≠ []))) := by
      simp only [join, hparts, ite_false]
    obtain ⟨habs, hsegments⟩ :=
      segments_normalize ([slash].intercalate (parts.filter (· ≠ [])))
    rw [hjoin, hsegments, habs, segments, splitOn_intercalate_flatMap hparts, resolve, resolve,
      foldl_filter_parts]

/-- Further parts behind a root whose text is not empty are resolved from the root's segments. -/
theorem segments_join_append {root : List JsString} (more : List JsString)
    (hroot : root.filter (· ≠ []) ≠ []) :
    isAbsolute (join (root ++ more)) = isAbsolute (join root) ∧ segments (join (root ++ more)) =
        ((more.flatMap (·.splitOn slash)).foldl (pushSegment (!isAbsolute (join root)))
          (segments (join root)).reverse).reverse := by
  have habs : isAbsolute (join (root ++ more)) = isAbsolute (join root) := by
    rw [isAbsolute_join, isAbsolute_join, filter_append]
    obtain ⟨part, rest, hparts⟩ := exists_cons_of_ne_nil hroot
    rw [hparts]
    rfl
  refine ⟨habs, ?_⟩
  rw [segments_join_parts, segments_join_parts root, habs, resolve, resolve,
    flatMap_append, foldl_append, reverse_reverse]

section

variable {above : Bool}

theorem pushSegment_self {done : List JsString} {x : JsString}
    (h : x = [] ∨ x = dot) : pushSegment above done x = done := by
  unfold pushSegment
  rw [if_pos h]

theorem pushSegment_dotdot {rest : List JsString} (h : last ≠ dotdot) :
    pushSegment above (last :: rest) dotdot = rest := by
  unfold pushSegment
  rw [if_neg (by decide), if_pos rfl]
  simp only [h, ite_false]

/-- Resolving segments from a directory is the same before and after they are
resolved on their own. -/
theorem foldl_resolve (start : List JsString) {xs : List JsString}
    (hslash : ∀ x ∈ xs, slash ∉ x) : xs.foldl (pushSegment above) start =
      (resolve true xs).foldl (pushSegment above) start := by
  have hstep : ∀ (done : List JsString) (x : JsString), Settled true done →
      pushSegment above (done.reverse.foldl (pushSegment above) start) x =
        (pushSegment true done x).reverse.foldl (pushSegment above) start := by
    intro done x hdone
    by_cases hempty : x = [] ∨ x = dot
    · rw [pushSegment_self hempty, pushSegment_self hempty]
    by_cases hdotdot : x = dotdot
    · subst hdotdot
      cases done with
      | nil => rfl
      | cons last rest =>
        by_cases hlast : last = dotdot
        · subst hlast
          have hpush : pushSegment true (dotdot :: rest) dotdot = dotdot :: dotdot :: rest := rfl
          have hreverse : (dotdot :: dotdot :: rest).reverse =
              (dotdot :: rest).reverse ++ [dotdot] := reverse_cons
          rw [hpush, hreverse, foldl_append]
          rfl
        · have hplain : Plain last := hdone.2.resolve_right fun h => hlast h.1
          rw [pushSegment_dotdot hlast, reverse_cons, foldl_append, foldl_cons,
            foldl_nil, pushSegment_plain hplain, pushSegment_dotdot hlast]
    · have hpush : pushSegment true done x = x :: done := by
        unfold pushSegment
        rw [if_neg hempty, if_neg hdotdot]
      rw [hpush, reverse_cons, foldl_append]
      rfl
  have hall : ∀ (xs done : List JsString), (∀ x ∈ xs, slash ∉ x) → Settled true done →
      xs.foldl (pushSegment above) (done.reverse.foldl (pushSegment above) start) =
        (xs.foldl (pushSegment true) done).reverse.foldl (pushSegment above) start := by
    intro xs
    induction xs with
    | nil => intro done _ _; rfl
    | cons x xs ih =>
      intro done hslash hdone
      rw [foldl_cons, foldl_cons, hstep done x hdone]
      exact ih _ (fun y hy => hslash y (mem_cons_of_mem _ hy))
        (hdone.pushSegment (hslash x (mem_cons_self ..)))
  exact hall xs [] hslash trivial

theorem Settled.split {done : List JsString} (h : Settled above done) :
    ∃ (k : Nat) (ns : List JsString), done.reverse = replicate k dotdot ++ ns ∧
      (∀ n ∈ ns, Plain n) ∧ (above = false → k = 0) := by
  induction done with
  | nil => exact ⟨0, [], rfl, by simp, fun _ => rfl⟩
  | cons x rest ih =>
    obtain ⟨k, ns, hrest, hplain, habove⟩ := ih h.1
    rw [reverse_cons, hrest]
    rcases h.2 with hx | ⟨rfl, htrue, hall⟩
    · refine ⟨k, ns ++ [x], by rw [append_assoc], ?_, habove⟩
      intro n hn
      rcases mem_append.mp hn with hn | hn
      · exact hplain n hn
      · exact mem_singleton.mp hn ▸ hx
    · have hns : ns = [] := by
        rw [eq_nil_iff_forall_not_mem]
        intro n hn
        have hmem : n ∈ rest := by
          rw [← mem_reverse, hrest]
          exact mem_append_right _ hn
        exact (hplain n hn).ne_dotdot (hall n hmem)
      subst hns
      refine ⟨k + 1, [], ?_, by simp, fun hfalse => absurd (htrue.symm.trans hfalse) (by decide)⟩
      rw [append_nil, append_nil, replicate_succ']

theorem resolve_true_eq {xs : List JsString} (hslash : ∀ x ∈ xs, slash ∉ x) :
    resolve true xs = replicate (climbs xs) dotdot ++ names xs ∧ ∀ n ∈ names xs, Plain n := by
  have hnil : Settled true [] := trivial
  obtain ⟨k, ns, hsplit, hplain, -⟩ := (hnil.foldl hslash).split
  have hresolve : resolve true xs = replicate k dotdot ++ ns := hsplit
  have htake : (replicate k dotdot ++ ns).takeWhile (· = dotdot) = replicate k dotdot := by
    rw [takeWhile_append_of_pos (by simp)]
    cases ns with
    | nil => simp
    | cons n ns =>
      have hne := (hplain n (mem_cons_self ..)).ne_dotdot
      simp [hne]
  have hdrop : (replicate k dotdot ++ ns).dropWhile (· = dotdot) = ns := by
    rw [dropWhile_append_of_pos (by simp)]
    cases ns with
    | nil => rfl
    | cons n ns =>
      have hne := (hplain n (mem_cons_self ..)).ne_dotdot
      simp [hne]
  have hclimbs : climbs xs = k := by
    rw [climbs, hresolve, htake, length_replicate]
  have hnames : names xs = ns := by
    rw [names, hresolve, hdrop]
  rw [hclimbs, hnames]
  exact ⟨hresolve, hplain⟩

theorem foldl_climb_names {last : List JsString} (hlast : ∀ x ∈ last, Plain x)
    (rest : List JsString) :
    (replicate last.length dotdot).foldl (pushSegment above) (last ++ rest) = rest := by
  induction last with
  | nil => rfl
  | cons x last ih =>
    rw [length_cons, replicate_succ, foldl_cons, cons_append,
      pushSegment_dotdot (hlast x (mem_cons_self ..)).ne_dotdot]
    exact ih fun y hy => hlast y (mem_cons_of_mem _ hy)

theorem foldl_climb_parents (j k : Nat) (habove : above = false → j = 0) :
    (replicate k dotdot).foldl (pushSegment above) (replicate j dotdot) =
      if above = true then replicate (j + k) dotdot else [] := by
  induction k generalizing j with
  | zero =>
    cases above with
    | true => rfl
    | false =>
      rw [habove rfl]
      rfl
  | succ k ih =>
    rw [replicate_succ, foldl_cons]
    cases above with
    | true =>
      have hpush : pushSegment true (replicate j dotdot) dotdot = replicate (j + 1) dotdot := by
        cases j with
        | zero => rfl
        | succ j => rfl
      rw [hpush, ih (j + 1) (by simp), if_pos rfl, if_pos rfl]
      congr 1
      omega
    | false =>
      rw [habove rfl]
      exact ih 0 fun _ => rfl

theorem foldl_names {ns : List JsString} (hns : ∀ n ∈ ns, Plain n)
    (done : List JsString) : ns.foldl (pushSegment above) done = ns.reverse ++ done := by
  induction ns generalizing done with
  | nil => rfl
  | cons n ns ih =>
    rw [foldl_cons, pushSegment_plain (hns n (mem_cons_self ..)),
      ih fun m hm => hns m (mem_cons_of_mem _ hm), reverse_cons, append_assoc]
    rfl

end

section Below

variable {root path : JsString} {xs : List JsString}

/-- The segments of the path are those of the root, followed by the given ones and resolved. -/
def Continues (root path : JsString) (xs : List JsString) : Prop :=
  isAbsolute path = isAbsolute root ∧ (∀ x ∈ xs, slash ∉ x) ∧
    segments path = (xs.foldl (pushSegment (!isAbsolute root)) (segments root).reverse).reverse

section

variable (h : Continues root path xs)
include h

/-- A path that continues a root keeps the root's segments but for as many as it
climbs, unless the root is relative and has not so many names. -/
theorem Continues.segments_eq : (isAbsolute root = true ∨ climbs xs ≤ (segments root).length) ∧
        segments path = (segments root).take ((segments root).length - climbs xs) ++ names xs ∨
      isAbsolute root = false ∧ ∃ (j k : Nat) (ns : List JsString),
        segments root = replicate j dotdot ++ ns ∧ (∀ n ∈ ns, Plain n) ∧
          climbs xs = ns.length + (k + 1) ∧
          segments path = replicate (j + (k + 1)) dotdot ++ names xs := by
  obtain ⟨-, hslash, hpath⟩ := h
  obtain ⟨hclimb, hnames⟩ := resolve_true_eq hslash
  obtain ⟨j, ns, hroot, hplain, hj⟩ := (settled_segments root).split
  rw [reverse_reverse] at hroot
  rw [foldl_resolve _ hslash, hclimb, foldl_append, foldl_names hnames, reverse_append,
    reverse_reverse] at hpath
  have hreverse : (segments root).reverse = ns.reverse ++ replicate j dotdot := by
    rw [hroot, reverse_append, reverse_replicate]
  rcases Nat.lt_or_ge ns.length (climbs xs) with hlt | hle
  · obtain ⟨k, hk⟩ : ∃ k, climbs xs = ns.length + (k + 1) := ⟨climbs xs - ns.length - 1, by omega⟩
    have hup : (replicate (climbs xs) dotdot).foldl (pushSegment (!isAbsolute root))
        (segments root).reverse =
          if (!isAbsolute root) = true then replicate (j + (k + 1)) dotdot else [] := by
      have hlast : (replicate ns.reverse.length dotdot).foldl (pushSegment (!isAbsolute root))
          (ns.reverse ++ replicate j dotdot) = replicate j dotdot :=
        foldl_climb_names (fun x hx => hplain x (mem_reverse.mp hx)) _
      rw [length_reverse] at hlast
      rw [hk, replicate_add, foldl_append, hreverse, hlast, foldl_climb_parents j (k + 1) hj]
    rw [hup] at hpath
    cases habs : isAbsolute root with
    | true =>
      left
      rw [habs] at hpath hj
      have hzero : (segments root).length - climbs xs = 0 := by
        rw [hroot, hj rfl, hk]
        simp
      refine ⟨.inl rfl, ?_⟩
      rw [hpath, hzero]
      rfl
    | false =>
      right
      rw [habs] at hpath
      exact ⟨rfl, j, k, ns, hroot, hplain, hk, by simpa using hpath⟩
  · left
    have hsplit : (segments root).reverse = (segments root).reverse.take (climbs xs) ++
        (segments root).reverse.drop (climbs xs) := (take_append_drop _ _).symm
    have hlast : ∀ x ∈ (segments root).reverse.take (climbs xs), Plain x := by
      intro x hx
      rw [hreverse, take_append_of_le_length (by simpa using hle)] at hx
      exact hplain x (mem_reverse.mp (mem_of_mem_take hx))
    have hlength : ((segments root).reverse.take (climbs xs)).length = climbs xs := by
      rw [length_take, hreverse]
      simp only [length_append, length_reverse]
      omega
    have hup : (replicate ((segments root).reverse.take (climbs xs)).length dotdot).foldl
        (pushSegment (!isAbsolute root)) ((segments root).reverse.take (climbs xs) ++
          (segments root).reverse.drop (climbs xs)) = (segments root).reverse.drop (climbs xs) :=
      foldl_climb_names hlast _
    rw [← hsplit, hlength] at hup
    refine ⟨.inr ?_, by rw [hpath, hup, drop_reverse, reverse_reverse]⟩
    rw [hroot, length_append]
    omega

/-- Names below a root are what the segments of the path add to those of the root. -/
theorem Continues.segments_of_namesBelow (hmore : namesBelow root xs = some more) :
    segments path = segments root ++ more ∧ more ≠ [] := by
  simp only [namesBelow] at hmore
  split at hmore
  · rename_i hcondition
    obtain ⟨hclimbs, ⟨rest, hrest⟩, hne⟩ := hcondition
    have hmore' : rest = more := by
      rw [← hrest, drop_left, Option.some.injEq] at hmore
      exact hmore
    subst hmore'
    have hrestne : rest ≠ [] := by
      intro hnil
      rw [hnil, append_nil] at hrest
      exact hne hrest
    refine ⟨?_, hrestne⟩
    rcases h.segments_eq with ⟨-, hpath⟩ | ⟨habs, j, k, ns, hroot, hplain, hk, -⟩
    · rw [hpath, ← hrest, ← append_assoc, take_append_drop]
    · have hle : climbs xs ≤ (segments root).length := by
        rcases hclimbs with hclimbs | hclimbs
        · rw [habs] at hclimbs
          cases hclimbs
        · exact hclimbs
      exfalso
      have hlength : (segments root).length = j + ns.length := by
        rw [hroot, length_append, length_replicate]
      have hown : dotdot ∈ (segments root).drop ((segments root).length - climbs xs) := by
        rw [hroot, drop_append_of_le_length (by simp; omega), drop_replicate]
        refine mem_append_left _ (mem_replicate.mpr ⟨?_, rfl⟩)
        simp
        omega
      have hmem : dotdot ∈ names xs := by
        rw [← hrest]
        exact mem_append_left _ hown
      exact ((resolve_true_eq h.2.1).2 dotdot hmem).ne_dotdot rfl
  · cases hmore

theorem Continues.plain_of_namesBelow (hmore : namesBelow root xs = some more) :
    ∀ n ∈ more, Plain n := by
  intro n hn
  simp only [namesBelow] at hmore
  split at hmore
  · rw [Option.some.injEq] at hmore
    subst hmore
    exact (resolve_true_eq h.2.1).2 n (mem_of_mem_drop hn)
  · cases hmore

/-- A path strictly below a root whose last segment is a name has names below it. -/
theorem Continues.namesBelow_isSome {front : List JsString}
    (hroot : segments root = front ++ [last]) (hlast : Plain last)
    (hbelow : StrictlyBelow root path) : (namesBelow root xs).isSome = true := by
  obtain ⟨⟨-, rest, hrest⟩, hne⟩ := hbelow
  rcases h.segments_eq with ⟨hclimbs, hpath⟩ | ⟨habs, j, k, ns, hsplit, hplain, hk, hpath⟩
  · have hsplit : (segments root).take ((segments root).length - climbs xs) ++
        ((segments root).drop ((segments root).length - climbs xs) ++ rest) =
          (segments root).take ((segments root).length - climbs xs) ++ names xs := by
      rw [← append_assoc, take_append_drop, hrest, hpath]
    have hown := append_cancel_left hsplit
    have hnames : (segments root).drop ((segments root).length - climbs xs) ≠ names xs := by
      intro heq
      rw [← heq, take_append_drop] at hpath
      exact hne hpath
    simp only [namesBelow]
    rw [if_pos ⟨hclimbs, ⟨rest, hown⟩, hnames⟩]
    rfl
  · exfalso
    rw [hsplit, hpath, replicate_add, append_assoc, append_assoc] at hrest
    have htail := append_cancel_left hrest
    cases ns with
    | nil =>
      have hmem : last ∈ replicate j dotdot := by
        rw [append_nil, hroot] at hsplit
        rw [← hsplit]
        simp
      exact hlast.ne_dotdot (eq_of_mem_replicate hmem)
    | cons n ns =>
      rw [replicate_succ, cons_append, cons_append, List.cons.injEq] at htail
      exact (hplain n (mem_cons_self ..)).ne_dotdot htail.1

theorem Continues.strictlyBelow_iff {front : List JsString}
    (hroot : segments root = front ++ [last]) (hlast : Plain last) :
    StrictlyBelow root path ↔ (namesBelow root xs).isSome = true := by
  refine ⟨h.namesBelow_isSome hroot hlast, fun hsome => ?_⟩
  obtain ⟨more, hmore⟩ := Option.isSome_iff_exists.mp hsome
  obtain ⟨hpath, hne⟩ := h.segments_of_namesBelow hmore
  refine ⟨⟨h.1, hpath ▸ prefix_append _ _⟩, fun heq => hne ?_⟩
  rw [hpath] at heq
  exact append_right_eq_self.mp heq

/-- Of two paths below one root, one lies within the other exactly when its names
begin with those of the other. -/
theorem Continues.within_iff {path' : JsString} {xs' : List JsString}
    (h' : Continues root path' xs') {more' : List JsString} (hmore : namesBelow root xs = some more)
    (hmore' : namesBelow root xs' = some more') : Within path path' ↔ more <+: more' := by
  have hpath := (h.segments_of_namesBelow hmore).1
  have hpath' := (h'.segments_of_namesBelow hmore').1
  rw [Within, hpath, hpath', prefix_append_right_inj]
  exact and_iff_right (h'.1.trans h.1.symm)

end

end Below

end AcademicAgent.Path
