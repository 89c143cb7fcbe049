import AcademicAgent.Core.JsString

/-!
# File paths

Joining and normalizing paths with forward slashes: empty segments and `.` are dropped and `..`
removes the segment before it.
-/

namespace AcademicAgent.Path

open List

variable {done : List JsString}

def slash : CodeUnit := 0x2F

def dot : JsString := js "."

def dotdot : JsString := js ".."

/-- A segment that names an entry of its directory. -/
structure Plain (segment : JsString) : Prop where
  ne_nil : segment ≠ []
  ne_dot : segment ≠ dot
  ne_dotdot : segment ≠ dotdot
  slash_notMem : slash ∉ segment

instance (segment : JsString) : Decidable (Plain segment) :=
  decidable_of_iff
    (segment ≠ [] ∧ segment ≠ dot ∧ segment ≠ dotdot ∧ slash ∉ segment)
    ⟨fun ⟨h, h', h'', h'''⟩ => ⟨h, h', h'', h'''⟩,
      fun h => ⟨h.ne_nil, h.ne_dot, h.ne_dotdot, h.slash_notMem⟩⟩

/-- One more segment; those resolved so far come last first. -/
def pushSegment (allowAboveRoot : Bool) (done : List JsString) (segment : JsString) :
    List JsString :=
  if segment = [] ∨ segment = dot then done
  else if segment = dotdot then
    match done with
    | [] => if allowAboveRoot then [dotdot] else []
    | last :: rest => if last = dotdot then dotdot :: last :: rest else rest
  else segment :: done

/-- The segments that `normalizeString` leaves. -/
def resolve (allowAboveRoot : Bool) (segments : List JsString) : List JsString :=
  (segments.foldl (pushSegment allowAboveRoot) []).reverse

section

variable (path : JsString)

/-- A path that starts at the root of the file system. -/
def isAbsolute : Bool := path.head? == some slash

def segments : List JsString :=
  resolve (!isAbsolute path) (path.splitOn slash)

def normalize : JsString :=
  if path = [] then dot
  else
    let trailingSeparator := path.getLast? == some slash
    let body := [slash].intercalate (segments path)
    if body = [] then
      if isAbsolute path then [slash]
      else if trailingSeparator then dot ++ [slash] else dot
    else
      (if isAbsolute path then [slash] else []) ++ body ++
        (if trailingSeparator then [slash] else [])

end

def join (parts : List JsString) : JsString :=
  let parts := parts.filter (· ≠ [])
  if parts = [] then dot else normalize ([slash].intercalate parts)

example : join [js "/w/root/", js "tasks", js "../../t"] = js "/w/t" := by decide
example : join [[], js "a//./b", js "../../.."] = js ".." := by decide

/-- Resolved segments, last first: below a parent segment are only such, and none
in an absolute path. -/
def Settled (allowAboveRoot : Bool) : List JsString → Prop
  | [] => True
  | x :: rest => Settled allowAboveRoot rest ∧
      (Plain x ∨ x = dotdot ∧ allowAboveRoot = true ∧ ∀ y ∈ rest, y = dotdot)

variable {above : Bool}

theorem Settled.pushSegment {done : List JsString} (h : Settled above done) {segment : JsString}
    (hslash : slash ∉ segment) : Settled above (pushSegment above done segment) := by
  unfold Path.pushSegment
  split
  · exact h
  · rename_i hempty
    rw [not_or] at hempty
    split
    · cases done with
      | nil =>
        by_cases habove : above = true
        all_goals simp [habove, Settled]
      | cons last rest =>
        by_cases hlast : last = dotdot
        · subst hlast
          rcases h.2 with hplain | ⟨_, habove, hrest⟩
          · exact absurd rfl hplain.ne_dotdot
          · simp only [ite_true]
            refine ⟨h, .inr ⟨rfl, habove, ?_⟩⟩
            intro y hy
            rcases mem_cons.mp hy with hy | hy
            · exact hy
            · exact hrest y hy
        · simp only [hlast, ite_false]
          exact h.1
    · rename_i hdotdot
      exact ⟨h, .inl ⟨hempty.1, hempty.2, hdotdot, hslash⟩⟩

theorem Settled.foldl {done : List JsString} (h : Settled above done) {more : List JsString}
    (hslash : ∀ x ∈ more, slash ∉ x) :
    Settled above (more.foldl (Path.pushSegment above) done) := by
  induction more generalizing done with
  | nil => exact h
  | cons x more ih =>
    exact ih (h.pushSegment (hslash x (mem_cons_self ..)))
      fun y hy => hslash y (mem_cons_of_mem _ hy)

theorem pushSegment_plain {x : JsString} (h : Plain x) :
    pushSegment above done x = x :: done := by
  unfold pushSegment
  rw [if_neg (not_or.mpr ⟨h.ne_nil, h.ne_dot⟩), if_neg h.ne_dotdot]

theorem Settled.push_eq {x : JsString} {rest : List JsString} (h : Settled above (x :: rest)) :
    Path.pushSegment above rest x = x :: rest := by
  rcases h.2 with hplain | ⟨rfl, habove, hrest⟩
  · exact pushSegment_plain hplain
  · cases rest with
    | nil =>
      rw [habove]
      rfl
    | cons y rest =>
      have hy : y = dotdot := hrest y (mem_cons_self ..)
      subst hy
      rfl

theorem Settled.foldl_reverse (h : Settled above done) :
    done.reverse.foldl (Path.pushSegment above) [] = done := by
  induction done with
  | nil => rfl
  | cons x rest ih =>
    rw [reverse_cons, foldl_append, ih h.1]
    exact h.push_eq

theorem Settled.slash_notMem (h : Settled above done) : ∀ x ∈ done, slash ∉ x ∧ x ≠ [] := by
  induction done with
  | nil =>
    intro x hx
    cases hx
  | cons y rest ih =>
    intro x hx
    rcases mem_cons.mp hx with rfl | hx
    · rcases h.2 with hplain | ⟨rfl, -⟩
      · exact ⟨hplain.slash_notMem, hplain.ne_nil⟩
      · exact ⟨by decide, by decide⟩
    · exact ih h.1 x hx

theorem settled_segments (path : JsString) :
    Settled (!isAbsolute path) (segments path).reverse := by
  rw [segments, resolve, reverse_reverse]
  have hnil : Settled (!isAbsolute path) [] := trivial
  exact hnil.foldl (separator_notMem_splitOn slash path)

theorem resolve_segments (path : JsString) :
    resolve (!isAbsolute path) (segments path) = segments path := by
  have h := (settled_segments path).foldl_reverse
  rw [reverse_reverse] at h
  rw [resolve, h, reverse_reverse]

section

variable (xs : List JsString)

theorem resolve_nil_cons : resolve above ([] :: xs) = resolve above xs := rfl

theorem resolve_concat_nil : resolve above (xs ++ [[]]) = resolve above xs := by
  rw [resolve, foldl_append]
  rfl

theorem resolve_append_plain {ys : List JsString} (hys : ∀ y ∈ ys, Plain y) :
    resolve above (xs ++ ys) = resolve above xs ++ ys := by
  rw [resolve, foldl_append]
  generalize hdone : xs.foldl (pushSegment above) [] = done
  have hall : ∀ done, (ys.foldl (pushSegment above) done).reverse = done.reverse ++ ys := by
    induction ys with
    | nil => simp
    | cons y ys ih =>
      intro done
      rw [foldl_cons, pushSegment_plain (hys y (mem_cons_self ..)),
        ih fun z hz => hys z (mem_cons_of_mem _ hz)]
      simp
  rw [hall, resolve, hdone]

end

theorem isAbsolute_append {xs ys : JsString} (h : xs ≠ []) :
    isAbsolute (xs ++ ys) = isAbsolute xs := by
  cases xs with
  | nil => exact absurd rfl h
  | cons c xs => rfl

theorem isAbsolute_intercalate {xs : List JsString} (h : ∀ x ∈ xs, slash ∉ x ∧ x ≠ []) :
    isAbsolute ([slash].intercalate xs) = false := by
  cases xs with
  | nil => rfl
  | cons x xs =>
    obtain ⟨hslash, hne⟩ := h x (mem_cons_self ..)
    obtain ⟨c, cs, rfl⟩ := exists_cons_of_ne_nil hne
    have hc : c ≠ slash := fun heq => hslash (heq ▸ mem_cons_self ..)
    have hhead : ([slash].intercalate ((c :: cs) :: xs)).head? = some c := by
      cases xs with
      | nil => simp [intercalate]
      | cons y ys => simp [intercalate]
    rw [isAbsolute, hhead]
    simpa using hc

theorem intercalate_eq_nil {xs : List JsString} (h : ∀ x ∈ xs, x ≠ [])
    (hnil : [slash].intercalate xs = []) : xs = [] := by
  cases xs with
  | nil => rfl
  | cons x xs =>
    have hx := h x (mem_cons_self ..)
    cases xs with
    | nil => exact absurd (by simpa [intercalate] using hnil) hx
    | cons y ys => simp [intercalate] at hnil

theorem segments_normalize (path : JsString) :
    isAbsolute (normalize path) = isAbsolute path ∧ segments (normalize path) = segments path := by
  have hsettled : ∀ x ∈ segments path, slash ∉ x ∧ x ≠ [] := by
    intro x hx
    exact (settled_segments path).slash_notMem x (mem_reverse.mpr hx)
  unfold normalize
  by_cases hpath : path = []
  · subst hpath
    exact ⟨rfl, rfl⟩
  rw [if_neg hpath]
  simp only
  by_cases hbody : [slash].intercalate (segments path) = []
  · have hnil := intercalate_eq_nil (fun x hx => (hsettled x hx).2) hbody
    rw [if_pos hbody, hnil]
    by_cases habs : isAbsolute path = true
    · rw [if_pos habs, habs]
      exact ⟨rfl, rfl⟩
    · rw [if_neg habs, Bool.eq_false_iff.mpr habs]
      split
      all_goals exact ⟨rfl, by decide⟩
  · rw [if_neg hbody]
    have hne : segments path ≠ [] := by
      intro h
      rw [h] at hbody
      exact hbody rfl
    have hfirst := isAbsolute_intercalate hsettled
    have hsplit : ([slash].intercalate (segments path)).splitOn slash = segments path :=
      splitOn_intercalate slash (fun x hx => (hsettled x hx).1) hne
    have htrail : ∀ t : Bool, ([slash].intercalate (segments path) ++
        if t = true then [slash] else []).splitOn slash =
          segments path ++ if t = true then [[]] else [] := by
      intro t
      cases t with
      | false => simpa using hsplit
      | true =>
        rw [if_pos rfl, if_pos rfl, splitOn_append_cons_self, hsplit]
        rfl
    have hresolve : ∀ t : Bool, resolve (!isAbsolute path)
        (segments path ++ if t = true then [[]] else []) = segments path := by
      intro t
      cases t with
      | false => simpa using resolve_segments path
      | true => rw [if_pos rfl, resolve_concat_nil, resolve_segments]
    by_cases habs : isAbsolute path = true
    · rw [if_pos habs, append_assoc]
      have habs' : isAbsolute ([slash] ++ ([slash].intercalate (segments path) ++
          if (path.getLast? == some slash) = true then [slash] else [])) = true := rfl
      refine ⟨by rw [habs', habs], ?_⟩
      rw [segments, habs', singleton_append, ← nil_append (slash :: _),
        splitOn_append_cons_self, splitOn_nil, singleton_append,
        resolve_nil_cons, htrail]
      rw [habs] at hresolve
      exact hresolve _
    · rw [if_neg habs, nil_append]
      have habs' : isAbsolute ([slash].intercalate (segments path) ++
          if (path.getLast? == some slash) = true then [slash] else []) = isAbsolute path := by
        rw [isAbsolute_append hbody, hfirst, Bool.eq_false_iff.mpr habs]
      refine ⟨habs', ?_⟩
      rw [segments, habs', htrail, hresolve]

theorem segments_join (root : JsString) {names : List JsString} (hne : names ≠ [])
    (hnames : ∀ x ∈ names, Plain x) : isAbsolute (join (root :: names)) = isAbsolute root ∧
      segments (join (root :: names)) = segments root ++ names := by
  have hfilter : names.filter (· ≠ []) = names := by
    rw [filter_eq_self]
    intro x hx
    exact decide_eq_true (hnames x hx).ne_nil
  have hslash : ∀ x ∈ names, slash ∉ x ∧ x ≠ [] := fun x hx =>
    ⟨(hnames x hx).slash_notMem, (hnames x hx).ne_nil⟩
  have hsplit : ([slash].intercalate names).splitOn slash = names :=
    splitOn_intercalate slash (fun x hx => (hslash x hx).1) hne
  have hfirst := isAbsolute_intercalate hslash
  unfold join
  by_cases hroot : root = []
  · subst hroot
    have hparts : ([] :: names).filter (· ≠ []) = names := by
      rw [filter_cons_of_neg (by simp), hfilter]
    simp only [hparts, hne, ite_false]
    obtain ⟨habs, hsegments⟩ := segments_normalize ([slash].intercalate names)
    refine ⟨by rw [habs, hfirst]; rfl, ?_⟩
    rw [hsegments, segments, hsplit, ← nil_append names, resolve_append_plain [] hnames]
    rfl
  · have hparts : (root :: names).filter (· ≠ []) = root :: names := by
      rw [filter_cons_of_pos (by simpa using hroot), hfilter]
    simp only [hparts, cons_ne_nil, ite_false]
    obtain ⟨y, ys, rfl⟩ := exists_cons_of_ne_nil hne
    have htext : [slash].intercalate (root :: y :: ys) =
        root ++ slash :: [slash].intercalate (y :: ys) := by
      simp [intercalate]
    obtain ⟨habs, hsegments⟩ := segments_normalize ([slash].intercalate (root :: y :: ys))
    have habs' : isAbsolute ([slash].intercalate (root :: y :: ys)) = isAbsolute root := by
      rw [htext, isAbsolute_append hroot]
    refine ⟨by rw [habs, habs'], ?_⟩
    rw [hsegments, segments, habs', htext, splitOn_append_cons_self, hsplit,
      resolve_append_plain _ hnames, segments]

def Within (directory path : JsString) : Prop :=
  isAbsolute path = isAbsolute directory ∧ segments directory <+: segments path

instance (directory path : JsString) : Decidable (Within directory path) :=
  inferInstanceAs (Decidable (_ ∧ _))

theorem Within.trans {a b c : JsString} (hab : Within a b) (hbc : Within b c) : Within a c :=
  ⟨hbc.1.trans hab.1, hab.2.trans hbc.2⟩

theorem within_join (directory : JsString) {names : List JsString} (hne : names ≠ [])
    (hnames : ∀ x ∈ names, Plain x) : Within directory (join (directory :: names)) := by
  obtain ⟨habs, hsegments⟩ := segments_join directory hne hnames
  exact ⟨habs, hsegments ▸ prefix_append _ _⟩

end AcademicAgent.Path
