import AcademicAgent.AgentHost.GitSource
import AcademicAgent.Core.RelativePath

/-!
# Installed git packages

A git package is installed below the directory of its scope, in a directory that host and path
of its source name.
-/

namespace AcademicAgent.AgentHost

open AcademicAgent.Path List

variable {path root : JsString} {names directory entry : List JsString}

inductive SourceScope where
  | user
  | project
  | temporary
  deriving DecidableEq

structure PackageManager where
  cwd : JsString
  agentDir : JsString
  /-- `tmpdir()`. -/
  tmpdir : JsString
  /-- The hexadecimal SHA-256 digest of a text. -/
  sha256 : JsString → JsString

def configDirName : JsString := js ".pi"

namespace PackageManager

variable (manager : PackageManager)

def getTemporaryDir (start suffix : JsString) : JsString :=
  let hash := (manager.sha256 (start ++ js "-" ++ suffix)).take 8
  join [manager.tmpdir, js "pi-extensions", start, hash, suffix]

def getGitInstallPath (source : GitSource) (scope : SourceScope) : JsString :=
  match scope with
  | .temporary => manager.getTemporaryDir (js "git-" ++ source.host) source.path
  | .project => join [manager.cwd, configDirName, js "git", source.host, source.path]
  | .user => join [manager.agentDir, js "git", source.host, source.path]

def getGitInstallRoot : SourceScope → Option JsString
  | .temporary => none
  | .project => some (join [manager.cwd, configDirName, js "git"])
  | .user => some (join [manager.agentDir, js "git"])

end PackageManager

/-- `getPackageIdentity` of a git source. -/
def getPackageIdentity (source : GitSource) : JsString :=
  js "git:" ++ source.host ++ [slash] ++ source.path

/-- The files and directories there are, by the segments of their absolute paths.
What lies in a directory lies in one that is there. -/
structure Disk where
  entries : List (List JsString)
  parent_mem : ∀ entry ∈ entries, entry.dropLast = [] ∨ entry.dropLast ∈ entries

variable {disk : Disk}

namespace Disk

/-- `rmSync` with `recursive`. -/
def rmSync (disk : Disk) (directory : List JsString) : Disk where
  entries := disk.entries.filter fun entry => !directory.isPrefixOf entry
  parent_mem := by
    intro entry hentry
    obtain ⟨hmem, hnot⟩ := mem_filter.mp hentry
    rcases disk.parent_mem entry hmem with hnil | hparent
    · exact .inl hnil
    · right
      refine mem_filter.mpr ⟨hparent, ?_⟩
      simp only [Bool.not_eq_true', isPrefixOf_iff_prefix, Bool.eq_false_iff, ne_eq] at hnot ⊢
      exact fun h => hnot (h.trans ( dropLast_prefix entry))

/-- Whether `readdirSync` finds entries in a directory. -/
def hasEntries (disk : Disk) (directory : List JsString) : Bool :=
  disk.entries.any fun entry => entry ≠ [] && entry.dropLast == directory

end Disk

def dirname (path : JsString) : JsString :=
  let front := (path.rdropWhile (· == slash)).rdropWhile (· != slash)
  if front.length ≤ 1 then if isAbsolute path then [slash] else dot
  else if isAbsolute path ∧ front.length = 2 then [slash, slash]
  else front.dropLast

/-- The text of the absolute path with the given segments. -/
def absoluteText (segments : List JsString) : JsString := slash :: [slash].intercalate segments

section Process

variable (processCwd : JsString)

/-- The segments of the absolute path that a path stands for in the process. -/
def absoluteSegments (path : JsString) : List JsString :=
  segments (if isAbsolute path then path else join [processCwd, path])

theorem dirname_length_lt (habs : isAbsolute path = true) (hlength : 2 ≤ path.length) :
    (dirname path).length < path.length := by
  have hbody := ( rdropWhile_prefix (· == slash) (l := path)).length_le
  have hfront := ( rdropWhile_prefix (· != slash) (l := path.rdropWhile (· == slash))).length_le
  unfold dirname
  simp only [habs, ite_true, true_and]
  split
  · rw [length_singleton]
    omega
  · rename_i hlong
    split
    · rename_i htwo
      by_contra hshort
      rw [length_cons, length_singleton] at hshort
      have hsame := ( rdropWhile_prefix (· != slash)
        (l := path.rdropWhile (· == slash))).eq_of_length (by omega)
      have hne : (path.rdropWhile (· == slash)).rdropWhile (· != slash) ≠ [] := by
        intro hnil
        rw [hnil] at htwo
        cases htwo
      have hslash := rdropWhile_last_not (· != slash) _ hne
      have hother := rdropWhile_last_not (· == slash) path (hsame ▸ hne)
      simp only [hsame] at hslash
      simp only [bne_iff_ne, ne_eq, not_not, beq_iff_eq] at hslash hother
      exact hother hslash
    · rw [length_dropLast]
      omega

theorem dirname_length_lt_of_prefix {segments : List JsString} {current : JsString}
    (h : absoluteText segments <+: current ∧ current ≠ absoluteText segments) :
    (dirname current).length < current.length := by
  obtain ⟨⟨rest, rfl⟩, hne⟩ := h
  refine dirname_length_lt rfl ?_
  have hrest : rest ≠ [] := by
    intro hnil
    rw [hnil, append_nil] at hne
    exact hne rfl
  have hpos := length_pos_iff.mpr hrest
  rw [length_append, absoluteText, length_cons]
  omega

/-- The loop of `pruneEmptyGitParents`, for the segments of the resolved root. -/
def pruneFrom (root : List JsString) (current : JsString) (disk : Disk) : Disk :=
  if _h : absoluteText root <+: current ∧ current ≠ absoluteText root then
    let directory := absoluteSegments processCwd current
    if directory ∉ disk.entries then pruneFrom root (dirname current) disk
    else if disk.hasEntries directory then disk
    else pruneFrom root (dirname current) (disk.rmSync directory)
  else disk
termination_by current.length
decreasing_by
  all_goals exact dirname_length_lt_of_prefix ‹_›

def pruneEmptyGitParents (targetDir : JsString) (installRoot : Option JsString) (disk : Disk) :
    Disk :=
  match installRoot with
  | none => disk
  | some installRoot =>
    pruneFrom processCwd (absoluteSegments processCwd installRoot) (dirname targetDir) disk

def PackageManager.removeGit (manager : PackageManager) (source : GitSource)
    (scope : SourceScope) (disk : Disk) : Disk :=
  let targetDir := manager.getGitInstallPath source scope
  if absoluteSegments processCwd targetDir ∉ disk.entries then disk
  else
    pruneEmptyGitParents processCwd targetDir (manager.getGitInstallRoot scope)
      (disk.rmSync (absoluteSegments processCwd targetDir))

def Segmented (segments : List JsString) : Prop := ∀ x ∈ segments, Plain x

theorem absoluteText_eq (hne : names ≠ []) : absoluteText names = names.flatMap (slash :: ·) := by
  induction names with
  | nil => exact absurd rfl hne
  | cons name names ih =>
    cases names with
    | nil => simp [absoluteText, intercalate]
    | cons next names =>
      have htext : absoluteText (name :: next :: names) =
          slash :: name ++ absoluteText (next :: names) := by
        simp [absoluteText, intercalate]
      rw [htext, ih (cons_ne_nil _ _)]
      rfl

theorem absoluteText_concat (front : List JsString) (last : JsString) :
    absoluteText (front ++ [last]) = front.flatMap (slash :: ·) ++ slash :: last := by
  rw [absoluteText_eq (by simp), flatMap_append]
  simp

theorem rdropWhile_append_cons {p : CodeUnit → Bool} (front : JsString) {c : CodeUnit}
    {tail : JsString} (hc : p c = false) (htail : ∀ d ∈ tail, p d = true) :
    (front ++ c :: tail).rdropWhile p = front ++ [c] := by
  have hreverse : (front ++ c :: tail).reverse = tail.reverse ++ c :: front.reverse := by simp
  rw [rdropWhile, hreverse, dropWhile_append_of_pos
    (fun d hd => htail d (mem_reverse.mp hd)), dropWhile_cons_of_neg (by simp [hc])]
  simp

theorem dirname_absoluteText {front : List JsString} {last : JsString}
    (hfront : Segmented front) (hlast : Plain last) {trailing : JsString}
    (htrailing : ∀ c ∈ trailing, c = slash) :
    dirname (absoluteText (front ++ [last]) ++ trailing) = absoluteText front := by
  obtain ⟨init, c, rfl⟩ : ∃ init c, last = init ++ [c] :=
    ⟨_, _, (dropLast_append_getLast hlast.ne_nil).symm⟩
  have hc : c ≠ slash := by
    intro heq
    exact hlast.slash_notMem (by simp [heq])
  have hbody : (absoluteText (front ++ [init ++ [c]]) ++ trailing).rdropWhile (· == slash) =
      front.flatMap (slash :: ·) ++ slash :: (init ++ [c]) := by
    have hsplit : absoluteText (front ++ [init ++ [c]]) ++ trailing =
        (front.flatMap (slash :: ·) ++ slash :: init) ++ c :: trailing := by
      rw [absoluteText_concat]
      simp
    rw [hsplit, rdropWhile_append_cons _ (by simpa using hc)
      (fun d hd => by simpa using htrailing d hd)]
    simp
  have hslashes : (front.flatMap (slash :: ·) ++ slash :: (init ++ [c])).rdropWhile
      (· != slash) = front.flatMap (slash :: ·) ++ [slash] := by
    refine rdropWhile_append_cons _ (by simp) ?_
    intro d hd
    simp only [bne_iff_ne, ne_eq]
    exact fun heq => hlast.slash_notMem (heq ▸ hd)
  have habs : isAbsolute (absoluteText (front ++ [init ++ [c]]) ++ trailing) = true := rfl
  unfold dirname
  simp only [hbody, hslashes, habs, ite_true, true_and]
  cases front with
  | nil => rfl
  | cons name front =>
    obtain ⟨d, ds, hname⟩ :=
      exists_cons_of_ne_nil (hfront name (mem_cons_self ..)).ne_nil
    rw [if_neg, if_neg, dropLast_concat, absoluteText_eq (cons_ne_nil _ _)]
    · simp [hname]
    · simp [hname]

theorem segments_absoluteText (h : Segmented names) : segments (absoluteText names) = names := by
  have hplain : resolve false ([] ++ names) = resolve false [] ++ names :=
    resolve_append_plain [] h
  rw [nil_append] at hplain
  have habs : isAbsolute (absoluteText names) = true := rfl
  have hsplit : (absoluteText names).splitOn slash =
      [] :: ([slash].intercalate names).splitOn slash := by
    rw [absoluteText, ← nil_append (slash :: _), splitOn_append_cons_self]
    rfl
  rw [segments, habs, hsplit, resolve_nil_cons]
  by_cases hne : names = []
  · subst hne
    rfl
  · rw [splitOn_intercalate slash (fun x hx => (h x hx).slash_notMem) hne]
    exact hplain

theorem absoluteSegments_absoluteText (h : Segmented names) :
    absoluteSegments processCwd (absoluteText names) = names := by
  have habs : isAbsolute (absoluteText names) = true := rfl
  rw [absoluteSegments, if_pos habs, segments_absoluteText h]

theorem Disk.child_mem (disk : Disk) {name : JsString} {rest : List JsString}
    (h : directory ++ name :: rest ∈ disk.entries) : directory ++ [name] ∈ disk.entries := by
  induction rest using reverseRecOn with
  | nil => exact h
  | append_singleton rest last ih =>
    have hdrop : (directory ++ name :: (rest ++ [last])).dropLast = directory ++ name :: rest := by
      rw [← cons_append, ← append_assoc, dropLast_concat]
    rcases disk.parent_mem _ h with hnil | hmem
    · rw [hdrop] at hnil
      simp at hnil
    · rw [hdrop] at hmem
      exact ih hmem

theorem Disk.mem_rmSync (hentry : entry ∈ disk.entries) (hout : ¬ directory <+: entry) :
    entry ∈ (disk.rmSync directory).entries := by
  refine mem_filter.mpr ⟨hentry, ?_⟩
  rw [Bool.not_eq_true', ← Bool.not_eq_true, isPrefixOf_iff_prefix]
  exact hout

theorem Disk.mem_rmSync_empty (hempty : disk.hasEntries directory = false)
    (hentry : entry ∈ disk.entries) (hother : entry ≠ directory) :
    entry ∈ (disk.rmSync directory).entries := by
  refine disk.mem_rmSync hentry ?_
  rintro ⟨rest, rfl⟩
  cases rest with
  | nil => exact hother (append_nil _)
  | cons name rest =>
    have hchild := disk.child_mem hentry
    have hfound : disk.hasEntries directory = true := by
      rw [Disk.hasEntries, any_eq_true]
      exact ⟨_, hchild, by simp⟩
    rw [hempty] at hfound
    cases hfound

theorem pruneFrom_keeps {root : List JsString} (hsegmented : Segmented (root ++ names))
    (hentry : entry ∈ disk.entries)
    (hother : ∀ between, between ≠ [] → between <+: names → entry ≠ root ++ between) :
    entry ∈ (pruneFrom processCwd root (absoluteText (root ++ names)) disk).entries := by
  induction names using reverseRecOn generalizing disk with
  | nil =>
    rw [pruneFrom, dif_neg (by simp)]
    exact hentry
  | append_singleton names last ih =>
    rw [← append_assoc] at hsegmented ⊢
    have hfront : Segmented (root ++ names) := fun x hx =>
      hsegmented x (mem_append_left _ hx)
    have hlast : Plain last := hsegmented last (by simp)
    have hparent : dirname (absoluteText (root ++ names ++ [last])) =
        absoluteText (root ++ names) := by
      have h : dirname (absoluteText (root ++ names ++ [last]) ++ []) =
          absoluteText (root ++ names) := dirname_absoluteText hfront hlast (by simp)
      rwa [append_nil] at h
    have hup : ∀ {disk : Disk}, entry ∈ disk.entries →
        entry ∈ (pruneFrom processCwd root (absoluteText (root ++ names)) disk).entries :=
      fun hmem => ih hfront hmem fun between hne hbetween =>
        hother between hne (hbetween.trans (prefix_append _ _))
    rw [pruneFrom]
    split
    · simp only [absoluteSegments_absoluteText processCwd hsegmented, hparent]
      split
      · exact hup hentry
      · split
        · exact hentry
        · rename_i hempty
          refine hup (Disk.mem_rmSync_empty (by simpa using hempty) hentry ?_)
          rw [append_assoc]
          exact hother _ (by simp) (prefix_refl _)
    · exact hentry

/-- The segments that a source adds to the install root. -/
def sourceSegments (source : GitSource) : List JsString :=
  source.host.splitOn slash ++ source.path.splitOn slash

section

variable {manager : PackageManager} {scope : SourceScope}

theorem PackageManager.getGitInstallRoot_eq (hroot : manager.getGitInstallRoot scope = some root) :
    ∃ parts, root = join (parts ++ [js "git"]) ∧ ∀ source, manager.getGitInstallPath source scope =
        join (parts ++ [js "git"] ++ [source.host, source.path]) := by
  cases scope with
  | user => exact ⟨[manager.agentDir], (Option.some.inj hroot).symm, fun _ => rfl⟩
  | project => exact ⟨[manager.cwd, configDirName], (Option.some.inj hroot).symm, fun _ => rfl⟩
  | temporary => cases hroot

theorem plain_git : Plain (js "git") := by decide

theorem PackageManager.continues (hroot : manager.getGitInstallRoot scope = some root)
    (source : GitSource) :
    Continues root (manager.getGitInstallPath source scope) (sourceSegments source) := by
  obtain ⟨parts, rfl, hpath⟩ := PackageManager.getGitInstallRoot_eq hroot
  have hfilter : (parts ++ [js "git"]).filter (· ≠ []) ≠ [] := by
    rw [filter_append]
    exact append_ne_nil_of_right_ne_nil _ (by decide)
  have hmore : [source.host, source.path].flatMap (·.splitOn slash) = sourceSegments source := by
    simp [sourceSegments]
  obtain ⟨habs, hsegments⟩ :=
    segments_join_append [source.host, source.path] hfilter
  rw [hmore] at hsegments
  rw [hpath source]
  refine ⟨habs, ?_, hsegments⟩
  intro x hx
  rcases mem_append.mp hx with hx | hx
  all_goals exact separator_notMem_splitOn slash _ x hx

theorem PackageManager.segments_root (hroot : manager.getGitInstallRoot scope = some root) :
    ∃ front, segments root = front ++ [js "git"] := by
  obtain ⟨parts, rfl, -⟩ := PackageManager.getGitInstallRoot_eq hroot
  rw [segments_join_parts, flatMap_append]
  have hgit : [js "git"].flatMap (·.splitOn slash) = [js "git"] := by decide
  rw [hgit, resolve_append_plain _ fun y hy => mem_singleton.mp hy ▸ plain_git]
  exact ⟨_, rfl⟩

theorem absoluteSegments_of_namesBelow {xs more : List JsString} (h : Continues root path xs)
    (hmore : namesBelow root xs = some more) :
    absoluteSegments processCwd path = absoluteSegments processCwd root ++ more := by
  have hpath := (h.segments_of_namesBelow hmore).1
  have hplain := h.plain_of_namesBelow hmore
  rw [absoluteSegments, absoluteSegments, h.1]
  cases habs : isAbsolute root with
  | true => exact hpath
  | false =>
    have hrelative : ∀ text : JsString, isAbsolute text = false →
        segments (join [processCwd, text]) =
          ((segments text).foldl (pushSegment (!isAbsolute processCwd))
            ((processCwd.splitOn slash).foldl (pushSegment (!isAbsolute processCwd)) [])).reverse := by
      intro text htext
      have hstart : isAbsolute (join [processCwd, text]) = isAbsolute processCwd := by
        rw [isAbsolute_join]
        by_cases hcwd : processCwd = []
        · subst hcwd
          by_cases hnil : text = []
          · subst hnil
            rfl
          · simp [hnil, htext]
            rfl
        · simp [hcwd]
      have hown : segments text = resolve true (text.splitOn slash) := by
        rw [segments, htext]
        rfl
      rw [segments_join_parts, hstart, flatMap_cons, flatMap_cons, flatMap_nil,
        append_nil, resolve, foldl_append,
        foldl_resolve _ (separator_notMem_splitOn slash text), ← hown]
    have hpathAbs : isAbsolute path = false := h.1.trans habs
    simp only [Bool.false_eq_true, ite_false]
    rw [hrelative path hpathAbs, hrelative root habs, hpath, foldl_append,
      foldl_names hplain, reverse_append, reverse_reverse]

theorem join_eq_absoluteText {parts : List JsString} (habs : isAbsolute (join parts) = true)
    (hne : segments (join parts) ≠ []) : ∃ trailing, (∀ c ∈ trailing, c = slash) ∧
      join parts = absoluteText (segments (join parts)) ++ trailing := by
  have hparts : parts.filter (· ≠ []) ≠ [] := by
    intro hnil
    rw [isAbsolute_join, hnil] at habs
    cases habs
  have hjoin : join parts = Path.normalize ([slash].intercalate (parts.filter (· ≠ []))) := by
    simp only [join, hparts, ite_false]
  generalize [slash].intercalate (parts.filter (· ≠ [])) = text at hjoin
  obtain ⟨hstart, hsegments⟩ := segments_normalize text
  rw [hjoin] at habs hne ⊢
  rw [hstart] at habs
  rw [hsegments] at hne ⊢
  have htext : text ≠ [] := by
    rintro rfl
    cases habs
  have hbody : [slash].intercalate (segments text) ≠ [] := fun hnil =>
    hne (intercalate_eq_nil (fun x hx =>
      ((settled_segments text).slash_notMem x (mem_reverse.mpr hx)).2) hnil)
  refine ⟨if (text.getLast? == some slash) = true then [slash] else [], ?_, ?_⟩
  · intro c hc
    split at hc
    · exact mem_singleton.mp hc
    · cases hc
  · simp only [Path.normalize, htext, hbody, habs, ite_false, ite_true]
    rfl

theorem isAbsolute_dirname (h : isAbsolute path = false) : isAbsolute (dirname path) = false := by
  have hprefix := ( rdropWhile_prefix (· != slash)
    (l := path.rdropWhile (· == slash))).trans ( rdropWhile_prefix (· == slash) path)
  unfold dirname
  simp only [h, Bool.false_eq_true, ite_false, false_and]
  split
  · rfl
  · rename_i hlong
    obtain ⟨rest, hrest⟩ := hprefix
    generalize (path.rdropWhile (· == slash)).rdropWhile (· != slash) = front at hlong hrest ⊢
    match front with
    | [] => simp at hlong
    | [_] => simp at hlong
    | c :: d :: front =>
      rw [← hrest] at h
      exact h

theorem segmented_segments (habs : isAbsolute path = true) : Segmented (segments path) := by
  obtain ⟨k, ns, hsplit, hplain, hk⟩ := (settled_segments path).split
  rw [reverse_reverse, hk (by rw [habs]; rfl)] at hsplit
  rw [hsplit]
  exact hplain

theorem PackageManager.removeGit_keeps (hroot : manager.getGitInstallRoot scope = some root)
    {source : GitSource} {more : List JsString}
    (hmore : namesBelow root (sourceSegments source) = some more) (hentry : entry ∈ disk.entries)
    (hout : ¬ absoluteSegments processCwd (manager.getGitInstallPath source scope) <+: entry)
    (hbetween : ∀ between, between ≠ [] → between <+: more → entry ≠ absoluteSegments processCwd root ++ between)
    : entry ∈ (manager.removeGit processCwd source scope disk).entries := by
  have hcontinues := PackageManager.continues hroot source
  obtain ⟨hpath, hne⟩ := hcontinues.segments_of_namesBelow hmore
  have hplain := hcontinues.plain_of_namesBelow hmore
  have hremoved := Disk.mem_rmSync hentry hout
  unfold removeGit
  simp only
  split
  · exact hentry
  · rw [hroot]
    simp only [pruneEmptyGitParents]
    cases habs : isAbsolute root with
    | true =>
      have hrootSegments : absoluteSegments processCwd root = segments root := by
        rw [absoluteSegments, if_pos habs]
      obtain ⟨parts, -, hjoin⟩ := PackageManager.getGitInstallRoot_eq hroot
      have hpathAbs := hcontinues.1.trans habs
      obtain ⟨trailing, htrailing, htext⟩ : ∃ trailing, (∀ c ∈ trailing, c = slash) ∧
          manager.getGitInstallPath source scope =
            absoluteText (segments (manager.getGitInstallPath source scope)) ++ trailing := by
        rw [hjoin source] at hpathAbs hpath ⊢
        refine join_eq_absoluteText hpathAbs ?_
        rw [hpath]
        exact append_ne_nil_of_right_ne_nil _ hne
      obtain ⟨init, last, hlast⟩ : ∃ init last, more = init ++ [last] :=
        ⟨_, _, (dropLast_append_getLast hne).symm⟩
      have hinit : Segmented (segments root ++ init) := by
        intro x hx
        rcases mem_append.mp hx with hx | hx
        · exact segmented_segments habs x hx
        · exact hplain x (hlast ▸ mem_append_left _ hx)
      have hparent : dirname (manager.getGitInstallPath source scope) =
          absoluteText (segments root ++ init) := by
        rw [htext, hpath, hlast, ← append_assoc]
        exact dirname_absoluteText hinit (hplain last (hlast ▸ by simp)) htrailing
      rw [hparent, hrootSegments]
      refine pruneFrom_keeps processCwd hinit hremoved fun between hbne hprefix => ?_
      rw [← hrootSegments]
      exact hbetween between hbne (hlast ▸ hprefix.trans (prefix_append _ _))
    | false =>
      have hparent := isAbsolute_dirname (hcontinues.1.trans habs)
      rw [pruneFrom, dif_neg]
      · exact hremoved
      · rintro ⟨⟨rest, hrest⟩, -⟩
        rw [← hrest] at hparent
        cases hparent

end

/-- Both sources are installed strictly below the root, and unless they name the
same package neither install directory lies within the other. -/
structure InstallsApart (manager : PackageManager) (scope : SourceScope) (root : JsString)
    (source other : GitSource) : Prop where
  source_below : StrictlyBelow root (manager.getGitInstallPath source scope)
  other_below : StrictlyBelow root (manager.getGitInstallPath other scope)
  apart : getPackageIdentity source ≠ getPackageIdentity other →
    ¬ Within (manager.getGitInstallPath source scope) (manager.getGitInstallPath other scope) ∧
      ¬ Within (manager.getGitInstallPath other scope) (manager.getGitInstallPath source scope)

/-- Host and path of both sources lead to names below the root, and unless the
sources name the same package neither names begin with the others. -/
def NamesApart (root : JsString) (source other : GitSource) : Prop :=
  ∃ names names', namesBelow root (sourceSegments source) = some names ∧
    namesBelow root (sourceSegments other) = some names' ∧
    (getPackageIdentity source ≠ getPackageIdentity other → ¬ names <+: names' ∧ ¬ names' <+: names)

/-- The removal of a source leaves what lies outside the root and what belongs to
another package. -/
structure RemovalConfined (manager : PackageManager) (scope : SourceScope) (root : JsString)
    (source other : GitSource) (disk : Disk) : Prop where
  outside : ∀ entry ∈ disk.entries,
    ¬ (absoluteSegments processCwd root <+: entry ∧
      entry ≠ absoluteSegments processCwd root) →
    entry ∈ (manager.removeGit processCwd source scope disk).entries
  others : getPackageIdentity source ≠ getPackageIdentity other → ∀ entry ∈ disk.entries,
    absoluteSegments processCwd (manager.getGitInstallPath other scope) <+: entry →
    entry ∈ (manager.removeGit processCwd source scope disk).entries

section

variable {manager : PackageManager} {scope : SourceScope} {root : JsString}

theorem InstallsApart.iff
    (hroot : manager.getGitInstallRoot scope = some root) (source other : GitSource) :
    InstallsApart manager scope root source other ↔ NamesApart root source other := by
  obtain ⟨front, hfront⟩ := PackageManager.segments_root hroot
  have hsource := PackageManager.continues hroot source
  have hother := PackageManager.continues hroot other
  constructor
  · intro h
    obtain ⟨names, hnames⟩ := Option.isSome_iff_exists.mp
      ((hsource.strictlyBelow_iff hfront plain_git).mp h.source_below)
    obtain ⟨names', hnames'⟩ := Option.isSome_iff_exists.mp
      ((hother.strictlyBelow_iff hfront plain_git).mp h.other_below)
    refine ⟨names, names', hnames, hnames', fun hne => ?_⟩
    obtain ⟨hleft, hright⟩ := h.apart hne
    exact ⟨fun hp => hleft ((hsource.within_iff hother hnames hnames').mpr hp),
      fun hp => hright ((hother.within_iff hsource hnames' hnames).mpr hp)⟩
  · rintro ⟨names, names', hnames, hnames', hapart⟩
    refine ⟨(hsource.strictlyBelow_iff hfront plain_git).mpr (hnames ▸ rfl),
      (hother.strictlyBelow_iff hfront plain_git).mpr (hnames' ▸ rfl), fun hne => ?_⟩
    obtain ⟨hleft, hright⟩ := hapart hne
    exact ⟨fun hp => hleft ((hsource.within_iff hother hnames hnames').mp hp),
      fun hp => hright ((hother.within_iff hsource hnames' hnames).mp hp)⟩

theorem NamesApart.removalConfined (hroot : manager.getGitInstallRoot scope = some root)
    {source other : GitSource} (h : NamesApart root source other) (disk : Disk) :
    RemovalConfined processCwd manager scope root source other disk := by
  obtain ⟨names, names', hnames, hnames', hapart⟩ := h
  have hsource := absoluteSegments_of_namesBelow processCwd
    (PackageManager.continues hroot source) hnames
  have hother := absoluteSegments_of_namesBelow processCwd
    (PackageManager.continues hroot other) hnames'
  have hne := ((PackageManager.continues hroot source).segments_of_namesBelow hnames).2
  constructor
  · intro entry hentry hout
    refine PackageManager.removeGit_keeps processCwd hroot hnames hentry ?_ ?_
    · intro hprefix
      rw [hsource] at hprefix
      refine hout ⟨(prefix_append _ _).trans hprefix, ?_⟩
      rintro rfl
      have hlength := hprefix.length_le
      rw [length_append] at hlength
      exact hne (eq_nil_of_length_eq_zero (by omega))
    · rintro between hbne - rfl
      exact hout ⟨prefix_append _ _, fun heq => hbne (append_right_eq_self.mp heq)⟩
  · intro hdifferent entry hentry hwithin
    obtain ⟨hleft, hright⟩ := hapart hdifferent
    rw [hother] at hwithin
    refine PackageManager.removeGit_keeps processCwd hroot hnames hentry ?_ ?_
    · intro hprefix
      rw [hsource] at hprefix
      rcases prefix_or_prefix_of_prefix hprefix hwithin with hp | hp
      · exact hleft ((prefix_append_right_inj _).mp hp)
      · exact hright ((prefix_append_right_inj _).mp hp)
    · rintro between hbne hbetween rfl
      exact hright (((prefix_append_right_inj _).mp hwithin).trans hbetween)

end

/-- A source that the parser reads from some text. -/
def AcceptedSource (newUrl : JsString → Option WebUrl) (fromUrl : JsString → Option HostedGit) :
    Type :=
  { source : GitSource // ∃ text, parseGitUrl newUrl fromUrl text = some source }

/-- Two accepted sources are installed strictly below the install root and apart
from each other exactly when their hosts and paths lead to names below the root of
which, for different packages, neither begin with the others. Removing one of them
then leaves everything outside the root and everything of the other. -/
theorem git_packages_confined {newUrl : JsString → Option WebUrl}
    {fromUrl : JsString → Option HostedGit} (manager : PackageManager) {scope : SourceScope}
    {root : JsString} (hroot : manager.getGitInstallRoot scope = some root)
    (source other : AcceptedSource newUrl fromUrl) :
    (InstallsApart manager scope root source.val other.val ↔ NamesApart root source.val other.val) ∧
      (NamesApart root source.val other.val → ∀ disk,
        RemovalConfined processCwd manager scope root source.val other.val disk) :=
  ⟨InstallsApart.iff hroot source.val other.val,
    fun h disk => h.removalConfined processCwd hroot disk⟩

end Process

def userManager : PackageManager where
  cwd := js "/w"
  agentDir := js "/u/.pi/agent"
  tmpdir := js "/tmp"
  sha256 := id

/-- The source that `host/path` names, without a ref. -/
def shorthandSource (host path : String) : GitSource where
  repo := js "https://" ++ js host ++ js "/" ++ js path
  host := js host
  path := js path
  ref := none
  pinned := false

/-- Two packages of one host are installed below the root and apart. -/
theorem git_packages_confined_siblings : InstallsApart userManager .user (js "/u/.pi/agent/git")
      (shorthandSource "example.org" "a/b") (shorthandSource "example.org" "a/c") := by
  have hfirst : parseGitUrl (fun _ => none) (fun _ => none) (js "git:example.org/a/b") =
      some (shorthandSource "example.org" "a/b") := by decide
  have hsecond : parseGitUrl (fun _ => none) (fun _ => none) (js "git:example.org/a/c") =
      some (shorthandSource "example.org" "a/c") := by decide
  have hroot : userManager.getGitInstallRoot .user = some (js "/u/.pi/agent/git") := by decide
  have hapart : NamesApart (js "/u/.pi/agent/git") (shorthandSource "example.org" "a/b")
      (shorthandSource "example.org" "a/c") :=
    ⟨[js "example.org", js "a", js "b"], [js "example.org", js "a", js "c"], by decide,
      by decide, fun _ => by decide⟩
  exact (git_packages_confined [] userManager hroot ⟨_, _, hfirst⟩ ⟨_, _, hsecond⟩).1.mpr hapart

/-- A path with parent segments leads out of the install root. -/
theorem git_packages_confined_escape :
    ¬ ∀ (newUrl : JsString → Option WebUrl) (fromUrl : JsString → Option HostedGit),
      (∀ text, fromUrl text = none) → ∀ (manager : PackageManager) (scope : SourceScope)
        (root : JsString), manager.getGitInstallRoot scope = some root →
        ∀ source other : AcceptedSource newUrl fromUrl,
          InstallsApart manager scope root source.val other.val := by
  intro h
  have hsource : parseGitUrl (fun _ => none) (fun _ => none) (js "git:example.org/../../sessions") =
        some (shorthandSource "example.org" "../../sessions") := by decide
  have hroot : userManager.getGitInstallRoot .user = some (js "/u/.pi/agent/git") := by decide
  have hbelow : StrictlyBelow (js "/u/.pi/agent/git")
      (userManager.getGitInstallPath (shorthandSource "example.org" "../../sessions") .user) :=
    (h (fun _ => none) (fun _ => none) (fun _ => rfl) userManager .user _ hroot
      ⟨_, _, hsource⟩ ⟨_, _, hsource⟩).source_below
  exact absurd hbelow (by decide)

end AcademicAgent.AgentHost
