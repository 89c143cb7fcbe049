import AcademicAgent.Core.Occurrence
import AcademicAgent.Core.Path

/-!
# Git sources of packages

A source text names a repository by a host and a path, with or without a ref: `git@host:path`,
a URL, or `host/path` behind `git:`.
-/

namespace AcademicAgent.AgentHost

open Path (slash)

structure GitSource where
  repo : JsString
  host : JsString
  path : JsString
  ref : Option JsString
  pinned : Bool
  deriving DecidableEq

/-- What the parser reads of a `URL`. -/
structure WebUrl where
  hostname : JsString
  pathname : JsString
  /-- The text of the URL after its `pathname` is set. -/
  withPathname : JsString → JsString

/-- What `hosted-git-info` knows of a repository. -/
structure HostedGit where
  domain : Option JsString
  /-- The user, as a template prints it. -/
  user : JsString
  project : Option JsString
  committish : Option JsString

def colon : CodeUnit := 0x3A

def atSign : CodeUnit := 0x40

def fullStop : CodeUnit := 0x2E

/-- The terminators of a line, which `.` does not match. -/
def isLineTerminator (c : CodeUnit) : Bool := c == lf || c == cr || c == 0x2028 || c == 0x2029

section

variable (text : JsString)

def startsWith (start : String) : Bool := (js start).isPrefixOf text

/-- The groups of `/^git@([^:]+):(.+)$/`. -/
def scpLikeMatch (url : JsString) : Option (JsString × JsString) :=
  if startsWith url "git@" then
    let rest := url.drop 4
    let host := rest.takeWhile (· != colon)
    let path := (rest.dropWhile (· != colon)).drop 1
    if host ≠ [] ∧ path ≠ [] ∧ !path.any isLineTerminator then some (host, path) else none
  else none

/-- The path and the ref on both sides of the first at-sign, when neither is empty. -/
def refSeparated (pathWithMaybeRef : JsString) : Option (JsString × JsString) :=
  if atSign ∈ pathWithMaybeRef then
    let repoPath := pathWithMaybeRef.takeWhile (· != atSign)
    let ref := (pathWithMaybeRef.dropWhile (· != atSign)).drop 1
    if repoPath ≠ [] ∧ ref ≠ [] then some (repoPath, ref) else none
  else none

/-- `replace(/^\/+/, "")`. -/
def withoutLeadingSlashes : JsString := text.dropWhile (· == slash)

/-- `replace(/\/$/, "")`. -/
def withoutTrailingSlash : JsString :=
  if text.getLast? = some slash then text.dropLast else text

/-- `replace(/\.git$/, "")`. -/
def withoutGitSuffix : JsString :=
  if (js ".git").isSuffixOf text then text.take (text.length - 4) else text

def splitAtSlash : Option (JsString × JsString) :=
  if slash ∈ text then
    some (text.takeWhile (· != slash), (text.dropWhile (· != slash)).drop 1)
  else none

end

section Parser

variable (newUrl : JsString → Option WebUrl) (fromUrl : JsString → Option HostedGit)

def splitRef (url : JsString) : JsString × Option JsString :=
  match scpLikeMatch url with
  | some (host, pathWithMaybeRef) =>
    match refSeparated pathWithMaybeRef with
    | some (repoPath, ref) => (js "git@" ++ host ++ [colon] ++ repoPath, some ref)
    | none => (url, none)
  | none =>
    if (indexOf? (js "://") url).isSome then
      match newUrl url with
      | some parsed =>
        match refSeparated (withoutLeadingSlashes parsed.pathname) with
        | some (repoPath, ref) =>
          (withoutTrailingSlash (parsed.withPathname (slash :: repoPath)), some ref)
        | none => (url, none)
      | none => (url, none)
    else
      match splitAtSlash url with
      | some (host, pathWithMaybeRef) =>
        match refSeparated pathWithMaybeRef with
        | some (repoPath, ref) => (host ++ [slash] ++ repoPath, some ref)
        | none => (url, none)
      | none => (url, none)

/-- Whether a text starts with one of the schemes that are read as a URL. -/
def hasUrlScheme (text : JsString) : Bool :=
  startsWith text "https://" || startsWith text "http://" || startsWith text "ssh://" ||
    startsWith text "git://"

/-- The repository, the host and the path that a text names. -/
def repoHostPath (repoWithoutRef : JsString) : Option (JsString × JsString × JsString) :=
  match scpLikeMatch repoWithoutRef with
  | some (host, path) => some (repoWithoutRef, host, path)
  | none =>
    if hasUrlScheme repoWithoutRef then
      (newUrl repoWithoutRef).map fun parsed =>
        (repoWithoutRef, parsed.hostname, withoutLeadingSlashes parsed.pathname)
    else
      match splitAtSlash repoWithoutRef with
      | some (host, path) =>
        if fullStop ∈ host ∨ host = js "localhost" then
          some (js "https://" ++ repoWithoutRef, host, path)
        else none
      | none => none

def parseGenericGitUrl (url : JsString) : Option GitSource :=
  let (repoWithoutRef, ref) := splitRef newUrl url
  match repoHostPath newUrl repoWithoutRef with
  | none => none
  | some (repo, host, path) =>
    let normalizedPath := withoutLeadingSlashes (withoutGitSuffix path)
    if host = [] ∨ normalizedPath = [] ∨ (normalizedPath.splitOn slash).length < 2 then none
    else some { repo, host, path := normalizedPath, ref, pinned := ref.isSome }

/-- The first candidate that `hosted-git-info` recognizes. -/
def hostedSource (repo : JsString) (splitRef : Option JsString) (candidates : List JsString) :
    Option GitSource :=
  candidates.findSome? fun candidate =>
    (fromUrl candidate).bind fun info =>
      if splitRef.isSome ∧ info.project.any (atSign ∈ ·) then none
      else
        let ref := (nonEmpty info.committish).or splitRef
        some
          { repo
            host := info.domain.getD []
            path := withoutGitSuffix (info.user ++ [slash] ++
              info.project.getD (js "undefined"))
            ref
            pinned := ref.isSome }

/-- The lower-case form of a letter of the alphabet. -/
def lowerLetter (c : CodeUnit) : CodeUnit := if 0x41 ≤ c ∧ c ≤ 0x5A then c + 0x20 else c

def parseGitUrl (source : JsString) : Option GitSource :=
  let trimmed := trim source
  let hasGitPrefix := startsWith trimmed "git:"
  let url := if hasGitPrefix then trim (trimmed.drop 4) else trimmed
  if !hasGitPrefix && !hasUrlScheme (url.map lowerLetter) then none
  else
    let (repo, ref) := splitRef newUrl url
    let https := js "https://"
    let hostedCandidates :=
      (ref.map fun ref => repo ++ js "#" ++ ref).toList ++ [url].filter (· ≠ [])
    let httpsCandidates :=
      (ref.map fun ref => https ++ repo ++ js "#" ++ ref).toList ++ [https ++ url]
    let useHttpsPrefix := !hasUrlScheme repo && !startsWith repo "git@"
    (hostedSource fromUrl (if useHttpsPrefix then https ++ repo else repo) ref
      hostedCandidates).or
      ((hostedSource fromUrl (https ++ repo) ref httpsCandidates).or
        (parseGenericGitUrl newUrl url))

end Parser

end AcademicAgent.AgentHost
