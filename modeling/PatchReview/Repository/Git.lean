import PatchReview.Diff.Excerpt
import PatchReview.Pattern.Glob
import PatchReview.Files
import PatchReview.Digest.Md5

/-!
# Paths of a repository

Which changed files are worth a review. Lock files, build output, generated code, archives and media are left out by
default; patterns of the settings leave out more, or take files in regardless.
-/

namespace PatchReview.Repository

def dropLeads (lead : Chars) : Nat → Chars → Chars
  | 0, s => s
  | fuel + 1, s =>
    match Text.dropLead? lead s with
    | some rest => dropLeads lead fuel rest
    | none => s

variable (line path : String)

/-- A path with forward slashes, without blanks around it, leading `./` and leading slashes. -/
def posixPath : String :=
  let s := (substitute "\\" "/" (strip path)).toList
  let s := dropLeads ['.', '/'] s.length s
  String.ofList (dropLeads ['/'] s.length s)

/-- Whether a path matches one of some patterns; patterns that cannot be read match nothing. -/
def matchesAny (patterns : Strings) : Bool :=
  let p := Path.ofString (posixPath path)
  patterns.any fun pattern =>
    let pattern := strip pattern
    pattern != "" &&
      (match Glob.matchPath p pattern with
        | .ok b => b
        | .error _ => false)

def defaultExcludes : Strings :=
  (["package-lock.json", "yarn.lock", "pnpm-lock.yaml", "bun.lockb", "Gemfile.lock", "Cargo.lock", "go.sum", "go.mod",
    "poetry.lock", "Pipfile.lock", "*.lock"] ++ ["dist", "build", "out", ".next", ".nuxt", ".svelte-kit", ".cache",
    "coverage", "node_modules", "generated", "@generated", "__generated__", "__generated", "_generated", "gen", "@gen",
    "__gen__", "__gen", "_gen"].map (· ++ "/**") ++ ["log", "exe", "dll", "so", "dylib", "class", "o", "a", "wasm",
    "jar", "war", "zip", "tar", "gz", "bz2", "xz", "7z", "rar", "png", "jpg", "jpeg", "gif", "bmp", "tiff", "webm",
    "svg", "pdf", "doc", "docx", "xls", "xlsx", "ppt", "pptx", "ttf", "otf", "woff", "woff2"].map ("*." ++ ·)).map
    ("**/" ++ ·)

def sortedSet (ws : Strings) : Strings :=
  ws.mergeSort.eraseReps

/-- The files worth a review, in ascending order. With the filter off all paths that are not blank stay as they
are. -/
def filterPaths (settings : Option Settings) (files : Strings) : Strings :=
  let enabled := match settings with
    | some s => s.review.filterPaths
    | none => true
  let included := match settings with
    | some s => s.review.includeGlobs
    | none => []
  let excluded := defaultExcludes ++ match settings with
    | some s => s.review.excludeGlobs
    | none => []
  if !enabled then files.filter fun f => strip f != ""
  else
    sortedSet <| (files.map strip).filter fun f =>
      f != "" && (matchesAny f included || !matchesAny f excluded)

/-- The path after the dashes or pluses of a side's line of a diff. -/
def sidePath? : Option String :=
  if beginsWith "--- " line || beginsWith "+++ " line then
    let p := dropChars 4 line
    if strip p == "/dev/null" || Diff.normalPath p == "" then none else some (Diff.normalPath p)
  else none

def renamePath? : Option String :=
  let named (lead : String) : Option String :=
    if beginsWith lead line && line != lead then some (withoutLead lead line) else none
  named "rename from " <|> named "rename to "

def pathsInLine : Strings := (sidePath? line).toList ++ (renamePath? line).toList

def pathsInDiff (settings : Option Settings) (diff : String) : Strings :=
  filterPaths settings (sortedSet ((cutAtChar '\n' diff).flatMap pathsInLine))

def safeName (s : String) : String :=
  substitute "\\" "_" (substitute "/" "_" s)

/-!
## Asking git

What a repository says about references, and the differences between two of them. A branch that is missing but known
to a remote is fetched first.
-/

open Action Command Files

variable (repo : Path) (side branch ref base head s : String) {α : Type} (a handle : Action α)

def onCommandFailure : Action α := fun w =>
  match a.run w with
  | (.error (.command _ _), w) => handle.run w
  | r => r

def onCommandTrouble : Action α := fun w =>
  match a.run w with
  | (.error (.command _ _), w) | (.error (.system .noEntry _), w) => handle.run w
  | r => r

def git (words : Strings) : Action CommandReply := check ("git" :: words) (some repo)

def gitSucceeds (words : Strings) : Action Bool :=
  onCommandFailure (do let _ ← git repo words; return true) (pure false)

/-- The branch and the short commit of a reference, none when git fails. -/
def branchAndCommit : Action (Option String × Option String) := do
  let repo ← resolve repo
  onCommandTrouble (do
    let branch ← git repo ["rev-parse", "--abbrev-ref", ref]
    let commit ← git repo ["rev-parse", ref]
    return (some (strip branch.out), some (takeChars 12 (strip commit.out)))) (pure (none, none))

def filledLines : Strings := ((cutAt "\n" (strip s)).map strip).filter (· != "")

def remotes : Action Strings := do
  return filledLines (← git repo ["remote"]).out

def verifies : Action Bool := gitSucceeds repo ["rev-parse", "--verify", "--quiet", ref]

def trackedBy : Strings → Action Bool
  | [] => pure false
  | remote :: rest => do
    if ← verifies repo s!"refs/remotes/{remote}/{ref}" then return true
    else trackedBy rest

/-- Whether a reference is there locally: a branch, a tag, the current branch, or a commit that is no
remote-tracking branch. -/
def hasLocalRef : Action Bool := do
  if ← verifies repo s!"refs/heads/{ref}" then return true
  if ← verifies repo s!"refs/tags/{ref}" then return true
  let current ← onCommandFailure
    (do let r ← git repo ["rev-parse", "--abbrev-ref", "HEAD"]; return strip r.out == ref)
    (pure false)
  if current then return true
  let known ← onCommandFailure (do let rs ← remotes repo; return some rs) (pure none)
  match known with
  | none => verifies repo ref
  | some rs =>
    if ← trackedBy repo ref rs then return false
    else verifies repo ref

def remoteWith : Strings → Action (Option String)
  | [] => pure none
  | remote :: rest => do
    let found ← onCommandFailure
      (do let r ← git repo ["ls-remote", "--heads", "--tags", remote, ref]; return strip r.out != "")
      (pure false)
    if found then return some remote else remoteWith rest

/-- The first remote that has a reference. -/
def remoteRef : Action (Option String) := onCommandFailure (do remoteWith repo ref (← remotes repo)) (pure none)

/-- Fetches a branch into a local one: directly, else by way of the remote-tracking branch. -/
def fetchBranch (remote branch : String) : Action Bool := do
  let direct ← onCommandFailure
    (do let _ ← git repo ["fetch", remote, s!"{branch}:{branch}"]; hasLocalRef repo branch) (pure false)
  if direct then return true
  onCommandFailure
    (do
      let _ ← git repo ["fetch", remote, branch]
      let _ ← git repo ["branch", branch, s!"{remote}/{branch}"]
      hasLocalRef repo branch)
    (pure false)

def requireDirectory : Action Path := do
  let repo ← resolve repo
  if !(← present repo) then
    throw (.invalid s!"Repository path does not exist: {repo.toString}")
  if !(← isDirectory repo) then
    throw (.invalid s!"Repository path must be a directory: {repo.toString}")
  return repo

def requireGit : Action Unit :=
  onCommandTrouble (do let _ ← git repo ["rev-parse", "--git-dir"])
    (throw (.invalid s!"Not a Git repository: {repo.toString}"))

/-- What to try about a branch that is missing; `advice` is for one that a remote has. -/
def missingHints (remote : Option String) (advice : String → Strings) : Strings :=
  s!"  - {side} branch '{branch}' not found locally." :: match remote with
    | some r => advice r
    | none => ["    ❌ Not found in any remote. Please check the branch name."]

/-- Tries to get a missing branch: whether it is there now, and hints if it could not be fetched. -/
def obtain : Action (Bool × Strings) := do
  let remote ← remoteRef repo branch
  if let some r := remote then
    say s!"  🔄 Auto-fetching branch '{branch}' from remote '{r}'..."
    if ← fetchBranch repo r branch then
      say s!"  ✅ Successfully fetched branch '{branch}'"
      return (← hasLocalRef repo branch, [])
  return (false, missingHints side branch remote fun r => [s!"    ✅ Found in remote '{r}', but auto-fetch failed.",
    s!"    Please manually run: git fetch {r} {branch}:{branch}"])

/-- Where to find a branch that turned out to be missing. -/
def laterHints (present : Bool) : Action Strings := do
  if present then return []
  return missingHints side branch (← remoteRef repo branch) fun r => [s!"    ✅ Found in remote '{r}'. To use it:",
    s!"       cd {repo.toString}", s!"       git fetch {r} {branch}:{branch}"]

/-- Runs a diff command over two references, both of which must be there or obtainable. -/
def compare (flags : Strings) : Action String := do
  let repo ← requireDirectory repo
  if !(← present (repo / ".git")) then requireGit repo
  let hasBase ← hasLocalRef repo base
  let hasHead ← hasLocalRef repo head
  let (hasBase, hints) ← if hasBase then pure (true, []) else obtain repo "Base" base
  let (hasHead, more) ← if hasHead then pure (true, []) else obtain repo "Head" head
  let hints := hints ++ more
  let advice := "\n\n💡 Suggestions:\n"
  if (!hasBase || !hasHead) && !hints.isEmpty then
    throw (.invalid ("Git diff failed: One or more branches not found." ++ advice
      ++ joinWith "\n" hints))
  let words := "git" :: "diff" :: flags ++ [s!"{base}...{head}"]
  let r ← (do
    match ← attempt (run words (some repo)) with
    | .error (.system .noEntry _) => throw (.invalid "Git is not installed or not in PATH")
    | .error e => throw e
    | .ok r => pure r : Action CommandReply)
  if r.code == 0 then return r.out
  let message := if r.err == "" then "Unknown git error" else strip r.err
  let low := lowered message
  let hints ← if !holds "fatal:" low && !holds "error:" low then pure []
    else if hints.isEmpty then
      pure ((← laterHints repo "Base" base hasBase) ++ (← laterHints repo "Head" head hasHead))
    else pure hints
  let message := if hints.isEmpty then message else message ++ advice ++ joinWith "\n" hints
  throw (.invalid s!"Git diff failed: {message}")

def changedPaths (settings : Option Settings) (repo : Path) (base head : String) : Action Strings := do
  return filterPaths settings (filledLines (← compare repo base head ["--name-only"]))

def diffOf : Action String := compare repo base head []

/-- The key of what is kept about a repository at a commit. Long keys end in a digest. -/
def assetKey (branch commit : Option String) : Action String := do
  let repo ← resolve repo
  let name := if repo.name == "" then "unknown_repo" else repo.name
  let name := substitute ".." "" (safeName name)
  let filled (o : Option String) (fallback : String) : String :=
    match o with
    | some s => if s == "" then fallback else s
    | none => fallback
  let branch := safeName (filled branch "unknown_branch")
  let commit := safeName (filled commit "unknown_commit")
  let key := s!"repo_map_{name}_{branch}_{commit}"
  if 200 < key.length then
    return s!"repo_map_{name}_{takeChars 12 (Md5.hexDigest (utf8 key))}"
  return key

def isDigest : Bool :=
  s.length == 40 && s.toList.all fun c => (48 ≤ c.toNat && c.toNat ≤ 57) || (97 ≤ c.toNat && c.toNat ≤ 102)

/-- A name for a workspace: that of its directory. A work tree under `repository/number/digest` has the name of
the repository. -/
def nameOf (root : Path) : Action String := do
  let root ← resolve root
  let name := root.name
  let numbered := root.parent.name
  if isDigest name && numbered != "" && numbered.toList.all Text.isDigitLike then
    let candidate := root.parent.parent.name
    if candidate != "" && candidate != "." then return candidate
  if name == "." || name == "" then
    let above := root.parent.name
    if above != "" && above != "." then return s!"{above}_workspace"
    return "current_workspace"
  return name

def commitOf : Action String := do
  let _ ← git repo ["rev-parse", "--abbrev-ref", ref]
  return strip (← git repo ["rev-parse", ref]).out

/-- Checks a reference out unless it is checked out already; uncommitted changes are put aside first. -/
def ensureHead : Action Unit := do
  let repo ← requireDirectory repo
  requireGit repo
  let current ← onCommandFailure (do return some (← commitOf repo "HEAD")) (pure none)
  let wanted ← onCommandFailure (commitOf repo head) (throw (.invalid s!"Invalid head reference: {head}"))
  if current == some wanted then return
  onCommandFailure
    (do
      let status ← git repo ["status", "--porcelain"]
      if strip status.out != "" then
        let stash ← run ["git", "stash", "push", "-m", "Code review agent: auto-stash before checkout"] (some repo)
        if stash.code != 0 then
          throw (.failed ("Cannot checkout to head version: uncommitted changes exist and stash " ++
            "failed. Please commit or stash your changes manually.")))
    (pure ())
  let r ← run ["git", "checkout", head] (some repo)
  if r.code != 0 then
    if r.err != "" then throw (.lacking "'str' object has no attribute 'decode'")
    let reason := (Fault.command ["git", "checkout", head] r.code).message
    throw (.failed s!"Failed to checkout to head version '{head}': {reason}")

end PatchReview.Repository
