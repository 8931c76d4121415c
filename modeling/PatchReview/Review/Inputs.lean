import PatchReview.Repository.Git

/-!
# What a review starts from

The repository and the diff between its two references; a run that cannot have them ends. Also texts read from
files.
-/

namespace PatchReview.Review

open Action Files

def repositoryAt (p : Path) : Action Path := do
  let p ← resolve p
  if !(← present p) then
    say s!"❌ Repository path does not exist: {p.toString}"
    throw (.exit 1)
  if !(← isDirectory p) then
    say s!"❌ Repository path must be a directory: {p.toString}"
    throw (.exit 1)
  return p

def lacksArgument (name : String) : Action Unit := do
  say s!"❌ Error: --{name} is required"
  say "   Examples:"
  say "     python main.py --repo ./project --base main --head feature-x"
  say "     python main.py --repo ./project --base main --head HEAD"
  throw (.exit 1)

structure LoadedDiff where
  text : String
  branch : Option String
  commit : Option String

def given (ref : Option String) : String := ref.getD ""

def loadDiff (repo : Path) (base head : Option String) : Action LoadedDiff := do
  let base := given base
  let head := given head
  if base == "" then lacksArgument "base"
  if head == "" then lacksArgument "head"
  say s!"\n🔀 Getting Git diff: {base}...{head}"
  match ← attempt (Repository.diffOf repo base head) with
  | .error e =>
    say s!"❌ Error getting Git diff: {e.message}"
    throw (.exit 1)
  | .ok diff =>
    if strip diff == "" then
      say (s!"⚠️  Warning: Git diff is empty. No changes found between {base} and " ++ head)
    else say s!"✅ Git diff retrieved ({diff.length} characters)"
    let (branch, commit) ← Repository.branchAndCommit repo head
    if diff == "" then
      say "❌ Error: No diff content available"
      throw (.exit 1)
    say s!"📝 Processing Git diff ({diff.length} characters)..."
    return ⟨diff, branch, commit⟩

def readDiff (p : Path) : Action String := do
  let p ← resolve p
  if !(← present p) then throw (.notFound s!"Diff file not found: {p.toString}")
  match ← attempt (readText p) with
  | .ok s => return s
  | .error e => throw (.unreadable s!"Error reading diff file: {e.message}")

def fileText (root : Option Path) (file : String) : Action String := do
  let root := root.getD (FileTree.pathOf (← get).cwd)
  let p := root / file
  match ← attempt (do if ← present p then readText p else pure "") with
  | .ok s => return s
  | .error _ => return ""

end PatchReview.Review
