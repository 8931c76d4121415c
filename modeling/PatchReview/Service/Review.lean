import PatchReview.Review.Run

/-!
# Reviews for the service

The service has the change of a pull request reviewed in a working copy. What the review came to is handed on together
with what it was about.
-/

namespace PatchReview.Service

open Repository Review

structure Extras where
  map : Bool
  index : Bool
  lint : Bool

/-- Goes on whatever happens, as long as it is no more than an error. -/
def whatever (a : Action Unit) : Action Unit := do
  let _ ← Action.attempt a

def emptyResults : Json.Object := [("confirmed_issues", .list []), ("final_report", "No diff content found."),
  ("metadata", .object [("empty_diff", true)])]

/-- Reviews the change between two branches of a working copy: the fields of the results, and whether the issues are
open. -/
def reviewChange (home repo : Path) (base head : String) (x : Extras) : Action (Json.Object × Bool) := do
  let repo ← repositoryAt repo
  let settings ← settingsFor repo
  let diff ← diffOf repo base head
  if strip diff == "" then return (emptyResults, true)
  if x.index then whatever do let _ ← Index.prepare ⟨home, repo, base, head, diff⟩ true
  let _ ← Storage.connect
  let (branch, commit) ← branchAndCommit repo head
  let key ← if x.map then some <$> ensureMap repo branch commit else pure settings.review.assetKey
  let settings := { settings with review := { settings.review with assetKey := key } }
  let findings ← if x.lint then Lint.checkChange repo diff base head (some settings) else pure []
  whatever (ensureHead repo head)
  let files ← match ← Action.attempt (changedPaths (some settings) repo base head) with
    | .ok files => pure files
    | .error _ => pure (pathsInDiff (some settings) diff)
  let outcome ← review settings diff files (findings.map Lint.Finding.toJson)
  let fields := outcome.state.fields
  whatever do let _ ← saveLog fields repo settings (some base) (some head) none
  return (Fields.merge fields [("__pr_diff", diff), ("__base_branch", base), ("__head_branch", head),
    ("__repo_path", repo.toString)], outcome.isOpen)

end PatchReview.Service
