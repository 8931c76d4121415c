import PatchReview.CommandLine
import PatchReview.Service.Review
import PatchReview.Workbench.Chunk

/-!
# Whole reviews on the workbench
-/

namespace PatchReview.Workbench

open Review

def wholeState (i : Json) : State :=
  let fields := (i.getD "state").fields
  { fields := Fields.insert fields "metadata" (.object ((Json.object fields).getD "metadata").fields) }

def viewed : Strings :=
  ["work_list", "confirmed_issues", "final_report", "changed_files", "lint_errors", "__pr_diff", "__base_branch",
    "__head_branch", "__repo_path"]

def unseenFacts : Strings := ["llm", "config", "langchain_tools", "expert_analyses"]

def resultsView (fields : Json.Object) (more : Strings) : Json :=
  .object (fields.filterMap fun (key, v) =>
    if key == "expert_tasks" || key == "expert_results" then some (key, pairsOf v)
    else if key == "file_analyses" then some (key, sortedAnalyses v)
    else if key == "metadata" then some (key, .object (v.fields.filter fun f => !unseenFacts.contains f.1))
    else if (viewed ++ more).contains key then some (key, v)
    else none)

/-- Runs an operation on the workflow. The settings are those of the request, those given when it says none, and those
found when it says null. -/
def onFlow (op : String) (i : Json) (settings : Action Settings) : Action Json := do
  match op with
  | "chunked" =>
    return ← isLarge (intOr i "files_n" 0).toNat (intOr i "diff_chars" 0).toNat
  | "router" =>
    return (Fields.get? (← chooseMode (wholeState i)) "metadata").getD .null
  | "route_intent" =>
    return if inChunks (wholeState i) then "intent_analysis_chunked" else "intent_analysis"
  | "route_experts" =>
    return if ← needsExperts (wholeState i) then "expert_execution" else "reporter"
  | "run" =>
    let s ← settings
    let o ← review s (← needText i "diff") (textsOf (← need i "changed_files")) (i.getD "lint_errors").items
    return resultsView o.state.fields []
  | "app" =>
    let s ← settings
    let o ← conductWith s (← need i "state").fields
    return resultsView o.state.fields ["messages"]
  | _ => throw (.other op)

def requestReview (root : Path) (i : Json) : Action Json := do
  let enable := i.getD "enable"
  let flag (name : String) : Action Bool :=
    match enable.get? name with
    | some v => pure v.truthy
    | none => throw (.shape s!"missing {name}")
  let map ← flag "enable_repomap"
  let index ← flag "enable_lite_cpg"
  let lint ← flag "enable_lint"
  let (fields, _) ← Service.reviewChange root (root / "work") (← needText i "base") (← needText i "head")
    ⟨map, index, lint⟩
  return resultsView fields []

def keptReports : Action Json := do
  let w ← get
  let root ← base
  let found ← w.files.entries.filterMapM fun (p, e) => do
    match e, (FileTree.pathOf p).below? root with
    | .directory, _ | _, none => return none
    | _, some q =>
      let name := q.toString
      if beginsWith "log/" name && finishesWith ".md" name then return some (name, ← Files.readText q)
      else return none
  return .object found

def runJson (code : Json) : Action Json := do return .object [("exit", code), ("reports", ← keptReports)]

def argumentsOf (i : Json) : Action CommandLine.Arguments := do
  match CommandLine.parse (textsOf (← need i "argv")) with
  | .ok a => return a
  | .error e =>
    if e == .help then modify fun w => { w with printed := w.printed ++ CommandLine.helpText }
    throw (.exit e.code)

def runArguments (root : Path) (i : Json) : Action Int := do
  let a ← argumentsOf i
  Order.run { home := root, repo := Path.ofString a.repo, base := a.base, head := a.head }

def onProgram (op : String) (i : Json) (root : Path) : Action Json := do
  match op with
  | "args" =>
    let a ← argumentsOf i
    return .object [("repo", a.repo), ("base", a.base), ("head", a.head), ("output", a.output)]
  | "main" => runJson (← runArguments root i)
  | "script" => throw (.exit (← runArguments root i))
  | "review" =>
    let order : Order := { home := root, repo := root / "work", base := ← needText i "base", head := ← needText i "head"
                           quiet := flagOr i "quiet" false }
    match i.get? "times" with
    | none => runJson (← order.run)
    | some n =>
      let codes ← (List.range (n.int?.getD 1).toNat).mapM fun _ => order.run
      runJson (.list (codes.map .int))
  | _ => throw (.other op)

end PatchReview.Workbench
