import PatchReview.Review.Run
import PatchReview.Service.Worker
import PatchReview.Workbench.Index

/-!
# Reviews on the workbench

Commands on the parts of a review: risks, work and stages.
-/

namespace PatchReview.Workbench

open Json Review Risk

def stateFields : Strings :=
  ["diff_context", "changed_files", "file_analyses", "lint_errors", "work_list", "expert_tasks", "expert_results"]

variable (v : Json) (op : String) (i : Json) (settings : Option Settings)

def stateOf : State :=
  { fields := stateFields.filterMap (fun key => (i.get? key).map fun v => (key, v))
      ++ [("metadata", .object (i.getD "metadata").fields)]
    settings
    hasModel := !(i.getD "no_llm").truthy }

def risksOf : Action (List Risk) := v.items.mapM fun item => ofFields item.fields

def risksJson (rs : List Risk) : Json := .list (rs.map toJson)

def pairsOf : Json := pairs id v.fields

def rangeOf : Int × Int :=
  match v.items.filterMap int? with
  | [a, b] => (a, b)
  | _ => (0, 0)

def readNamed {α : Type} (table : Json) (read : Json → Result α) (names : Strings) :
    Result (List (String × α)) := do
  let found ← names.mapM fun name => do
    match ← table.member name with
    | none => return none
    | some v => return some (name, ← read v)
  return found.filterMap id

/-- The budget a request gives for some risks. Only what the risks need is read. -/
def budgetFor (risks : List Risk) : Action Budget := do
  let total ← need i "max_total"
  let perFile ← need i "max_per_file"
  let caps ← need i "max_per_type"
  let kinds := (risks.map (·.kind.name)).eraseDups
  let severities := (risks.map Budget.severityOf).eraseDups
  let kindWeights ← readNamed (← need i "type_weights") toReal kinds
  let severityWeights ← readNamed (← need i "severity_weights") toReal severities
  if risks.isEmpty then return { total := 0, perFile := 0 }
  let total ← total.toInt
  if total ≤ 0 then return { total, perFile := 0 }
  let perFile ← perFile.toInt
  if perFile ≤ 0 then return { total, perFile }
  let optional (v : Json) := if v.isNull then .ok none else v.toInt.map some
  let perKind ← readNamed caps optional kinds
  return { total, perFile, kindWeights, severityWeights, perKind := perKind.filterMap fun (k, n) => n.map (k, ·) }

def onRisks : Action Json := do
  match op with
  | "path" =>
    return .list ((textsOf (← need i "paths")).map fun p =>
      texts [normalPath p, normalPath p, Service.commentPath p, Diff.normalPath p, Repository.posixPath p])
  | "tokens" =>
    return texts (tokens (← needText i "text")).mergeSort
  | "jaccard" =>
    return similarity (textsOf (← need i "a")).eraseDups (textsOf (← need i "b")).eraseDups
  | "anchored" =>
    let changed := (← need i "changed").items.filterMap int?
    let window := intOr i "window" 0
    return .list ((← need i "ranges").items.map fun r => anchored changed (rangeOf r) window)
  | "severity" =>
    let ranks ← (← need i "values").items.mapM fun v => do
      return list [severityRank (v.text?.getD ""), ← Service.severityRank v]
    return .list ranks
  | "merge" =>
    let threshold ← (← need i "threshold").toReal
    return risksJson (merge (intOr i "line_window" 0) threshold (← risksOf (← need i "items")))
  | "budget" =>
    let risks ← risksOf (← need i "items")
    return risksJson ((← budgetFor i risks).choose risks)
  | "lint" => return risksJson (risksOfFindings (← need i "errors").items)
  | "group" =>
    return pairs risksJson (groupByKind (← risksOf (← need i "items")))
  | "instructions" => return ← Schema.instructions (← need i "schema")
  | "format_work" => return workListText (← risksOf (← need i "items"))
  | "format_analyses" =>
    let as ← (← need i "items").items.mapM fun a => FileAnalysis.ofFields a.fields
    return FileAnalysis.listTexts as
  | _ => throw (.other op)

def planned (s : State) : Action Json := do
  let u ← manage s
  return .object (u.map fun (k, v) => (k, if k == "expert_tasks" then pairsOf v else v))

/-!
## Stages on the workbench

Commands on the stages of a review that ask the model.
-/

open Review

def onIntents : Action Json := do
  match op with
  | "line" =>
    return match ← looseRange (← need i "value") with
      | some r => linesJson r
      | none => .null
  | "parse" => return (looseAnalysis (textOr i "path" "") (← needText i "text")).toJson
  | "node" => return .object (← findIntents (stateOf i settings))
  | _ => throw (.other op)

def onReports : Action Json := do
  match op with
  | "simple" => return plainReport (← risksOf (← need i "items"))
  | "node" => return .object (← report (stateOf i settings)).1
  | _ => throw (.other op)

def rendered : Action Json := do
  let values := (← need i "vars").fields.map fun (k, v) => (k, v.display)
  return ← Prompt.render (← needText i "name") values

end PatchReview.Workbench
