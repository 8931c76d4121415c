import PatchReview.Duration
import PatchReview.Chat.Ask
import PatchReview.Prompt
import PatchReview.Review.Inputs

/-!
# From risks to work

The risks found in the files, and the findings of the checkers, are anchored to the change, merged and cut to a
budget. What is left is the work of the experts, by kind.
-/

namespace PatchReview.Review

/-!
## The state of a review

A review goes through stages. Each reads named fields of the state and answers an update, which replaces fields;
messages and confirmed issues are appended. Facts about the run are kept in one of the fields.
-/

structure State where
  fields : Json.Object := []
  settings : Option Settings := none
  hasModel : Bool := true

abbrev Update := Json.Object

namespace State

variable (s : State) (key : String)

def get : Json := (Fields.get? s.fields key).getD .null

def items : List Json := (s.get key).items

def text : String := (s.get key).text?.getD ""

def facts : Json.Object := (s.get "metadata").fields

def diff : String := s.text "diff_context"

def changed : Strings := (s.items "changed_files").filterMap Json.text?

def tag : Action String := return Duration.tag s.facts (← MonadState.get).monotonic

def appended : Strings := ["messages", "confirmed_issues"]

def apply (u : Update) : State :=
  { s with fields := u.foldl (fun fs (key, v) =>
      if appended.contains key then Fields.insert fs key (.list ((s.get key).items ++ v.items))
      else Fields.insert fs key v) s.fields }

end State

def sayTitle (title : String) : Action Unit := do
  Action.say ("\n" ++ rule)
  Action.say title
  Action.say rule

section

open Action FileAnalysis Json

/-!
## What changes are for

The model is asked about each changed file: what the change is for, and what risks it has. Its answer is read as a
record; an answer that is none is read as well as it can be.
-/

/-- Reads a range of lines as well as can be: one line stands for a range. None when there is none. -/
def looseRange : Json → Result (Option (Int × Int))
  | .int n => .ok (some (n, n))
  | .bool b => .ok (some (if b then (1, 1) else (0, 0)))
  | .text s => do
    let s := strip s
    if !s.isEmpty && s.toList.all Text.isDigitLike then
      let n ← (text s).toInt
      return some (n, n)
    return none
  | .list [v] => do
    let n ← v.toInt
    return some (n, n)
  | .list [a, b] => return some (← a.toInt, ← b.toInt)
  | _ => .ok none

/-- A risk in a loose answer about a file; none when it cannot be read. -/
def looseRisk? (path : String) (v : Json) : Option Risk :=
  match v with
  | .object fs =>
    let part (key : String) (default : Json) : String × Json := (key, (Fields.get? fs key).getD default)
    match looseRange ((Fields.get? fs "line_number").getD .null) with
    | .ok (some r) =>
      (Risk.readFields [part "risk_type" Risk.Kind.robustness.name, part "file_path" path,
        ("line_number", Risk.linesJson r), part "description" "", part "confidence" (.real 0.5),
        part "severity" "info", part "suggestion" .null]).toOption
    | _ => none
  | _ => none

def summaryLimit : Nat := 500

variable (path answer : String) (s : State)

def plainAnalysis : FileAnalysis := { path, summary := takeChars summaryLimit answer }

def readLoosely : Result FileAnalysis := do
  let document := (← (extractValue answer).mapError Fault.malformed).getD (.object [])
  let summary ← document.memberOr "intent_summary" (takeChars summaryLimit answer)
  let risks ← (← document.memberOr "potential_risks" (.list [])).elements
  let complexity ← document.memberOr "complexity_score" .null
  let a ← ofFields
    [("file_path", path), ("intent_summary", summary), ("complexity_score", complexity)]
  return { a with risks := risks.filterMap (looseRisk? path) }

def looseAnalysis : FileAnalysis :=
  match readLoosely path answer with
  | .ok a => a
  | .error _ => plainAnalysis path answer

def strictAnalysis? : Option FileAnalysis :=
  match (extract answer).toOption.map fun found => read (found.getD answer) with
  | some (.ok (.object fs)) => (readFields fs).toOption
  | _ => none

def analysisIn : FileAnalysis := (strictAnalysis? answer).getD (looseAnalysis path answer)

def unreadAnalysis (answer : Json) : FileAnalysis :=
  let reason := match answer with
    | .list _ => "1 validation error for FileAnalysis\nintent_summary\n  str type expected (type=type_error.str)"
    | .object _ => "unhashable type: 'slice'"
    | v => s!"'{v.kindName}' object is not subscriptable"
  { path, summary := s!"Error parsing response: {reason}" }

/-- The analysis in what the model said about a file. A failure counts as the answer it gives as its reason. -/
def analysisOf : Result Chat.Message → FileAnalysis
  | .ok m =>
    match m.content with
    | .text s => analysisIn path s
    | v => unreadAnalysis path v
  | .error e => analysisIn path (if e.message == "" then Chat.failureName e else e.message)

def analyseFile (path : String) : Action FileAnalysis := do
  say s!"  🔍 分析中: {path}"
  let content ← fileText (s.settings.map (·.review.root)) path
  let prompt ← Prompt.render "intent_analysis"
    [("file_path", path), ("file_diff", Diff.excerpt s.diff path), ("file_content", content)]
  let question := [Chat.Message.system "You are an expert code reviewer analyzing file changes.",
    Chat.Message.human (prompt ++ "\n\n" ++ Chat.formOf "FileAnalysis")]
  let a := analysisOf path (← attempt (Chat.ask question []))
  say s!"  ✅ 完成: {path}"
  say s!"     意图摘要: {takeChars 80 a.summary}..."
  say s!"     潜在风险数: {a.risks.length}"
  return a

/-- How many questions may be open at once; the number must not be negative. -/
def openQuestions : Action Int := do
  let n := (s.settings.map (·.review.maxRequests)).getD 5
  if n < 0 then throw (.invalid "Semaphore initial value must be >= 0")
  return n

/-- The files to ask about: all, or those the environment names. -/
def targets : Action (Option Strings) := do
  let target := strip ((← envVar? "INTENT_ANALYSIS_TARGET_FILE").getD "")
  if target == "" then return some s.changed
  let files := s.changed.filter fun f => f == target || finishesWith target f
  if files.isEmpty then
    say s!"  ⚠️  [调试模式] 目标文件 '{target}' 不在变更列表中"
    return none
  say s!"  🔍 [调试模式] 过滤后只分析文件: {quotedList files}"
  return some files

def findIntents : Action Update := do
  sayTitle s!"📋 [节点1] Intent Analysis - 并行分析文件意图 ({← s.tag})"
  if !s.hasModel then return [("file_analyses", .list [])]
  if s.changed.isEmpty then
    say "  ⚠️  没有需要分析的文件"
    return [("file_analyses", .list [])]
  match ← targets s with
  | none => return [("file_analyses", .list [])]
  | some files =>
    say s!"  📁 待分析文件数: {files.length}"
    say s!"  🔒 并发控制: Semaphore(max={(s.settings.map (·.review.maxRequests)).getD 5})"
    say "  📝 文件列表:"
    files.zipIdx.forM fun (f, k) => say s!"     {k + 1}. {f}"
    let _ ← openQuestions s
    say s!"\n  🚀 开始并行分析 {files.length} 个文件..."
    let as ← files.mapM (analyseFile s)
    let risks := Number.total (as.map (·.risks.length))
    say s!"\n  ✅ Intent Analysis 完成! ({← s.tag})"
    say s!"     - 分析文件数: {as.length}"
    say s!"     - 发现潜在风险: {risks} 个"
    say rule
    return [("file_analyses", .list (as.map toJson))]

end

open Risk Action

/-! ## The work of the experts -/

structure Plan where
  window : Int
  unanchored : Unanchored
  mergeWindow : Int
  mergeSimilarity : Float
  budget : Budget

namespace Plan

def orWhole (n default : Int) : Int := if n == 0 then default else n

def orReal (x default : Float) : Float := if x == 0.0 then default else x

def kindWeights : List (String × Float) := [
  (Kind.syntaxError.name, 1.4), (Kind.concurrency.name, 1.3), (Kind.authorization.name, 1.3),
  (Kind.lifecycle.name, 1.1), (Kind.intent.name, 1.0), (Kind.robustness.name, 0.7)]

def severityWeights : List (String × Float) := [("error", 1.3), ("warning", 1.0), ("info", 0.7)]

/-- The plan of review settings. A window, cap, similarity or limit of 0 counts as not set. -/
def ofReview (r : ReviewSettings) : Plan where
  window := orWhole r.anchorWindow 5
  unanchored := if r.dropUnanchored then .drop else .bound (orReal r.unanchoredConfidence 0.2)
  mergeWindow := orWhole r.mergeWindow 5
  mergeSimilarity := orReal r.mergeSimilarity 0.75
  budget :=
    { total := orWhole r.maxItems 30
      perFile := orWhole r.maxItemsPerFile 6
      perKind := r.maxItemsPerKind
      kindWeights := if r.kindWeights.isEmpty then kindWeights else r.kindWeights
      severityWeights := if r.severityWeights.isEmpty then severityWeights else r.severityWeights }

/-- The plan of settings; without any, that of the standard ones. -/
def ofSettings (s : Option Settings) : Plan := ofReview ((s.map (·.review)).getD { root := Path.ofString "." })

def work (p : Plan) (changed : List (String × List Int)) (risks : List Risk) : List Risk :=
  p.budget.choose (merge p.mergeWindow p.mergeSimilarity (anchor changed p.window p.unanchored risks))

end Plan

def riskOfFinding (v : Json) : Option Risk :=
  match v with
  | .object fs =>
    let part (key : String) (default : Json) := (Fields.get? fs key).getD default
    let code := part "code" ""
    let message := part "message" ""
    let line := part "line" (.int 1)
    let description := if code.truthy then .text s!"[{code.display}] {message.display}" else message
    match if line.truthy then line.toInt else .ok 1 with
    | .error _ => none
    | .ok n => (readFields [("risk_type", Kind.syntaxError.name), ("file_path", part "file" ""),
        ("line_number", linesJson (n, n)), ("description", description), ("confidence", .real 0.8),
        ("severity", part "severity" "error")]).toOption
  | _ => none

def risksOfFindings (findings : List Json) : List Risk := findings.filterMap riskOfFinding

variable (tasks : List (String × List Risk)) (s : State) (as : List (Option FileAnalysis))

def tasksJson : Json := .object (tasks.map fun (k, rs) => (k, .list (rs.map toJson)))

def noWork : Update := [("work_list", .list []), ("expert_tasks", .object [])]

/-- The risks of analyses, all of which must be records. -/
def risksOfAnalyses : Result (List Risk) := do
  let found ← as.mapM fun
    | some a => pure a.risks
    | none => throw (.lacking "object has no attribute 'potential_risks'")
  return found.flatten

def sayTasks : Action Unit := tasks.forM fun (kind, rs) => say s!"       • {kind}: {rs.length} 个任务"

def planWork : Action Update := do
  let plan := Plan.ofSettings s.settings
  let changed := changedLines (← Diff.changedFiles s.diff)
  let risks ← risksOfAnalyses as
  let findings := s.items "lint_errors"
  let static := risksOfFindings findings
  if !findings.isEmpty then say s!"  📋 添加语法分析任务: {static.length} 个"
  let all := risks ++ static
  let loose := (all.filter fun r => !isAnchored changed plan.window r).length
  if loose != 0 then
    let (dropped, bounded) := match plan.unanchored with
      | .drop => (loose, 0)
      | .bound _ => (0, loose)
    say s!"  🧹 锚点过滤: 丢弃 {dropped} 条, 降置信度 {bounded} 条 (window=±{plan.window})"
  let work := plan.work changed all
  let tasks := groupByKind work
  say "  ✅ worklist"
  say s!"  ✅ Manager 完成! ({← s.tag})"
  say s!"     - 生成任务数: {work.length}"
  say s!"     - 专家组数量: {tasks.length}"
  say "     - 任务分组:"
  sayTasks tasks
  say rule
  return [("work_list", .list (work.map toJson)), ("expert_tasks", tasksJson tasks)]

def manage : Action Update := do
  sayTitle s!"👔 [节点2] Manager - 生成任务列表并分组 ({← s.tag})"
  if !s.hasModel then return noWork
  let given := s.items "file_analyses"
  if given.isEmpty then
    say "  ⚠️  没有文件分析结果"
    return noWork
  let as ← given.mapM fun
    | .object fs => return some (← FileAnalysis.ofFields fs)
    | _ => return none
  say s!"  📥 接收文件分析: {as.length} 个"
  match ← attempt (planWork s as) with
  | .ok u => return u
  | .error _ => return noWork

end PatchReview.Review
