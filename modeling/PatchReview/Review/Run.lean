import PatchReview.Expert.Analysis
import PatchReview.Risk.Listing
import PatchReview.Chunk.Pack
import PatchReview.Review.Manage
import PatchReview.Lint.Registry
import PatchReview.Review.Display
import PatchReview.Settings.Load

/-!
# A run

A run reviews the change between two references of a repository: it takes the diff, brings the repository to the
head, indexes both revisions, maps the files, checks the changed ones, has them reviewed, shows what was found and
keeps the report.
-/

namespace PatchReview.Review

/-!
## Experts at work

Every kind of risk has a group of experts. The stage lets each look into its risks, gathers the judgements and notes
how much work they were.
-/

open Action

variable (s : State) (settings : Settings) (name : String)

/-- The task of an expert: a risk with the excerpt of the diff and the text of its file. -/
def taskFor (r : Risk) : Action Expert.Task := do
  return { risk := r, diff := Diff.excerpt s.diff r.path, content := ← fileText (some settings.review.root) r.path }

def analysisNote (r : Risk) (a : Expert.Analysis) : Json :=
  .object [("file_path", r.path), ("line_number", Risk.linesJson r.lines), ("risk_item", r.toJson), ("result",
    a.result.toJson), ("validated_item", a.result.toJson), ("messages", .list (a.messages.map Chat.Message.toJson)),
    ("tool_calls_used", Expert.toolMessages a.messages), ("ai_rounds_used",
    .nat (Expert.modelMessages a.messages))]

/-- The expert of a group; there is none when the model cannot be reached. -/
def expertOf (s : Settings) : Result Expert := do
  let _ ← Chat.Client.ofSettings s.model
  return Expert.ofSettings (some s) { root := some s.review.root, map := s.review.assetKey }

/-- The risks of a group. Items that are no objects are no risks. -/
def risksOfGroup (items : List Json) : Result (List (Except Json Risk)) :=
  items.mapM fun
    | .object fs => do return .ok (← Risk.ofFields fs)
    | v => .ok (.error v)

/-- The judgements of a group with their notes; an item that is no risk makes the group fail in the end. -/
structure GroupResult where
  found : List (Risk × Json) := []
  broken : Option Json := none

def workThrough (e : Expert) (risks : List (Except Json Risk)) : Action GroupResult :=
  risks.foldlM (fun g item => do
    match item with
    | .error v => return { g with broken := g.broken <|> some v }
    | .ok r =>
      match ← e.analyse (← taskFor s settings r) with
      | some a => return { g with found := g.found ++ [(a.result, analysisNote r a)] }
      | none => return g) {}

def GroupResult.outcome (g : GroupResult) : Result (List Risk) :=
  match g.broken with
  | some v => .error (v.lacks "line_number")
  | none => .ok (g.found.map (·.1))

/-- How much work an analysis was, if that is noted. -/
def workNoted (v : Json) : Option (Int × Int) :=
  match v.get? "tool_calls_used", v.get? "ai_rounds_used" with
  | some calls, some rounds =>
    if calls.isNull || rounds.isNull then none
    else do return (← calls.toInt.toOption, ← rounds.toInt.toOption)
  | _, _ => none

/-- A group at work: its name, its risks, and its expert if it has work. -/
structure Group where
  name : String
  risks : List (Except Json Risk)
  expert : Result (Option Expert)

def beginGroup (risks : List (Except Json Risk)) : Action Group := do
  if risks.isEmpty then return ⟨name, risks, .ok none⟩
  say s!"    🔍 [{name}] 开始处理 {risks.length} 个任务..."
  return ⟨name, risks, (expertOf settings).map some⟩

/-- Does the work of a group. Without a place for the notes no judgement counts. -/
def Group.work (noting : Bool) (g : Group) : Action (Result GroupResult) := do
  match g.expert with
  | .error e => return .error e
  | .ok none => return .ok {}
  | .ok (some e) =>
    let r ← workThrough s settings e g.risks
    return .ok (if noting then r else { r with found := [] })

def Group.finish (g : Group) (r : Result GroupResult) : Action (Result (List Risk)) := do
  let outcome := r.bind GroupResult.outcome
  match outcome with
  | .ok risks => if !g.risks.isEmpty then say s!"    ✅ [{g.name}] 完成: {risks.length}/{g.risks.length} 个任务验证成功"
  | .error _ => pure ()
  return outcome

def sayOutcome : Result (List Risk) → Action (List Risk)
  | .ok risks => do
    say s!"  ✅ 专家组 {name} 完成: {risks.length} 个结果"
    return risks
  | .error e => do
    say s!"  ❌ 专家组 {name} 执行失败: {e.message}"
    return []

def runGroups (groups : List (String × List (Except Json Risk))) (noting : Bool) :
    Action (List (String × List Risk) × List Json) := do
  let groups ← groups.mapM fun (name, risks) => beginGroup settings name risks
  let results ← groups.mapM (Group.work s settings noting)
  let outcomes ← (groups.zip results).mapM fun (g, r) => g.finish r
  let found ← (groups.zip outcomes).mapM fun (g, o) => do return (g.name, ← sayOutcome g.name o)
  let notes := results.flatMap fun
    | .ok r => r.found.map (·.2)
    | .error _ => []
  return (found, notes)

def consultExperts : Action Update := do
  sayTitle s!"🔬 [节点3] Expert Execution - 并行执行专家组 ({← s.tag})"
  match s.settings with
  | none => return [("expert_results", .object [])]
  | some settings =>
    let tasks := s.get "expert_tasks"
    if !tasks.truthy then
      say "  ⚠️  没有专家任务需要执行"
      return [("expert_results", .object [])]
    let groups ← (← Action.ofExcept tasks.members).mapM fun (name, v) => do
      return (name, ← risksOfGroup (← v.elements))
    say s!"  📥 接收专家组任务: {groups.length} 个专家组"
    say s!"  📊 总任务数: {Number.total (groups.map (·.2.length))}"
    say s!"  🔒 并发控制: Semaphore(max={settings.review.maxRequests})"
    say "  📋 专家组详情:"
    groups.forM fun (name, risks) => say s!"     • {name}: {risks.length} 个任务"
    let _ ← openQuestions s
    say s!"\n  🚀 开始并行执行 {groups.length} 个专家组..."
    let earlier := (Fields.get? s.facts "expert_analyses").getD (.list [])
    let (found, notes) ← runGroups s settings groups earlier.list?.isSome
    say s!"\n  ✅ Expert Execution 完成! ({← s.tag})"
    say s!"     - 完成专家组: {found.length}"
    say s!"     - 总结果数: {Number.total (found.map (·.2.length))}"
    say rule
    let noted := earlier.items ++ notes
    let facts := if notes.isEmpty then s.facts else Fields.insert s.facts "expert_analyses" (.list noted)
    let statistics := Expert.Statistics.ofRecords (noted.filterMap workNoted)
    return [("expert_results", .object (found.map fun (name, risks) => (name, .list (risks.map Risk.toJson)))),
      ("metadata", .object (Fields.insert facts "expert_tool_call_stats" statistics.toJson))]

/-!
## What a large change is for

A large change is not looked at file by file: the model is asked about chunks of its diff, the most important ones,
as long as there is time.
-/

section

open Environment Json Record

def chunkLimits : Action Chunk.Limits :=
  return ⟨← whole "INTENT_CHUNK_MAX_CHARS" 30000, ← whole "INTENT_CHUNK_MAX_FILE_DIFF_CHARS" 24000⟩

def chunkQuota : Action Chunk.Quota := do
  let allBelow ← whole "INTENT_CHUNK_TOPK_DISABLE_BELOW" 4
  let most ← whole "INTENT_CHUNK_TOPK_MAX" 10
  let share ← real "INTENT_CHUNK_TOPK_RATIO" 0.3
  let least ← whole "INTENT_CHUNK_TOPK_MIN" 4
  let chance ← whole "INTENT_CHUNK_SENTINEL_SAMPLE" 0
  let seed ← whole "INTENT_CHUNK_SENTINEL_SEED" 1
  return { allBelow, most, share, least, seed := if chance == 0 then none else some seed }

/-- The time for looking at chunks, in seconds, and how much of it must be left to begin. -/
structure ChunkTime where
  budget : Float
  margin : Float

/-- The time for looking at chunks when a run may take so many seconds. -/
def chunkTime (timeout : Float) : Action ChunkTime := do
  let share ← real "INTENT_CHUNK_BUDGET_RATIO" 0.25
  let part := timeout * share
  let budget ← real "INTENT_CHUNK_BUDGET_SECONDS" (if 30.0 < part then part else 30.0)
  return ⟨budget, ← real "INTENT_CHUNK_SOFT_MARGIN_SECONDS" 60.0⟩

variable (t : ChunkTime) (elapsed : Float) (s : State)

def ChunkTime.left : Float :=
  let d := t.budget - elapsed
  if 0.0 < d then d else 0.0

def ChunkTime.enough : Bool := !(t.left elapsed ≤ t.margin)

def readAnalyses? : Json → Option (List FileAnalysis)
  | .object fs => (run (optional fs "file_analyses" [] (listOf (nested FileAnalysis.readFields)))).toOption
  | _ => none

def analysesOfDocument? (text : String) : Option (List FileAnalysis) := (read text).toOption.bind readAnalyses?

def analysesIn? (answer : String) : Option (List FileAnalysis) :=
  analysesOfDocument? answer <|> (extract answer).toOption.join.bind analysesOfDocument?

/-- Asks about a chunk; only analyses of its files count. -/
def analyseChunk (c : Chunk) : Action (List FileAnalysis) := do
  let paths := c.files.map (·.path)
  let prompt ← Prompt.render "intent_analysis_chunked" [("chunk_id", c.id), ("group_key", c.group),
    ("files_list", joinWith "\n" (paths.map ("- " ++ ·))), ("chunk_diff", c.diff)]
  let question := [Chat.Message.system "You are an expert code reviewer analyzing PR diffs.",
    Chat.Message.human (prompt ++ "\n\n" ++ Chat.formOf "ChunkedIntentResponse")]
  match ← attempt (Chat.ask question [("temperature", .real 0.3)]) with
  | .error _ => return []
  | .ok m =>
    let found := match m.content with
      | .text s => (analysesIn? s).getD []
      | _ => []
    return found.filter fun a => paths.contains a.path

/-- Asks about chunks as long as there is time; also how many were given up. -/
def analyseChunks (cs : List Chunk) : Action (List FileAnalysis × Nat) := do
  if cs.isEmpty then return ([], 0)
  if !t.enough elapsed then return ([], cs.length)
  if elapsed ≥ t.budget then return ([], 0)
  return ((← cs.mapM analyseChunk).flatten, 0)

def chunkFacts (l : Chunk.Limits) (total : Nat) (s : Chunk.Selection) : Json.Object :=
  let names (cs : List Chunk) := texts (cs.map (·.id))
  [("intent_mode", "chunked"), ("intent_chunk_depth", .int 2), ("intent_chunk_max_chars", l.chunk),
    ("intent_chunk_topk_selected", names s.selected), ("intent_chunk_topk_skipped", names s.skipped),
    ("intent_chunk_total", total), ("intent_chunk_selected", s.selected.length)]

def lookAtChunks (t : ChunkTime) (facts : Json.Object) (cs : List Chunk) : Action Update := do
  let most ← openQuestions s
  say s!"\n  🚀 start chunked intent analysis: {cs.length} chunks (concurrency={most})"
  let (found, given) ← analyseChunks t (Duration.elapsed s.facts (← get).monotonic) cs
  let facts := if given = 0 then facts else Fields.insert facts "intent_chunk_cancelled_tasks" given
  say s!"\n  ✅ Chunked intent done ({← s.tag})"
  say s!"     - file analyses: {found.length}"
  say s!"     - cancelled tasks: {given}"
  say rule
  return [("file_analyses", .list (found.map FileAnalysis.toJson)), ("metadata", .object facts)]

def findIntentsInChunks : Action Update := do
  sayTitle s!"📋 [节点1b] Intent Analysis (Chunked) - diff-only + top-k ({← s.tag})"
  if !s.hasModel then return [("file_analyses", .list [])]
  let timeout ← (int ((s.settings.map (·.review.timeout)).getD 600)).toReal
  if s.changed.isEmpty then
    say "  ⚠️  没有需要分析的文件"
    return [("file_analyses", .list [])]
  let limits ← chunkLimits
  let time ← chunkTime timeout
  let chunks := Chunk.pack limits (← Chunk.entries s.diff s.changed)
  let selection ← Chunk.select (← chunkQuota) chunks
  say s!"  📦 chunks: {selection.selected.length}/{chunks.length} selected (max_chars={limits.chunk})"
  if !selection.skipped.isEmpty then say s!"  ⏭️  skipped chunks: {selection.skipped.length}"
  lookAtChunks s time (Fields.merge s.facts (chunkFacts limits chunks.length selection)) selection.selected

end

/-!
## The report of a review

The results of the experts that are certain enough are confirmed. The model writes a report about them; when it
cannot, a plain report lists them by severity.
-/

open Action Fields

variable (byKind : List (String × Float)) (s : State) (issues : List Risk) (common : Json)

/-- How certain a result must be: as its kind demands, else as the run does. -/
def threshold (r : Risk) : Result Float :=
  match get? byKind r.kind.name with
  | some x => .ok x
  | none => common.toReal

def confirmed (results : List Risk) : Result (List Risk) := do
  let kept ← results.mapM fun r => return Option.guard ((← threshold byKind common r) ≤ ·.confidence) r
  return kept.filterMap id

def reportedSeverities : Strings := ["error", "warning", "info"]

def plainEntry (r : Risk) : Strings :=
  let entry := s!"- **{r.path}:{Risk.shortRange r.lines}** [{r.kind.name}] "
    ++ s!"(confidence: {Number.fixedPlaces 2 r.confidence})\n  {r.description}"
  match r.suggestion with
  | some s => if s == "" then [entry] else [entry, s!"  💡 建议: {s}"]
  | none => [entry]

/-- The issues by severity, as far as it is one that is reported. -/
def plainSections : List (String × List Risk) :=
  reportedSeverities.map fun s => (s, issues.filter (·.severity == s))

def sectionLines (p : String × List Risk) : Strings :=
  if p.2.isEmpty then [] else s!"\n### {uppered p.1}（{p.2.length}）" :: p.2.flatMap plainEntry

def plainText (total : Nat) (sections : List (String × List Risk)) : String :=
  joinWith "\n" (["# 代码审查报告", s!"\n问题总数: {total}\n", "## 按严重级别分类\n"] ++ sections.flatMap sectionLines)

def nothingFound := "未发现问题，代码审查已完成。"

def plainReport : String := if issues.isEmpty then nothingFound else plainText issues.length (plainSections issues)

def reportDiffLimit : Nat := 3000

/-- The length of a report: of a text, its characters. -/
def reportLength : Json → Result Nat
  | .text s => .ok s.length
  | .list vs => .ok vs.length
  | .object fs => .ok fs.length
  | v => .error (.shape s!"object of type '{v.kindName}' has no len()")

def askReport : Action Json := do
  say "  🤖 调用 LLM 生成最终报告..."
  let prompt ← Prompt.render "reporter" [("diff_context", takeChars reportDiffLimit s.diff),
    ("confirmed_issues", "[" ++ joinWith ", " (issues.map Risk.recordText) ++ "]"),
    ("num_issues", toString issues.length),
    ("num_files", toString (s.items "changed_files").length)]
  let answer ← Chat.ask [Chat.Message.system "你是代码审查专家，请用中文输出最终审查报告。", Chat.Message.human prompt] []
  let length ← reportLength answer.content
  say s!"  ✅ Reporter 完成! ({← s.tag})"
  say s!"     - 报告长度: {length} 字符"
  say s!"     - 确认问题: {issues.length} 个"
  say rule
  return answer.content

def resultsOf : Result (List Risk) := do
  let byKind ← ((get? s.fields "expert_results").getD (.object [])).members
  let groups ← byKind.mapM fun (_, v) => do
    (← v.elements).mapM fun
      | .object fs => Risk.ofFields fs
      | v => throw (v.lacks "confidence")
  return groups.flatten

/-- The stage that reports; also whether the report was written by the model or is not needed. -/
def report : Action (Update × Bool) := do
  sayTitle s!"📊 [节点4] Reporter - 生成最终报告 ({← s.tag})"
  if !s.hasModel then
    return ([("confirmed_issues", .list []), ("final_report", "错误：LLM 不可用")], true)
  let results ← resultsOf s
  say s!"  📥 收集专家结果: {results.length} 个"
  let common := (get? s.facts "confidence_threshold").getD (.real 0.5)
  let byKind := (s.settings.map (·.review.thresholdByKind)).getD []
  let issues ← confirmed byKind common results
  say s!"  🔍 按置信度过滤 (阈值: {common.display})"
  say s!"     - 总结果数: {results.length}"
  say s!"     - 确认问题数: {issues.length}"
  if issues.isEmpty then return ([("confirmed_issues", .list []), ("final_report", plainReport [])], true)
  let listed := Json.list (issues.map Risk.toJson)
  match ← attempt (askReport s issues) with
  | .ok text => return ([("confirmed_issues", listed), ("final_report", text)], true)
  | .error _ => return ([("confirmed_issues", listed), ("final_report", plainReport issues)], false)

/-!
## The workflow of a review

A review asks what the change is for, file by file or in chunks when it is large; makes work of the risks that were
found; lets experts look into it, if there is any; and reports.
-/

open Action Fields Json

/-- Whether a change of so many files and characters is large. -/
def isLarge (files chars : Nat) : Action Bool := do
  let most ← Environment.whole "INTENT_DEGRADE_FILE_THRESHOLD" 15
  let longest ← Environment.whole "INTENT_DEGRADE_DIFF_CHARS_THRESHOLD" 150000
  return decide (most ≤ (files : Int)) || decide (longest ≤ (chars : Int))

variable (s : State) (settings : Settings)

def chooseMode : Action Update := do
  let files := (s.items "changed_files").length
  let chars := s.diff.length
  let mode := if ← isLarge files chars then "chunked" else "per_file"
  let facts := insert s.facts "intent_mode" mode
  let size := object [("changed_files", files), ("diff_chars", chars)]
  return [("metadata", .object (insert facts "intent_router" size))]

def inChunks : Bool := ((get? s.facts "intent_mode").bind text?) == some "chunked"

/-- Decides whether experts are needed, and says so. -/
def needsExperts : Action Bool := do
  sayTitle s!"🔀 [路由] route_to_experts - 决策下一步 ({← s.tag})"
  let tasks := s.get "expert_tasks"
  if !(s.get "work_list").truthy || !tasks.truthy then
    say "  ⏭️  无任务，跳过专家执行，直接生成报告"
    return false
  say "  ➡️  路由到 expert_execution"
  say s!"     - 专家组数: {tasks.fields.length}"
  say rule
  return true

structure Outcome where
  state : State
  isOpen : Bool := true

def conduct : Action Outcome := do
  let s := s.apply (← chooseMode s)
  let s := s.apply (← if inChunks s then findIntentsInChunks s else findIntents s)
  let s := s.apply (← manage s)
  let s ← if ← needsExperts s then do pure (s.apply (← consultExperts s)) else pure s
  let (u, isOpen) ← report s
  return ⟨s.apply u, isOpen⟩

/-- Goes through the stages with the model of the settings, which must be one that can be reached. -/
def conductWith (fields : Json.Object) : Action Outcome := do
  let _ ← Chat.Client.ofSettings settings.model
  let fields := if has fields "messages" then fields else insert fields "messages" (.list [])
  let fields := if has fields "metadata" then fields else insert fields "metadata" (.object [])
  conduct { fields, settings := some settings }

def initialFields (now : Float) (diff : String) (files : Strings) (findings : List Json) : Json.Object :=
  let facts := [("workflow_version", text "multi_agent_parallel"), ("config_provider",
    text settings.model.provider), ("confidence_threshold", settings.review.confidenceThreshold)]
  [("messages", .list []), ("diff_context", diff), ("changed_files", texts files),
    ("file_analyses", .list []), ("work_list", .list []), ("expert_tasks", .object []),
    ("expert_results", .object []), ("confirmed_issues", .list []), ("final_report", ""),
    ("lint_errors", .list findings), ("metadata", .object (Duration.noteStart facts now))]

def sayOutcomeOf : Action Unit := do
  let elapsed := Duration.elapsed s.facts (← get).monotonic
  sayTitle s!"✅ 工作流执行完成 ({← s.tag})"
  say "📊 最终结果:"
  let issues := (s.items "confirmed_issues").length
  say s!"   - 确认问题数: {issues}"
  let length ← reportLength (s.get "final_report")
  say s!"   - 报告长度: {length} 字符"
  say s!"⏱️ 总运行时间: {Duration.render elapsed}"
  say rule
  match get? s.facts "expert_tool_call_stats" with
  | some (.object fs) => say (← Expert.summary fs)
  | _ => pure ()

def review (diff : String) (files : Strings) (findings : List Json) : Action Outcome := do
  let _ ← Chat.Client.ofSettings settings.model
  let fields := initialFields settings (← get).monotonic diff files findings
  let s : State := { fields, settings := some settings }
  sayTitle "🚀 多智能体工作流启动"
  say s!"📝 输入 ({← s.tag}):"
  say s!"   - Diff 上下文: {diff.length} 字符"
  say s!"   - 变更文件数: {files.length}"
  say s!"   - Lint 错误数: {findings.length}"
  say rule
  let attempt : Action Outcome := do
    let o ← conduct s
    sayOutcomeOf o.state
    return o
  match ← Action.attempt attempt with
  | .ok o => return o
  | .error e =>
    let facts := insert s.facts "workflow_error" e.message
    let fields := insert fields "final_report" s!"Workflow execution error: {e.message}"
    return ⟨{ s with fields := insert fields "metadata" (.object facts) }, true⟩

open Repository

structure Order where
  home : Path
  repo : Path
  base : String
  head : String
  quiet : Bool := false

def Order.say (o : Order) (s : String) : Action Unit := if o.quiet then pure () else Action.say s

def settingsFor (repo : Path) : Action Settings := do
  let s ← Settings.loadStandard (FileTree.pathOf (← get).cwd)
  return { s with review := { s.review with root := repo } }

variable (o : Order) (settings : Settings) (diff : String)

def Order.takeHead : Action Unit := do
  o.say s!"\n🔀 Ensuring repository is on HEAD version ({o.head})..."
  match ← attempt (ensureHead o.repo o.head) with
  | .ok _ => o.say "✅ Repository is on HEAD version"
  | .error e =>
    o.say s!"⚠️  Warning: Could not ensure HEAD version: {e.message}"
    o.say "   Continuing with current version..."

def Order.index : Action Unit := do
  o.say "\n🧠 Building Lite-CPG index (per-diff DB)..."
  match ← attempt (Index.prepare ⟨o.home, o.repo, o.base, o.head, diff⟩ true) with
  | .ok p =>
    if (← envVar? "LITE_CPG_INDEX_SKIPPED") == some "1" then
      o.say s!"✅ Lite-CPG DB already indexed, skip rebuild: {p.toString}"
    else o.say s!"✅ Lite-CPG DB indexed/refreshed: {p.toString}"
  | .error e =>
    o.say s!"⚠️  Warning: Lite-CPG indexing failed: {e.message}"
    o.say "   Tip: This usually means tree-sitter parser binaries are missing/incompatible."
    o.say ("   Tip: Ensure `pip install -r requirements.txt` in the same env, and consider installing language "
      ++ "provider wheels like `tree-sitter-javascript`.")

def shownFindings : Nat := 10

def findingLine (f : Lint.Finding) : String :=
  let icon := (severities.lookup f.severity).getD "•"
  s!"    {icon} {f.path}:{f.line} - {f.message}"

def Order.check : Action (List Lint.Finding) := do
  o.say "\n🔍 Running pre-agent syntax/lint checking..."
  let found ← Lint.checkChange o.repo diff o.base o.head (some settings)
  if found.isEmpty then o.say "  ✅ No linting errors found"
  else
    o.say s!"  ⚠️  Found {found.length} linting error(s):"
    (found.take shownFindings).forM fun f => o.say (findingLine f)
    if shownFindings < found.length then o.say s!"    ... and {found.length - shownFindings} more"
  return found

def Order.changed : Action Strings := do
  let files ← match ← attempt (changedPaths (some settings) o.repo o.base o.head) with
    | .ok files => pure files
    | .error e => do
      o.say s!"  ⚠️  Warning: Could not get changed files from Git: {e.message}"
      pure (pathsInDiff (some settings) diff)
  if files.isEmpty then o.say "  ⚠️  Warning: No changed files detected, workflow may not produce results"
  return files

/-- An issue as it is shown: its kind as a member of its type. -/
def shownIssue (v : Json) : Json :=
  match (v.getD "risk_type").text?.bind Risk.Kind.ofName? with
  | some k => v.set "risk_type" k.member
  | none => v

def shownFact (fact : String × Json) : String × Json :=
  match fact with
  | ("expert_tool_call_stats", v) => ("expert_tool_call_stats", Expert.shownStatistics v)
  | f => f

def shownFields : Json.Object :=
  s.fields.map fun
    | ("confirmed_issues", v) => ("confirmed_issues", .list (v.items.map shownIssue))
    | ("metadata", v) => ("metadata", .object (v.fields.map shownFact))
    | f => f

def referencePart (ref : String) : String := substitute " " "_" (substitute ".." "" (safeName ref))

def providerPart (s : Settings) : String := safeName (if s.model.provider == "" then "unknown" else s.model.provider)

def emptyReport := "# Code Review Report\n\nNo issues found.\n"

def Order.keep (stamp : String) (report : Json) : Action Path := do
  let pair := s!"{referencePart o.base}_2_{referencePart o.head}"
  let repository ← repositoryPart o.repo
  let directory := Path.ofString "log" / repository / providerPart settings / s!"{pair}_{stamp}"
  Files.makeDirectories directory
  let file := directory / s!"review_results_{pair}.md"
  match report with
  | .text s => Files.writeText file (if s == "" then emptyReport else s)
  | v =>
    Files.writeText file (if v.truthy then "" else emptyReport)
    if v.truthy then throw (.shape s!"write() argument must be str, not {v.kindName}")
  return file

def Order.reviewAndKeep (files : Strings) (findings : List Lint.Finding) : Action Unit := do
  let stamp := (← get).moment.stamp
  let outcome ← review settings diff files (findings.map Lint.Finding.toJson)
  if !o.quiet then
    display (shownFields outcome.state) outcome.isOpen (some (o.repo, settings)) (some o.base) (some o.head)
      (some stamp)
  let file ← o.keep settings stamp (outcome.state.get "final_report")
  o.say s!"\n💾 Results saved to: {file.toString}"

def Order.announce : Action Unit :=
  ["\n🤖 Initializing multi-agent workflow...", "  → Workflow will:", "    1. Analyze file intents in parallel",
    "    2. Manager routes tasks to expert agents", "    3. Expert agents validate risks with concurrency control",
    "    4. Generate final review report"].forM o.say

def Order.proceed (branch commit : Option String) : Action Int := do
  o.say s!"📝 Processing Git diff ({diff.length} characters)..."
  o.takeHead
  o.index diff
  o.say "\n💾 Initializing storage backend..."
  let _ ← Storage.connect
  o.say "✅ Storage initialized"
  o.say "\n📦 Checking assets..."
  let key ← ensureMap o.repo branch commit
  let settings := { settings with review := { settings.review with assetKey := some key } }
  let findings ← o.check settings diff
  o.announce
  let files ← o.changed settings diff
  match ← attempt (o.reviewAndKeep settings diff files findings) with
  | .ok _ => return 0
  | .error e =>
    o.say s!"\n❌ Error running agent: {e.message}"
    return 1

def Order.run : Action Int := do
  o.say "🚀 AI Code Review Agent"
  o.say rule
  let repo ← repositoryAt o.repo
  let o := { o with repo }
  o.say s!"📁 Repository: {repo.toString}"
  let settings ← settingsFor repo
  o.say s!"📝 Configuration loaded: LLM Provider = {settings.model.provider}"
  o.say s!"📁 Workspace root: {repo.toString}"
  o.say s!"\n🔀 Getting Git diff: {o.base}...{o.head}"
  match ← attempt (diffOf repo o.base o.head) with
  | .error e =>
    o.say s!"❌ Error getting Git diff: {e.message}"
    return 1
  | .ok diff =>
    if strip diff == "" then
      o.say (s!"⚠️  Warning: Git diff is empty. No changes found between {o.base} and " ++ o.head)
    else o.say s!"✅ Git diff retrieved ({diff.length} characters)"
    let (branch, commit) ← branchAndCommit repo o.head
    if diff == "" then
      o.say "❌ Error: No diff content available"
      return 1
    o.proceed settings diff branch commit

end PatchReview.Review
