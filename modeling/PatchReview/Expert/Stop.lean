import PatchReview.Expert.History
import PatchReview.Prompt
import PatchReview.Chat.Ask
import PatchReview.Expert.Statistics

/-!
# What an expert is told

An expert looks into one risk. It is told what its kind of risk is about, which tools it has, the change and the part
of the file around the risk, and in which form to answer.
-/

namespace PatchReview.Expert

structure Task where
  risk : Risk
  diff : String := ""
  content : String := ""

def indented (width : Nat) (lines : Strings) : String :=
  joinWith "\n" (lines.map fun line => if line == "" then "" else repeated " " width ++ line)

def anchorLines (r : Risk) : Strings := ["## 当前任务锚点", s!"风险类型: {r.kind.name}", s!"文件路径: {r.path}",
  s!"行号范围: {r.lines.1}:{r.lines.2}",
  s!"描述: {r.description}"]

def window : Int := 200

/-- The numbers of the first and the last line shown, of so many. -/
def windowOf (count : Nat) (lines : Int × Int) : Int × Int := (max 1 (lines.1 - window), min count (lines.2 + window))

/-- The part of a file around a risk, with line numbers. -/
def snippet (lines : Strings) (shown : Int × Int) : String :=
  joinWith "\n" (((lines.zipIdx 1).filter fun (_, n) => shown.1 ≤ (n : Int) ∧ (n : Int) ≤ shown.2).map
    fun (line, n) => s!"{n}: {line}")

def changeText (limit : Int) (diff : String) : String :=
  if diff == "" then "" else "\n" ++ indented 12 ["## Diff 上下文（已截断）", truncated limit diff]

def fileText (content : String) (lines : Int × Int) : String :=
  if content == "" then ""
  else
    let all := linesOf content
    let shown := windowOf all.length lines
    let hint := s!"下面仅提供与风险行号相关的局部窗口（{shown.1}-{shown.2}）。"
      ++ "如需更多上下文，请优先使用 read_file_snippet 按行号范围读取（建议设置 max_lines 控制输出预算）。"
    "\n" ++ indented 12 ["## 文件内容（已截取窗口）", hint] ++ "\n\n            " ++ snippet all shown

def introduction (kind toolsText : String) : Action String := do
  let common := [("risk_type", kind), ("available_tools", toolsText)]
  match ← Action.attempt (Prompt.render ("expert_" ++ kind) (common ++ [("validation_logic_examples", "")])) with
  | .ok s => return s
  | .error (.notFound _) => Prompt.render "expert_generic" common
  | .error e => throw e

def systemText (kind toolsText form : String) (t : Task) : Action String := do
  let base ← introduction (strip kind) toolsText
  let limit ← if t.diff == "" then pure 0 else Environment.whole "EXPERT_MAX_DIFF_CHARS" 12000
  return base ++ "\n" ++ indented 12 (anchorLines t.risk) ++ changeText (max 1000 limit) t.diff
    ++ fileText t.content t.risk.lines ++ "\n" ++ indented 12 ["## 输出格式要求", form] ++ "\n            "

/-!
## Stopping an expert

An expert that takes too many rounds or tool calls, or whose tools say nothing, is asked for its judgement at once.
Such a judgement is not certain: its confidence is bounded, and it calls no more tools.
-/

inductive Stop where
  | rounds (round most : Int)
  | toolsOff
  | toolCalls (used : Nat) (most : Int)
  | silence (window most : Int)

def stopRequest := "请直接输出最终 JSON（不要调用工具，不要输出解释）。"

def evidenceText (width : Nat) (evidence : String) : String :=
  if evidence == "" then ""
  else "\n\n" ++ indented width ["## 已有信息摘录（对话/工具输出）", "以下是最近轮次中已获得的关键输出（已截断）。请优先基于这些信息完成最终判断。", ""]
    ++ "\n" ++ repeated " " width ++ evidence

variable (bound : Float) (round most : Int) (answer : String)

def roundsText (bound form : String) (r : Risk) : String :=
  s!"⚠️ **紧急停止：分析轮次已达上限 ({round} > {most})**\n\n" ++ indented 16 (["**请立即停止调用任何工具！直接最终分析！**", "",
    "请根据目前已收集到的信息，**直接输出最终的 JSON 结果**。",
    "即使信息不完整，也要基于现有证据给出判断。",
    s!"如果无法给出可核验的代码证据（diff/代码窗口/工具输出），请将 `confidence <= {bound}`（建议更低），避免误报。",
    ""] ++ anchorLines r ++ [
    "",
    "## 输出格式要求（必须严格遵守）",
    form,
    "",
    "**重要：你必须输出一个有效的 JSON 对象，格式必须完全符合上述要求。不要输出任何解释性文字，只输出 JSON。**"])

def toolsStopText (reason bound form : String) (r : Risk) : String :=
  s!"⚠️ **停止工具调用：{reason}**\n" ++ indented 12 (["请基于当前已掌握的信息直接完成最终判断并输出 JSON。", "如果你无法在 diff/代码窗口/工具输出中指出可核验的证据点，"
      ++ s!"请将 `confidence <= {bound}`（建议更低），避免把推断当作确认问题。",
    ""] ++ anchorLines r ++ [
    "",
    "## 输出格式要求（必须严格遵守）",
    form,
    "",
    "**重要：你必须输出一个有效的 JSON 对象。不要输出任何解释性文字，只输出 JSON。**"])

def Stop.text (s : Stop) (bound form : String) (r : Risk) (evidence : String) : String :=
  match s with
  | .rounds round most => roundsText round most bound form r ++ evidenceText 16 evidence
  | .toolsOff => toolsStopText "工具调用已被禁用" bound form r ++ evidenceText 12 evidence
  | .toolCalls used most => toolsStopText s!"工具调用次数已达上限 ({used} >= {most})" bound form r ++ evidenceText 12 evidence
  | .silence window most => toolsStopText s!"最近 {window} 次工具调用中有 {most} 次无有效信息" bound form r ++ evidenceText 12 evidence

def Stop.advice : Stop → String
  | .rounds _ _ => "轮次熔断后未能提取有效 JSON；请手动复核该风险是否真实且可锚定到变更。"
  | _ => "工具预算停止后未能提取有效 JSON；请手动复核该风险是否真实且可锚定到变更。"

def lesser (a b : Float) : Float := if b < a then b else a

/-- The confidence that is bounded: no number counts as 0. -/
def boundedConfidence : Option Json → Float
  | some v => lesser (v.toReal.toOption.getD 0.0) bound
  | none => lesser 0.0 bound

/-- The fields of the object in an answer; none when there is no object. -/
def fieldsIn : Result (Option Json.Object) := do
  match ← (Json.extractValue answer).mapError .malformed with
  | some (.object fs) => return some fs
  | _ => return none

def withBound (fs : Json.Object) : Json :=
  .object (Fields.insert fs "confidence" (boundedConfidence bound (Fields.get? fs "confidence")))

/-- The object in an answer, with its confidence bounded; none when there is no object. -/
def bounded : Result (Option Json) := return (← fieldsIn answer).map (withBound bound)

def defaultJudgement (r : Risk) (confidence : Float) (suggestion : Json) : Json :=
  .object [("risk_type", r.kind.name), ("file_path", r.path), ("line_number", Risk.linesJson r.lines),
    ("description", r.description), ("confidence", confidence), ("severity", "info"),
    ("suggestion", suggestion)]

/-- The text in an answer; an answer with nothing in it counts as empty. -/
def answerText (v : Json) : Result String :=
  match v with
  | .text s => .ok s
  | v => if v.truthy then .error (.shape s!"expected string or bytes-like object, got '{v.kindName}'") else .ok ""

/-- The message of a stopped expert, from what the model said. -/
def Stop.judgement (s : Stop) (bound : Float) (r : Risk) : Result Chat.Message → Result Chat.Message
  | .error _ => .ok (Chat.Message.system ((defaultJudgement r 0.0 .null).render Json.wide))
  | .ok m => do
    let v := (← bounded bound (← answerText m.content)).getD (defaultJudgement r bound s.advice)
    return Chat.Message.ai (v.render Json.wide)

/-- Why an expert in some round is stopped for its rounds. -/
def roundsStop? : Option Stop := if round ≤ most then none else some (.rounds round most)

/-- When tools that say nothing stop an expert. -/
structure Patience where
  silent : Int := 5
  window : Int := 10

def Patience.ofEnvironment : Action Patience := do
  let silent ← Environment.whole "EXPERT_MAX_CONSECUTIVE_NO_SIGNAL_TOOLS" 5
  let window ← Environment.whole "EXPERT_NO_SIGNAL_WINDOW" 10
  return ⟨max 1 silent, max 1 window⟩

/-- Why an expert is stopped for its tools. A number of calls that is not positive turns tools off. -/
def toolsStop? (p : Patience) (most : Int) (ms : List Chat.Message) : Option Stop :=
  let used := toolMessages ms
  if most ≤ 0 ∧ 0 < used then some .toolsOff
  else if 0 < most ∧ most ≤ (used : Int) then some (.toolCalls used most)
  else if p.silent ≤ (recentSilent p.window ms : Int) then some (.silence p.window p.silent)
  else none

end PatchReview.Expert
