import PatchReview.Expert.Stop
import PatchReview.Tool.Catalog

/-!
# Experts

An expert looks into a risk in rounds. In each the model is asked; when it calls tools, what they give is told in the
next round. The last answer holds the judgement.
-/

namespace PatchReview

open Chat Message

structure Expert where
  rounds : Int := 20
  toolCalls : Int := 6
  stopConfidence : Float := 0.55
  tools : List (String × (Tool.Arguments → Action Json)) := []
  toolsText : String := ""
  form : String := ""

namespace Expert

def toolsTextOf (names : Strings) : String := joinWith "\n" (names.map fun n => s!"- **{n}**: {n}")

def ofSettings (s : Option Settings) (c : Tool.Context) : Expert :=
  let tools := Tool.catalog c
  let base : Expert := { tools, toolsText := toolsTextOf (tools.map (·.1)), form := formOf "RiskItem" }
  match s with
  | none => base
  | some s =>
    { base with
      rounds := s.review.maxRounds
      toolCalls := s.review.maxToolCalls
      stopConfidence := s.review.stopConfidence }

variable (e : Expert) (t : Task) (ms : List Message)

def hasTools : Bool := 0 < e.toolCalls

def firstRequest : Message := human "请分析上述风险项。如果需要更多信息，请调用工具。分析完成后，请输出最终的 JSON 结果。"

def halt (s : Stop) (r : Risk) (ms : List Message) : Action Message := do
  let evidence ← digest (shrink (← Limits.ofEnvironment) ms)
  let text := s.text (Number.renderReal Number.plainReal e.stopConfidence) e.form r evidence
  let answer ← Action.attempt (ask [system text, human stopRequest] [])
  Action.ofExcept (s.judgement e.stopConfidence r answer)

def stop? (p : Patience) (ms : List Message) : Option Stop :=
  roundsStop? (1 + (modelMessages ms : Int)) e.rounds <|> toolsStop? p e.toolCalls ms

/-- One round: the messages it adds. -/
def reason : Action (List Message) := do
  let r := t.risk
  Console.note (s!"  🔍 [专家分析] 第 {1 + modelMessages ms} 轮 | [{r.kind.name}] {r.path}:" ++ s!"{r.lines.1}-{r.lines.2}")
  let system := system (← systemText r.kind.name e.toolsText e.form t)
  match e.stop? (← Patience.ofEnvironment) ms with
  | some s => return [← e.halt s r ms]
  | none =>
    if ms.isEmpty then return [firstRequest, ← ask [system, firstRequest] []]
    else return [← ask (system :: shrink (← Limits.ofEnvironment) ms) []]

def callsTools : Bool := ms.getLast?.any (·.toolCalls.truthy)

def call (call : Json) : Action Message := do
  let name := (call.getD "name").text?.getD ""
  let content ← match e.tools.lookup name with
    | none => pure s!"Error: {name} is not a valid tool"
    | some tool =>
      match ← tool (call.getD "args").fields with
      | .text s => pure s
      | v => pure (v.render Json.wide)
  return { speaker := .tool, content := content, toolCallId := call.getD "id", name := .text name }

/-- Rounds until no more tools are called, at most `fuel`. -/
def converse (e : Expert) (t : Task) : Nat → List Message → Action (List Message)
  | 0, ms => return ms
  | fuel + 1, ms => do
    let ms := ms ++ (← e.reason t ms)
    if e.hasTools && callsTools ms then
      let given ← (ms.getLast?.map (·.calls)).getD [] |>.mapM e.call
      e.converse t fuel (ms ++ given)
    else return ms

/-- The whole conversation about a task. One round more than allowed stops the expert, and ends it. -/
def conversation : Action (List Message) := e.converse t (e.rounds.toNat + 1) []

/-- The judgement in a conversation; none when its last message has none. -/
def judgementIn? : Option Risk :=
  match ms.getLast?.bind (·.content.text?) with
  | none => none
  | some s =>
    match fieldsIn s with
    | .ok (some fs) => (Risk.readFields fs).toOption
    | _ => none

structure Analysis where
  result : Risk
  messages : List Message

def analysisOf? : Result (List Message) → Option Analysis
  | .ok ms => (judgementIn? ms).map fun r => ⟨r, ms⟩
  | .error _ => none

def analyse : Action (Option Analysis) := return analysisOf? (← Action.attempt (e.conversation t))

end Expert

end PatchReview
