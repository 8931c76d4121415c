import PatchReview.Repository.Git
import PatchReview.Pattern.Regex.Reader

/-!
# Showing results

Results are printed as a listing: the changed files, the issues by severity, the beginning of the report and what is
known about the run. Secrets that stand in the text are blotted out.
-/

namespace PatchReview.Review

/-!
## The log of an analysis

What the experts did is kept in a file: for each risk the outcome and the whole conversation. The file stands under
the names of the repository, the model and the two branches.
-/

open Json Repository String

def branchPart (branch : Option String) : String :=
  match branch with
  | some b => if b == "" then "unknown" else substitute " " "_" (substitute ".." "" (safeName b))
  | none => "unknown"

def repositoryPart (root : Path) : Action String := do
  return substitute ".." "" (safeName (← nameOf root))

/-- The model as a part of a file name: the one the facts name, else the one of the settings. -/
def modelPart (facts : Object) (s : Settings) : Result String :=
  match (Fields.get? facts "config_provider").getD s.model.provider with
  | .text m => .ok (if m == "" then "unknown" else safeName m)
  | v =>
    if v.truthy then .error (v.lacks "replace")
    else .ok "unknown"

def rangeText (v : Json) : String :=
  match v with
  | .list [a, b] => if a.same b then a.display else s!"{a.display}:{b.display}"
  | v => v.display

/-- The text of what a tool gave: laid out when it is a JSON document. -/
def toolResult (content : Json) : Result String :=
  let style := { prettyWide with indent := some 4 }
  match content with
  | .object _ | .list _ => .ok (content.render style)
  | .text s =>
    match read s with
    | .ok v => .ok (v.render style)
    | .error e => if e.isForm then .ok s else .error (.malformed e)
  | v => .ok v.display

def messageText (n : Nat) (m : Chat.Message) : Result String :=
  let head (who : String) := s!"Message {n} [{who}]:\n{dashes}\n"
  match m.speaker with
  | .system => .ok (head "System" ++ s!"{m.content.display}\n\n")
  | .human => .ok (head "Human" ++ s!"{m.content.display}\n\n")
  | .ai =>
    let said := if m.content.truthy then s!"Content:\n{m.content.display}\n" else ""
    let asked := if m.toolCalls.truthy then
        "Tool Calls:\n" ++ (match m.toolCalls with
          | .list _ | .object _ => m.toolCalls.render prettyWide
          | v => v.display) ++ "\n"
      else ""
    .ok (head "Assistant" ++ said ++ asked ++ "\n")
  | .tool => do
    let result ← toolResult m.content
    return head "Tool" ++ s!"Tool: {m.name.display}\nTool Call ID: {m.toolCallId.display}\nResult:\n"
      ++ result ++ "\n\n"
  | s => .ok (head s.title ++ s!"{m.content.display}\n\n")

def analysisText (n : Nat) (analysis : Json) : Result String := do
  let kind ← memberOr analysis "risk_type" "unknown"
  let file ← memberOr analysis "file_path" "unknown"
  let lines ← memberOr analysis "line_number" (.list [.int 0, .int 0])
  let item ← memberOr analysis "risk_item" (.object [])
  let description ← memberOr item "description" ""
  let result ← memberOr analysis "result" (.object [])
  let messages ← memberOr analysis "messages" (.list [])
  let titled (title : String) (v : Json) : String :=
    if v.truthy then s!"{title}:\n{v.render Json.prettyWide}\n\n" else ""
  let conversation ← if messages.truthy then do
      let ms := messages.items.map Chat.Message.ofJson
      let said ← (ms.zipIdx 1).mapM fun (m, k) => messageText k m
      pure (s!"Conversation History ({ms.length} messages):\n{rule}\n\n" ++ join said)
    else pure ""
  return s!"Expert Analysis {n}:\n{rule}\n"
    ++ s!"Risk Type: {kind.display}\nFile: {file.display}\nLine: {rangeText lines}\n"
    ++ (if description.truthy then s!"Description: {description.display}\n" else "")
    ++ s!"{dashes}\n\n"
    ++ titled "Analysis Result" result ++ titled "Risk Item" item
    ++ conversation ++ "\n"

def countable : Json → Result Json
  | .list _ => throw (.shape "unhashable type: 'list'")
  | .object _ => throw (.shape "unhashable type: 'dict'")
  | v => return v

/-- The kind of a risk, which must be one that can be counted. -/
def riskKind (risk : Json) : Result Json := do countable (← memberOr risk "risk_type" "unknown")

/-- Whether one kind comes before another; kinds that are no texts cannot be told apart from texts. -/
def kindBefore (a b : Json) : Result Bool :=
  match a, b with
  | .text a, .text b => .ok (decide (a < b))
  | a, b =>
    match a.number?, b.number? with
    | some x, some y => .ok (x < y)
    | _, _ => .error (.shape
        s!"'<' not supported between instances of '{a.kindName}' and '{b.kindName}'")

def placeKind (kind : Json × Nat) : List (Json × Nat) → Result (List (Json × Nat))
  | [] => .ok [kind]
  | k :: ks => do
    if ← kindBefore kind.1 k.1 then return kind :: k :: ks
    else return k :: (← placeKind kind ks)

/-- How often each kind of risk is to be worked on, by kind. -/
def riskCounts (work : List Json) : Result (List (Json × Nat)) := do
  let kinds ← work.mapM riskKind
  let once := kinds.foldl (fun seen k => if seen.any (·.same k) then seen else seen ++ [k]) []
  once.foldlM (fun placed k => placeKind (k, kinds.countP (·.same k)) placed) []

def logText (repository model : String) (now : Moment) (work analyses : List Json) : Result String := do
  let counts ← riskCounts work
  let entries ← (analyses.zipIdx 1).mapM fun (a, n) => analysisText n a
  return s!"Expert Analysis Log\n{rule}\nRepository: {repository}\nModel: {model}\n"
    ++ s!"Timestamp: {now.iso}\n{rule}\n\n"
    ++ s!"Worklist Summary\n{rule}\nTotal Risks: {work.length}\nRisk Distribution:\n"
    ++ join (counts.map fun (k, n) => s!"  - {k.display}: {n}\n")
    ++ s!"{rule}\n\n" ++ join entries

/-- Keeps the log of some results. The path of the log, none when there is nothing to keep. -/
def saveLog (results : Object) (root : Path) (s : Settings)
    (base head stamp : Option String) : Action (Option Path) := do
  let facts ← memberOr (.object results) "metadata" (.object [])
  let analyses ← memberOr facts "expert_analyses" (.list [])
  if !analyses.truthy then return none
  let repository ← repositoryPart root
  let model ← modelPart facts.fields s
  let now := (← get).moment
  let stamp := match stamp with
    | some t => if t == "" then now.stamp else t
    | none => now.stamp
  let pair := s!"{branchPart base}_2_{branchPart head}"
  let directory := Path.ofString "log" / repository / model / s!"{pair}_{stamp}"
  Files.makeDirectories directory
  let file := directory / s!"log_{pair}.log"
  let work ← ((Fields.get? results "work_list").getD (.list [])).elements
  let analyses ← analyses.elements
  let text ← logText repository model now work analyses
  Files.writeText file text
  return some file

open Action Json

def secretPatterns : Strings :=
  ["api_key=", "token=", "secret="].map fun name => "(" ++ name ++ ")('[^']*'|\"[^\"]*\"|[^,\\s]+)"

def blotOut (text pattern : String) : String :=
  match Pattern.Regex.read pattern { ignoreCase := true } with
  | .ok r => r.replaceAll (fun m => (m.group? 1).getD "" ++ "***REDACTED***") text
  | .error _ => text

def redacted (text : String) : String := secretPatterns.foldl blotOut text

def severities : Pairs := [("error", "❌"), ("warning", "⚠️"), ("info", "ℹ️")]

variable (v report issue : Json)

/-- The group of an issue by its severity; unknown severities count as information. -/
def severityGroup : Result String := do
  match ← countable (← memberOr issue "severity" "info") with
  | .text s => return if (severities.lookup s).isSome then s else "info"
  | _ => return "info"

def eitherMember (first second : String) (default : Json) : Result Json := do
  let a ← memberOr v first .null
  if a.truthy then return a else memberOr v second default

def twoPlaces : Result String :=
  match v with
  | .text _ => .error (.invalid "Unknown format code 'f' for object of type 'str'")
  | .null | .list _ | .object _ => .error (.shape s!"unsupported format string passed to {v.kindName}.__format__")
  | v => v.toReal.map (Number.fixedPlaces 2)

def issueLines : String :=
  match v with
  | .list [_, _] => rangeText v
  | v => if v.truthy then v.display else "0"

def issueText : Result Strings := do
  let file ← eitherMember issue "file_path" "file" "unknown"
  let lines := issueLines (← eitherMember issue "line_number" "line" (.int 0))
  let message ← eitherMember issue "description" "message" ""
  let suggestion ← memberOr issue "suggestion" ""
  let kind ← memberOr issue "risk_type" ""
  let confidence ← memberOr issue "confidence" .null
  let kind := if kind.truthy then s!" [{kind.display}]" else ""
  let confidence ← if confidence.isNull then pure ""
    else do
      let shown ← twoPlaces confidence
      pure s!" (confidence: {shown})"
  return [s!"    • {file.display}:{lines}{kind}{confidence}", s!"      {message.display}"]
    ++ (if suggestion.truthy then [s!"      💡 Suggestion: {suggestion.display}"] else [])

/-- What a run notes of long lists. -/
def countedFacts : Pairs := [
  ("agent_observations", "observations"), ("agent_tool_results", "tool calls"),
  ("expert_analyses", "expert analyses")]

def hiddenFacts : Strings := ["llm_provider", "config", "tools", "langchain_tools", "llm"]

def factText (fact : String × Json) : Option String :=
  let (key, v) := fact
  match countedFacts.lookup key with
  | some what =>
    let n := (v.list?.getD []).length
    some s!"  • {key}: [{n} {what}] (saved to log)"
  | none =>
    if hiddenFacts.contains key then none
    else some s!"  • {key}: {redacted v.display}"

def previewLimit : Nat := 500

def reportPreview : Result Strings := do
  match report with
  | .text s =>
    let long := previewLimit < s.length
    let shown := if long then takeChars previewLimit s ++ "..." else s
    return (cutAt "\n" shown).map ("  " ++ ·)
      ++ (if long then [s!"  ... (truncated, {s.length} total characters)"] else [])
  | v =>
    let parts ← v.elements
    if previewLimit < parts.length then throw (.shape s!"'{v.kindName}' object cannot be cut")
    throw (v.lacks "split")

def sayAll (lines : Strings) : Action Unit := lines.forM say

def showReport : Action Unit := do
  if report.truthy then
    let bar := "  " ++ repeated "=" 76
    sayAll ["\n📄 Final Report:", bar]
    sayAll (← reportPreview report)
    say bar

def showIssues (severity icon : String) (issues : List Json) : Action Unit := do
  if !issues.isEmpty then
    say s!"\n  {icon} {uppered severity} ({issues.length}):"
    issues.forM fun issue => do sayAll (← issueText issue)

/-- Prints issues by severity. Issues that are not open cannot be looked into. -/
def showAll (issues : List Json) (isOpen : Bool) : Action Unit := do
  say s!"\n🔍 Issues Found ({issues.length}):"
  if issues.isEmpty then say "  ✅ No issues found!"
  else if !isOpen then throw (.lacking "'RiskItem' object has no attribute 'get'")
  else
    let grouped ← issues.mapM fun i => do return (← severityGroup i, i)
    severities.forM fun (severity, icon) => showIssues severity icon ((grouped.filter (·.1 == severity)).map (·.2))

/-- Prints results, and keeps their log when the place and the settings for it are given. -/
def display (results : Json.Object) (isOpen : Bool) (place : Option (Path × Settings))
    (base head stamp : Option String) : Action Unit := do
  let field (key : String) (default : Json) := (Fields.get? results key).getD default
  sayAll ["\n" ++ rule, "CODE REVIEW RESULTS", rule]
  let changed := field "changed_files" (.list [])
  let files ← Action.ofExcept
    (elements (if changed.truthy then changed else field "focus_files" (.list [])))
  say s!"\n📋 Changed Files ({files.length}):"
  if files.isEmpty then say "  (none)"
  else sayAll ((files.zipIdx 1).map fun (f, n) => s!"  {n}. {f.display}")
  let confirmed := field "confirmed_issues" (.list [])
  let issues ← Action.ofExcept
    (elements (if confirmed.truthy then confirmed else field "identified_issues" (.list [])))
  showAll issues isOpen
  showReport (field "final_report" "")
  match field "metadata" (.object []) with
  | .object [] => pure ()
  | .object facts => sayAll ("\n📊 Metadata:" :: facts.filterMap factText)
  | v =>
    if v.truthy then
      say "\n📊 Metadata:"
      throw (v.lacks "items")
  match place with
  | none => pure ()
  | some (root, s) =>
    match ← attempt (saveLog results root s base head stamp) with
    | .ok none => pure ()
    | .ok (some file) => sayAll ["\n📝 Logs saved:", s!"   • Expert Analyses: {file.toString}"]
    | .error e => say s!"\n⚠️  Warning: Could not save logs: {e.message}"
  say ("\n" ++ rule)

/-- What of the results is kept: the changed files and the report. -/
def kept (results : Json) : Json :=
  match results with
  | .object fs =>
    let files := match Fields.get? fs "changed_files" with
      | some (.list vs) => [("changed_files", list vs)]
      | some _ => [("changed_files", list [])]
      | none => []
    let report := (Fields.get? fs "final_report").getD .null
    .object (files ++ (if report.truthy then [("final_report", report)] else []))
  | v => v

/-- Messages as they are kept: titled, without the calls of tools. -/
def keptMessages (ms : List Chat.Message) : List Json :=
  ms.map fun m => .object ([("type", .text m.speaker.title), ("content", m.content),
    ("name", m.name)] ++ (if m.speaker == .tool then [("tool_call_id", m.toolCallId)] else []))

end PatchReview.Review
