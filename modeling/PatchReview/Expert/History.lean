import PatchReview.Environment

/-!
# What an expert remembers

The history of a conversation is cut before it is put to the model again: to its last messages, to a length of each,
and to a length of all. What a tool gave stays behind the message that asked for it.
-/

namespace PatchReview.Chat

variable (m : Message)

def Message.isTool : Bool := m.speaker == .tool

def Message.isModel : Bool := m.speaker == .ai

def Message.isHuman : Bool := m.speaker == .human

def Message.chars : Nat := (m.content.text?.getD "").length

end PatchReview.Chat

namespace PatchReview.Expert

def cutMark := "\n...[truncated]..."

def truncated (limit : Int) (s : String) : String :=
  if limit ≤ 0 then "" else if (s.length : Int) ≤ limit then s else takeChars limit.toNat s ++ cutMark

structure Limits where
  messages : Nat := 16
  total : Nat := 80000
  tool : Nat := 6000
  model : Nat := 12000

/-- The limits the environment gives; they have least values. -/
def Limits.ofEnvironment : Action Limits := do
  let limit (name : String) (default : Int) (least : Nat) : Action Nat :=
    return max least (← Environment.whole name default).toNat
  let messages ← limit "EXPERT_MAX_HISTORY_MESSAGES" 16 1
  let total ← limit "EXPERT_MAX_TOTAL_CHARS" 80000 10000
  let tool ← limit "EXPERT_MAX_TOOL_CHARS" 6000 500
  let model ← limit "EXPERT_MAX_AI_CHARS" 12000 500
  return { messages, total, tool, model }

/-- Takes messages from the last one on: up to a number, and on to the message before what tools gave. The messages
come last first, and so do the two parts of the result: those taken, and the rest. -/
def lastMessages (limit : Nat) : Nat → Bool → List Chat.Message → List Chat.Message × List Chat.Message
  | _, _, [] => ([], [])
  | count, afterTool, m :: rest =>
    if count < limit || afterTool then
      let (taken, left) := lastMessages limit (count + 1) m.isTool rest
      (m :: taken, left)
    else ([], m :: rest)

/-- The part of a history that is kept: its last messages, from one that is no tool's, and a person's message. -/
def kept (limit : Nat) (ms : List Chat.Message) : List Chat.Message :=
  let (taken, left) := lastMessages limit 0 false ms.reverse
  let ms := taken.reverse.dropWhile (·.isTool)
  if ms.isEmpty || ms.any (·.isHuman) then ms
  else match left.find? (·.isHuman) with
    | some h => h :: ms
    | none => ms

/-- Cuts what a tool or the model said; it becomes a text. -/
def clipped (l : Limits) (m : Chat.Message) : Chat.Message :=
  let cut (limit : Nat) := { m with content := .text (truncated limit (Chat.contentText m.content)) }
  if m.isTool then cut l.tool else if m.isModel then cut l.model else m

def totalChars (ms : List Chat.Message) : Nat := Number.total (ms.map (·.chars))

/-- Leaves out messages from the first one on until the rest is short enough; what tools gave is not left alone. -/
def fitting (limit : Nat) : Bool → List Chat.Message → List Chat.Message
  | _, [] => []
  | dropping, m :: rest =>
    if dropping && m.isTool then fitting limit true rest
    else if rest.isEmpty || totalChars (m :: rest) ≤ limit then m :: rest
    else fitting limit true rest

def shrink (l : Limits) (ms : List Chat.Message) : List Chat.Message :=
  fitting l.total false ((kept l.messages ms).map (clipped l))

/-!
## Whether tools help

Errors and empty results say nothing. When the last tools said nothing too often, an expert is stopped.
-/

/-- Texts that stand in results without a signal. -/
def silentTexts : Strings := [
  "Error invoking tool", "Input should be a valid list", "Please fix the error and try again",
  "Lite-CPG DB not available", "No matches found", "\"matches\": []", "'matches': []", "\"total\": 0",
  "'total': 0"]

def isSilent (content : String) : Bool :=
  let s := strip content
  content == "" || silentTexts.any (holds · s)
    || (holds "\"error\"" s && !holds "\"error\": null" s && !holds "\"error\": \"\"" s)

/-- How many of the last things that tools gave say nothing, of at least one. -/
def recentSilent (window : Int) (ms : List Chat.Message) : Nat :=
  let last := (ms.filter (·.isTool)).reverse.take (max 1 window).toNat
  last.countP fun m => isSilent (Chat.contentText m.content)

/-!
## What an expert has found

The last things that the model said and that tools gave, as one text.
-/

def calledTool? (call : Json) : Option (String × String) :=
  match call with
  | .object fs =>
    let id := (Fields.get? fs "id").getD .null
    let id := if id.truthy then id else (Fields.get? fs "tool_call_id").getD .null
    match id, Fields.get? fs "name" with
    | .text id, some (.text name) => if id == "" then none else some (id, name)
    | _, _ => none
  | _ => none

def calledTools (ms : List Chat.Message) : Pairs :=
  ((ms.filter (·.isModel)).flatMap (·.calls)).foldl (fun names call =>
    match calledTool? call with
    | some (id, name) => Fields.insert names id name
    | none => names) []

def blockLimit : Int := 3000

def block? (names : Pairs) (m : Chat.Message) : Option String :=
  let content := Chat.contentText m.content
  if m.isTool then
    let id := if m.toolCallId.truthy then m.toolCallId.display else ""
    let name := (m.toolCallId.text?.bind (Fields.get? names)).getD "tool"
    let content := truncated blockLimit content
    some s!"[TOOL:{name} id={id}]\n{content}\n"
  else if m.isModel then
    let content := strip content
    if content == "" then none else some ("[ASSISTANT]\n" ++ truncated blockLimit content ++ "\n")
  else none

/-- Takes blocks as long as they fit; the first one always does. -/
def fittingBlocks (limit : Nat) : Nat → Bool → Strings → Strings
  | _, _, [] => []
  | used, any, b :: bs =>
    if limit ≤ used || (limit < used + b.length && any) then []
    else b :: fittingBlocks limit (used + b.length) true bs

/-- The last things found, within a number of characters. -/
def digestOf (limit : Nat) (ms : List Chat.Message) : String :=
  let blocks := ms.reverse.filterMap (block? (calledTools ms))
  strip (joinWith "\n" (fittingBlocks limit 0 false blocks).reverse)

def digest (ms : List Chat.Message) : Action String := do
  let limit := max 1000 (← Environment.whole "EXPERT_MAX_EVIDENCE_DIGEST_CHARS" 16000).toNat
  return digestOf limit ms

end PatchReview.Expert
