import PatchReview.Settings

/-!
# Clients of a model

A client is made for the provider that the settings name. One of the providers checks that replies of tools are paired
with calls, so messages are written out for it with the calls and the names of tools.
-/

namespace PatchReview.Chat

/-!
## Chat messages

What is said in a conversation with a model: by a person, the model, the system or a tool. A message of the model
may ask for tools to be called.
-/

inductive Speaker where
  | human
  | ai
  | system
  | tool
  | chat
  | other
  deriving DecidableEq

def Speaker.name : Speaker → String
  | human => "human"
  | ai => "ai"
  | system => "system"
  | tool => "tool"
  | chat => "chat"
  | other => "other"

def Speaker.title : Speaker → String
  | human => "HumanMessage"
  | ai => "AIMessage"
  | system => "SystemMessage"
  | tool => "ToolMessage"
  | chat => "ChatMessage"
  | other => "OtherMessage"

def Speaker.ofName (s : String) : Speaker :=
  if s == "human" then .human
  else if s == "ai" then .ai
  else if s == "system" then .system
  else if s == "tool" then .tool
  else if s == "chat" then .chat
  else .other

structure Message where
  speaker : Speaker
  content : Json
  toolCalls : Json := .list []
  toolCallId : Json := .text ""
  name : Json := .null
  role : Json := .text ""
  extra : Json := .object []

namespace Message

def human (s : String) : Message := { speaker := .human, content := .text s }

def ai (s : String) : Message := { speaker := .ai, content := .text s }

def system (s : String) : Message := { speaker := .system, content := .text s }

def calls (m : Message) : List Json := m.toolCalls.items

def toJson (m : Message) : Json :=
  let part (key : String) (v : Json) := if v.truthy then [(key, v)] else []
  .object ([("type", .text m.speaker.name), ("content", m.content)]
    ++ part "tool_calls" m.toolCalls ++ part "tool_call_id" m.toolCallId
    ++ part "name" m.name ++ part "role" m.role)

def ofJson (v : Json) : Message :=
  { speaker := Speaker.ofName ((v.getD "type").text?.getD "")
    content := (v.get? "content").getD ""
    toolCalls := (v.get? "tool_calls").getD (.list [])
    toolCallId := (v.get? "tool_call_id").getD ""
    name := v.getD "name"
    role := (v.get? "role").getD ""
    extra := (v.get? "additional_kwargs").getD (.object []) }

end Message

inductive Reply where
  | message (content : Json) (toolCalls : List Json)
  | failure (kind : String) (reason : String)

structure Question where
  messages : List Message
  settings : Json.Object := []

open Fields Json

inductive Client where
  | openAi (model : String) (apiKey baseUrl : Option String) (temperature : Float)
  | zhipu (model : String) (apiKey : Option String) (temperature : Float)

def orElse (s other : String) : String := if s == "" then other else s

def Client.ofSettings (m : ModelSettings) : Result Client :=
  if m.provider == "openai" then .ok (.openAi m.model m.apiKey m.baseUrl m.temperature)
  else if m.provider == "deepseek" then
    .ok (.openAi (orElse m.model "deepseek-chat") m.apiKey
      (some (orElse (m.baseUrl.getD "") "https://api.deepseek.com")) m.temperature)
  else if m.provider == "zhipuai" then
    .ok (.zhipu (orElse m.model "glm-4.6") m.apiKey m.temperature)
  else .error (.invalid s!"Unsupported provider: {m.provider}")

def contentText : Json → String
  | .null => ""
  | .text s => s
  | v => v.render wide

def argumentText : Json → String
  | .text s => s
  | .null => (object []).render wide
  | v => v.render wide

variable (ms : List Message) (call : Json)

def wireCall? : Option Json :=
  match call with
  | .object fs =>
    let isFunction := match get? fs "function" with
      | some (.object _) => true
      | _ => false
    if isFunction && has fs "id" then some call
    else match get? fs "id", get? fs "name" with
      | some (.text id), some (.text name) =>
        some (.object [("id", id), ("type", "function"), ("function", .object [("name", name),
            ("arguments", argumentText ((get? fs "args").getD .null))])])
      | _, _ => none
  | _ => none

def wireCalls? (calls : Json) : Option (List Json) :=
  match calls with
  | .list cs =>
    match cs.filterMap wireCall? with
    | [] => none
    | ws => some ws
  | _ => none

/-- The calls of a message, as the provider gave them or else written anew. -/
def Message.wireCalls (m : Message) : Json :=
  let raw := m.extra.getD "tool_calls"
  if raw.truthy then raw
  else match wireCalls? m.toolCalls with
    | some ws => .list ws
    | none => .null

def callName? : Option (String × String) :=
  match call with
  | .object fs =>
    let inner := match get? fs "function" with
      | some (.object gs) => (get? gs "name").getD .null
      | _ => .null
    let name := if inner.truthy then inner else (get? fs "name").getD .null
    match get? fs "id", name with
    | some (.text id), .text n => if id != "" && n != "" then some (id, n) else none
    | _, _ => none
  | _ => none

def toolNames : Pairs :=
  ((ms.filter (·.speaker == .ai)).flatMap fun m => m.wireCalls.items.filterMap callName?).foldl
    (fun acc (id, name) => insert acc id name) []

/-- Messages with a turn of the user in them: after the leading system messages if there is none. -/
def withUser : List Message :=
  if ms.any (·.speaker == .human) then ms
  else
    let lead := ms.takeWhile (·.speaker == .system)
    lead ++ [Message.human "继续。"] ++ ms.drop lead.length

def wireMessage (names : Pairs) (m : Message) : Result Json :=
  let simple (role : Json) := .ok (.object [("role", role), ("content", m.content)])
  match m.speaker with
  | .chat => simple m.role
  | .system => simple "system"
  | .human => simple "user"
  | .ai =>
    let calls := m.wireCalls
    .ok (.object ([("role", .text "assistant"), ("content", m.content)]
      ++ (if calls.truthy then [("tool_calls", calls)] else [])))
  | .tool =>
    let given := if m.name.truthy then m.name else m.extra.getD "name"
    let name := if given.truthy then given
      else match m.toolCallId with
        | .text id => ofText? (get? names id)
        | _ => .null
    .ok (.object ([("role", .text "tool"), ("content", .text (contentText m.content)),
      ("tool_call_id", m.toolCallId)] ++ (if name.truthy then [("name", name)] else [])))
  | .other => .error (.shape "Got unknown type 'OtherMessage'.")

def wireMessages : Result (List Json) :=
  let ms := withUser ms
  ms.mapM (wireMessage (toolNames ms))

def requestParameters (model : String) (stop : Json) : Json :=
  .object ([("model", .text model)] ++ (if stop.isNull then [] else [("stop", stop)]))

end PatchReview.Chat
