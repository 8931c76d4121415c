import PatchReview.Workspace

/-!
# Asking a model

A question takes the next answer of the model; when there is none left, the model says nothing.
-/

namespace PatchReview.Chat

def failure (kind reason : String) : Fault :=
  if kind == "ValueError" then .invalid reason
  else if kind == "RuntimeError" then .failed reason
  else .other reason

def failureName : Fault → String
  | .invalid _ => "ValueError"
  | .failed _ => "RuntimeError"
  | _ => "Exception"

def ask (messages : List Message) (settings : Json.Object) : Action Message := do
  modify fun w => { w with questions := w.questions ++ [⟨messages, settings⟩] }
  match (← get).replies with
  | [] => return Message.ai ""
  | r :: rest =>
    modify fun w => { w with replies := rest }
    match r with
    | .message content calls => return { speaker := .ai, content, toolCalls := .list calls }
    | .failure kind reason => throw (failure kind reason)

def formOf (name : String) : String := "FORMAT:" ++ name

/-!
## Failures of a provider

What is logged about a failed request to the provider of a model.
-/

def eitherValue (a b : Json) : Json := if a.truthy then a else b

def bodyText (limit : Int) (body : Json) : String :=
  let s := strip (if body.truthy then body.display else "")
  if limit < (s.length : Int) then leadingChars limit s ++ "\n...[truncated]..." else s

/-- What is logged about a failed request; nothing without a reply. -/
def failureDetails (limit : Int) (reply request : Json) : Strings :=
  if reply.isNull then []
  else
    let status := (reply.getD "status_code").display
    let url := (eitherValue (request.getD "url") (reply.getD "url")).display
    let body := bodyText limit (reply.getD "text")
    [s!"LLM HTTP error details: status={status} url={url}",
      if body == "" then "LLM HTTP error response body: <empty>" else "LLM HTTP error response body:\n" ++ body]

end PatchReview.Chat
