import PatchReview.Service.Worker
import PatchReview.Workbench.Index

/-!
# The review service on the workbench

Commands on jobs, deliveries, clones, the web interface and the worker.
-/

namespace PatchReview.Workbench

open Json Service

variable (i : Json) (step : String) (s : Json)

def setClock : Action Unit :=
  match (s.getD "now").number? with
  | some x => modify fun w => { w with clock := x }
  | none => pure ()

/-- Seconds to wait, counted up to whole ones. -/
def secondsOf : Json → Result Int
  | .int n => .ok n
  | .bool b => .ok (if b then 1 else 0)
  | .real x => .ok ((Number.ceiling? x).getD 0)
  | v => .error (.shape s!"'>' not supported between instances of '{v.kindName}' and 'int'")

def jobCell (k : Nat) (v : Json) : Action Cell := do
  let _ ← Jobs.table
  Cell.ofParameter k v

def jobNumber (k : Nat) (v : Json) : Action Cell := return (← jobCell k v).asWhole

def jobStep : Action Json := do
  setClock s
  match step with
  | "init" => quiet Jobs.make
  | "enqueue" =>
    let d : Job.Draft := ⟨← need s "repo", ← need s "pr", (s.get? "url").getD "u", ← need s "comment",
      (s.get? "sender").getD "x"⟩
    return match ← Jobs.enqueue d (← secondsOf ((s.get? "cooldown").getD (.int 0))) with
      | some id => id
      | none => .null
  | "get" => return ((← Jobs.get? (← jobNumber 1 (← need s "id"))).map (·.toJson)).getD .null
  | "unfinished" => return .list ((← Jobs.unfinished).map nat)
  | "running" => quiet do Jobs.markRunning (← jobNumber 2 (← need s "id"))
  | "meta" => quiet do
    let id ← need s "id"
    let head ← jobCell 1 (← need s "head")
    let target ← jobCell 2 (← need s "base")
    Jobs.markMeta (← jobNumber 4 id) head.text? target.text?
  | "done" => quiet do Jobs.markDone (← jobNumber 2 (← need s "id"))
  | "failed" => quiet do
    let id ← need s "id"
    match ← need s "error" with
    | .text error => Jobs.markFailed (← jobNumber 3 id) error
    | .list vs => let _ ← jobCell 1 (.list vs)
    | v => throw (.shape s!"'{v.kindName}' object is not subscriptable")
  | _ => throw (.other step)

def bodyBytes : Json → Bytes
  | .text s => utf8 s
  | v@(.object [("b64", _)]) => Snapshot.bytes v
  | v => utf8 (v.render plain)

def clonesHere : Action Clones := do
  let root ← base
  Clones.resolve ⟨root / "m", root / "w", root / "l"⟩

def hostArguments : List (String × Strings) :=
  [("get_pr", ["pr_url"]), ("create_review", ["owner", "repo", "pr_number", "commit_id", "body", "comments"]),
    ("create_issue_comment", ["owner", "repo", "pr_number", "body"])]

/-- Runs a command on the web interface. It takes its own arguments only, and all of them. -/
def hostStep (token url step : String) (s : Json) : Action Json := do
  let h ← Host.connect token url
  let names := (hostArguments.lookup step).getD []
  if s.fields.any fun (k, _) => k != "do" && !names.contains k then throw (.shape "unexpected keyword argument")
  names.forM fun name => do
    if (s.get? name).isNone then throw (.shape s!"missing 1 required keyword-only argument: '{name}'")
  let shown (key : String) := (s.getD key).display
  match step with
  | "get_pr" =>
    match s.getD "pr_url" with
    | .text url => return (← h.pullRequest url).toJson
    | v => throw (.shape s!"Invalid type for url. Expected str or httpx.URL, got {v.kindName}")
  | "create_review" => quiet (h.postReview (shown "owner") (shown "repo") (shown "pr_number") (s.getD "commit_id")
      (s.getD "body") (s.getD "comments"))
  | "create_issue_comment" =>
    quiet (h.postComment (shown "owner") (shown "repo") (shown "pr_number") (s.getD "body"))
  | _ => throw (.other step)

def webReplies : List WebReply := (i.getD "responses").items.map fun r => ⟨intOr r "status" 200, r.getD "json"⟩

def notePost (kind : String) (fields : Json.Object) : Action Unit :=
  modify fun w => { w with posts := w.posts ++ [(kind, .object fields)] }

def outletsOf : Outlets where
  pullRequest _ := do
    match i.getD "pr" with
    | .null => throw (.failed "boom")
    | p => return ⟨textOr p "owner" "", textOr p "repo" "", textOr p "full_name" "", intOr p "number" 0,
        textOr p "base_ref" "", textOr p "head_sha" ""⟩
  review _ _ _ := do
    match i.getD "review" with
    | .text reason => throw (.failed reason)
    | v => return (v, true)
  postReview p body comments := do
    match (i.getD "review_error").text?.filter (· != "") with
    | some reason => throw (.failed reason)
    | none => notePost "review" [("owner", p.owner), ("repo", p.repository), ("pr_number", p.number),
        ("commit_id", p.head), ("body", body), ("comments", .list (comments.map (·.toJson)))]
  postComment p body :=
    notePost "issue_comment" [("owner", p.owner), ("repo", p.repository), ("pr_number", p.number), ("body", body)]

end PatchReview.Workbench
