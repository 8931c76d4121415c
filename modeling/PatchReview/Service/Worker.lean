import PatchReview.Diff.Excerpt
import PatchReview.Service.Address
import PatchReview.Service.Webhook

/-!
# Working on jobs

A job is worked on in a work tree of its pull request: the change is reviewed, the confirmed issues are posted as
comments, and what finds no line, or cannot be posted so, goes into one plain comment. The work tree is removed
whatever happened, and a fault on the way fails the job.
-/

namespace PatchReview.Service

/-!
## Comments on a change

Confirmed issues become comments at lines of the change. A line can be commented on when the diff shows it in the new
file. Issues that find the same line share a comment; the weightiest comments are kept, and the issues of the others,
and those that find no line, are left over.
-/

/-- A path as the diff has it: one side mark and all leading slashes are dropped. -/
def commentPath (path : String) : String :=
  let p := substitute "\\" "/" (strip path)
  let p := if beginsWith "a/" p || beginsWith "b/" p then dropChars 2 p else p
  stripLeftOf '/' p

/-- The rank of a severity, which must be a text if it is anything. -/
def severityRank (v : Json) : Result Nat :=
  if !v.truthy then .ok 1
  else
    match v with
    | .text s => .ok (if lowered s == "error" then 3 else if lowered s == "warning" then 2 else 1)
    | v => .error (v.lacks "lower")

/-- An issue: a record of which only some fields are looked at. -/
abbrev Issue := Json

namespace Issue

def field (i : Issue) (key : String) (default : Json) : Result Json := Json.memberOr i key default

/-- The first and last line of an issue, both 0 when they cannot be told. -/
def range (lines : Json) : Int × Int :=
  let both (a b : Json) : Int × Int :=
    match a.toInt, b.toInt with
    | .ok x, .ok y => (x, y)
    | _, _ => (0, 0)
  match lines with
  | .list (a :: b :: _) => both a b
  | .text s =>
    match s.toList with
    | a :: b :: _ => both (String.singleton a) (String.singleton b)
    | _ => (0, 0)
  | _ => (0, 0)

/-- The confidence of an issue, 0 when it is no number. -/
def confidence (i : Issue) : Result Float := do
  return (← i.field "confidence" (.real 0.0)).toReal.toOption.getD 0.0

end Issue

/-- The lines that can be commented on, by path. -/
def commentable (files : List (String × Diff.ChangedFile)) : List (String × List Int) :=
  files.foldl (fun ls (path, f) => Fields.insert ls (commentPath path) (f.lines.map (·.1))) []

def leastOf : List Int → Option Int
  | [] => none
  | n :: ns => some (ns.foldl min n)

def nearestTo (start : Int) : List Int → Option Int
  | [] => none
  | n :: ns => some (ns.foldl (fun best m => if (m - start).natAbs < (best - start).natAbs then m else best) n)

/-- The line for an issue: its start, else the first line of its range, widened by the fuzz, else a line near its
start. -/
def placeAt (lines : List Int) (fuzz start stop : Int) : Option Int :=
  if lines.contains start then some start
  else
    let lo := if fuzz > 0 then max 1 (start - fuzz) else start
    let hi := max start stop + (if fuzz > 0 then fuzz else 0)
    match leastOf (lines.filter fun n => lo ≤ n && n ≤ hi) with
    | some n => some n
    | none =>
      if fuzz > 0 then (nearestTo start lines).filter fun n => ((n - start).natAbs : Int) ≤ fuzz
      else none

variable (lines : List (String × List Int)) (diff : String) (issues : List Issue) (most fuzz : Int)

/-- Where an issue goes: a path and a line, none when it finds no place. -/
def placeOf (i : Issue) : Result (Option (String × Int)) := do
  let path := commentPath (← i.field "file_path" "").display
  let (start, stop) := Issue.range (← i.field "line_number" .null)
  match Fields.get? lines path with
  | none => return none
  | some ls =>
    if path == "" || start ≤ 0 then return none
    return (placeAt ls fuzz start stop).map fun n => (path, n)

abbrev Group := (String × Int) × List Issue

/-- The groups of some issues, and those without a place. -/
def groupIssues (fuzz : Int) (issues : List Issue) : Result (List Group × List Issue) :=
  issues.foldlM (fun (gs, left) i => do
    match ← placeOf lines fuzz i with
    | some place => return (addToGroup (fun _ => place) gs i, left)
    | none => return (gs, left ++ [i])) ([], [])

/-- The weight of a group: its highest severity and its highest confidence. -/
def weight (g : Group) : Result (Nat × Float) :=
  g.2.foldlM (fun (rank, high) i => do
    let r ← severityRank (← i.field "severity" "info")
    let c ← i.confidence
    return (max rank r, if c > high then c else high)) (0, 0.0)

def notBelow (a b : Nat × Float) : Bool :=
  a.1 > b.1 || (a.1 == b.1 && !(a.2 < b.2))

def issueLines (i : Issue) : Result Strings := do
  let severity := uppered (lowered (← i.field "severity" "info").display)
  let kind := (← i.field "risk_type" "").display
  let description := strip (← i.field "description" "").display
  let given ← i.field "suggestion" ""
  let suggestion := if given.truthy then strip given.display else ""
  let confidence := Number.fixedPlaces 2 (← i.confidence)
  let lines ← i.field "line_number" .null
  let place := if lines.truthy then s!" line {lines.display}" else ""
  let header := s!"- **{severity}** `{kind}` (confidence {confidence})" ++ place
  return [header] ++ (if description != "" then [s!"  - {description}"] else [])
    ++ (if suggestion != "" then [s!"  - Suggestion: {suggestion}"] else [])

def postLimit : Nat := 65000

structure Comment where
  path : String
  line : Int
  body : String

def Comment.toJson (c : Comment) : Json :=
  .object [("path", c.path), ("line", c.line), ("side", "RIGHT"), ("body", c.body)]

def Comment.ofGroup (g : Group) : Result Comment := do
  let lines ← g.2.mapM issueLines
  return ⟨g.1.1, g.1.2, takeChars postLimit (joinWith "\n" lines.flatten)⟩

structure Comments where
  comments : List Comment
  skipped : List Issue
  total : Nat

/-- The first items of a list; a negative number counts from the end. -/
def firstItems {α : Type} (n : Int) (l : List α) : List α :=
  if n < 0 then l.take ((l.length : Int) + n).toNat else l.take n.toNat

def commentsOn : Result Comments := do
  let (groups, left) ← groupIssues lines fuzz issues
  let weighed ← groups.mapM fun g => return (← weight g, g)
  let kept := (firstItems most (weighed.mergeSort fun a b => notBelow a.1 b.1)).map (·.2)
  let comments ← kept.mapM Comment.ofGroup
  let dropped := groups.filter fun g => !kept.any (·.1 == g.1)
  return ⟨comments, left ++ dropped.flatMap (·.2), issues.length⟩

def commentsFor : Result Comments := do
  commentsOn (commentable (← Diff.changedFiles diff)) issues most fuzz

/-- The comments for the issues of a review. Issues that are not open cannot be looked into. -/
def commentsOf (isOpen : Bool) (most fuzz : Int) : Result Comments := do
  if !isOpen && !issues.isEmpty then
    let _ ← Diff.changedFiles diff
    throw (.lacking "'RiskItem' object has no attribute 'get'")
  commentsFor diff issues most fuzz

def Comments.toJson (c : Comments) : Json :=
  .object [("review_comments", .list (c.comments.map (·.toJson))), ("skipped", .list c.skipped),
    ("total_issues", c.total)]

/-!
## The web interface of the code host

Pull requests are asked for, and reviews and comments are posted, by web requests with a token.
-/

structure PullRequest where
  owner : String
  repository : String
  fullName : String
  number : Int
  base : String
  head : String

def PullRequest.toJson (p : PullRequest) : Json :=
  .object [("owner", p.owner), ("repo", p.repository), ("full_name", p.fullName),
    ("number", p.number), ("base_ref", p.base), ("head_sha", p.head)]

def memberAt (v : Json) (key : String) : Result Json :=
  match v with
  | .object fs =>
    match Fields.get? fs key with
    | some m => .ok m
    | none => .error (.missingKey key)
  | .list _ => .error (.shape "list indices must be integers or slices, not str")
  | .text _ => .error (.shape "string indices must be integers, not 'str'")
  | v => .error (.shape s!"'{v.kindName}' object is not subscriptable")

def PullRequest.ofReply (v : Json) : Result PullRequest := do
  let base ← memberAt v "base"
  let name := (← memberAt (← memberAt base "repo") "full_name").display
  match cutOnce? "/" name with
  | none => throw (.invalid "not enough values to unpack (expected 2, got 1)")
  | some (owner, repository) =>
    let number ← (← memberAt v "number").toInt
    let baseName := (← memberAt base "ref").display
    let head := (← memberAt (← memberAt v "head") "sha").display
    return ⟨owner, repository, name, number, baseName, head⟩

structure Host where
  token : String
  address : Address

namespace Host

/-- A connection; slashes at the end of its address do not count. The token must be ASCII. -/
def connect (token url : String) : Result Host := do
  let address ← Address.base (stripRightOf '/' url)
  if token.toList.any fun c => 128 ≤ c.toNat then throw (.unencodable "ordinal not in range(128)")
  return ⟨token, address⟩

variable (h : Host) (owner repository number : String)

/-- Sends a request; the reply must tell of success. The user of the address counts before the token. -/
def send (method url : String) (body : Json) : Action Json := do
  let address ← h.address.below url
  let headers := [("Authorization", address.credentials?.getD ("token " ++ h.token)),
    ("Accept", "application/vnd.github+json"), ("User-Agent", "CodeReviewBot/1.0")]
  modify fun w => { w with webRequests := w.webRequests ++ [⟨method, address.toString, headers, body⟩] }
  match (← get).webReplies with
  | [] => throw (.outOfRange "no reply")
  | r :: rest =>
    modify fun w => { w with webReplies := rest }
    if r.status < 200 || 299 < r.status then throw (.status r.status)
    return r.body

def pullRequest (url : String) : Action PullRequest := do
  PullRequest.ofReply (← h.send "GET" url .null)

def postReview (commit body comments : Json) : Action Unit := do
  let _ ← h.send "POST" s!"/repos/{owner}/{repository}/pulls/{number}/reviews"
    (.object [("commit_id", commit), ("event", "COMMENT"), ("body", body), ("comments", comments)])

def postComment (body : Json) : Action Unit := do
  let _ ← h.send "POST" s!"/repos/{owner}/{repository}/issues/{number}/comments" (.object [("body", body)])

end Host

open Action Command Files

/-!
## Clones and work trees

Each repository has a clone; each job works on a work tree of its own, made from the clone. Commands on a clone
run under its lock.
-/

structure Clones where
  clones : Path
  work : Path
  locks : Path

structure ClonePaths where
  clone : Path
  lock : Path

namespace Clones

def resolve (m : Clones) : Action Clones := do
  return ⟨← Files.resolve m.clones, ← Files.resolve m.work, ← Files.resolve m.locks⟩

variable (m : Clones) (p : ClonePaths) (work : Path)

def pathsFor (owner repository : String) : ClonePaths :=
  ⟨m.clones / owner / (repository ++ ".git"), m.locks / (owner ++ "_" ++ repository ++ ".lock")⟩

def takeLock (lock : Path) : Action Unit := do
  makeDirectories lock.parent
  touch lock

def complaint (r : CommandReply) : String :=
  let err := strip r.err
  if err == "" then strip r.out else err

def git (clone : Path) (words : Strings) : Action Unit := do
  let r ← run ("git" :: words) (some clone)
  let line := joinWith " " words
  if r.code != 0 then throw (.failed s!"git {line} failed (cwd={clone.toString}): {complaint r}")

def ensure (owner repository url : String) : Action ClonePaths := do
  let p := m.pathsFor owner repository
  makeDirectories p.clone.parent
  takeLock p.lock
  if !(← present p.clone) then
    let r ← run ["git", "clone", "--mirror", url, p.clone.toString] (some p.clone.parent)
    if r.code != 0 then throw (.failed s!"git clone --mirror failed: {complaint r}")
  return p

/-- Fetches the branch of a pull request and the one it goes to; answers their local names. -/
def fetch (number : String) (base : String) : Action (String × String) := do
  let pull := "pr-" ++ number
  let target := "base-" ++ base
  takeLock p.lock
  git p.clone ["fetch", "--prune", "origin"]
  git p.clone ["fetch", "origin", s!"pull/{number}/head:refs/heads/{pull}"]
  git p.clone ["fetch", "origin", s!"{base}:refs/heads/{target}"]
  return (pull, target)

/-- Removes a work tree. A tree that git does not know may be missing, but not stay. -/
def removeWork : Action Unit := do
  takeLock p.lock
  let r ← run ["git", "worktree", "remove", "--force", work.toString] (some p.clone)
  if r.code != 0 then
    if ← present work then throw (.failed s!"git worktree remove failed: {complaint r}")
  let _ ← run ["git", "worktree", "prune"] (some p.clone)

def workPath (owner repository number commit : String) : Path := m.work / owner / repository / number / commit

/-- Makes a work tree; one that is left from before is removed. -/
def addWork (branch : String) : Action Path := do
  makeDirectories work.parent
  if ← present work then
    removeWork p work
    if ← present work then
      let _ ← attempt (removeTree work)
  takeLock p.lock
  git p.clone ["worktree", "add", "--force", work.toString, branch]
  return work

end Clones

/-! ## The work on one job -/

/-- What the work on jobs needs from outside. -/
structure Outlets where
  pullRequest : String → Action PullRequest
  /-- The results of a review, and whether its issues are open. -/
  review : Path → String → String → Action (Json × Bool)
  postReview : PullRequest → String → List Comment → Action Unit
  postComment : PullRequest → String → Action Unit

variable (o : Options) (out : Outlets) (m : Clones) (p : PullRequest) (summary : String)

def summaryOf (c : Comments) : String :=
  let skipped := if c.skipped.isEmpty then "" else s!" Skipped inline: {c.skipped.length}."
  s!"Triggered by `{o.trigger}`. Total issues: {c.total}." ++ skipped

def leftoverLine (i : Issue) : Result String := do
  let path := (← i.field "file_path" "unknown").display
  let lines := (← i.field "line_number" "").display
  let severity := (← i.field "severity" "info").display
  let description ← i.field "description" ""
  let description ← if !description.truthy then pure "" else match description with
    | .text s => pure (strip s)
    | v => throw (v.lacks "strip")
  return s!"- `{path}` `{lines}` **{severity}**: {description}"

def leftoverLimit : Nat := 200

/-- The plain comment that lists issues, after the fault that kept them from being comments. -/
def leftoverText (trouble : Option String) (issues : List Issue) : Result String := do
  let lines ← (issues.take leftoverLimit).mapM leftoverLine
  let told := match trouble with
    | some t => [s!"Review API failed, fallback to issue comment: `{t}`"]
    | none => []
  return takeChars postLimit (joinWith "\n"
    ([summary, ""] ++ told ++ ["## Unplaced items (not on diff hunks / truncated):"] ++ lines))

/-- Posts a review; answers what it failed with, if that can be told. -/
def tryReview (comments : List Comment) : Action (Option String) := do
  if comments.isEmpty then return none
  match ← attempt (out.postReview p summary comments) with
  | .ok () => return none
  | .error e => return if e.message == "" then none else some e.message

def postIssues (results : Json) (isOpen : Bool) : Action Unit := do
  let diff := (← results.memberOr "__pr_diff" "").display
  let confirmed ← results.memberOr "confirmed_issues" (.list [])
  let issues ← if confirmed.truthy then confirmed.elements else pure []
  let built ← commentsOf diff issues isOpen o.mostComments o.fuzz
  let summary := summaryOf o built
  let trouble ← tryReview out p summary built.comments
  if !built.skipped.isEmpty || trouble.isSome then
    let left := if trouble.isSome then issues else built.skipped
    out.postComment p (← leftoverText summary trouble left)

/-- Does a step, then a last one whatever happened; a fault of the last one prevails. -/
def andLast (a last : Action Unit) : Action Unit := fun w =>
  let (r, w) := a.run w
  match last.run w with
  | (.ok (), w) => (r, w)
  | (.error e, w) => (.error e, w)

structure Site where
  request : PullRequest
  paths : ClonePaths
  tree : Path
  branch : String
  target : String

def openSite (out : Outlets) (j : Job) : Action Site := do
  let p ← out.pullRequest j.request.url
  if !o.serves p.fullName then throw (.failed s!"repo not allowed: {p.fullName}")
  Jobs.markMeta (.whole j.id) (some p.head) (some p.base)
  let paths ← m.ensure p.owner p.repository s!"https://github.com/{p.fullName}.git"
  let (pull, target) ← Clones.fetch paths (toString p.number) p.base
  let tree ← Clones.addWork paths (m.workPath p.owner p.repository (toString p.number) p.head) pull
  return ⟨p, paths, tree, pull, target⟩

/-- Reviews a work tree and posts the issues; the job has then ended well. -/
def reviewSite (j : Job) (s : Site) : Action Unit := do
  let (results, isOpen) ← out.review s.tree s.target s.branch
  postIssues o out s.request results isOpen
  Jobs.markDone (.whole j.id)

def closeSite (s : Site) : Action Unit := if o.keepWork then pure () else Clones.removeWork s.paths s.tree

def work (out : Outlets) (j : Job) : Action Unit := do
  let s ← openSite o m out j
  andLast (reviewSite o out j s) (closeSite o s)

def process (out : Outlets) (id : Cell) : Action Unit := do
  match ← Jobs.get? id with
  | none => return
  | some j =>
    Jobs.markRunning id
    match ← attempt (work o m out j) with
    | .ok () => return
    | .error e => Jobs.markFailed id e.message

end PatchReview.Service
