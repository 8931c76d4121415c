import PatchReview.Digest.Sha256
import PatchReview.Service.Jobs

/-!
# Deliveries

A delivery asks for a review when it is signed, tells of a new comment on a pull request of a repository that is
served, and the comment holds the trigger. What it asks for becomes a job.
-/

namespace PatchReview.Service

/-!
## Options of the review service

The service that reviews pull requests on request is set up by environment variables.
-/

structure Options where
  token : String
  secret : String
  apiUrl : String
  repositories : Strings
  trigger : String
  unsigned : Bool
  jobs : Path
  clones : Path
  work : Path
  locks : Path
  concurrency : Int
  cooldown : Int
  mostComments : Int
  fuzz : Int
  keepWork : Bool
  map : Bool
  index : Bool
  lint : Bool

namespace Options

def ofEnvironment (environment : Pairs) : Options :=
  let text (name default : String) := (Fields.get? environment name).getD default
  let whole (name : String) (default least : Int) : Int :=
    max least ((Number.readInt? (strip (text name (toString default)))).getD default)
  let names := ((cutAt "," (strip (text "ALLOWED_REPOS" ""))).map strip).filter (· != "")
  { token := strip (text "GITHUB_TOKEN" "")
    secret := strip (text "GITHUB_WEBHOOK_SECRET" "")
    apiUrl := stripRightOf '/' (strip (text "GITHUB_API_BASE_URL" "https://api.github.com"))
    repositories := names.mergeSort.eraseReps
    trigger := strip (text "BOT_TRIGGER" "@cptbot review")
    unsigned := isYes (text "ALLOW_UNSIGNED_WEBHOOKS" "0")
    jobs := Path.ofString (text "DB_PATH" ".storage/github_pat/jobs.sqlite3")
    clones := Path.ofString (text "MIRROR_ROOT" ".storage/github_pat/mirrors")
    work := Path.ofString (text "WORK_ROOT" ".storage/github_pat/work")
    locks := Path.ofString (text "LOCK_ROOT" ".storage/github_pat/locks")
    concurrency := whole "MAX_CONCURRENT_JOBS" 2 1
    cooldown := whole "COOLDOWN_SECONDS" 60 0
    mostComments := whole "MAX_REVIEW_COMMENTS" 50 1
    fuzz := whole "MAX_LINE_FUZZ" 3 0
    keepWork := isYes (text "KEEP_WORKTREE" "0")
    map := isYes (text "ENABLE_REPOMAP" "1")
    index := isYes (text "ENABLE_LITE_CPG" "1")
    lint := isYes (text "ENABLE_LINT" "1") }

def toJson (o : Options) : Json :=
  .object [("github_token", o.token), ("github_webhook_secret", o.secret), ("github_api_base_url",
    .text o.apiUrl), ("allowed_repos", Json.texts o.repositories), ("bot_trigger", o.trigger),
    ("allow_unsigned_webhooks", o.unsigned), ("db_path", o.jobs.toString), ("mirror_root",
    .text o.clones.toString), ("work_root", o.work.toString), ("lock_root", o.locks.toString),
    ("max_concurrent_jobs", o.concurrency), ("cooldown_seconds", o.cooldown), ("max_review_comments",
    .int o.mostComments), ("max_line_fuzz", o.fuzz), ("keep_worktree", o.keepWork), ("enable_repomap",
    .bool o.map), ("enable_lite_cpg", o.index), ("enable_lint", o.lint)]

def serves (o : Options) (repository : String) : Bool := o.repositories.isEmpty || o.repositories.contains repository

end Options

/-!
## Signatures of deliveries

A delivery is signed with a secret: its header is `sha256=` and the keyed digest of its body.
-/

/-- Compares two digests; only plain letters can be compared. -/
def sameDigest (a b : String) : Result Bool :=
  if b.toList.all (·.toNat < 128) then .ok (a == b)
  else .error (.shape "comparing strings with non-ASCII characters is not supported")

def verify (secret : String) (body : Bytes) (header : Option String) : Result Bool :=
  match header with
  | none => .ok false
  | some h =>
    if secret == "" then .ok false
    else
      match Text.dropLead? "sha256=".toList h.toList, Text.unpairedRun? secret.toList with
      | none, _ => .ok false
      | some _, some (first, last) => .error (Cell.unencodable secret.toList first last)
      | some given, none => sameDigest (Hmac.hexDigest (utf8 secret) body) (strip (String.ofList given))

structure Answer where
  status : Nat
  content : String

structure Delivery where
  body : Bytes
  headers : Pairs

/-- Whether a key is in a value: as a member, an item or a part of a text. -/
def isIn (key : String) : Json → Result Bool
  | .object fs => .ok (Fields.has fs key)
  | .list vs => .ok (vs.any fun v => v.text? == some key)
  | .text s => .ok (holds key s)
  | v => .error (.shape s!"argument of type '{v.kindName}' is not iterable")

/-- A member of a value that counts as an empty object when it is missing or empty. -/
def partOf (v : Json) (key : String) : Result Json := do
  let m ← v.memberOr key .null
  return if m.truthy then m else .object []

variable (o : Options) (d : Delivery)

/-- What a comment on a pull request asks for: a job, or the answer that says why there is none. -/
def requestIn (payload : Json) : Result (Answer ⊕ Job.Draft) := do
  let ignored : Answer := ⟨200, "ignored"⟩
  if !(← payload.memberOr "action" .null).same "created" then return .inl ignored
  let issue ← partOf payload "issue"
  if !(← isIn "pull_request" issue) then return .inl ignored
  let comment ← partOf payload "comment"
  let said := (← comment.memberOr "body" "").display
  let trigger := strip o.trigger
  if trigger == "" || !holds (lowered trigger) (lowered said) then return .inl ignored
  let repository := strip (← (← partOf payload "repository").memberOr "full_name" "").display
  if repository == "" then return .inl ⟨400, "missing repository.full_name"⟩
  if !o.serves repository then return .inl ⟨200, "repo not allowed"⟩
  let number ← (← issue.memberOr "number" .null).toInt
  let pull ← issue.memberOr "pull_request" (.object [])
  let url := strip (← pull.memberOr "url" "").display
  if url == "" then return .inl ⟨400, "missing issue.pull_request.url"⟩
  let id ← (← comment.memberOr "id" .null).toInt
  let sender := strip (← (← partOf payload "sender").memberOr "login" "").display
  return .inr ⟨repository, number, url, id, sender⟩

def payloadOf (body : Bytes) : Option Json :=
  match Utf8.decode body with
  | .ok s => (Json.read s).toOption
  | .error _ => none

/-- Judges a delivery: a job, or the answer that says why there is none. -/
def judge : Result (Answer ⊕ Job.Draft) := do
  let signed ← if o.unsigned then pure true
    else verify o.secret d.body (Fields.get? d.headers "X-Hub-Signature-256")
  if !signed then return .inl ⟨401, "invalid signature"⟩
  if (Fields.get? d.headers "X-GitHub-Event").getD "" != "issue_comment" then return .inl ⟨200, "ignored"⟩
  match payloadOf d.body with
  | none => return .inl ⟨400, "invalid json"⟩
  | some payload => requestIn o payload

/-- Takes a delivery: its answer, and the number of the job it made. -/
def receive : Action (Answer × Option Nat) := do
  match ← judge o d with
  | .inl a => return (a, none)
  | .inr r =>
    match ← Jobs.enqueue r o.cooldown with
    | none => return (⟨200, "deduped"⟩, none)
    | some id => return (⟨200, "queued"⟩, some id)

/-- Sets the service up: what is needed must be given. Answers the jobs left from before. -/
def setUp : Action (List Nat) := do
  if o.token == "" then throw (.failed "Missing env: GITHUB_TOKEN")
  if o.secret == "" && !o.unsigned then
    throw (.failed "Missing env: GITHUB_WEBHOOK_SECRET (or set ALLOW_UNSIGNED_WEBHOOKS=1 for dev)")
  if o.repositories.isEmpty then throw (.failed "Missing env: ALLOWED_REPOS (comma-separated owner/repo)")
  Jobs.openAt o.jobs
  Jobs.make
  Jobs.unfinished

end PatchReview.Service
