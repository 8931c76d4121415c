import PatchReview.Cell

/-!
# Review jobs

A job is a request to review a pull request, made by a comment. Jobs are rows of a table; each comment of a
repository has one job at most, and with a cooldown a pull request with a recent or unfinished job gets no other one.
-/

namespace PatchReview

open Cell

namespace Job

inductive Status where
  | queued
  | running
  | done
  | failed
  deriving DecidableEq

def Status.name : Status → String
  | queued => "queued"
  | running => "running"
  | done => "done"
  | failed => "failed"

def Status.unfinished : Status → Bool
  | queued | running => true
  | done | failed => false

structure Draft where
  repository : Json
  number : Json
  url : Json
  comment : Json
  sender : Json

structure Request where
  repository : String
  number : Cell
  url : String
  comment : Cell
  sender : String

/-- The request of a draft; none when a part is missing. -/
def Draft.request? (d : Draft) : Result (Option Request) := do
  let repository ← ofParameter 1 d.repository
  let number ← ofParameter 2 d.number
  let url ← ofParameter 3 d.url
  let comment ← ofParameter 4 d.comment
  let sender ← ofParameter 5 d.sender
  return do
    guard (number != .null && comment != .null)
    return ⟨← repository.text?, number.asWhole, ← url.text?, comment.asWhole, ← sender.text?⟩

def Draft.pull? (d : Draft) : Result (Option (String × Cell)) := do
  let repository ← ofParameter 1 d.repository
  let number ← ofParameter 2 d.number
  return repository.text?.map (·, number.asWhole)

end Job

structure Job where
  id : Nat
  request : Job.Request
  status : Job.Status := .queued
  head : Option String := none
  base : Option String := none
  error : Option String := none
  created : Int
  updated : Int

namespace Job

def toJson (j : Job) : Json :=
  .object [("id", j.id), ("repo_full_name", j.request.repository), ("pr_number", j.request.number.toJson),
    ("pr_url", j.request.url), ("comment_id", j.request.comment.toJson), ("sender", j.request.sender),
    ("status", j.status.name), ("created_at", j.created), ("updated_at", j.updated),
    ("head_sha", Json.ofText? j.head), ("base_ref", Json.ofText? j.base), ("error", Json.ofText? j.error)]

structure Table where
  rows : List Job := []
  last : Nat := 0

namespace Table

variable (t : Table) (id : Cell) (repository : String) (number : Cell) (now cooldown : Int)

def get? : Option Job := t.rows.find? fun j => .whole j.id == id

def latest? : Option Job :=
  (t.rows.filter fun j => j.request.repository == repository && j.request.number == number).getLast?

/-- Whether a job keeps its pull request from getting another one. -/
def blocks (j : Job) : Bool := j.status.unfinished || decide (now - j.updated < cooldown)

def isBlocked : Bool := decide (0 < cooldown) && (t.latest? repository number).any (blocks now cooldown)

def enqueue (r : Request) (now cooldown : Int) : Option Nat × Table :=
  if t.isBlocked r.repository r.number now cooldown then (none, t)
  else if t.rows.any fun j => j.request.repository == r.repository && j.request.comment == r.comment then (none, t)
  else
    let id := t.last + 1
    (some id, { rows := t.rows ++ [{ id, request := r, created := now, updated := now }], last := id })

def update (f : Job → Job) : Table := { t with rows := t.rows.map fun j => if .whole j.id == id then f j else j }

def markRunning : Table := t.update id fun j => { j with status := .running, updated := now }

def markMeta (head base : Option String) (now : Int) : Table :=
  t.update id fun j => { j with head, base, updated := now }

def markDone : Table := t.update id fun j => { j with status := .done, error := none, updated := now }

def errorLimit : Nat := 2000

def markFailed (error : String) (now : Int) : Table :=
  t.update id fun j => { j with status := .failed, error := some (takeChars errorLimit error), updated := now }

def unfinished : List Nat := (t.rows.filter (·.status.unfinished)).map (·.id)

end Table

end Job

end PatchReview
