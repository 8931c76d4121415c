import PatchReview.Files

/-!
# The kept jobs

The table of jobs of a workspace. It has to be made before it is used.
-/

namespace PatchReview.Service.Jobs

def openAt (p : Path) : Action Unit := Files.makeDirectories p.parent

def make : Action Unit := modify fun w => { w with jobs := some (w.jobs.getD {}) }

def table : Action Job.Table := do
  match (← get).jobs with
  | some t => return t
  | none => throw (.operation "no such table: jobs")

def seconds : Action Int := return (Number.truncate? (← Action.now)).getD 0

def enqueue (d : Job.Draft) (cooldown : Int) : Action (Option Nat) := do
  let now ← seconds
  let t ← table
  let pull ← Action.ofExcept d.pull?
  if pull.any fun (repository, number) => t.isBlocked repository number now cooldown then return none
  match ← Action.ofExcept d.request? with
  | none => return none
  | some r =>
    let (id, t) := t.enqueue r now cooldown
    modify fun w => { w with jobs := some t }
    return id

def get? (id : Cell) : Action (Option Job) := return (← table).get? id

def unfinished : Action (List Nat) := return (← table).unfinished

def change (f : Job.Table → Int → Job.Table) : Action Unit := do
  let now ← seconds
  let t ← table
  modify fun w => { w with jobs := some (f t now) }

def markRunning (id : Cell) : Action Unit := change fun t now => t.markRunning id now

def markMeta (id : Cell) (head base : Option String) : Action Unit := change fun t now => t.markMeta id head base now

def markDone (id : Cell) : Action Unit := change fun t now => t.markDone id now

def markFailed (id : Cell) (error : String) : Action Unit := change fun t now => t.markFailed id error now

end PatchReview.Service.Jobs
