import PatchReview.Proofs.Files
import PatchReview.Service.Worker

/-!
# Work trees that are left

A work tree is made anew for each job. One that is left from before is removed first, by git and, where git has left it,
by hand. But when git refuses to remove it, that is a fault, and removing it by hand is not come to.
-/

namespace PatchReview.Service.Clones

open Action Command Files

variable {p : ClonePaths} {work : Path} {branch : String} {ok : Workspace → Prop} {w v v₁ v₂ v₃ : Workspace}
  {r r' : CommandReply} {b : Bool}

/-- A step that ends normally in these workspaces, and in one of them. -/
def Keeps {α : Type} (ok : Workspace → Prop) (a : Action α) : Prop := ∀ v, ok v → ∃ x v', a v = (.ok x, v') ∧ ok v'

def gitRemove (p : ClonePaths) (work : Path) : Action CommandReply :=
  run ["git", "worktree", "remove", "--force", work.toString] (some p.clone)

def gitPrune (p : ClonePaths) : Action CommandReply := run ["git", "worktree", "prune"] (some p.clone)

/-- What holds of the workspaces in which a work tree is made: directories and locks can be made, git can be run and makes
a work tree where there is none, and what is left in its place can be removed by hand. -/
structure Workable (p : ClonePaths) (work : Path) (branch : String) (ok : Workspace → Prop) : Prop where
  look : ∀ v, ok v → ∃ b, present work v = (.ok b, v)
  parent : Keeps ok (makeDirectories work.parent)
  lock : Keeps ok (takeLock p.lock)
  remove : Keeps ok (gitRemove p work)
  prune : Keeps ok (gitPrune p)
  delete : ∀ v, ok v → (present work v).1 = .ok true →
    ∃ v', removeTree work v = (.ok (), v') ∧ ok v' ∧ (present work v').1 = .ok false
  add : ∀ v, ok v → (present work v).1 = .ok false → ∃ v', (do
    takeLock p.lock
    git p.clone ["worktree", "add", "--force", work.toString, branch]
    return work : Action Path) v = (.ok work, v')

/-- Whether a work tree is left that git refuses to remove, so that it stays. -/
def staysLeft (p : ClonePaths) (work : Path) : Action Bool := do
  makeDirectories work.parent
  if ← present work then
    takeLock p.lock
    let r ← gitRemove p work
    return r.code != 0 && (← present work)
  else return false

lemma removeWork_apply (hlock : takeLock p.lock v = (.ok (), v₁)) (hremove : gitRemove p work v₁ = (.ok r, v₂))
    (hlook : present work v₂ = (.ok b, v₂)) (hprune : gitPrune p v₂ = (.ok r', v₃)) :
    removeWork p work v = if r.code ≠ 0 ∧ b = true then
      (.error (.failed s!"git worktree remove failed: {complaint r}"), v₂) else (.ok (), v₃) := by
  have hlast : (do let _ ← run ["git", "worktree", "prune"] (some p.clone) : Action Unit) v₂ = (.ok (), v₃) :=
    bind_of_ok hprune
  rw [removeWork, bind_of_ok hlock, ← gitRemove, bind_of_ok hremove]
  by_cases hcode : r.code = 0
  · simpa [hcode] using hlast
  · rw [if_pos (by simpa using hcode), bind_of_ok hlook]
    cases b with
    | true => simp [hcode]; rfl
    | false => simpa [hcode] using hlast

/-- A work tree is made unless one is left that git refuses to remove. -/
theorem made_iff (h : Workable p work branch ok) (hw : ok w) :
    (∃ v, addWork p work branch w = (.ok work, v)) ↔ (staysLeft p work w).1 = .ok false := by
  obtain ⟨⟨⟩, v, hparent, hv⟩ := h.parent w hw
  obtain ⟨there, hthere⟩ := h.look v hv
  obtain ⟨⟨⟩, v₁, hlock, h₁⟩ := h.lock v hv
  obtain ⟨r, v₂, hremove, h₂⟩ := h.remove v₁ h₁
  obtain ⟨stays, hstays⟩ := h.look v₂ h₂
  obtain ⟨r', v₃, hprune, h₃⟩ := h.prune v₂ h₂
  have hleft : (staysLeft p work w).1 = .ok (there && (r.code != 0 && stays)) := by
    rw [staysLeft, bind_of_ok hparent, bind_of_ok hthere]
    cases there with
    | false => rfl
    | true =>
      rw [if_pos rfl, bind_of_ok hlock, bind_of_ok hremove, bind_of_ok hstays]
      rfl
  rw [hleft, addWork, bind_of_ok hparent, bind_of_ok hthere]
  cases there with
  | false => simpa using h.add v hv (by rw [hthere])
  | true =>
    rw [if_pos rfl, bind_apply, removeWork_apply hlock hremove hstays hprune]
    by_cases hrefused : r.code ≠ 0 ∧ stays = true
    · rw [if_pos hrefused]
      exact iff_of_false (fun ⟨_, hmade⟩ => nomatch hmade) (by simp [hrefused])
    · obtain ⟨left, hlook⟩ := h.look v₃ h₃
      rw [if_neg hrefused, iff_true_right (by simpa using hrefused)]
      dsimp only
      rw [bind_of_ok hlook]
      cases left with
      | false => exact h.add v₃ h₃ (by rw [hlook])
      | true =>
        obtain ⟨v₄, hdelete, h₄, hnone⟩ := h.delete v₃ h₃ (by rw [hlook])
        rw [if_pos rfl, bind_apply, attempt_apply, hdelete]
        exact h.add v₄ h₄ hnone

/-- The workspaces on the way of a job for which git ends with a code when it is to remove a work tree and leaves it,
before and after it is removed by hand. -/
def stubborn (code : Int) (there : Bool) (calls : List CommandCall) : Workspace where
  files := ⟨[(["l"], .file (.bytes []) 0)] ++ if there then [(["x"], .directory)] else []⟩
  commands := [("git worktree remove --force /x", [{ code }]), ("*", [{}])]
  calls

def stubbornPaths : ClonePaths := ⟨.ofString "/c", .ofString "/l"⟩

lemma stubborn_workable (code) :
    Workable stubbornPaths (.ofString "/x") "b" fun v => ∃ there calls, v = stubborn code there calls where
  look := by rintro _ ⟨_ | _, _, rfl⟩ <;> exact ⟨_, rfl⟩
  parent := by rintro _ ⟨_, _, rfl⟩; exact ⟨_, _, rfl, _, _, rfl⟩
  lock := by rintro _ ⟨_ | _, _, rfl⟩ <;> exact ⟨_, _, rfl, _, _, rfl⟩
  remove := by rintro _ ⟨there, _, rfl⟩; exact ⟨_, _, rfl, there, _, rfl⟩
  prune := by rintro _ ⟨there, _, rfl⟩; exact ⟨_, _, rfl, there, _, rfl⟩
  delete := by
    rintro _ ⟨_ | _, calls, rfl⟩ hthere
    · cases hthere
    · exact ⟨_, rfl, ⟨false, calls, rfl⟩, rfl⟩
  add := by rintro _ ⟨_ | _, _, rfl⟩ _ <;> exact ⟨_, rfl⟩

/-- A work tree is made where one was left that git removes. -/
theorem next_work_made :
    ∃ v, addWork stubbornPaths (.ofString "/x") "b" (stubborn 0 true []) = (.ok (.ofString "/x"), v) :=
  (made_iff (stubborn_workable 0) ⟨true, [], rfl⟩).2 rfl

/-- A work tree that git refuses to remove keeps a job from having its own. -/
theorem stubborn_work_not_made :
    ¬ ∃ v, addWork stubbornPaths (.ofString "/x") "b" (stubborn 1 true []) = (.ok (.ofString "/x"), v) := by
  rintro ⟨v, hmade⟩
  cases hmade

end PatchReview.Service.Clones
