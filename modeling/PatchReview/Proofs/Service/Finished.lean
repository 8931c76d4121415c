import PatchReview.Proofs.Service.Jobs
import PatchReview.Proofs.Beside

/-!
# Jobs that have ended well

A job is noted to have ended well when its issues have been posted. What comes after that is the removal of the work
tree, which leaves the jobs alone; but a fault of it fails the job. So the job stays as it was noted exactly when the
removal ends normally.
-/

namespace PatchReview.Service

open Action Command

/-! ## Removing a work tree -/

section

variable {γ : Type} {f : Workspace → γ} {ok : Fault → Prop} (hf : Aside f ok)

include hf

lemma beside_takeLock (lock w) : Beside f ok (Clones.takeLock lock) w :=
  (Files.beside_makeDirectories hf _ w).bindAll fun _ v => Files.beside_touch hf lock v

lemma beside_removeWork (p work w) : Beside f ok (Clones.removeWork p work) w := by
  refine (beside_takeLock hf p.lock w).bindAll fun _ v => (beside_run hf _ _ v).bindAll fun r u => ?_
  have hprune (v) : Beside f ok (do let _ ← run ["git", "worktree", "prune"] (some p.clone)) v :=
    (beside_run hf _ _ v).bindAll fun _ u => .pure () u
  split
  · refine (Files.beside_present hf work u).bindAll fun _ t => .ite ?_ (hprune t)
    exact (Beside.throw (hf.fault _ rfl) t).bindAll fun _ t' => hprune t'
  · exact hprune u

lemma beside_closeSite (o s w) : Beside f ok (closeSite o s) w :=
  .ite (.pure () w) (beside_removeWork hf s.paths s.tree w)

end

lemma aside_jobs : Aside Workspace.jobs fun e => e.isError :=
  ⟨fun _ _ _ => rfl, fun _ _ _ => rfl, fun _ _ => rfl, fun _ h => h⟩

/-! ## The end of a run -/

variable {o : Options} {m : Clones} {out : Outlets} {id : Cell} {s : Site} {w v : Workspace}

/-- The status of the job of a number. -/
def statusOf (w : Workspace) (id : Cell) : Option Job.Status := (w.jobs.bind (·.get? id)).map (·.status)

/-- Working on a job gets as far as to note that it has ended well: this leaves `v`, and the work tree of `s` to be
removed. -/
def MarksDone (o : Options) (m : Clones) (out : Outlets) (id : Cell) (w : Workspace) (s : Site) (v : Workspace) : Prop :=
  ∃ j w₁ w₂, Jobs.get? id w = (.ok (some j), w) ∧ Jobs.markRunning id w = (.ok (), w₁) ∧
    openSite o m out j w₁ = (.ok s, w₂) ∧ reviewSite o out j s w₂ = (.ok (), v) ∧ statusOf v id = some .done

/-- A job that was noted to have ended well is so at the end of the run. Nothing between changes the jobs but the last
note, so that the end tells. -/
def StaysDone (o : Options) (m : Clones) (out : Outlets) (id : Cell) (w : Workspace) : Prop :=
  ∀ s v, MarksDone o m out id w s v → statusOf (process o m out id w).2 id = some .done

/-- What is left of a run once the job was noted to have ended well: a fault of the removal fails the job. -/
lemma process_of_marksDone (h : MarksDone o m out id w s v) : process o m out id w = (do
      match ← Action.attempt (closeSite o s) with
      | .ok () => return
      | .error e => Jobs.markFailed id e.message) v := by
  obtain ⟨j, w₁, w₂, hget, hrunning, hopen, hreview, -⟩ := h
  have hlast : andLast (reviewSite o out j s) (closeSite o s) w₂ = closeSite o s v := by
    unfold andLast ExceptT.run
    rw [hreview]
    dsimp only
    rcases closeSite o s v with ⟨e | ⟨⟩, v'⟩ <;> rfl
  have hwork : work o m out j w₁ = closeSite o s v := by
    unfold work
    rw [bind_apply, hopen]
    exact hlast
  unfold process
  rw [bind_of_ok hget]
  dsimp only
  rw [bind_of_ok hrunning, bind_apply, bind_apply, attempt_apply]
  exact hwork ▸ rfl

lemma statusOf_markFailed (h : statusOf v id = some .done) (error) :
    statusOf (Jobs.markFailed id error v).2 id = some .failed := by
  obtain ⟨j, hj, -⟩ := Option.map_eq_some_iff.1 h
  obtain ⟨t, ht, hget⟩ := Option.bind_eq_some_iff.1 hj
  obtain ⟨now, time, heq⟩ := Jobs.change_apply ht fun t now => t.markFailed id error now
  have hjobs : (Jobs.markFailed id error v).2.jobs = some (t.markFailed id error now) := congrArg (·.2.jobs) heq
  unfold statusOf
  rw [hjobs]
  change Option.map _ ((t.update id _).get? id) = _
  rw [Job.Table.get?_update, hget]
  · rfl
  · exact fun _ => rfl

/-- A job stays as well ended as it was noted exactly when its work tree is then removed without a fault, or kept. -/
theorem stays_done_iff (o : Options) (m : Clones) (out : Outlets) (id : Cell) (w : Workspace) :
    StaysDone o m out id w ↔ ∀ s v, MarksDone o m out id w s v → ∃ v', closeSite o s v = (.ok (), v') := by
  refine forall_congr' fun s => forall_congr' fun v => imp_congr_right fun h => ?_
  have hdone : statusOf v id = some .done := h.choose_spec.choose_spec.choose_spec.2.2.2.2
  obtain ⟨hjobs, hhandled⟩ := beside_closeSite aside_jobs o s v
  rw [process_of_marksDone h, Action.bind_apply, Action.attempt_apply]
  rcases hclose : closeSite o s v with ⟨e | ⟨⟩, v'⟩
  · rw [hclose] at hjobs hhandled
    have hstatus : statusOf v' id = some .done := by
      unfold statusOf
      rw [hjobs]
      exact hdone
    simp only [hhandled e rfl, if_true]
    have hfailed := statusOf_markFailed hstatus e.message
    constructor
    · intro hstays
      cases hfailed.symm.trans hstays
    · rintro ⟨v'', ⟨⟩⟩
  · refine ⟨fun _ => ⟨v', rfl⟩, fun _ => ?_⟩
    rw [hclose] at hjobs
    change statusOf v' id = _
    unfold statusOf
    rw [hjobs]
    exact hdone

/-! ## A work tree that stays -/

/-- Outlets that find nothing to post. -/
def quietOutlets : Outlets where
  pullRequest _ := pure ⟨"o", "r", "o/r", 5, "main", "s"⟩
  review _ _ _ := pure (.object [], true)
  postReview _ _ _ := pure ()
  postComment _ _ := pure ()

/-- Clones, work trees and locks in directories of their own. -/
def rootClones : Clones := ⟨⟨"/", ["m"]⟩, ⟨"/", ["w"]⟩, ⟨"/", ["l"]⟩⟩

/-- A job that waits. -/
def waitingJob : Job := { id := 1, request := ⟨"o/r", .whole 5, "u", .whole 1, "x"⟩, created := 0, updated := 0 }

/-- A workspace with one job, whose work tree, once made, git does not remove. -/
def lockedWorkspace : Workspace where
  commands := [("*", [{}]), ("git worktree add --force /w/o/r/5/s pr-5", [{ changes := [.makeDirectory "w/o/r/5/s"] }]),
    ("git worktree remove --force /w/o/r/5/s", [{ code := 1, err := "locked" }])]
  jobs := some ⟨[waitingJob], 1⟩

/-- The steps on the waiting job up to the note that it has ended well. -/
def lockedSteps : Action Site := do
  Jobs.markRunning (.whole 1)
  let s ← openSite (.ofEnvironment []) rootClones quietOutlets waitingJob
  reviewSite (.ofEnvironment []) quietOutlets waitingJob s
  return s

lemma lockedSteps_facts :
    (lockedSteps lockedWorkspace).1.isOk ∧ statusOf (lockedSteps lockedWorkspace).2 (.whole 1) = some .done ∧
      statusOf (process (.ofEnvironment []) rootClones quietOutlets (.whole 1) lockedWorkspace).2 (.whole 1) =
        some .failed := by
  decide +kernel

/-- The job ends well, its work tree is not removed, and the job counts as failed. -/
theorem locked_tree_fails_done_job :
    ¬ StaysDone (.ofEnvironment []) rootClones quietOutlets (.whole 1) lockedWorkspace := by
  obtain ⟨hok, hdone, hfailed⟩ := lockedSteps_facts
  intro hstays
  rcases hrun : lockedSteps lockedWorkspace with ⟨e | s, v⟩
  · rw [hrun] at hok
    cases hok
  · obtain ⟨⟨⟩, w₁, hrunning, hrest⟩ := Action.bind_eq_ok hrun
    obtain ⟨s', w₂, hopen, hrest⟩ := Action.bind_eq_ok hrest
    obtain ⟨⟨⟩, v', hreview, hpure⟩ := Action.bind_eq_ok hrest
    cases hpure
    rw [hrun] at hdone
    have hstatus := hstays s v ⟨waitingJob, w₁, w₂, rfl, hrunning, hopen, hreview, hdone⟩
    cases hfailed.symm.trans hstatus

end PatchReview.Service
