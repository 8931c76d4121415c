import PatchReview.Proofs.Action
import PatchReview.Repository.Git

/-!
# Steps beside a part of a workspace

A part of a workspace lies *aside* when files, commands and the clock do not touch it, as the jobs and the environment
do. Looking at files, making them, and asking git are all steps beside such a part: they leave it alone, whether they
end normally or not, and a fault of theirs is one that can be handled.
-/

namespace PatchReview

open Command Except Files

namespace Action

variable {α β γ : Type} {f : Workspace → γ} {ok : Fault → Prop} {w v : Workspace} {a : Action α} {g : α → Action β}

/-- A part of a workspace that files, commands and the clock do not touch, and faults with all that can be handled
among them. -/
structure Aside (f : Workspace → γ) (ok : Fault → Prop) : Prop where
  files : ∀ (w : Workspace) t trees, f { w with files := t, trees := trees } = f w
  commands : ∀ (w : Workspace) commands calls, f { w with commands := commands, calls := calls } = f w
  clock : ∀ (w : Workspace) t, f { w with clock := t } = f w
  fault : ∀ e, e.isError = true → ok e

/-- A step leaves a part of a workspace alone, and its fault, if it has one, is among the given ones. -/
structure Beside (f : Workspace → γ) (ok : Fault → Prop) (a : Action α) (w : Workspace) : Prop where
  keeps : f (a w).2 = f w
  fault : ∀ e, (a w).1 = .error e → ok e

/-- It leaves the part alone, whatever its fault. -/
abbrev Clear (f : Workspace → γ) (a : Action α) (w : Workspace) : Prop := Beside f (fun _ => True) a w

namespace Beside

lemma eq_of_run {r} (h : Beside f ok a w) (ha : a w = (r, v)) : f v = f w :=
  (congrArg (fun p => f p.2) ha).symm.trans h.keeps

lemma of_run {r} (ha : a w = (r, v)) (hv : f v = f w) (hr : ∀ e, r = .error e → ok e) : Beside f ok a w :=
  ⟨ha ▸ hv, ha ▸ hr⟩

lemma pure (x : α) (w) : Beside f ok (pure x : Action α) w := ⟨rfl, nofun⟩

lemma throw {e} (he : ok e) (w) : Beside f ok (throw e : Action α) w := ⟨rfl, fun _ h => error.inj h ▸ he⟩

lemma set (hv : f v = f w) : Beside f ok (set v : Action Unit) w := ⟨hv, nofun⟩

lemma bind (ha : Beside f ok a w) (hg : ∀ x v, a w = (.ok x, v) → Beside f ok (g x) v) : Beside f ok (a >>= g) w := by
  rcases hrun : a w with ⟨e | x, v⟩
  · refine of_run (r := .error e) (by rw [bind_apply, hrun]) (ha.eq_of_run hrun) fun e' h => ?_
    exact error.inj h ▸ ha.fault e (congrArg (·.1) hrun)
  · have hx := hg x v hrun
    exact of_run (bind_of_ok hrun) (hx.keeps.trans (ha.eq_of_run hrun)) hx.fault

lemma bindAll (ha : Beside f ok a w) (hg : ∀ x v, Beside f ok (g x) v) :
    Beside f ok (a >>= g) w := ha.bind fun x v _ => hg x v

/-- After a look at the workspace, which is the one the rest goes on from. -/
lemma look {g : Workspace → Action α} (hg : Beside f ok (g w) w) : Beside f ok (get >>= g) w :=
  (⟨rfl, nofun⟩ : Beside f ok get w).bind fun _ _ h => by
    cases h
    exact hg

lemma ofExcept {x : Result α} (hx : ∀ e, x = .error e → ok e) (w) : Beside f ok (ofExcept x) w := by
  cases x with
  | ok a => exact pure a w
  | error e => exact throw (hx e rfl) w

lemma ite {c : Prop} [Decidable c] {a b : Action α} (ha : Beside f ok a w) (hb : Beside f ok b w) :
    Beside f ok (if c then a else b) w := by
  split
  · exact ha
  · exact hb

lemma ofSteady (h : Steady a) (w) : Clear f a w :=
  ⟨congrArg (fun p => f p.2) (h.after w), fun _ _ => trivial⟩

/-- A step that runs as another one, or as what makes up for a fault of it. -/
lemma recover {a b handle : Action α} (ha : Beside f ok a w) (hhandle : ∀ v, Beside f ok handle v)
    (hb : b w = a w ∨ b w = handle (a w).2) : Beside f ok b w := by
  obtain hb | hb := hb
  · exact ⟨hb ▸ ha.keeps, hb ▸ ha.fault⟩
  · obtain ⟨hkeeps, hfault⟩ := hhandle (a w).2
    exact ⟨hb ▸ hkeeps.trans ha.keeps, hb ▸ hfault⟩

lemma attempt (h : Beside f ok a w) : Beside f ok (attempt a) w := by
  rcases hrun : a w with ⟨e | x, v⟩
  · refine of_run (r := if e.isError then .ok (.error e) else .error e) (by rw [attempt_apply, hrun])
      (h.eq_of_run hrun) fun e' h' => ?_
    split at h'
    · cases h'
    · exact error.inj h' ▸ h.fault e (congrArg (·.1) hrun)
  · exact of_run (r := .ok (.ok x)) (by rw [attempt_apply, hrun]) (h.eq_of_run hrun) nofun

end Beside

end Action

open Action (Aside Beside Clear)

variable {α γ : Type} {f : Workspace → γ} {ok : Fault → Prop}

/-! ## Files -/

namespace Files

section

variable (hf : Aside f ok)

include hf

section

variable (p : Path)

lemma beside_guarded (x : Except SystemCause α) (w) : Beside f ok (guarded p x) w := by
  cases x with
  | ok a => exact .pure a w
  | error c => exact .throw (hf.fault _ rfl) w

section

variable (w : Workspace)

lemma beside_entry : Beside f ok ( entry? p) w := by
  refine .look (.ofExcept (fun e he => ?_) w)
  unfold FileTree.find? at he
  split at he
  · cases he
  · split at he <;> cases he
    exact hf.fault _ rfl

lemma beside_present : Beside f ok (present p) w := (beside_entry hf p w).bindAll fun _ v => .pure _ v

lemma beside_isDirectory : Beside f ok (isDirectory p) w := (beside_entry hf p w).bindAll fun _ v => .pure _ v

lemma beside_makeDirectories : Beside f ok (makeDirectories p) w := by
  have hgo (n q v) : Beside f ok (makeDirectories.go p n q) v := by
    induction n generalizing q v with
    | zero => exact .pure () v
    | succ n ih =>
      refine .look ?_
      split
      · split
        · exact .pure () v
        · exact .throw (hf.fault _ rfl) v
      · split
        · exact .pure () v
        · refine (ih q.parent v).bindAll fun _ u => .look ?_
          refine (beside_guarded hf p _ u).bind fun r u' h => ?_
          obtain rfl := (steady_guarded p _).eq_of_ok h
          exact .set (hf.files u _ u.trees)
      · exact .throw (hf.fault _ rfl) v
  have hrest (v) : Beside f ok (do
      let w ← get
      let full := if p.isAbsolute then p else FileTree.pathOf w.cwd / p
      makeDirectories.go p (full.parts.length + 1) full) v := .look (hgo _ _ v)
  exact .ite ((Beside.throw (hf.fault _ rfl) w).bindAll fun _ v => hrest v) (hrest w)

end

lemma beside_writeContent (c : Content) (w) : Beside f ok (writeContent p c) w := by
  have hplace (v) : Beside f ok (newPlace p) v := by
    unfold newPlace
    split
    · exact .throw (hf.fault _ rfl) v
    · exact .look (beside_guarded hf p _ v)
  refine (hplace w).bindAll fun q v => .look ?_
  split
  · exact .throw (hf.fault _ rfl) v
  · exact .set (hf.files v _ v.trees)

lemma beside_touch (w) : Beside f ok (touch p) w := by
  have hwrite (v) : Beside f ok (do if !(← present p) then writeText p "") v :=
    (beside_present hf p v).bindAll fun _ u => .ite (beside_writeContent hf p _ u) (.pure () u)
  exact (beside_isDirectory hf p w).bindAll fun _ v =>
    .ite ((Beside.throw (hf.fault _ rfl) v).bindAll fun _ u => hwrite u) (hwrite v)

end

end

end Files

/-! ## Commands -/

section

variable (hf : Aside f ok)

include hf

lemma Action.Aside.change {w v c} (h : Workspace.change w c = .ok v) : f v = f w := by
  have hplace (path d) : f (w.place path d) = f w := by cases d <;> exact hf.files w _ _
  cases c with
  | write path d => exact Except.ok.inj h ▸ hplace path d
  | remove path =>
    simp only [Workspace.change] at h
    split at h <;> cases h
    exact hf.files w _ w.trees
  | makeDirectory path => exact Except.ok.inj h ▸ hplace path .directory
  | removeTree path => exact Except.ok.inj h ▸ hf.files w _ w.trees

omit hf in
/-- A file that cannot be removed is a fault that can be handled. -/
lemma isError_of_change {w : Workspace} {c e} (h : w.change c = .error e) : e.isError := by
  cases c with
  | remove path =>
    simp only [Workspace.change] at h
    split at h <;> cases h <;> rfl
  | _ => cases h

lemma Command.beside_applyChanges (cs : List FileChange) (w) : Beside f ok (applyChanges cs) w := by
  induction cs generalizing w with
  | nil => exact .pure () w
  | cons c cs ih =>
    refine Beside.bindAll (.look ?_) fun _ v => ih v
    refine Beside.bind (.ofExcept (fun e he => hf.fault e (isError_of_change he)) w) fun v u hv => ?_
    rw [Action.ofExcept_apply] at hv
    obtain ⟨hchange, rfl⟩ := Prod.mk.inj hv
    exact .set (hf.change hchange)

lemma Action.Aside.reply (w line) : f (Command.reply w line).2 = f w := by
  unfold Command.reply
  split
  · exact hf.commands w _ w.calls
  · split
    · exact hf.commands w _ w.calls
    · rfl

lemma Command.beside_run (words : Strings) (directory : Option Path) (w) : Beside f ok (run words directory) w := by
  refine .look ((Beside.set ?_).bindAll fun _ v => (beside_applyChanges hf _ v).bindAll fun _ v =>
    .ite ((Beside.throw (hf.fault _ rfl) v).bindAll fun _ u => .pure _ u) (.pure _ v))
  exact (hf.commands _ _ _).trans (hf.reply w _)

lemma Command.beside_check (words : Strings) (directory : Option Path) (w) :
    Beside f ok (check words directory) w :=
  (beside_run hf words directory w).bindAll fun r v =>
    .ite ((Beside.throw (hf.fault _ rfl) v).bindAll fun _ u => .pure r u) (.pure r v)

end

/-! ## Asking git -/

namespace Repository

lemma beside_onCommandFailure {a handle : Action α} {w} (ha : Beside f ok a w)
    (hhandle : ∀ v, Beside f ok handle v) : Beside f ok (onCommandFailure a handle) w := by
  refine ha.recover hhandle ?_
  unfold onCommandFailure ExceptT.run
  split
  · rename_i h
    exact .inr (by rw [h])
  · exact .inl rfl

lemma beside_onCommandTrouble {a handle : Action α} {w} (ha : Beside f ok a w)
    (hhandle : ∀ v, Beside f ok handle v) : Beside f ok (onCommandTrouble a handle) w := by
  refine ha.recover hhandle ?_
  unfold onCommandTrouble ExceptT.run
  split
  · rename_i h
    exact .inr (by rw [h])
  · rename_i h
    exact .inr (by rw [h])
  · exact .inl rfl

variable (hf : Aside f fun _ => True)

include hf

variable (repo : Path)

lemma beside_git (words w) : Clear f (git repo words) w := beside_check hf _ _ w

lemma beside_requireDirectory (w) : Clear f (requireDirectory repo) w := by
  refine (Beside.ofSteady (steady_resolve repo) w).bindAll fun p v => ?_
  refine (beside_present hf p v).bindAll fun _ v => ?_
  have hrest (v) : Clear f (do
      if !(← isDirectory p) then
        throw (Fault.invalid s!"Repository path must be a directory: {p.toString}")
      return p) v :=
    (beside_isDirectory hf p v).bindAll fun _ v =>
      .ite ((Beside.throw trivial v).bindAll fun _ v => .pure p v) (.pure p v)
  exact .ite ((Beside.throw trivial v).bindAll fun _ v => hrest v) (hrest v)

lemma beside_requireGit (w) : Clear f (requireGit repo) w :=
  beside_onCommandTrouble ((beside_git hf repo _ w).bindAll fun _ v => .pure () v) fun v => .throw trivial v

lemma beside_commitOf (ref w) : Clear f (commitOf repo ref) w :=
  (beside_git hf repo _ w).bindAll fun _ v => (beside_git hf repo _ v).bindAll fun _ v => .pure _ v

lemma beside_ensureHead (head : String) (w) : Clear f (ensureHead repo head) w := by
  refine (beside_requireDirectory hf repo w).bindAll fun repo v => (beside_requireGit hf repo v).bindAll fun _ v => ?_
  -- the two commits
  refine (beside_onCommandFailure ((beside_commitOf hf repo _ v).bindAll fun _ v => .pure _ v)
    fun v => .pure _ v).bindAll fun current v => ?_
  refine (beside_onCommandFailure (beside_commitOf hf repo head v)
    fun v => .throw trivial v).bindAll fun wanted v => .ite (.pure () v) ?_
  -- what is uncommitted is put aside
  refine (beside_onCommandFailure ((beside_git hf repo _ v).bindAll fun status v => .ite ?_ (.pure () v))
    fun v => .pure () v).bindAll fun _ v => (beside_run hf _ _ v).bindAll fun r v => .ite ?_ (.pure () v)
  · exact (beside_run hf _ _ v).bindAll fun _ v => .ite (.throw trivial v) (.pure () v)
  · have hthrow (e v) : Clear f (throw e : Action Unit) v := .throw trivial v
    exact .ite ((hthrow _ v).bindAll fun _ v => hthrow _ v) (hthrow _ v)

end Repository

end PatchReview
