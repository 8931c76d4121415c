import Mathlib.Tactic.Lemma
import PatchReview.Repository.Scan

/-!
# Steps that only look

A step over a workspace is *steady* when it leaves the workspace as it is and does not look at the clock.
Looking files up, reading them and listing a repository are steady, so that what they answer can be taken out
of a longer step, and is the same before and after the clock has moved.
-/

namespace PatchReview

open Files List

namespace Action

variable {α β ε : Type} {a : Action α} {f : α → Action β} {l : List α} {x : α} {y : β} {w w' : Workspace}

/-! ## What steps do to a workspace -/

lemma bind_apply (a) (f : α → Action β) (w) : (a >>= f) w = match a w with
      | (.ok x, w') => f x w'
      | (.error e, w') => (.error e, w') := by
  change (ExceptT.bindCont f (a w).1) (a w).2 = _
  rcases a w with ⟨_ | _, _⟩ <;> rfl

lemma bind_of_ok {w v} (h : a w = (.ok x, v)) : (a >>= f) w = f x v := by rw [bind_apply, h]

lemma pure_apply (x) (w) : (pure x : Action α) w = (.ok x, w) := rfl

lemma get_apply (w) : (get : Action Workspace) w = (.ok w, w) := rfl

lemma ofExcept_apply (x : Result α) (w) : ofExcept x w = (x, w) := by cases x <;> rfl

lemma attempt_apply (a : Action α) (w) : attempt a w = match a w with
      | (.ok x, w') => (.ok (.ok x), w')
      | (.error e, w') => (if e.isError then .ok (.error e) else .error e, w') := rfl

lemma now_apply (w) : now w = (.ok w.clock, { w with clock := w.clock + w.clockStep }) := rfl

/-- A step that ends normally went through its first part and then through the rest. -/
lemma bind_eq_ok (h : (a >>= f) w = (.ok y, w')) : ∃ x v, a w = (.ok x, v) ∧ f x v = (.ok y, w') := by
  rw [bind_apply] at h
  rcases ha : a w with ⟨e | x, v⟩
  · rw [ha] at h
    cases h
  · rw [ha] at h
    exact ⟨x, v, rfl, h⟩

lemma bind_eq_ok_iff : (a >>= f) w = (.ok y, w') ↔ ∃ x v, a w = (.ok x, v) ∧ f x v = (.ok y, w') := by
  refine ⟨bind_eq_ok, ?_⟩
  rintro ⟨x, v, ha, hf⟩
  rw [bind_apply, ha]
  exact hf

/-- The same for results alone. -/
lemma except_bind_eq_ok_iff {x} {f : α → Except ε β} : (x >>= f) = .ok y ↔ ∃ a, x = .ok a ∧ f a = .ok y := by
  cases x with
  | error e =>
    constructor
    · rintro ⟨⟩
    · rintro ⟨_, ⟨⟩, _⟩
  | ok a =>
    constructor
    · exact fun h => ⟨a, rfl, h⟩
    · rintro ⟨_, ⟨⟩, hf⟩
      exact hf

lemma ok_of_toOption {x : Except ε α} {a : α} (h : x.toOption = some a) : x = .ok a := by
  cases x with
  | error e => cases h
  | ok b => exact congrArg Except.ok (Option.some.inj h)

/-- What every step of a fold keeps holds when the fold has ended normally. -/
lemma keeps_foldlM {σ : Type} {P : σ → Prop} {step : σ → α → Except ε σ} {s s' : σ}
    (hstep : ∀ a ∈ l, ∀ t t', P t → step t a = .ok t' → P t') (h : P s) (hfold : l.foldlM step s = .ok s') : P s' := by
  induction l generalizing s with
  | nil =>
    cases hfold
    exact h
  | cons a l ih =>
    obtain ⟨t, ha, hrest⟩ := except_bind_eq_ok_iff.1 hfold
    exact ih (fun b hb => hstep b (mem_cons_of_mem _ hb)) (hstep a mem_cons_self s t h ha) hrest

/-- A fold whose steps end normally does so, and keeps what they keep of the items gone through. -/
lemma exists_foldlM {σ : Type} {P : List α → σ → Prop} {step : σ → α → Except ε σ} {s : σ}
    (hstep : ∀ a ∈ l, ∀ done t, P done t → ∃ t', step t a = .ok t' ∧ P (done ++ [a]) t') (h : P [] s) :
    ∃ s', l.foldlM step s = .ok s' ∧ P l s' := by
  suffices general : ∀ done, P done s → ∃ s', l.foldlM step s = .ok s' ∧ P (done ++ l) s' from general [] h
  clear h
  induction l generalizing s with
  | nil => exact fun done h => ⟨s, rfl, by rwa [append_nil]⟩
  | cons a l ih =>
    intro done h
    obtain ⟨t, ha, ht⟩ := hstep a mem_cons_self done s h
    rw [foldlM_cons, ha, append_cons]
    exact ih (fun b hb => hstep b (mem_cons_of_mem _ hb)) _ ht

/-- Steps over a list that end normally, with what can be told of each result from its item. -/
lemma exists_mapM {γ : Type} {f : α → Except ε β} {k : β → γ} {m : α → γ} {Q : β → Prop}
    (h : ∀ x ∈ l, ∃ y, f x = .ok y ∧ k y = m x ∧ Q y) :
    ∃ ys, l.mapM f = .ok ys ∧ ys.map k = l.map m ∧ ∀ y ∈ ys, Q y := by
  induction l with
  | nil => exact ⟨[], rfl, rfl, nofun⟩
  | cons x l ih =>
    obtain ⟨y, hy, hk, hQ⟩ := h x mem_cons_self
    obtain ⟨ys, hys, hmap, hall⟩ := ih fun z hz => h z (mem_cons_of_mem _ hz)
    refine ⟨y :: ys, ?_, ?_, forall_mem_cons.2 ⟨hQ, hall⟩⟩
    · rw [mapM_cons, hy, hys]
      rfl
    · rw [map_cons, map_cons, hk, hmap]

lemma ok_bind (x) (f : α → Result β) : (Except.ok x >>= f) = f x := rfl

/-- What a list is mapped to comes from its items, one by one. -/
lemma of_mapM_ok {f : α → Except ε β} {ys} (h : l.mapM f = .ok ys) :
    (∀ x ∈ l, ∃ y ∈ ys, f x = .ok y) ∧ ∀ y ∈ ys, ∃ x ∈ l, f x = .ok y := by
  induction l generalizing ys with
  | nil =>
    cases h
    exact ⟨nofun, nofun⟩
  | cons a l ih =>
    rw [mapM_cons] at h
    obtain ⟨y, hy, h⟩ := except_bind_eq_ok_iff.1 h
    obtain ⟨zs, hzs, h⟩ := except_bind_eq_ok_iff.1 h
    cases h
    obtain ⟨hto, hfrom⟩ := ih hzs
    simp only [mem_cons, forall_eq_or_imp, exists_eq_or_imp]
    exact ⟨⟨.inl hy, fun x hx => .inr (hto x hx)⟩, .inl hy, fun z hz => .inr (hfrom z hz)⟩

lemma ofExcept_ok_bind (x) (f : α → Action β) : ofExcept (.ok x) >>= f = f x := rfl

lemma mapM_congr {m} [Monad m] [LawfulMonad m] {f g : α → m β} (h : ∀ a ∈ l, f a = g a) : l.mapM f = l.mapM g := by
  induction l with
  | nil => rfl
  | cons a l ih => rw [mapM_cons, mapM_cons, h a mem_cons_self, ih fun b hb => h b (mem_cons_of_mem _ hb)]

/-! ## Steady steps -/

/-- A step that leaves the workspace as it is, whatever its clock says. -/
def Steady (a : Action α) : Prop :=
  ∀ (w : Workspace) (t : Float), a { w with clock := t } = ((a w).1, { w with clock := t })

namespace Steady

lemma after (h : Steady a) (w) : a w = ((a w).1, w) := h w w.clock

lemma eq_of_ok (h : Steady a) (ha : a w = (.ok x, w')) : w = w' := congrArg Prod.snd ((h.after w).symm.trans ha)

/-- A steady step answers the same at every time. -/
lemma ok_iff (h : Steady a) (t) : a { w with clock := t } = (.ok x, { w with clock := t }) ↔ a w = (.ok x, w) := by
  rw [h w t, h.after w, Prod.mk.injEq, Prod.mk.injEq]
  exact ⟨fun ⟨hx, _⟩ => ⟨hx, rfl⟩, fun ⟨hx, _⟩ => ⟨hx, rfl⟩⟩

lemma pure (x) : Steady (pure x : Action α) := fun _ _ => rfl

lemma throw (e : Fault) : Steady (throw e : Action α) := fun _ _ => rfl

lemma ofExcept (x : Result α) : Steady (ofExcept x) := by
  cases x with
  | ok a => exact pure a
  | error e => exact throw e

lemma bind (ha : Steady a) (hf : ∀ x, Steady (f x)) : Steady (a >>= f) := by
  intro w t
  rw [bind_apply, bind_apply, ha w t, ha.after w]
  cases (a w).1 with
  | ok x => exact hf x w t
  | error e => rfl

/-- Looking at all of the workspace but its clock. -/
lemma look {f : Workspace → Action α} (hc : ∀ w t, f { w with clock := t } = f w)
    (hf : ∀ w, Steady (f w)) : Steady (get >>= f) := by
  intro w t
  change f { w with clock := t } { w with clock := t } = _
  rw [hc w t]
  exact hf w w t

lemma attempt (h : Steady a) : Steady (attempt a) := by
  intro w t
  rw [attempt_apply, attempt_apply, h w t, h.after w]
  cases (a w).1 <;> rfl

lemma ite {c : Prop} [Decidable c] {a b : Action α} (ha : Steady a) (hb : Steady b) : Steady (if c then a else b) := by
  split
  · exact ha
  · exact hb

lemma foldlM {f : β → α → Action β} (h : ∀ b a, Steady (f b a)) (l : List α) (b : β) : Steady (l.foldlM f b) := by
  induction l generalizing b with
  | nil => exact pure b
  | cons a l ih =>
    exact (h b a).bind ih

lemma mapM (h : ∀ a, Steady (f a)) (l : List α) : Steady (l.mapM f) := by
  induction l with
  | nil => exact pure []
  | cons a l ih =>
    rw [mapM_cons]
    exact (h a).bind fun x => ih.bind fun xs => pure (x :: xs)

/-- Steady steps over a list that end normally do so one by one. -/
lemma of_mapM_eq_ok {ys} (h : ∀ a, Steady (f a)) (hrun : l.mapM f w = (.ok ys, w')) :
    ys.length = l.length ∧ ∀ a ∈ l, ∃ y, f a w = (.ok y, w) := by
  induction l generalizing ys with
  | nil =>
    cases hrun
    exact ⟨rfl, by simp⟩
  | cons a l ih =>
    rw [mapM_cons] at hrun
    obtain ⟨y, v, ha, hrest⟩ := bind_eq_ok hrun
    obtain rfl := (h a).eq_of_ok ha
    obtain ⟨zs, v', hl, hpure⟩ := bind_eq_ok hrest
    cases hpure
    obtain ⟨hlen, hall⟩ := ih hl
    exact ⟨congrArg (· + 1) hlen, forall_mem_cons.2 ⟨⟨y, ha⟩, hall⟩⟩

lemma exists_mapM_eq_ok (hall : ∀ a ∈ l, ∃ y, f a w = (.ok y, w)) : ∃ ys, l.mapM f w = (.ok ys, w) := by
  induction l with
  | nil => exact ⟨[], rfl⟩
  | cons a l ih =>
    obtain ⟨y, hy⟩ := hall a mem_cons_self
    obtain ⟨ys, hys⟩ := ih fun b hb => hall b (mem_cons_of_mem _ hb)
    refine ⟨y :: ys, ?_⟩
    rw [mapM_cons]
    exact bind_eq_ok_iff.2 ⟨y, w, hy, bind_eq_ok_iff.2 ⟨ys, w, hys, rfl⟩⟩

end Steady

end Action

/-! ## Looking files up -/

namespace Files

open Action

lemma steady_guarded {α} (p : Path) (x : Except SystemCause α) : Steady (guarded p x) := by
  cases x with
  | ok a => exact .pure a
  | error c => exact .throw _

variable (p : Path)

lemma steady_place : Steady (place p) := by
  have hlook : Steady (do let w ← get; guarded p (w.files.locate w.cwd p)) :=
    .look (fun _ _ => rfl) fun w => steady_guarded p _
  exact .ite ((Steady.throw _).bind fun _ => hlook) hlook

lemma steady_entry : Steady ( entry? p) := .look (fun _ _ => rfl) fun _ => .ofExcept _

lemma steady_resolve : Steady (resolve p) := .look (fun _ _ => rfl) fun _ => .ofExcept _

lemma steady_isFile : Steady (isFile p) := (steady_entry p).bind fun _ => .pure _

lemma steady_isDirectory : Steady (isDirectory p) := (steady_entry p).bind fun _ => .pure _

lemma steady_content : Steady (content p) := by
  refine (steady_place p).bind fun q => .look (fun _ _ => rfl) fun w => ?_
  split
  · exact .pure _
  · exact .throw _

lemma steady_readBytes : Steady (readBytes p) := by
  refine (steady_content p).bind fun c => ?_
  cases c with
  | bytes b => exact .pure b
  | index ix => exact .pure []

lemma steady_size : Steady (size p) := (steady_readBytes p).bind fun _ => .pure _

lemma steady_list : Steady (list p) := by
  refine (steady_place p).bind fun q => .look (fun _ _ => rfl) fun w => ?_
  split
  · exact .pure _
  · exact .throw _

end Files

/-! ## Listing a repository -/

namespace Repository

open Action

lemma steady_filesUnder (n : Nat) (p) : Steady (filesUnder n p) := by
  induction n generalizing p with
  | zero => exact .pure []
  | succ n ih =>
    refine (steady_list p).bind fun es => ?_
    exact (Steady.mapM (fun name => ih _) _).bind fun _ => .pure _

lemma steady_scanned? (o p) : Steady (scanned? o p) := by
  refine (steady_isFile p).bind fun b => ?_
  split
  · exact .pure none
  split
  · exact .pure none
  refine (steady_size p).bind fun n => ?_
  split
  · exact .pure none
  split
  · exact .pure _
  · exact .pure none

lemma steady_scan (root : Path) (o : ScanOptions) : Steady (scan root o) := by
  refine (steady_resolve root).bind fun r => (steady_isDirectory r).bind fun b => ?_
  split
  · exact .pure []
  refine .look (fun _ _ => rfl) fun w => (steady_filesUnder _ r).bind fun files => ?_
  refine (Steady.foldlM (fun groups p => (steady_scanned? o p).bind fun lang => ?_) _ _).bind fun _ => .pure _
  cases lang with
  | none => exact .pure _
  | some lang => exact .pure _

lemma steady_treeOf (b : Bytes) : Steady (treeOf b) := by
  refine .look (fun _ _ => rfl) fun w => ?_
  split
  · exact .pure _
  · exact .pure _

lemma steady_requireParser (lang : String) : Steady (requireParser lang) :=
  .look (fun _ _ => rfl) fun _ => .ite (.throw _) (.pure _)

end Repository

end PatchReview
