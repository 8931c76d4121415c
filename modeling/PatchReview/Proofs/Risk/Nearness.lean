import PatchReview.Proofs.Fields
import PatchReview.Proofs.Grouping
import PatchReview.Proofs.RealOrder
import PatchReview.Review.Manage

/-!
# Risks near a change

A risk that is no static error is anchored when a changed line of its file lies near its range, which is found by
halving. A window or a bound of confidence that is set to 0 is not used: the standard one is.
-/

namespace PatchReview.Risk

open Fields List Option
open Review (Plan)

variable {files : List (String × Diff.ChangedFile)} {changed : List Int} {window : Int}

/-! ## Lines -/

/-- Halving finds the first of ascending lines that is not below a bound. -/
lemma lowerBound_eq (hasc : changed.Pairwise (· ≤ ·)) {bound lo hi} (hhi : hi ≤ changed.length)
    (hlow : lo ≤ changed.findIdx (bound ≤ ·)) (hhigh : changed.findIdx (bound ≤ ·) ≤ hi) :
    lowerBound changed.toArray bound lo hi = changed.findIdx (bound ≤ ·) := by
  fun_induction lowerBound changed.toArray bound lo hi with
  | case1 lo hi hlt mid hmid ih =>
    have hsize : mid < changed.length := by omega
    have hbelow : changed[mid] < bound := by simpa [hsize] using hmid
    refine ih hhi (lt_findIdx_of_not hsize fun j hj => ?_) hhigh
    have hle : changed[j] ≤ changed[mid] := hasc.rel_get_of_le (a := ⟨j, by omega⟩) (b := ⟨mid, hsize⟩) hj
    exact mt of_decide_eq_true (hle.trans_lt hbelow).not_ge
  | case2 lo hi hlt mid hmid ih =>
    refine ih (by omega) hlow (Nat.not_lt.1 fun hafter => hmid ?_)
    simpa [show mid < changed.length by omega] using not_of_lt_findIdx hafter
  | case3 lo hi hge => omega

lemma anchored_iff (hasc : changed.Pairwise (· ≤ ·)) (range) :
    anchored changed range window ↔ ∃ n ∈ changed, max 1 (range.1 - window) ≤ n ∧ n ≤ range.2 + window := by
  have hfound := lowerBound_eq hasc le_rfl (Nat.zero_le (changed.findIdx (max 1 (range.1 - window) ≤ ·)))
    findIdx_le_length
  rw [anchored, List.size_toArray, hfound, List.getElem?_toArray, ← find?_eq_getElem?_findIdx]
  split
  · rename_i m hm
    obtain ⟨hlow, before, after, rfl, hbefore⟩ := find?_eq_some_iff_append.1 hm
    rw [decide_eq_true_iff]
    refine ⟨fun h => ⟨m, by simp, of_decide_eq_true hlow, h⟩, ?_⟩
    rintro ⟨n, hn, hlow', hhigh⟩
    rw [mem_append, mem_cons] at hn
    obtain hn | rfl | hn := hn
    · have hbelow := hbefore n hn
      simp [hlow'] at hbelow
    · exact hhigh
    · exact (rel_of_pairwise_cons (pairwise_append.1 hasc).2.1 hn).trans hhigh
  · rename_i hnone
    simp_all

/-- A range is anchored exactly where a changed line, counted from 1, lies in it widened by the window. -/
theorem anchored_exact (hasc : changed.Pairwise (· ≤ ·)) (start stop window : Int) :
    anchored changed (start, stop) window ↔
      ∃ n ∈ changed, 1 ≤ n ∧ n ∈ Set.Icc (start - window) (stop + window) := by
  simp only [anchored_iff hasc, max_le_iff, Set.mem_Icc, and_assoc]

/-- Lines may stand twice, and those below 1 do not count. -/
theorem anchored_exact_below_one : ([-3, 0, 4, 4, 9] : List Int).Pairwise (· ≤ ·) ∧
    anchored [-3, 0, 4, 4, 9] (5, 6) 1 ∧ ¬ anchored [-3, 0, 4, 4, 9] (1, 2) 1 := by
  have hasc : ([-3, 0, 4, 4, 9] : List Int).Pairwise (· ≤ ·) := by decide
  exact ⟨hasc, (anchored_exact hasc 5 6 1).2 ⟨4, by simp⟩, mt (anchored_exact hasc 1 2 1).1 (by simp)⟩

/-- A changed line of a risk's file, counted from 1, lies within a number of lines of its range. -/
def Near (files : List (String × Diff.ChangedFile)) (window : Int) (r : Risk) : Prop :=
  ∃ e ∈ files, normalPath e.1 = normalPath r.path ∧
    ∃ n, 1 ≤ n ∧ (n ∈ e.2.added ∨ n ∈ e.2.modified) ∧ r.lines.1 - window ≤ n ∧ n ≤ r.lines.2 + window

/-- No two changed files have the same path. -/
def DistinctPaths (files : List (String × Diff.ChangedFile)) : Prop := (files.map fun e => normalPath e.1).Nodup

/-- The changed lines of a file, ascending. -/
def sortedLines (f : Diff.ChangedFile) : List Int :=
  ((f.added ++ f.modified).mergeSort fun a b => decide (a ≤ b)).eraseReps

lemma sortedLines_spec (f) :
    (∀ n, n ∈ sortedLines f ↔ n ∈ f.added ∨ n ∈ f.modified) ∧ (sortedLines f).Pairwise (· ≤ ·) := by
  have hsorted : ((f.added ++ f.modified).mergeSort fun a b => decide (a ≤ b)).Pairwise (· ≤ ·) :=
    (List.pairwise_mergeSort (by simp; omega) (by simp; omega) _).imp of_decide_eq_true
  obtain ⟨hmem, hpairwise⟩ := eraseReps_spec (fun _ _ => Int.le_antisymm) hsorted
  exact ⟨fun n => (hmem n).trans (mem_mergeSort.trans mem_append), hpairwise.imp And.left⟩

/-- The lines that stand under a path are those of a file of that path. -/
lemma get?_changedLines (files path) :
    (∃ e ∈ files, normalPath e.1 = path ∧ get? (changedLines files) path = some (sortedLines e.2)) ∨
      (∀ e ∈ files, normalPath e.1 ≠ path) ∧ get? (changedLines files) path = none := by
  induction files using reverseRecOn with
  | nil => exact .inr ⟨nofun, rfl⟩
  | append_singleton files e ih =>
    have hstep : changedLines (files ++ [e]) =
        insert (changedLines files) (normalPath e.1) (sortedLines e.2) := foldl_append
    rw [hstep, get?_insert]
    split <;> rename_i hpath
    · exact .inl ⟨e, by simp, hpath.symm, rfl⟩
    · obtain ⟨f, hf, hget⟩ | ⟨hnone, hget⟩ := ih
      · exact .inl ⟨f, mem_append_left _ hf, hget⟩
      · refine .inr ⟨fun f hf => ?_, hget⟩
        obtain hf | hf := mem_append.1 hf
        · exact hnone f hf
        · rw [mem_singleton.1 hf]
          exact Ne.symm hpath

/-- Halving finds a changed line near a risk where there is one. -/
lemma isAnchored_iff (hdistinct : DistinctPaths files) (window r) :
    isAnchored (changedLines files) window r ↔ r.kind = .syntaxError ∨ Near files window r := by
  rw [isAnchored, Bool.or_eq_true, beq_iff_eq]
  refine or_congr_right ?_
  obtain ⟨e, he, hpath, hget⟩ | ⟨hnone, hget⟩ := get?_changedLines files (normalPath r.path)
  · rw [hget, getD_some, anchored_iff (sortedLines_spec e.2).2]
    constructor
    · rintro ⟨n, hn, hlow, hhigh⟩
      exact ⟨e, he, hpath, n, by omega, ((sortedLines_spec e.2).1 n).1 hn, by omega, hhigh⟩
    · rintro ⟨f, hf, hsame, n, hone, hn, hlow, hhigh⟩
      obtain rfl := inj_on_of_nodup_map hdistinct he hf (hpath.trans hsame.symm)
      exact ⟨n, ((sortedLines_spec e.2).1 n).2 hn, by omega, hhigh⟩
  · rw [hget, getD_none, anchored_iff .nil]
    refine ⟨by simp, ?_⟩
    rintro ⟨e, he, hsame, -⟩
    exact absurd hsame (hnone e he)

/-! ## Settings -/

/-- The risks that a plan merges. -/
def reaching (s : ReviewSettings) (files : List (String × Diff.ChangedFile)) (risks : List Risk) : List Risk :=
  anchor (changedLines files) (Plan.ofReview s).window (Plan.ofReview s).unanchored risks

/-- Of risks that are no static errors, those near a change are merged when others are dropped; else all are, those that
are not near a change with a confidence within a bound. -/
def MergedBy (drop : Bool) (window : Int) (bound : Float) (files : List (String × Diff.ChangedFile))
    (risks merged : List Risk) : Prop :=
  if drop then ∀ r ∈ risks, r.kind ≠ .syntaxError → (r ∈ merged ↔ Near files window r)
  else ∀ (k : Nat) (r : Risk), risks[k]? = some r → r.kind ≠ .syntaxError → ¬ Near files window r →
    ∃ m, merged[k]? = some m ∧ m.confidence ≤ bound ∧
      { m with confidence := r.confidence, suggestion := r.suggestion } = r

section

variable {s : ReviewSettings} {risks : List Risk} {r : Risk}

lemma window_ofReview (s) : (Plan.ofReview s).window = if s.anchorWindow = 0 then 5 else s.anchorWindow := by
  simp [Plan.ofReview, Plan.orWhole]

lemma mem_reaching_of_drop (hdistinct : DistinctPaths files) (hdrop : s.dropUnanchored)
    (hkind : r.kind ≠ .syntaxError) : r ∈ reaching s files risks ↔
      r ∈ risks ∧ Near files (if s.anchorWindow = 0 then 5 else s.anchorWindow) r := by
  have hplan : (Plan.ofReview s).unanchored = .drop := if_pos hdrop
  rw [reaching, anchor, hplan, window_ofReview]
  simp [isAnchored_iff hdistinct, hkind]

lemma getElem?_reaching {c : Float} (hplan : (Plan.ofReview s).unanchored = .bound c) (k : Nat) :
    (reaching s files risks)[k]? = risks[k]?.map fun r =>
      if isAnchored (changedLines files) (Plan.ofReview s).window r then r
      else { r with confidence := if c < r.confidence then c else r.confidence, suggestion := none } := by
  rw [reaching, anchor, hplan, ← getElem?_map, ← filterMap_eq_map]
  congr 2
  funext r
  dsimp only [Function.comp_apply]
  split <;> rfl

/-- The work is chosen among merged risks, and what is merged goes by the window and the bound of confidence that are
set, but by 5 and 0.2 where they are 0. -/
theorem merged_by_settings (hdistinct : DistinctPaths files) (hs : s.unanchoredConfidence.isNaN = false)
    (hrisks : ∀ r ∈ risks, r.confidence.isNaN = false) :
    (Plan.ofReview s).work (changedLines files) risks = (Plan.ofReview s).budget.choose
      (merge (Plan.ofReview s).mergeWindow (Plan.ofReview s).mergeSimilarity (reaching s files risks)) ∧
    MergedBy s.dropUnanchored (if s.anchorWindow = 0 then 5 else s.anchorWindow)
      (if s.unanchoredConfidence == 0.0 then 0.2 else s.unanchoredConfidence) files risks (reaching s files risks) := by
  refine ⟨rfl, ?_⟩
  cases hdrop : s.dropUnanchored with
  | true =>
    intro r hr hkind
    rw [mem_reaching_of_drop hdistinct hdrop hkind, and_iff_right hr]
  | false =>
    have hplan : (Plan.ofReview s).unanchored =
        .bound (if s.unanchoredConfidence == 0.0 then 0.2 else s.unanchoredConfidence) := if_neg (by simp [hdrop])
    have hbound : (if s.unanchoredConfidence == 0.0 then 0.2 else s.unanchoredConfidence).isNaN = false := by
      split
      · decide +kernel
      · exact hs
    intro k r hk hkind hfar
    have hloose : ¬ isAnchored (changedLines files) (Plan.ofReview s).window r := by
      rw [window_ofReview, isAnchored_iff hdistinct]
      exact not_or.mpr ⟨hkind, hfar⟩
    generalize (if s.unanchoredConfidence == 0.0 then 0.2 else s.unanchoredConfidence) = c at hplan hbound ⊢
    refine ⟨{ r with confidence := if c < r.confidence then c else r.confidence, suggestion := none }, ?_,
      Number.lesser_le hbound (hrisks r (mem_of_getElem? hk)), rfl⟩
    rw [getElem?_reaching hplan, hk, map_some, if_neg hloose]

end

/-- The standard settings but for the window. -/
def withWindow (window : Int) : ReviewSettings := { root := Path.ofString ".", anchorWindow := window }

/-- A file of which the lines 2 and 9 are changed. -/
def editedFiles : List (String × Diff.ChangedFile) := [("x", ⟨"x", [], [2, 9], [2], []⟩)]

/-- A risk three lines from the nearest of them. -/
def looseRisk : Risk := { kind := .intent, path := "x", lines := (5, 5), description := "", confidence := 1.0 }

lemma near_looseRisk_iff (window) : Near editedFiles window looseRisk ↔ 3 ≤ window := by
  simp only [Near, editedFiles, looseRisk, mem_singleton, exists_eq_left, true_and]
  constructor
  · grind
  · intro h
    exact ⟨2, by decide, by simp, by omega, by omega⟩

lemma distinctPaths_editedFiles : DistinctPaths editedFiles := nodup_singleton _

theorem merged_by_settings_two_lines : DistinctPaths editedFiles ∧ (withWindow 2).unanchoredConfidence.isNaN = false ∧
    looseRisk.confidence.isNaN = false ∧
    MergedBy true 2 0.2 editedFiles [looseRisk] (reaching (withWindow 2) editedFiles [looseRisk]) :=
  ⟨distinctPaths_editedFiles, by decide +kernel, by decide +kernel,
    (merged_by_settings (s := withWindow 2) distinctPaths_editedFiles (by decide +kernel)
      (by simpa using show looseRisk.confidence.isNaN = false by decide +kernel)).2⟩

/-- With a window of 0, a risk three lines from every change is merged. -/
theorem window_of_zero_is_not_used : (withWindow 0).anchorWindow = 0 ∧ (withWindow 0).dropUnanchored = true ∧
    DistinctPaths editedFiles ∧ ¬ Near editedFiles 0 looseRisk ∧
    looseRisk ∈ reaching (withWindow 0) editedFiles [looseRisk] := by
  refine ⟨rfl, rfl, distinctPaths_editedFiles, by rw [near_looseRisk_iff]; decide, ?_⟩
  rw [mem_reaching_of_drop distinctPaths_editedFiles rfl (by decide)]
  exact ⟨mem_cons_self, (near_looseRisk_iff 5).mpr (by decide)⟩

end PatchReview.Risk
