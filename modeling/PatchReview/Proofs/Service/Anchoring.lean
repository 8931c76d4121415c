import PatchReview.Proofs.Diff.Marks
import PatchReview.Proofs.Service.Placement

/-!
# Issues and their ranges

The range of an issue is searched with the lines before it that the fuzz allows, first line first. So an issue whose
range has a line of the change goes to one exactly when its first line is such a line or none is just before it.
-/

namespace PatchReview.Service

open PatchReview.Action Diff Fields List

variable {files : List (String × Diff.ChangedFile)} {diff : String} {most fuzz start stop : Int} {built : Comments}
  {kept dropped : List Group} {issues left : List Issue} {i : Issue} {path : String} {ls : List Int}

/-- An issue is about some lines of a file. -/
def Issue.Spans (i : Issue) (path : String) (start stop : Int) : Prop :=
  (∃ p, i.field "file_path" "" = .ok p ∧ commentPath p.display = path) ∧
    ∃ v, i.field "line_number" .null = .ok v ∧ range v = (start, stop)

/-- A range starts at one of some lines, or none of them is before it within the fuzz. -/
def StartsClear (ls : List Int) (fuzz start : Int) : Prop := start ∈ ls ∨ ∀ m ∈ ls, m < start → m < max 1 (start - fuzz)

lemma placeAt_mem_range_iff (hstart : 0 < start) (hline : ∃ n ∈ ls, start ≤ n ∧ n ≤ max start stop) :
    (∃ n, placeAt ls fuzz start stop = some n ∧ start ≤ n ∧ n ≤ max start stop) ↔ StartsClear ls fuzz start := by
  unfold placeAt StartsClear
  by_cases hfirst : start ∈ ls
  · rw [if_pos (contains_iff_mem.2 hfirst)]
    exact ⟨fun _ => .inl hfirst, fun _ => ⟨start, rfl, le_refl _, le_max_left ..⟩⟩
  · rw [if_neg (by rwa [contains_iff_mem])]
    dsimp only
    -- the range has a line, so the widened range has a least one
    obtain ⟨n, hn, hlow, hhigh⟩ := hline
    generalize hwide : ls.filter _ = wide
    have hmem : ∀ m, m ∈ wide ↔ m ∈ ls ∧ (if fuzz > 0 then max 1 (start - fuzz) else start) ≤ m ∧
        m ≤ max start stop + (if fuzz > 0 then fuzz else 0) := by
      simp [← hwide]
    have hwithin : n ∈ wide := (hmem n).2 ⟨hn, by grind, by grind⟩
    obtain ⟨m, hm⟩ : ∃ m, leastOf wide = some m := by
      cases wide with
      | nil => cases hwithin
      | cons m ms => exact ⟨_, rfl⟩
    obtain ⟨hfound, hleast⟩ := leastOf_eq_some_iff.1 hm
    have hmn := hleast n hwithin
    rw [hm]
    constructor
    · rintro ⟨_, heq, hge, -⟩
      obtain rfl := Option.some.inj heq
      refine .inr fun k hk hlt => ?_
      by_contra hnear
      have := hleast k ((hmem k).2 ⟨hk, by grind, by grind⟩)
      omega
    · intro hclear
      refine ⟨m, rfl, ?_, by omega⟩
      by_contra hbefore
      grind

lemma placeOf_of_spans (hspans : i.Spans path start stop) (hls : get? (commentable files) path = some ls) :
    placeOf (commentable files) fuzz i =
      .ok (if path = "" ∨ start ≤ 0 then none else (placeAt ls fuzz start stop).map (path, ·)) := by
  obtain ⟨⟨p, hp, rfl⟩, v, hv, hrange⟩ := hspans
  simp only [placeOf, hp, hv, hrange, hls, ok_bind, Bool.or_eq_true, beq_iff_eq, decide_eq_true_eq]
  split <;> rfl

/-- The groups have the issues that find a place, each at its own. -/
lemma Parted.exists_group_iff (h : Parted files issues fuzz built kept dropped left) (hi : i ∈ issues)
    (P : String × Int → Prop) :
    (∃ g ∈ kept ++ dropped, i ∈ g.2 ∧ P g.1) ↔
      ∃ place, placeOf (commentable files) fuzz i = .ok (some place) ∧ P place := by
  constructor
  · rintro ⟨g, hg, hmem, hP⟩
    exact ⟨g.1, (h.grouped g hg).2 i hmem, hP⟩
  · rintro ⟨place, hplace, hP⟩
    have hsome : i ∈ left ∨ i ∈ (kept ++ dropped).flatMap (·.2) := by
      have hall := h.all.symm.subset hi
      rw [mem_append, h.skipped.mem_iff, mem_append] at hall
      rw [flatMap_append, mem_append]
      tauto
    rcases hsome with hleft | hgroup
    · cases hplace.symm.trans (h.placeless i hleft)
    · obtain ⟨g, hg, hmem⟩ := mem_flatMap.1 hgroup
      cases hplace.symm.trans ((h.grouped g hg).2 i hmem)
      exact ⟨g, hg, hmem, hP⟩

/-- An issue whose range has a line of the change goes to such a line exactly when it has a path, its range does not
start before the first line, and the range starts clear. -/
theorem anchored_in_range_iff (hfiles : changedFiles diff = .ok files) (hissues : ∀ j ∈ issues, j.WellFormed)
    (hi : i ∈ issues) (hspans : i.Spans path start stop) (hls : get? (commentable files) path = some ls)
    (hline : ∃ n ∈ ls, start ≤ n ∧ n ≤ max start stop) :
    (∃ built kept dropped left, commentsFor diff issues most fuzz = .ok built ∧
      Parted files issues fuzz built kept dropped left ∧
      ∃ g ∈ kept ++ dropped, i ∈ g.2 ∧ g.1.1 = path ∧ start ≤ g.1.2 ∧ g.1.2 ≤ max start stop) ↔
      path ≠ "" ∧ 0 < start ∧ StartsClear ls fuzz start := by
  have hplace : (∃ place, placeOf (commentable files) fuzz i = .ok (some place) ∧
      place.1 = path ∧ start ≤ place.2 ∧ place.2 ≤ max start stop) ↔
      path ≠ "" ∧ 0 < start ∧ StartsClear ls fuzz start := by
    rw [placeOf_of_spans hspans hls]
    by_cases hnone : path = "" ∨ start ≤ 0
    · grind
    · rw [if_neg hnone, ← placeAt_mem_range_iff (by omega) hline]
      simp only [Except.ok.injEq, Option.map_eq_some_iff]
      grind
  rw [← hplace]
  constructor
  · rintro ⟨built, kept, dropped, left, -, hparted, hgroup⟩
    exact (hparted.exists_group_iff hi _).mp hgroup
  · intro hfound
    obtain ⟨built, kept, dropped, left, hbuilt, hparted, -⟩ := exists_parted files most fuzz hissues
    exact ⟨built, kept, dropped, left, except_bind_eq_ok_iff.mpr ⟨files, hfiles, hbuilt⟩, hparted,
      (hparted.exists_group_iff hi _).mpr hfound⟩

/-- An issue that starts between the two hunks and ends in the second. -/
def acrossIssue : Issue :=
  .object [("file_path", "x"), ("line_number", .list [.int 4, .int 8]), ("severity", "error")]

lemma wellFormed_acrossIssue : ∀ j ∈ [acrossIssue], j.WellFormed := by
  intro j hj
  obtain rfl := mem_singleton.1 hj
  exact ⟨_, rfl, fun v hv => ⟨"error", by simpa [get?_cons, eq_comm] using hv⟩⟩

lemma spans_acrossIssue : acrossIssue.Spans "x" 4 8 := ⟨⟨_, rfl, by decide +kernel⟩, _, rfl, by decide +kernel⟩

lemma exists_commentable_twoHunks : ∃ files, changedFiles twoHunks = .ok files ∧
    get? (commentable files) "x" = some [1, 2, 8, 9] := by
  refine ⟨_, changedFiles_twoHunks, ?_⟩
  have hlines : (Diff.ChangedFile.ofPatch "x" twoHunksFile).lines.map (·.1) = [1, 2, 8, 9] := by
    change ((twoHunksFile.hunks.foldl Diff.Gathered.hunk {}).lines.mergeSort _).map _ = _
    rw [mergeSort_of_pairwise (by decide)]
    rfl
  have hname : commentPath "x" = "x" := by decide +kernel
  simp [commentable, get?_insert, hname, hlines]

/-- With a fuzz of one the issue goes to the second hunk. -/
theorem across_issue_anchored : ∃ files, changedFiles twoHunks = .ok files ∧
    get? (commentable files) "x" = some [1, 2, 8, 9] ∧ ∃ built kept dropped left,
      commentsFor twoHunks [acrossIssue] 10 1 = .ok built ∧
      Parted files [acrossIssue] 1 built kept dropped left ∧
      ∃ g ∈ kept ++ dropped, acrossIssue ∈ g.2 ∧ g.1.1 = "x" ∧ 4 ≤ g.1.2 ∧ g.1.2 ≤ max 4 8 := by
  obtain ⟨files, hfiles, hls⟩ := exists_commentable_twoHunks
  exact ⟨files, hfiles, hls, (anchored_in_range_iff hfiles wellFormed_acrossIssue (List.mem_singleton.mpr rfl)
    spans_acrossIssue hls (by decide)).mpr ⟨by decide, by decide, .inr (by decide)⟩⟩

/-- With a fuzz of three it goes to the first line, before its range, although that ends in the second hunk. -/
theorem across_issue_before_range : ∃ files, changedFiles twoHunks = .ok files ∧
    get? (commentable files) "x" = some [1, 2, 8, 9] ∧ ∃ built kept dropped left,
      commentsFor twoHunks [acrossIssue] 10 3 = .ok built ∧
      Parted files [acrossIssue] 3 built kept dropped left ∧
      ∃ g ∈ kept ++ dropped, acrossIssue ∈ g.2 ∧ g.1 = ("x", 1) := by
  obtain ⟨files, hfiles, hls⟩ := exists_commentable_twoHunks
  obtain ⟨built, kept, dropped, left, hbuilt, hparted, -⟩ := exists_parted files 10 3 wellFormed_acrossIssue
  have hplace : placeOf (commentable files) 3 acrossIssue = .ok (some ("x", 1)) := by
    rw [placeOf_of_spans spans_acrossIssue hls]
    exact congrArg Except.ok (by decide)
  exact ⟨files, hfiles, hls, built, kept, dropped, left, except_bind_eq_ok_iff.mpr ⟨files, hfiles, hbuilt⟩,
    hparted, (hparted.exists_group_iff (List.mem_singleton.mpr rfl) (· = ("x", 1))).mpr ⟨_, hplace, rfl⟩⟩

end PatchReview.Service
