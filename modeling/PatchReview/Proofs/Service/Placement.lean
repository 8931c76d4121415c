import PatchReview.Proofs.Diff.Numbering
import PatchReview.Proofs.Grouping
import PatchReview.Proofs.RealOrder
import PatchReview.Service.Worker

/-!
# Where comments go

Issues that find a line of the change are grouped by it, and the heaviest groups become comments. Every issue is in the
group of one comment or left over, a comment stands at a line that the diff lists and that is near all its issues, and
no group that is left out is heavier than one that is not.
-/

namespace PatchReview.Service

open PatchReview.Action Comment Diff Fields List Number Option Prod

variable {lines : List (String × List Int)} {files : List (String × Diff.ChangedFile)} {diff : String}
  {most fuzz start stop n : Int} {issues : List Issue} {i : Issue} {g : Group} {path : String} {ls : List Int}

/-! ## Lines -/

/-- A fold that goes on with one of two numbers ends with one of them all. -/
lemma foldl_mem {f} (hf : ∀ a b, f a b = a ∨ f a b = b) (n) (ns : List Int) : ns.foldl f n ∈ n :: ns := by
  induction ns generalizing n with
  | nil => exact mem_singleton.2 rfl
  | cons m ns ih =>
    grind

lemma leastOf_eq_some_iff : leastOf ls = some n ↔ n ∈ ls ∧ ∀ m ∈ ls, n ≤ m := by
  have hmin : leastOf ls = ls.min? := by cases ls <;> rfl
  rw [hmin, min?_eq_some_iff]

lemma mem_of_nearestTo (h : nearestTo start ls = some n) : n ∈ ls := by
  cases ls with
  | nil => cases h
  | cons m ms =>
    obtain rfl := some.inj h
    exact foldl_mem (fun a b => by split <;> simp) m ms

lemma placeAt_near (hfuzz : 0 ≤ fuzz) (h : placeAt ls fuzz start stop = some n) :
    n ∈ ls ∧ start - fuzz ≤ n ∧ n ≤ max start stop + fuzz := by
  unfold placeAt at h
  split at h
  · rename_i hstart
    obtain rfl := some.inj h
    exact ⟨contains_iff_mem.1 hstart, by omega, by omega⟩
  dsimp only at h
  split at h
  · rename_i m hleast
    obtain rfl := some.inj h
    obtain ⟨hmem, hrange⟩ := mem_filter.1 (leastOf_eq_some_iff.1 hleast).1
    exact ⟨hmem, by grind, by grind⟩
  · split at h
    · obtain ⟨hnear, hdist⟩ := filter_eq_some_iff.1 h
      exact ⟨mem_of_nearestTo hnear, by grind, by grind⟩
    · cases h

lemma mem_of_commentable (h : get? (commentable files) path = some ls) :
    ∃ e ∈ files, commentPath e.1 = path ∧ e.2.lines.map (·.1) = ls := by
  revert h
  refine foldlRecOn (motive := fun known => get? known path = some ls → _) files _ nofun fun known ih e he h => ?_
  rw [get?_insert] at h
  split at h
  · exact ⟨e, he, by simp_all⟩
  · exact ih h

/-! ## Issues -/

/-- An issue is an object, and its severity a text. -/
def Issue.WellFormed (i : Issue) : Prop := ∃ fs, i = .object fs ∧ ∀ v, get? fs "severity" = some v → ∃ s, v = .text s

/-- A line is not further from the range of an issue than the fuzz. -/
def Issue.Near (fuzz : Int) (i : Issue) (n : Int) : Prop :=
  ∃ v, i.field "line_number" .null = .ok v ∧ (range v).1 - fuzz ≤ n ∧ n ≤ max (range v).1 (range v).2 + fuzz

section

variable (h : i.WellFormed)

include h

lemma Issue.WellFormed.exists_severityRank : ∃ v r, i.field "severity" "info" = .ok v ∧ severityRank v = .ok r := by
  obtain ⟨fs, rfl, hseverity⟩ := h
  have htext : ∃ s, (get? fs "severity").getD "info" = .text s := by
    cases hget : get? fs "severity" with
    | none => exact ⟨_, rfl⟩
    | some v => exact hseverity v hget
  obtain ⟨s, hs⟩ := htext
  have hrank : ∃ r, severityRank s = .ok r := by
    unfold severityRank
    split <;> exact ⟨_, rfl⟩
  obtain ⟨r, hr⟩ := hrank
  exact ⟨.text s, r, congrArg Except.ok hs, hr⟩

lemma Issue.WellFormed.exists_confidence : ∃ c, i.confidence = .ok c := by
  obtain ⟨fs, rfl, -⟩ := h
  exact ⟨_, rfl⟩

lemma Issue.WellFormed.exists_issueLines : ∃ ls, issueLines i = .ok ls := by
  obtain ⟨fs, rfl, -⟩ := h
  exact ⟨_, rfl⟩

lemma Issue.WellFormed.exists_placeOf (lines fuzz) : ∃ place, placeOf lines fuzz i = .ok place := by
  obtain ⟨fs, rfl, -⟩ := h
  simp only [placeOf, Issue.field, Json.memberOr, Json.member, ok_bind, pure, Except.pure]
  split
  · exact ⟨none, rfl⟩
  · split
    · exact ⟨none, rfl⟩
    · exact ⟨_, rfl⟩

end

lemma near_of_placeOf (hfuzz : 0 ≤ fuzz) (h : placeOf lines fuzz i = .ok (some (path, n))) :
    (∃ ls, get? lines path = some ls ∧ n ∈ ls) ∧ i.Near fuzz n := by
  obtain ⟨p, hp, h⟩ := except_bind_eq_ok_iff.1 h
  obtain ⟨v, hv, h⟩ := except_bind_eq_ok_iff.1 h
  dsimp only at h
  split at h
  · cases h
  rename_i ls hls
  split at h
  · cases h
  obtain ⟨m, hm, hplace⟩ := map_eq_some_iff.1 (Except.ok.inj h)
  obtain ⟨rfl, rfl⟩ := mk.inj hplace
  obtain ⟨hmem, hlow, hhigh⟩ := placeAt_near hfuzz hm
  exact ⟨⟨ls, hls, hmem⟩, v, hv, hlow, hhigh⟩

/-! ## Groups -/

/-- Some issues are in groups by their places, or left when they have none. -/
def Grouped (lines : List (String × List Int)) (fuzz : Int) (issues : List Issue) (s : List Group × List Issue) : Prop :=
  ∃ placed, Groups (fun place i => placeOf lines fuzz i = .ok (some place)) s.1 placed ∧
    (placed ++ s.2).Perm issues ∧ ∀ i ∈ s.2, placeOf lines fuzz i = .ok none

lemma exists_groupIssues (lines fuzz) (h : ∀ i ∈ issues, i.WellFormed) :
    ∃ s, groupIssues lines fuzz issues = .ok s ∧ Grouped lines fuzz issues s := by
  refine exists_foldlM (P := Grouped lines fuzz) ?_ ⟨[], groups_nil, .refl _, nofun⟩
  rintro i hi done ⟨gs, left⟩ ⟨placed, hgroups, hperm, hleft⟩
  obtain ⟨place, hplace⟩ := (h i hi).exists_placeOf lines fuzz
  cases place with
  | none =>
    refine ⟨(gs, left ++ [i]), except_bind_eq_ok_iff.2 ⟨none, hplace, rfl⟩, placed, hgroups, ?_, ?_⟩
    · rw [← append_assoc]
      exact hperm.append_right [i]
    · exact forall_mem_append.2 ⟨hleft, forall_mem_singleton.2 hplace⟩
  | some place =>
    refine ⟨(addToGroup (fun _ => place) gs i, left), except_bind_eq_ok_iff.2 ⟨some place, hplace, rfl⟩,
      placed ++ [i], hgroups.add (fun _ => place) hplace, ?_, hleft⟩
    refine .trans ?_ (hperm.append_right [i])
    rw [append_assoc, append_assoc]
    exact perm_append_comm.append_left _

/-! ## Weights -/

/-- A weight above another one: of a higher rank, or of the same and more sure. -/
def Outweighs (a b : Nat × Float) : Prop := b.1 < a.1 ∨ a.1 = b.1 ∧ b.2 < a.2

lemma exists_weight (h : ∀ i ∈ g.2, i.WellFormed) : ∃ a, weight g = .ok a ∧ a.2.isNaN = false := by
  refine exists_foldlM (P := fun _ (a : Nat × Float) => a.2.isNaN = false) ?_ (by decide +kernel)
  rintro i hi - ⟨rank, high⟩ hhigh
  obtain ⟨v, r, hv, hr⟩ := (h i hi).exists_severityRank
  obtain ⟨c, hc⟩ := (h i hi).exists_confidence
  refine ⟨(max rank r, if c > high then c else high), ?_, ?_⟩
  · simp only [hv, hr, hc, ok_bind]
    rfl
  · split
    · rename_i hlt
      exact (not_isNaN_of_lt hlt).2
    · exact hhigh

/-- No weight that is not a number is there, so the weights are in order. -/
lemma pairwise_not_outweighs {weighed : List ((Nat × Float) × Group)} (h : ∀ y ∈ weighed, y.1.2.isNaN = false) :
    (weighed.mergeSort fun a b => notBelow a.1 b.1).Pairwise fun a b => ¬ Outweighs b.1 a.1 := by
  let key : (Nat × Float) × Group → Nat × Int := fun y => (y.1.1, order y.1.2)
  let le : Nat × Int → Nat × Int → Bool := fun a b => decide (b.1 < a.1 ∨ a.1 = b.1 ∧ b.2 ≤ a.2)
  have hle : ∀ a ∈ weighed, ∀ b ∈ weighed, notBelow a.1 b.1 = le (key a) (key b) := by
    intro a ha b hb
    have hlt := lt_iff_order (h a ha) (h b hb)
    unfold notBelow
    grind
  have hsorted : ((weighed.map key).mergeSort le).Pairwise (le · · = true) := pairwise_mergeSort (by grind) (by grind) _
  rw [← map_mergeSort hle, pairwise_map] at hsorted
  refine hsorted.imp_of_mem fun {a b} ha hb hab => ?_
  have hlt := lt_iff_order (h a (mem_mergeSort.1 ha)) (h b (mem_mergeSort.1 hb))
  unfold Outweighs
  grind

/-! ## Comments -/

lemma exists_ofGroup (h : ∀ i ∈ g.2, i.WellFormed) : ∃ c, ofGroup g = .ok c ∧ (c.path, c.line) = g.1 := by
  obtain ⟨ls, hls, -⟩ := exists_mapM (k := fun _ => ()) (Q := fun _ => True)
    fun i hi => (h i hi).exists_issueLines.imp fun ls hls => ⟨hls, rfl, trivial⟩
  refine ⟨⟨g.1.1, g.1.2, takeChars postLimit (joinWith "\n" ls.flatten)⟩, ?_, rfl⟩
  rw [ofGroup, hls]
  rfl

/-- Whatever the bounds, issues are in kept groups, which are commented on at their places, in dropped groups, or left
for want of a place. -/
structure Parted (files : List (String × Diff.ChangedFile)) (issues : List Issue) (fuzz : Int) (built : Comments)
    (kept dropped : List Group) (left : List Issue) : Prop where
  comments : built.comments.map (fun c => (c.path, c.line)) = kept.map (·.1)
  all : (kept.flatMap (·.2) ++ built.skipped).Perm issues
  skipped : built.skipped.Perm (left ++ dropped.flatMap (·.2))
  grouped : ∀ g ∈ kept ++ dropped, g.2 ≠ [] ∧ ∀ i ∈ g.2, placeOf (commentable files) fuzz i = .ok (some g.1)
  placeless : ∀ i ∈ left, placeOf (commentable files) fuzz i = .ok none

/-- Comments are placed: moreover those of the kept groups stand at lines of the diff near all their issues, they are few
enough, and no dropped group outweighs a kept one. -/
structure Placement (files : List (String × Diff.ChangedFile)) (issues : List Issue) (most fuzz : Int)
    (built : Comments) (kept dropped : List Group) (left : List Issue) : Prop
    extends Parted files issues fuzz built kept dropped left where
  few : (built.comments.length : Int) ≤ most
  distinct : ((kept ++ dropped).map (·.1)).Nodup
  total : built.total = issues.length
  listed : ∀ g ∈ kept, ∃ e ∈ files, commentPath e.1 = g.1.1 ∧ g.1.2 ∈ e.2.lines.map (·.1)
  near : ∀ g ∈ kept, ∀ i ∈ g.2, i.Near fuzz g.1.2
  heaviest : ∀ g ∈ kept, ∀ d ∈ dropped, ∃ a b, weight g = .ok a ∧ weight d = .ok b ∧ ¬ Outweighs b a

/-- Groups are parted into those that are kept and those that are dropped. -/
lemma exists_kept (most) {groups : List Group} (h : ∀ g ∈ groups, ∀ i ∈ g.2, i.WellFormed) :
    ∃ weighed kept dropped, (groups.mapM fun g => do return (← weight g, g)) = .ok weighed ∧
      (firstItems most (weighed.mergeSort fun a b => notBelow a.1 b.1)).map (·.2) = kept ∧
      (0 ≤ most → kept.length ≤ most) ∧ (kept ++ dropped).Perm groups ∧
      ∀ g ∈ kept, ∀ d ∈ dropped, ∃ a b, weight g = .ok a ∧ weight d = .ok b ∧ ¬ Outweighs b a := by
  obtain ⟨weighed, hweighed, hsnd, hweight⟩ := exists_mapM (l := groups) (k := snd) (m := id)
    (f := fun g => do return (← weight g, g)) (Q := fun y => weight y.2 = .ok y.1 ∧ y.1.2.isNaN = false) (by
      intro g hg
      obtain ⟨a, ha, hnan⟩ := exists_weight (h g hg)
      exact ⟨(a, g), by rw [ha]; rfl, rfl, ha, hnan⟩)
  let sorted := weighed.mergeSort fun a b => notBelow a.1 b.1
  obtain ⟨k, hk, hfew⟩ : ∃ k, firstItems most sorted = sorted.take k ∧ (0 ≤ most → (k : Int) ≤ most) := by
    unfold firstItems
    split <;> exact ⟨_, rfl, by omega⟩
  refine ⟨weighed, (sorted.take k).map (·.2), (sorted.drop k).map (·.2), hweighed, by rw [← hk], ?_, ?_, ?_⟩
  · rw [length_map, length_take]
    omega
  · rw [← map_append, take_append_drop, ← map_id groups, ← hsnd]
    exact (mergeSort_perm ..).map _
  · intro g hg d hd
    obtain ⟨a, ha, rfl⟩ := mem_map.1 hg
    obtain ⟨b, hb, rfl⟩ := mem_map.1 hd
    have hheavy := pairwise_not_outweighs fun y hy => (hweight y hy).2
    rw [← take_append_drop k (weighed.mergeSort _), pairwise_append] at hheavy
    refine ⟨a.1, b.1, (hweight a ?_).1, (hweight b ?_).1, hheavy.2.2 a ha b hb⟩
    · exact mem_mergeSort.1 (mem_of_mem_take ha)
    · exact mem_mergeSort.1 (mem_of_mem_drop hb)

section

variable (files : List (String × Diff.ChangedFile))

lemma exists_parted (most fuzz) (h : ∀ i ∈ issues, i.WellFormed) :
    ∃ built kept dropped left, commentsOn (commentable files) issues most fuzz = .ok built ∧
      Parted files issues fuzz built kept dropped left ∧
      (0 ≤ most → 0 ≤ fuzz → Placement files issues most fuzz built kept dropped left) := by
  obtain ⟨⟨groups, left⟩, hissues, placed, hgroups, hperm, hleft⟩ := exists_groupIssues (commentable files) fuzz h
  have hproper : ∀ g ∈ groups, ∀ i ∈ g.2, i.WellFormed := fun g hg i hi =>
    h i (hperm.subset (mem_append_left _ (hgroups.perm.subset (mem_flatMap.2 ⟨g, hg, hi⟩))))
  obtain ⟨weighed, kept, dropped, hweighed, hfirst, hfew, hparted, hheaviest⟩ := exists_kept most hproper
  have hkept : ∀ g ∈ kept, g ∈ groups := fun g hg => hparted.subset (mem_append_left _ hg)
  obtain ⟨comments, hcomments, hplaces, -⟩ := exists_mapM (l := kept) (f := ofGroup)
    (k := fun c => (c.path, c.line)) (m := fst) (Q := fun _ => True) (by
      intro g hg
      obtain ⟨c, hc, hplace⟩ := exists_ofGroup (hproper g (hkept g hg))
      exact ⟨c, hc, hplace, trivial⟩)
  have hdropped := (perm_filter_not_any hparted hgroups.nodup).flatMap_right (·.2)
  let built : Comments :=
    ⟨comments, left ++ (groups.filter fun g => !kept.any (·.1 == g.1)).flatMap (·.2), issues.length⟩
  have hparts : Parted files issues fuzz built kept dropped left := by
    constructor
    · exact hplaces
    · refine ((hdropped.append_left left).append_left _).trans ?_
      refine (perm_append_comm.append_left _).trans ?_
      rw [← append_assoc, ← flatMap_append]
      exact (((hparted.flatMap_right _).trans hgroups.perm).append_right left).trans hperm
    · exact hdropped.append_left left
    · exact fun g hg => ⟨hgroups.inhabited g (hparted.subset hg), hgroups.belongs g (hparted.subset hg)⟩
    · exact hleft
  refine ⟨built, kept, dropped, left, ?_, hparts, fun hmost hfuzz => { hparts with
    few := ?_, distinct := ?_, total := rfl, listed := ?_, near := ?_, heaviest := hheaviest }⟩
  · refine except_bind_eq_ok_iff.2 ⟨_, hissues, except_bind_eq_ok_iff.2 ⟨weighed, hweighed, ?_⟩⟩
    rw [hfirst]
    exact except_bind_eq_ok_iff.2 ⟨comments, hcomments, rfl⟩
  · have hfew := hfew hmost
    rwa [← length_map fst, ← hplaces, length_map] at hfew
  · exact (hparted.map _).nodup_iff.2 hgroups.nodup
  · intro g hg
    obtain ⟨i, hi⟩ := exists_mem_of_ne_nil _ (hgroups.inhabited g (hkept g hg))
    obtain ⟨⟨ls, hls, hmem⟩, -⟩ := near_of_placeOf hfuzz (hgroups.belongs g (hkept g hg) i hi)
    obtain ⟨e, he, hpath, rfl⟩ := mem_of_commentable hls
    exact ⟨e, he, hpath, hmem⟩
  · exact fun g hg i hi => (near_of_placeOf hfuzz (hgroups.belongs g (hkept g hg) i hi)).2

end

/-- An issue at a line of a file. -/
def issueAt (path : String) (n : Int) : Issue :=
  .object [("file_path", path), ("line_number", .list [n, n]), ("severity", "error")]

lemma wellFormed_issueAt (path n) : (issueAt path n).WellFormed := by
  refine ⟨_, rfl, fun v hv => ⟨"error", ?_⟩⟩
  simpa [get?_cons, eq_comm] using hv

end PatchReview.Service
