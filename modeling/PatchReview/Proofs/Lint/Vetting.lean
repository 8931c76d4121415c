import Mathlib.Data.List.Basic
import PatchReview.Lint.Registry
import PatchReview.Proofs.Action

/-!
# What a checker of packages finds

One checker is run over packages, and all that the runs list is taken for a finding: also what concerns a file of a
package that was not asked for, and, as the root stands for all packages below it, the same thing twice. The findings
keep to what was asked for exactly as far as the listings do.
-/

namespace PatchReview.Lint.Checker

open Action Command List

variable {told t : Bool} {root : Path} {files : List String} {there : List Path} {rs : List CommandReply}
  {found : List Finding} {w u v : Workspace}

/-- The replies of the runs over some packages. -/
def replies (root : Path) (ps : List Path) : Action (List CommandReply) :=
  ps.mapM fun p => run ["go", "vet", packageWord p] (some root)

def listed (root : Path) (r : CommandReply) : List Finding := listedFindings root (listingOf r)

/-- Findings put together hold nothing more often than one reply does exactly when the replies have none in common. -/
lemma count_flatMap_le_iff : (∀ f ∈ rs.flatMap (listed root), ∃ r ∈ rs,
    (rs.flatMap (listed root)).count f ≤ (listed root r).count f) ↔
      rs.Pairwise fun r r' => (listed root r).Disjoint (listed root r') := by
  induction rs with
  | nil => simp
  | cons r rs ih =>
    have hle {r'} (hr : r' ∈ rs) (f) : (listed root r').count f ≤ (rs.flatMap (listed root)).count f :=
      (sublist_flatten_of_mem (mem_map_of_mem hr)).count_le f
    rw [pairwise_cons, ← ih, flatMap_cons]
    constructor
    · intro h
      refine ⟨fun r' hr' f hf hf' => ?_, fun f hf => ?_⟩
      · obtain ⟨q, hq, hcount⟩ := h f (mem_append_left _ hf)
        have hone := count_pos_iff.2 hf
        have hother := count_pos_iff.2 hf'
        have hle' := hle hr' f
        rw [count_append] at hcount
        rcases mem_cons.1 hq with rfl | hq
        · omega
        · have := hle hq f
          omega
      · obtain ⟨q, hq, hcount⟩ := h f (mem_append_right _ hf)
        have hother := count_pos_iff.2 hf
        rw [count_append] at hcount
        rcases mem_cons.1 hq with rfl | hq
        · omega
        · exact ⟨q, hq, by omega⟩
    · rintro ⟨hdisjoint, h⟩ f hf
      rw [count_append]
      by_cases hr : f ∈ listed root r
      · have hnone : f ∉ rs.flatMap (listed root) := by
          rw [mem_flatMap]
          exact fun ⟨r', hr', hf'⟩ => hdisjoint r' hr' hr hf'
        exact ⟨r, mem_cons_self, by rw [count_eq_zero.2 hnone]; exact Nat.le_refl _⟩
      · obtain ⟨q, hq, hcount⟩ := h f ((mem_append.1 hf).resolve_left hr)
        exact ⟨q, mem_cons_of_mem _ hq, by rwa [count_eq_zero.2 hr, Nat.zero_add]⟩

lemma runPackages_eq (ps) : runPackages root ps = do return (← replies root ps).flatMap (listed root) := by
  induction ps with
  | nil => rfl
  | cons p ps ih =>
    simp only [runPackages, ih, replies, mapM_cons, bind_assoc, pure_bind, flatMap_cons]
    rfl

lemma find_vet (hthere : existing root (files.filter vet.reads) w = (.ok there, u)) :
    vet.find root files w = loudly "go vet" (runPackages root (packages root there)) u := by
  rw [find, bind_of_ok hthere]
  cases there <;> rfl

lemma which_vet (w) : which vet.program w = (.ok (if w.programs.contains "go" then some "/usr/bin/go" else none), w) := rfl

lemma check_vet (hgo : w.programs.contains "go" = true) :
    vet.check told root files w = (do return (← vet.find root files, told) : Action _) w := by
  rw [check, bind_of_ok (which_vet w), if_pos hgo]
  rfl

/-- With its program there, all that the replies list is found. -/
lemma check_of_replies (hgo : w.programs.contains "go" = true)
    (hthere : existing root (files.filter vet.reads) w = (.ok there, u))
    (hreplies : replies root (packages root there) u = (.ok rs, v)) :
    vet.check told root files w = (.ok (rs.flatMap (listed root), told), v) := by
  have hruns : runPackages root (packages root there) u = (.ok (rs.flatMap (listed root)), v) := by
    rw [runPackages_eq, bind_of_ok hreplies, pure_apply]
  rw [check_vet hgo, bind_apply, find_vet hthere, loudly, bind_apply, attempt_apply, hruns]
  rfl

lemma replies_of_check (hthere : existing root (files.filter vet.reads) w = (.ok there, u))
    (hcheck : vet.check told root files w = (.ok (found, t), v)) (hfound : found ≠ []) :
    w.programs.contains "go" = true ∧ ∃ rs u', replies root (packages root there) u = (.ok rs, u') := by
  by_cases hgo : w.programs.contains "go" = true
  · refine ⟨hgo, ?_⟩
    rw [check_vet hgo, bind_eq_ok_iff] at hcheck
    obtain ⟨_, _, hfind, heq⟩ := hcheck
    cases heq
    rw [find_vet hthere, loudly, bind_apply, attempt_apply, runPackages_eq, bind_apply] at hfind
    rcases hreplies : replies root (packages root there) u with ⟨e | rs, u'⟩
    · rw [hreplies] at hfind
      by_cases he : e.isError = true
      · simp only [he, if_true] at hfind
        cases hfind
        exact absurd rfl hfound
      · simp only [he] at hfind
        cases hfind
    · exact ⟨rs, u', rfl⟩
  · rw [check, bind_of_ok (which_vet w), if_neg hgo] at hcheck
    cases told <;> cases hcheck <;> exact absurd rfl hfound

/-- A finding concerns one of some files, by its path below the root. -/
def Requested (root : Path) (there : List Path) (f : Finding) : Prop :=
  ∃ p ∈ there, (p.below? root).map Path.toString = some f.path

/-- What is found concerns files that were asked for and are there, and nothing is found more often than in one run. -/
def Concerned (told : Bool) (root : Path) (files : List String) (w : Workspace) : Prop :=
  ∀ there u found t v, existing root (files.filter vet.reads) w = (.ok there, u) →
    vet.check told root files w = (.ok (found, t), v) → ∀ f ∈ found, Requested root there f ∧
      ∃ rs v', replies root (packages root there) u = (.ok rs, v') ∧ ∃ r ∈ rs, found.count f ≤ (listed root r).count f

/-- What is found keeps to the files that were asked for, and to what one run lists, exactly as far as the runs do: none
lists anything about another file, and no two list the same. -/
theorem concerned_iff : Concerned told root files w ↔ (w.programs.contains "go" = true → ∀ there u rs v,
    existing root (files.filter vet.reads) w = (.ok there, u) → replies root (packages root there) u = (.ok rs, v) →
    (∀ r ∈ rs, ∀ f ∈ listed root r, Requested root there f) ∧
      rs.Pairwise fun r r' => (listed root r).Disjoint (listed root r')) := by
  constructor
  · intro h hgo there u rs v hthere hreplies
    have h := h there u _ _ _ hthere (check_of_replies hgo hthere hreplies)
    refine ⟨fun r hr f hf => (h f (mem_flatMap_of_mem hr hf)).1, count_flatMap_le_iff.1 fun f hf => ?_⟩
    obtain ⟨-, rs', v', hreplies', hcount⟩ := h f hf
    cases hreplies.symm.trans hreplies'
    exact hcount
  · intro h there u found t v hthere hcheck f hf
    obtain ⟨hgo, rs, v', hreplies⟩ := replies_of_check hthere hcheck (ne_nil_of_mem hf)
    cases (check_of_replies hgo hthere hreplies).symm.trans hcheck
    obtain ⟨hrequested, hdisjoint⟩ := h hgo there u rs v hthere hreplies
    obtain ⟨r, hr, hlisted⟩ := mem_flatMap.1 hf
    exact ⟨hrequested r hr f hlisted, rs, v, hreplies, count_flatMap_le_iff.2 hdisjoint f hf⟩

/-- A file in the root, which is asked for, and one in a package below it, which is listed. -/
def twoPackages : Workspace where
  files := ⟨[(["m.go"], .file (.bytes []) 0), (["pkg", "n.go"], .file (.bytes []) 0)]⟩
  programs := ["go"]
  commands := [("*", [{ code := 1, err := "pkg/n.go:3:1: unreachable code" }])]

/-- The root stands for all packages below it, so a file is found that was not asked for. -/
theorem file_below_not_concerned : ¬ Concerned false (.ofString "/") ["m.go"] twoPackages := by
  intro h
  obtain ⟨p, hp, hpath⟩ := (h [.ofString "/m.go"] twoPackages [⟨"pkg/n.go", 3, "unreachable code", "error", ""⟩] false _
    rfl rfl _ mem_cons_self).1
  revert p
  decide

end PatchReview.Lint.Checker
