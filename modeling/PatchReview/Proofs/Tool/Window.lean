import PatchReview.Proofs.Files
import PatchReview.Tool.Catalog

/-!
# Windows of a file

A snippet is a window of a file around the lines that were asked for. When these are as many as a window may have, and
an even number, the window is moved up by a line, and their last one is cut off.
-/

namespace PatchReview.Tool

open Action Files List

variable {n start stop : Int}

/-- The lines asked for are as many as a window may have, which is an even number, there is a line before them, and lines
around them are wanted. -/
def CutsLast (n start stop context limit : Int) : Prop :=
  limit % 2 = 0 ∧ stop - start + 1 = limit ∧ 2 ≤ start ∧ stop ≤ n ∧ 1 ≤ context

lemma window_spec (hfirst : 1 ≤ start) (hle : start ≤ stop) (hn : start ≤ n) (context most : Int) :
    let (lo, hi) := window n start stop (max 0 context) (max leastWindow most)
    1 ≤ lo ∧ lo ≤ hi ∧ hi ≤ n ∧ hi - lo + 1 ≤ max 20 most ∧ (stop - start + 1 ≤ max 20 most →
      (lo ≤ start ∧ min stop n ≤ hi ↔ ¬ CutsLast n start stop context (max 20 most))) := by
  simp only [CutsLast, leastWindow, window, Int.fdiv_eq_ediv_of_nonneg _ (show (0 : Int) ≤ 2 by decide)]
  split <;> refine ⟨?_, ?_, ?_, ?_, fun _ => ?_⟩ <;> dsimp only <;> omega

def lineWithNumber (lines : Strings) (i : Nat) : String := toString i ++ ": " ++ lines.getD (i - 1) ""

/-- A window has a line for each number in it, with this number before it. -/
lemma numbered_eq {lines : Strings} {lo hi : Nat} (hlo : 1 ≤ lo) (hhi : hi ≤ lines.length) :
    numbered lines lo hi = (range' lo (hi + 1 - lo)).map (lineWithNumber lines) := by
  have hzip : lines.zipIdx 1 = (range' 1 lines.length).map fun i => (lines.getD (i - 1) "", i) := by
    refine ext_getElem (by simp) fun i h₁ h₂ => ?_
    have hi : i < lines.length := by simpa using h₁
    simp [hi, Nat.add_comm]
  -- both are sorted, and the same numbers are in them
  have hperm : (range' 1 lines.length).filter (fun i : Nat => (lo : Int) ≤ i && (i : Int) ≤ hi) ~
      range' lo (hi + 1 - lo) := by
    refine (perm_ext_iff_of_nodup ((nodup_range' ..).filter _) (nodup_range' ..)).2 fun i => ?_
    simp only [mem_filter, mem_range'_1, Bool.and_eq_true, decide_eq_true_eq]
    omega
  have hrange := hperm.eq_of_pairwise (fun _ _ _ _ h h' => absurd h (Nat.lt_asymm h'))
    ((pairwise_lt_range' ..).filter _) (pairwise_lt_range' ..)
  rw [numbered, hzip, filter_map, map_map, ← hrange]
  rfl

variable {root : Option Path} {file text : String} {encoding : Json} {p : Path} {w : Workspace}

/-- A file of thirty lines. -/
def longFile : Workspace := { files := ⟨[(["a"], .file (.bytes (replicate 30 10)) 0)]⟩ }

end PatchReview.Tool
