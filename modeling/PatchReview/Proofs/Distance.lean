import Mathlib.Data.ENat.Lattice
import PatchReview.Index.Query

/-!
# Distances

How far nodes are from some starts, in steps of a relation, and which of some nodes are new. A search that takes up new
nodes step by step meets them in the order of their distances.
-/

namespace PatchReview

open List Nat

variable {step : String → String → Prop} {starts known ns : List String} {m n : String} {j k : Nat}

/-! ## Steps from some starts -/

variable (step starts) in
/-- A node is reached from some starts over at most so many steps. -/
inductive ReachedWithin : Nat → String → Prop
  | start {k : Nat} {n : String} : n ∈ starts → ReachedWithin k n
  | step {k : Nat} {m n : String} : ReachedWithin k m → step m n → ReachedWithin (k + 1) n

lemma ReachedWithin.mono (h : ReachedWithin step starts j n) (hle : j ≤ k) : ReachedWithin step starts k n := by
  induction h generalizing k with
  | start hn => exact .start hn
  | step _ hstep ih =>
    obtain ⟨k, rfl⟩ := Nat.exists_eq_add_of_lt hle
    exact .step (ih (Nat.le_add_right _ _)) hstep

/-- The least number of steps over which a node is reached; there is none, and it is infinite, if it is not reached. -/
noncomputable def distance (step : String → String → Prop) (starts : Strings) (n : String) : ℕ∞ :=
  ⨅ (k : Nat) (_ : ReachedWithin step starts k n), (k : ℕ∞)

lemma le_distance_iff {c : ℕ∞} : c ≤ distance step starts n ↔ ∀ k, ReachedWithin step starts k n → c ≤ k := le_iInf₂_iff

lemma distance_le_iff : distance step starts n ≤ k ↔ ReachedWithin step starts k n := by
  refine ⟨fun h => ?_, fun h => iInf₂_le k h⟩
  by_contra hnot
  have hfar : ((k + 1 : Nat) : ℕ∞) ≤ distance step starts n := le_distance_iff.2 fun j hj => by
    rw [cast_le]
    by_contra hle
    exact hnot (hj.mono (Nat.le_of_not_lt hle))
  have := hfar.trans h
  rw [cast_le] at this
  omega

/-- The nodes that are reached over any number of steps. -/
def reachable (step : String → String → Prop) (starts : Strings) : Set String :=
  {n | ∃ k, ReachedWithin step starts k n}

lemma mem_reachable_iff : n ∈ reachable step starts ↔ distance step starts n < ⊤ := by
  constructor
  · rintro ⟨k, hk⟩
    exact (distance_le_iff.2 hk).trans_lt (ENat.natCast_lt_top k)
  · intro h
    obtain ⟨k, hk⟩ := ENat.ne_top_iff_exists.1 h.ne
    exact ⟨k, distance_le_iff.1 hk.ge⟩

lemma distance_le_add_one (h : step m n) : distance step starts n ≤ distance step starts m + 1 := by
  by_cases htop : distance step starts m = ⊤
  · rw [htop]
    exact le_top
  · obtain ⟨k, hk⟩ := ENat.ne_top_iff_exists.1 htop
    rw [← hk]
    exact_mod_cast distance_le_iff.2 (.step (distance_le_iff.1 hk.ge) h)

lemma ReachedWithin.trans (h : ReachedWithin step [m] j n) (hm : ReachedWithin step starts k m) :
    ReachedWithin step starts (k + j) n := by
  induction h with
  | start hn =>
    cases mem_singleton.1 hn
    exact hm.mono (le_add_right _ _)
  | step _ hstep ih => exact .step ih hstep

/-- Steps taken the other way lead back. -/
lemma ReachedWithin.turn (h : ReachedWithin step [m] k n) : ReachedWithin (fun a b => step b a) [n] k m := by
  induction h with
  | start hn =>
    cases mem_singleton.1 hn
    exact .start (mem_singleton.2 rfl)
  | @step k x n _ hstep ih =>
    rw [add_comm]
    exact ih.trans (.step (.start (mem_singleton.2 rfl)) hstep)

lemma mem_reachable_turn : n ∈ reachable step [m] ↔ m ∈ reachable (fun a b => step b a) [n] :=
  ⟨fun ⟨k, hk⟩ => ⟨k, hk.turn⟩, fun ⟨k, hk⟩ => ⟨k, hk.turn⟩⟩

lemma distance_eq_zero (h : n ∈ starts) : distance step starts n = 0 :=
  nonpos_iff_eq_zero.1 (distance_le_iff.2 (.start h))

/-! ## New nodes -/

/-- Those of some nodes that are not known yet, in their order and each once. -/
def fresh (known : Strings) : Strings → Strings
  | [] => []
  | n :: ns => if n ∈ known then fresh known ns else n :: fresh (n :: known) ns

lemma mem_fresh_iff : n ∈ fresh known ns ↔ n ∈ ns ∧ n ∉ known := by
  induction ns generalizing known with
  | nil => simp [fresh]
  | cons m ns ih =>
    rw [fresh]
    split
    · grind
    · grind

lemma fresh_congr {known'} (h : ∀ n, n ∈ known ↔ n ∈ known') (ns) : fresh known ns = fresh known' ns := by
  induction ns generalizing known known' with
  | nil => rfl
  | cons m ns ih =>
    have hm : ∀ n, n ∈ m :: known ↔ n ∈ m :: known' := fun n => by rw [mem_cons, mem_cons, h]
    rw [fresh, fresh, ih h, ih hm, if_congr (h m) rfl rfl]

lemma nodup_fresh (known ns) : (fresh known ns).Nodup := by
  induction ns generalizing known with
  | nil => exact .nil
  | cons m ns ih =>
    rw [fresh]
    split
    · exact ih known
    · refine nodup_cons.2 ⟨?_, ih _⟩
      rw [mem_fresh_iff]
      simp

/-- Those of some nodes that are still to come. -/
def unvisited (targets known : Strings) : Strings := targets.filter (!known.contains ·)

lemma length_unvisited_le (targets known) : (unvisited targets known).length ≤ targets.length := length_filter_le _ _

/-- New nodes are as many fewer to come. -/
lemma length_fresh_add_le {targets} (known seen) (hns : ns ⊆ targets)
    (hseen : ∀ n, n ∈ seen ↔ n ∈ known ∨ n ∈ fresh known ns) :
    (fresh known ns).length + (unvisited targets seen).length ≤ (unvisited targets known).length := by
  have hle : (fresh known ns).length ≤ ((unvisited targets known).filter (fresh known ns).contains).length := by
    refine (subperm_of_subset (nodup_fresh known ns) fun n hn => ?_).length_le
    obtain ⟨hmem, hnew⟩ := mem_fresh_iff.1 hn
    simp [unvisited, hns hmem, hnew, hn]
  have hrest : unvisited targets seen = (unvisited targets known).filter (!(fresh known ns).contains ·) := by
    unfold unvisited
    rw [filter_filter]
    exact filter_congr fun n _ => by simp [hseen, Bool.and_comm]
  have hsplit := length_eq_length_filter_add (fresh known ns).contains (l := unvisited targets known)
  rw [hrest]
  omega

lemma Index.once_eq (ws) : once ws = fresh [] ws := by
  have hfold : ∀ acc, ws.foldl (fun acc w => if acc.contains w then acc else acc ++ [w]) acc = acc ++ fresh acc ws := by
    induction ws with
    | nil => simp [fresh]
    | cons w ws ih =>
      intro acc
      rw [foldl_cons, fresh]
      by_cases hw : w ∈ acc
      · rw [if_pos (contains_iff_mem.2 hw), if_pos hw, ih]
      · have hswap : ∀ n, n ∈ acc ++ [w] ↔ n ∈ w :: acc := fun n => by simp [or_comm]
        rw [if_neg (by rwa [contains_iff_mem]), if_neg hw, ih, fresh_congr hswap, append_assoc, singleton_append]
  exact (hfold []).trans (nil_append _)

lemma Index.mem_once_iff {ws} : n ∈ once ws ↔ n ∈ ws := by simp [once_eq, mem_fresh_iff]

lemma Index.nodup_once (ws) : (once ws).Nodup := by
  rw [once_eq]
  exact nodup_fresh _ _

end PatchReview
