import Mathlib.Data.List.Infix
import Mathlib.Data.List.TakeWhile
import PatchReview.Text.Basic

/-!
# Searching texts

What is found at the front of a text and anywhere in it, where it is found first, and how far the parts before and
behind it can be told apart.
-/

namespace PatchReview.Text

open List

variable {x y : Char} {p q s a b r : Chars}

lemma dropLead?_eq_some_iff : dropLead? p s = some r ↔ s = p ++ r := by
  fun_induction dropLead? p s with
  | case1 s => simp
  | case2 => simp
  | case3 c p s ih => simp [ih]
  | case4 c p d s hne => simp [Ne.symm hne]

lemma isSome_dropLead? : (dropLead? p s).isSome ↔ p <+: s := by
  simp only [Option.isSome_iff_exists, dropLead?_eq_some_iff]
  exact exists_congr fun _ => eq_comm

lemma isSome_breakOn? : (breakOn? p s).isSome ↔ p <:+: s := by
  induction s with
  | nil => rw [breakOn?, Option.isSome_map, isSome_dropLead?, prefix_nil, infix_nil]
  | cons c s ih =>
    refine .trans ?_ (infix_cons_iff.trans (or_congr isSome_dropLead?.symm ih.symm)).symm
    rw [breakOn?]
    split <;> simp [*]

/-- Before the first occurrence of a text none begins. -/
lemma breakOn?_eq_some (h : breakOn? (x :: p) s = some (a, b)) :
    s = a ++ x :: p ++ b ∧ ¬ x :: p <:+: a ++ (x :: p).dropLast := by
  induction s generalizing a with
  | nil => cases h
  | cons c s ih =>
    rw [breakOn?] at h
    cases hlead : dropLead? (x :: p) (c :: s) with
    | some rest =>
      rw [hlead] at h
      cases h
      exact ⟨dropLead?_eq_some_iff.1 hlead, fun h => Nat.not_succ_le_self p.length (by simpa using h.length_le)⟩
    | none =>
      rw [hlead] at h
      obtain ⟨⟨a, b⟩, hs, ⟨⟩⟩ := Option.map_eq_some_iff.1 h
      obtain ⟨rfl, hnot⟩ := ih hs
      refine ⟨rfl, fun hinfix => (infix_cons_iff.1 hinfix).elim (fun hstart => ?_) hnot⟩
      have hshorter : (x :: p).dropLast <+: x :: p := dropLast_prefix _
      have hlonger : c :: (a ++ (x :: p).dropLast) <+: c :: (a ++ x :: p ++ b) := by
        rw [append_assoc, prefix_cons_inj, prefix_append_right_inj]
        exact hshorter.trans (prefix_append _ _)
      cases hlead ▸ isSome_dropLead?.2 (hstart.trans hlonger)

/-- A text without a character that begins before it ends there too. -/
lemma prefix_of_not_mem (hy : y ∉ p) (h : p <+: r ++ y :: q) : p <+: r := by
  induction p generalizing r with
  | nil => exact nil_prefix
  | cons c p ih =>
    rw [mem_cons, not_or] at hy
    cases r with
    | nil => exact absurd (cons_prefix_cons.1 h).1.symm hy.1
    | cons d r =>
      obtain ⟨rfl, hrest⟩ := cons_prefix_cons.1 h
      exact cons_prefix_cons.2 ⟨rfl, ih hy.2 hrest⟩

/-- A text whose first character is not in the rest of it is first found where it stands, if it is not before. -/
lemma breakOn?_of_not_infix (hx : x ∉ p) (h : ¬ x :: p <:+: a) (b) :
    breakOn? (x :: p) (a ++ x :: (p ++ b)) = some (a, b) := by
  induction a with
  | nil =>
    have hlead : dropLead? (x :: p) (x :: (p ++ b)) = some b := dropLead?_eq_some_iff.2 rfl
    rw [nil_append, breakOn?, hlead]
  | cons c a ih =>
    rw [infix_cons_iff, not_or] at h
    have hlead : dropLead? (x :: p) (c :: (a ++ x :: (p ++ b))) = none := by
      rw [← Option.not_isSome_iff_eq_none, isSome_dropLead?, cons_prefix_cons]
      rintro ⟨rfl, hp⟩
      exact h.1 (cons_prefix_cons.2 ⟨rfl, prefix_of_not_mem hx hp⟩)
    rw [cons_append, breakOn?, hlead, ih h.2]
    rfl

lemma forall_isBlank_of_strip (h : Text.strip s = []) : ∀ x ∈ s, isBlank x := by
  have hdrop : ∀ x ∈ s.dropWhile isBlank, isBlank x := by
    intro x hx
    refine dropWhile_eq_nil_iff.1 (reverse_eq_nil_iff.1 h) x (mem_reverse.2 hx)
  intro x hx
  rw [← takeWhile_append_dropWhile (p := isBlank) (l := s)] at hx
  exact (mem_append.1 hx).elim mem_takeWhile_imp (hdrop x)

end PatchReview.Text
