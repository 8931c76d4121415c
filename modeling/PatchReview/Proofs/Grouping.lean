import Mathlib.Data.List.Nodup
import PatchReview.Text.Basic

/-!
# Groups by a key

Things that are put into groups one by one are all there in the end, each in one group, and no two groups have the same
key. What is left when some things are taken out by their keys is the rest, and what is left of a sorted list without
repetitions is each of its items once.
-/

namespace PatchReview

open List

variable {α κ : Type} {R : κ → α → Prop} {gs : List (κ × List α)} {xs kept rest : List α} {x : α}

/-- Things are in groups of which no two have the same key, each in one whose key it goes by. -/
structure Groups (R : κ → α → Prop) (gs : List (κ × List α)) (xs : List α) : Prop where
  perm : (gs.flatMap (·.2)).Perm xs
  nodup : (gs.map (·.1)).Nodup
  inhabited : ∀ g ∈ gs, g.2 ≠ []
  belongs : ∀ g ∈ gs, ∀ x ∈ g.2, R g.1 x

lemma groups_nil : Groups R [] [] := ⟨.refl _, .nil, nofun, nofun⟩

/-- What was dropped is not missed where only what stayed is looked at. -/
lemma filter_filter_of_imp {l : List α} {p q : α → Bool} (h : ∀ x ∈ l, q x → p x) :
    (l.filter p).filter q = l.filter q := by
  rw [filter_filter]
  refine filter_congr fun x hx => ?_
  cases hq : q x with
  | false => rfl
  | true => rw [h x hx hq, Bool.true_and]

lemma filter_or_perm {p q : α → Bool} (hdisjoint : ∀ a, p a → q a = false) (l : List α) :
    (l.filter p ++ l.filter q).Perm (l.filter fun a => p a || q a) := by
  have hp : (l.filter fun a => p a || q a).filter p = l.filter p := filter_filter_of_imp fun a _ ha => by simp [ha]
  have hq : (l.filter fun a => p a || q a).filter (fun a => !p a) = l.filter q := by
    rw [filter_filter]
    refine filter_congr fun a _ => ?_
    cases h : p a with
    | true => simp [hdisjoint a h]
    | false => simp
  have := filter_append_perm p (l.filter fun a => p a || q a)
  rwa [hp, hq] at this

variable [BEq κ] [LawfulBEq κ]

/-- A thing founds a group or joins the one of its key. -/
lemma addToGroup_cases (key : α → κ) (hnodup : (gs.map (·.1)).Nodup) (x) :
    key x ∉ gs.map (·.1) ∧ addToGroup key gs x = gs ++ [(key x, [x])] ∨
      ∃ before xs after, gs = before ++ (key x, xs) :: after ∧
        addToGroup key gs x = before ++ (key x, xs ++ [x]) :: after := by
  unfold addToGroup
  split <;> rename_i hany
  · obtain ⟨⟨k, xs⟩, hg, hk⟩ := any_eq_true.1 hany
    obtain rfl : k = key x := eq_of_beq hk
    obtain ⟨before, after, rfl⟩ := append_of_mem hg
    refine .inr ⟨before, xs, after, rfl, ?_⟩
    rw [map_append, map_cons, nodup_middle, nodup_cons, ← map_append] at hnodup
    have hother : ∀ g ∈ before ++ after, (if g.1 == key x then (g.1, g.2 ++ [x]) else (g.1, g.2)) = g := by
      intro g hg
      rw [if_neg]
      exact fun h => hnodup.1 (mem_map.2 ⟨g, hg, eq_of_beq h⟩)
    rw [forall_mem_append] at hother
    rw [map_append, map_cons]
    congr 1
    · exact (map_congr_left hother.1).trans (map_id _)
    · congr 1
      · exact if_pos (beq_self_eq_true _)
      · exact (map_congr_left hother.2).trans (map_id _)
  · refine .inl ⟨fun hmem => hany ?_, rfl⟩
    obtain ⟨g, hg, hk⟩ := mem_map.1 hmem
    exact any_eq_true.2 ⟨g, hg, beq_iff_eq.2 hk⟩

lemma Groups.add (h : Groups R gs xs) (key : α → κ) (hx : R (key x) x) :
    Groups R (addToGroup key gs x) (xs ++ [x]) := by
  obtain ⟨hperm, hnodup, hinhabited, hbelongs⟩ := h
  obtain ⟨hnew, heq⟩ | ⟨before, ys, after, rfl, heq⟩ := addToGroup_cases key hnodup x <;> rw [heq]
  · constructor
    · simpa using hperm.append_right [x]
    · simpa using List.Nodup.concat hnew hnodup
    · exact forall_mem_append.2 ⟨hinhabited, forall_mem_singleton.2 (by simp)⟩
    · exact forall_mem_append.2 ⟨hbelongs, forall_mem_singleton.2 (forall_mem_singleton.2 hx)⟩
  · rw [forall_mem_append, forall_mem_cons] at hinhabited hbelongs
    constructor
    · refine .trans ?_ (hperm.append_right [x])
      simp only [flatMap_append, flatMap_cons, append_assoc]
      exact (perm_append_comm.append_left _).append_left _
    · simpa using hnodup
    · exact forall_mem_append.2 ⟨hinhabited.1, forall_mem_cons.2 ⟨by simp, hinhabited.2.2⟩⟩
    · refine forall_mem_append.2 ⟨hbelongs.1, forall_mem_cons.2 ⟨?_, hbelongs.2.2⟩⟩
      exact forall_mem_append.2 ⟨hbelongs.2.1, forall_mem_singleton.2 hx⟩

lemma groups_grouped (key : α → κ) (xs) : Groups (fun k x => key x = k) (grouped key xs) xs := by
  suffices general : ∀ gs done, Groups (fun k x => key x = k) gs done →
      Groups (fun k x => key x = k) (xs.foldl (addToGroup key) gs) (done ++ xs) from general [] [] groups_nil
  induction xs with
  | nil => simp
  | cons x xs ih =>
    intro gs done h
    have := ih _ _ (h.add (x := x) key rfl)
    rwa [append_assoc] at this

variable {key : α → κ}

/-- Rows taken key by key, in whatever order for each key, are the rows of these keys. -/
lemma perm_flatMap_keys {rows : κ → List α} (hrows : ∀ k, (rows k).Perm (xs.filter (key · == k))) {ks : List κ}
    (hks : ks.Nodup) : (ks.flatMap rows).Perm (xs.filter fun a => ks.contains (key a)) := by
  induction ks with
  | nil => simp
  | cons k ks ih =>
    rw [nodup_cons] at hks
    have hdisjoint : ∀ a : α, (key a == k) → ks.contains (key a) = false := by
      intro a ha
      rw [eq_of_beq ha]
      simpa using hks.1
    refine ((hrows k).append (ih hks.2)).trans ((filter_or_perm hdisjoint xs).trans (List.Perm.of_eq ?_))
    exact filter_congr fun a _ => contains_cons.symm

/-- What is not taken by its key is the rest. -/
lemma perm_filter_not_any {l} (hperm : (kept ++ rest).Perm l) (hnodup : (l.map key).Nodup) :
    (l.filter fun x => !kept.any (key · == key x)).Perm rest := by
  have happend : ((kept ++ rest).map key).Nodup := (hperm.map _).nodup_iff.2 hnodup
  rw [map_append, List.nodup_append] at happend
  have hkept : (kept.filter fun x => !kept.any (key · == key x)) = [] := by
    refine filter_eq_nil_iff.2 fun g hg => ?_
    have hany : kept.any (key · == key g) := any_eq_true.2 ⟨g, hg, beq_self_eq_true _⟩
    simp [hany]
  have hrest : (rest.filter fun x => !kept.any (key · == key x)) = rest := by
    refine filter_eq_self.2 fun g hg => ?_
    simp only [Bool.not_eq_true', any_eq_false, beq_iff_eq]
    exact fun k hk => happend.2.2 _ (mem_map_of_mem hk) _ (mem_map_of_mem hg)
  have hfilter := hperm.symm.filter fun x => !kept.any (key · == key x)
  rwa [filter_append, hkept, hrest] at hfilter

section

variable {α : Type} [BEq α] [LawfulBEq α] {le : α → α → Prop} {xs : List α}

/-- What is left of a sorted list without repetitions, behind the items that were taken before. -/
lemma exists_eraseReps_loop (hanti : ∀ a b, le a b → le b a → a = b) {a : α} {as} (acc) (h : (a :: as).Pairwise le) :
    ∃ rest, eraseRepsBy.loop (· == ·) a as acc = acc.reverse ++ rest ∧
      (∀ x, x ∈ rest ↔ x ∈ a :: as) ∧ rest.Pairwise fun a b => le a b ∧ a ≠ b := by
  induction as generalizing a acc with
  | nil => exact ⟨[a], by simp [eraseRepsBy.loop], by simp, pairwise_singleton ..⟩
  | cons b as ih =>
    obtain ⟨hall, htail⟩ := pairwise_cons.1 h
    rw [eraseRepsBy.loop]
    split <;> rename_i hab
    · cases eq_of_beq hab
      obtain ⟨rest, heq, hmem, hrest⟩ := ih acc htail
      exact ⟨rest, heq, by simpa using hmem, hrest⟩
    · obtain ⟨rest, heq, hmem, hrest⟩ := ih (a :: acc) htail
      refine ⟨a :: rest, by simpa using heq, by simp [hmem], pairwise_cons.2 ⟨fun x hx => ?_, hrest⟩⟩
      have hx := (hmem x).1 hx
      refine ⟨hall x hx, ?_⟩
      rintro rfl
      -- `b` stands between, so it would be the same too
      obtain rfl | hx := mem_cons.1 hx
      · simp at hab
      · exact absurd (hanti a b (hall b mem_cons_self) ((pairwise_cons.1 htail).1 a hx)) (by simpa using hab)

lemma eraseReps_spec (hanti : ∀ a b, le a b → le b a → a = b) (h : xs.Pairwise le) :
    (∀ x, x ∈ xs.eraseReps ↔ x ∈ xs) ∧ xs.eraseReps.Pairwise fun a b => le a b ∧ a ≠ b := by
  cases xs with
  | nil => exact ⟨fun x => .rfl, .nil⟩
  | cons a as =>
    obtain ⟨rest, heq, hrest⟩ := exists_eraseReps_loop hanti [] h
    rw [eraseReps, eraseRepsBy, heq]
    exact hrest

end

end PatchReview
