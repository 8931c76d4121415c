import Mathlib.Tactic.Lemma
import PatchReview.Json.Basic

/-!
# Members in order

What setting a member does to the keys, the look-ups and the members of an ordered list of fields.
-/

namespace PatchReview.Fields

open List

variable {α β : Type} {fields : List (String × α)} {key other : String} {v u : α}

/-- A new key comes last, a known one keeps its place. -/
lemma keys_insert (fields) (key) (v : α) : (insert fields key v).map (·.1) =
      if key ∈ fields.map (·.1) then fields.map (·.1) else fields.map (·.1) ++ [key] := by
  induction fields with
  | nil => rfl
  | cons p rest ih =>
    obtain ⟨k, w⟩ := p
    by_cases h : k = key
    · subst h
      simp [insert]
    · have h' : ¬ key = k := fun e => h e.symm
      simp only [insert, beq_iff_eq, h, if_false, map_cons, ih, mem_cons, h', false_or]
      split <;> rfl

lemma nodup_insert (h : (fields.map (·.1)).Nodup) (key) (v) : ((insert fields key v).map (·.1)).Nodup := by
  rw [keys_insert]
  split
  · exact h
  · rename_i hk
    exact List.nodup_append.2 ⟨h, nodup_cons.2 ⟨not_mem_nil, nodup_nil⟩,
      fun a ha b hb => by rintro rfl; rw [mem_singleton] at hb; exact hk (hb ▸ ha)⟩

lemma mem_keys_insert : other ∈ (insert fields key v).map (·.1) ↔ other = key ∨ other ∈ fields.map (·.1) := by
  rw [keys_insert]
  split
  · rename_i h
    exact ⟨.inr, fun hk => hk.elim (fun e => e ▸ h) id⟩
  · rw [mem_append, mem_singleton, or_comm]

/-- The members after a member is set are that one and old ones with other keys. -/
lemma mem_insert_iff (h : (fields.map (·.1)).Nodup) {p : String × α} :
    p ∈ insert fields key v ↔ p = (key, v) ∨ p ∈ fields ∧ p.1 ≠ key := by
  induction fields with
  | nil => simp [insert]
  | cons q rest ih =>
    obtain ⟨k, w⟩ := q
    rw [map_cons, nodup_cons] at h
    by_cases hk : k = key
    · subst hk
      have hrest : p ∈ rest → p.1 ≠ k := fun hp e => h.1 (e ▸ mem_map_of_mem (f := (·.1)) hp)
      simp only [insert, beq_self_eq_true, if_true, mem_cons]
      constructor
      · rintro (rfl | hp)
        · exact .inl rfl
        · exact .inr ⟨.inr hp, hrest hp⟩
      · rintro (rfl | ⟨rfl | hp, hne⟩)
        · exact .inl rfl
        · exact absurd rfl hne
        · exact .inr hp
    · simp only [insert, beq_iff_eq, hk, if_false, mem_cons, ih h.2]
      constructor
      · rintro (rfl | rfl | ⟨hp, hne⟩)
        · exact .inr ⟨.inl rfl, hk⟩
        · exact .inl rfl
        · exact .inr ⟨.inr hp, hne⟩
      · rintro (rfl | ⟨rfl | hp, hne⟩)
        · exact .inr (.inl rfl)
        · exact .inl rfl
        · exact .inr (.inr ⟨hp, hne⟩)

lemma eq_or_mem_of_mem_insert {p : String × α} (h : p ∈ insert fields key v) : p = (key, v) ∨ p ∈ fields := by
  induction fields with
  | nil => exact .inl (mem_singleton.1 h)
  | cons q rest ih =>
    unfold insert at h
    split at h
    · rcases mem_cons.1 h with rfl | h
      · simp_all
      · exact .inr (mem_cons_of_mem _ h)
    · rcases mem_cons.1 h with rfl | h
      · exact .inr mem_cons_self
      · exact (ih h).imp_right (mem_cons_of_mem _)

lemma get?_cons (p : String × α) (rest : List (String × α)) (key) :
    get? (p :: rest) key = if p.1 = key then some p.2 else get? rest key := by
  obtain ⟨k, w⟩ := p
  by_cases h : k = key
  · simp [get?, h]
  · have h' : (key == k) = false := beq_eq_false_iff_ne.2 fun e => h e.symm
    simp [get?, lookup_cons, h, h']

lemma get?_insert (fields) (key other) (v : α) :
    get? (insert fields key v) other = if other = key then some v else get? fields other := by
  induction fields with
  | nil =>
    rw [insert, get?_cons]
    simp [eq_comm]
  | cons p rest ih =>
    obtain ⟨k, w⟩ := p
    by_cases hk : k = key
    · subst hk
      simp only [insert, beq_self_eq_true, if_true, get?_cons]
      by_cases ho : k = other
      · simp [ho]
      · simp [ho, Ne.symm ho]
    · simp only [insert, beq_iff_eq, hk, if_false, get?_cons, ih]
      by_cases ho : k = other
      · subst ho
        simp [hk]
      · simp [ho]

lemma get?_erase (fields : List (String × α)) (key other) :
    get? (erase fields key) other = if other = key then none else get? fields other := by
  induction fields with
  | nil => simp [erase, get?]
  | cons p rest ih =>
    unfold erase at ih ⊢
    by_cases hp : p.1 = key
    · rw [filter_cons_of_neg (by simpa using hp), ih, get?_cons]
      by_cases ho : other = key
      · simp [ho]
      · rw [if_neg ho, if_neg ho, if_neg fun h => ho (h.symm.trans hp)]
    · rw [filter_cons_of_pos (by simpa using hp), get?_cons, get?_cons, ih]
      by_cases ho : other = key
      · rw [if_pos ho, if_pos ho, if_neg fun h => hp (h.trans ho)]
      · rw [if_neg ho, if_neg ho]

lemma mem_of_get? (h : get? fields key = some v) : (key, v) ∈ fields := by
  induction fields with
  | nil => simp [get?] at h
  | cons p rest ih =>
    rw [get?_cons] at h
    split at h
    · rename_i hk
      cases hk
      cases h
      exact mem_cons_self
    · exact mem_cons_of_mem _ (ih h)

lemma get?_of_mem (hd : (fields.map (·.1)).Nodup) (h : (key, v) ∈ fields) : get? fields key = some v := by
  induction fields with
  | nil => cases h
  | cons p rest ih =>
    rw [map_cons, nodup_cons] at hd
    rw [get?_cons]
    rcases mem_cons.1 h with rfl | h
    · simp
    · have : p.1 ≠ key := fun e => hd.1 (e ▸ mem_map_of_mem (f := (·.1)) h)
      rw [if_neg this]
      exact ih hd.2 h

lemma has_of_get? (h : get? fields key = some v) : has fields key :=
  any_eq_true.2 ⟨(key, v), mem_of_get? h, beq_self_eq_true key⟩

/-- A key that is set to one value only has that value in the end. -/
lemma get?_merge_of_mem {more : List (String × α)} (hmem : (key, v) ∈ more ∨ get? fields key = some v)
    (hone : ∀ u, (key, u) ∈ more → u = v) : get? (merge fields more) key = some v := by
  induction more generalizing fields with
  | nil => exact hmem.resolve_left not_mem_nil
  | cons p rest ih =>
    obtain ⟨k, w⟩ := p
    apply ih _ fun u hu => hone u (mem_cons_of_mem _ hu)
    rw [get?_insert]
    by_cases hk : key = k
    · subst hk
      exact .inr (by rw [if_pos rfl, hone w mem_cons_self])
    · rw [if_neg hk]
      refine hmem.imp_left fun hmem => (mem_cons.1 hmem).resolve_left ?_
      rintro ⟨⟩
      exact hk rfl

end PatchReview.Fields
