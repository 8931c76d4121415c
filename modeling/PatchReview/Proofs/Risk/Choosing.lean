import Mathlib.Data.Prod.Lex
import Mathlib.Data.String.Basic
import PatchReview.Proofs.Grouping
import PatchReview.Proofs.RealOrder
import PatchReview.Risk.Basic

/-!
# Risks that are merged and chosen

Merging loses no risk: the merged risks stand for groups of risks, each of one file and kind, in which every risk is once.
Choosing is greedy: risks are taken in the order of their ranks, and one is left out only if those taken before it have
used up the room for all, for its file or for its kind. Risks are sorted by the places of doubles among the reals,
`Number.order`. Doubles compare as their places do, unless one is NaN.
-/

namespace PatchReview.Risk

open Number (order)
open List Option

variable {r s : Risk} {group done rest : List Risk} {window : Int} {threshold : Float}

/-! ## Merging -/

/-- Where a risk stands among those of its file and kind: by its range, and the most confident first. -/
def standing (r : Risk) : Int ×ₗ Int ×ₗ Int := toLex (r.lines.1, toLex (r.lines.2, -order r.confidence))

lemma precedes_iff (r s) : precedes r s ↔ r.standing ≤ s.standing := by
  simp only [precedes, standing, Prod.Lex.toLex_le_toLex]
  grind

/-- Sorting by a key. -/
lemma pairwise_mergeSort {α κ : Type} [LinearOrder κ] {le : α → α → Bool} {key : α → κ}
    (h : ∀ a b, le a b ↔ key a ≤ key b) (l : List α) : (l.mergeSort le).Pairwise (key · ≤ key ·) := by
  refine (List.pairwise_mergeSort ?_ ?_ l).imp (h _ _).1
  · simp only [h]
    exact fun _ _ _ => le_trans
  · simp only [Bool.or_eq_true, h]
    exact fun _ _ => le_total _ _

lemma min?_concat {α : Type} [Min α] {l} {m : α} (h : l.min? = some m) (a : α) : (l ++ [a]).min? = some (min m a) := by
  cases l with
  | nil => cases h
  | cons x l =>
    rw [min?_cons', some_inj] at h
    rw [cons_append, min?_cons', foldl_append, h]
    rfl

lemma max?_concat {α : Type} [Max α] {l} {m : α} (h : l.max? = some m) (a : α) : (l ++ [a]).max? = some (max m a) := by
  cases l with
  | nil => cases h
  | cons x l =>
    rw [max?_cons', some_inj] at h
    rw [cons_append, max?_cons', foldl_append, h]
    rfl

/-- A risk that stands for some risks in their order: the only one as it is, or all of them in one. -/
structure Covers (group : List Risk) (r : Risk) : Prop where
  alone : ∀ s, group = [s] → r = s
  same : ∀ s ∈ group, s.path = r.path ∧ s.kind = r.kind
  description : r.description = joinWith "\n\n" (group.map (·.description))
  start : (group.map (·.lines.1)).min? = some r.lines.1
  stop : (group.map (·.lines.2)).max? = some r.lines.2
  confidence : r.confidence ∈ group.map (·.confidence) ∧
    (group.map (order ·.confidence)).max? = some (order r.confidence)
  severity : r.severity ∈ group.map (·.severity) ∧
    (group.map (severityRank ·.severity)).max? = some (severityRank r.severity)

namespace Covers

lemma single (r) : Covers [r] r where
  alone := fun _ => singleton_inj.1
  same := forall_mem_singleton.2 ⟨rfl, rfl⟩
  description := String.intercalate_singleton.symm
  start := min?_singleton
  stop := max?_singleton
  confidence := ⟨mem_singleton.2 rfl, max?_singleton⟩
  severity := ⟨mem_singleton.2 rfl, max?_singleton⟩

lemma absorb (h : Covers done r) (hs : s.path = r.path ∧ s.kind = r.kind) :
    Covers (done ++ [s]) (r.absorb s (done.map (·.description) ++ [s.description])) := by
  have hlast {α : Type} (f : Risk → α) : (done ++ [s]).map f = done.map f ++ [f s] := map_append
  constructor
  · intro t ht
    have hne : done ≠ [] := by
      rintro rfl
      cases h.start
    exact absurd (congrArg List.length ht) (by simpa using hne)
  · exact forall_mem_append.2 ⟨h.same, forall_mem_singleton.2 hs⟩
  · rw [hlast]
    rfl
  · rw [hlast]
    exact min?_concat h.start _
  · rw [hlast]
    exact max?_concat h.stop _
  · rw [hlast, hlast, max?_concat h.confidence.2]
    unfold Risk.absorb
    have := h.confidence.1
    grind
  · rw [hlast, hlast, max?_concat h.severity.2]
    unfold Risk.absorb
    have := h.severity.1
    grind

end Covers

/-- Going on from a risk that stands for some risks, the risks that come are parted into groups. -/
lemma exists_mergeFrom (h : Covers done r) (hrest : ∀ s ∈ rest, s.path = r.path ∧ s.kind = r.kind) :
    ∃ groups, groups.flatten = done ++ rest ∧
      List.Forall₂ Covers groups (mergeFrom window threshold r (done.map (·.description)) rest) := by
  induction rest generalizing r done with
  | nil => exact ⟨[done], by simp, .cons h .nil⟩
  | cons s rest ih =>
    obtain ⟨hs, hrest⟩ := forall_mem_cons.1 hrest
    rw [mergeFrom]
    split
    · have habsorb := h.absorb hs
      obtain ⟨groups, hflat, hcovers⟩ := ih habsorb hrest
      rw [map_append] at hcovers
      exact ⟨groups, by rw [hflat, append_assoc, singleton_append], hcovers⟩
    · obtain ⟨groups, hflat, hcovers⟩ := ih (.single s) (by simpa only [hs] using hrest)
      exact ⟨done :: groups, by rw [flatten_cons, hflat, singleton_append], .cons h hcovers⟩

lemma exists_mergeGroup (window) (threshold)
    (hsame : ∀ s ∈ group, ∀ t ∈ group, s.path = t.path ∧ s.kind = t.kind) :
    ∃ groups, groups.flatten.Perm group ∧ groups.flatten.Pairwise (standing · ≤ standing ·) ∧
      List.Forall₂ Covers groups (mergeGroup window threshold group) := by
  have hsorted := pairwise_mergeSort precedes_iff group
  have hperm := mergeSort_perm group precedes
  unfold mergeGroup
  split
  · rename_i hnil
    rw [hnil] at hperm
    exact ⟨[], hperm, .nil, .nil⟩
  · rename_i r rest hcons
    rw [hcons] at hsorted hperm
    have hmem : ∀ s ∈ r :: rest, s ∈ group := fun s hs => hperm.mem_iff.1 hs
    obtain ⟨groups, hflat, hcovers⟩ := exists_mergeFrom (.single r)
      fun s hs => hsame s (hmem s (mem_cons_of_mem _ hs)) r (hmem r mem_cons_self)
    exact ⟨groups, hflat ▸ hperm, hflat ▸ hsorted, hcovers⟩

namespace Budget

variable {b : Budget} {taken : List Risk}

/-- Where a risk stands among those to choose from: the heaviest first, then by severity, path and range. -/
def ranking (b : Budget) (r : Risk) : Int ×ₗ Int ×ₗ String ×ₗ Int ×ₗ Int :=
  toLex (-order (b.weight r), toLex (-(severityRank r.severity : Int), toLex (r.path, toLex r.lines)))

lemma precedes_iff (b : Budget) (r s) : b.precedes r s ↔ b.ranking r ≤ b.ranking s := by
  simp only [Budget.precedes, rangeLe, ranking, Prod.Lex.toLex_le_toLex]
  grind

/-- The weighted score of a risk: its confidence times the weights of its kind and of its severity, a warning where it
has none. What has no weight counts once. -/
def score (b : Budget) (r : Risk) : Float :=
  r.confidence * (Fields.get? b.kindWeights r.kind.name).getD 1.0 *
    (Fields.get? b.severityWeights (if r.severity = "" then "warning" else lowered r.severity)).getD 1.0

lemma weight_eq (b : Budget) (r) : b.weight r = b.score r := by simp only [weight, severityOf, beq_iff_eq, score]

/-- A risk ranks no later than another: by descending scores, then by descending severities, by paths and by ranges. -/
def Ranked (b : Budget) (r s : Risk) : Prop :=
  b.score s < b.score r ∨ b.score r == b.score s ∧
    toLex (-(severityRank r.severity : Int), toLex (r.path, toLex r.lines)) ≤
      toLex (-(severityRank s.severity : Int), toLex (s.path, toLex s.lines))

lemma ranked_of_ranking_le (hr : (b.score r).isNaN = false) (hs : (b.score s).isNaN = false)
    (h : b.ranking r ≤ b.ranking s) : b.Ranked r s := by
  rw [ranking, ranking, weight_eq, weight_eq] at h
  rcases Prod.Lex.toLex_le_toLex.1 h with hlt | ⟨heq, hle⟩
  · exact .inl ((Number.lt_iff_order hs hr).2 (Int.neg_lt_neg_iff.1 hlt))
  · exact .inr ⟨Number.beq_of_order_eq hr hs (Int.neg_inj.1 heq), hle⟩

/-- The risks that were taken have used up the room for all, for the file of a risk or for its kind. -/
def Full (b : Budget) (taken : List Risk) (r : Risk) : Prop :=
  b.total ≤ taken.length ∨ b.perFile ≤ taken.countP (·.path == r.path) ∨
    ∃ cap, Fields.get? b.perKind r.kind.name = some cap ∧ cap ≤ taken.countP (·.kind == r.kind)

lemma hasRoom_iff : b.hasRoom taken r ↔ ¬ b.Full taken r := by
  simp only [hasRoom, Full, Bool.and_eq_true, decide_eq_true_eq, Option.all_eq_true, not_or, not_exists, not_and,
    Int.not_le, and_assoc]

/-- No room is overdrawn; a bound below zero leaves none. -/
structure Kept (b : Budget) (taken : List Risk) : Prop where
  total : (taken.length : Int) ≤ max 0 b.total
  perFile : ∀ path, (taken.countP (·.path == path) : Int) ≤ max 0 b.perFile
  perKind : ∀ kind cap, Fields.get? b.perKind kind.name = some cap → (taken.countP (·.kind == kind) : Int) ≤ max 0 cap

lemma Kept.concat (h : b.Kept taken) (hroom : ¬ b.Full taken r) : b.Kept (taken ++ [r]) := by
  simp only [Full, not_or, not_exists, not_and] at hroom
  obtain ⟨htotal, hfile, hkind⟩ := hroom
  refine ⟨?_, fun path => ?_, fun kind cap hcap => ?_⟩
  · rw [length_append, length_singleton]
    omega
  · have := h.perFile path
    rw [countP_append, countP_singleton]
    split
    · rename_i heq
      rw [eq_of_beq heq] at hfile
      omega
    · omega
  · have := h.perKind kind cap hcap
    rw [countP_append, countP_singleton]
    split
    · rename_i heq
      rw [eq_of_beq heq] at hkind
      have := hkind cap hcap
      omega
    · omega

/-- The risks of a list that are marked. -/
def chosen (marked : List (Risk × Bool)) : List Risk := (marked.filter (·.2)).map (·.1)

/-- Risks in the order of their ranks, of which some are taken: no room is overdrawn, and what is left out finds it used
up by those taken before. -/
structure Greedy (b : Budget) (marked : List (Risk × Bool)) : Prop where
  kept : b.Kept (chosen marked)
  full : ∀ n r, marked[n]? = some (r, false) → b.Full (chosen (marked.take n)) r

variable {marked : List (Risk × Bool)}

lemma chosen_concat (marked) (r) (taken : Bool) :
    chosen (marked ++ [(r, taken)]) = if taken then chosen marked ++ [r] else chosen marked := by
  cases taken <;> simp [chosen]

lemma Greedy.concat (h : b.Greedy marked) (r) : b.Greedy (marked ++ [(r, b.hasRoom (chosen marked) r)]) where
  kept := by
    rw [chosen_concat]
    split
    · exact h.kept.concat (hasRoom_iff.1 ‹_›)
    · exact h.kept
  full := by
    intro n s hn
    obtain hlt | hle := Nat.lt_or_ge n marked.length
    · rw [getElem?_append_left hlt] at hn
      rw [take_append_of_le_length hlt.le]
      exact h.full n s hn
    · rw [getElem?_append_right hle, getElem?_singleton] at hn
      split at hn
      · rw [take_left' (show marked.length = n by omega)]
        obtain ⟨rfl, hroom⟩ := Prod.mk.inj (some.inj hn)
        by_contra hfull
        rw [hasRoom_iff.2 hfull] at hroom
        cases hroom
      · cases hn

lemma exists_take (h : b.Greedy marked) (risks) : ∃ all, b.Greedy all ∧ all.map (·.1) = marked.map (·.1) ++ risks ∧
      risks.foldl (fun taken r => if b.hasRoom taken r then taken ++ [r] else taken) (chosen marked) = chosen all := by
  induction risks generalizing marked with
  | nil => exact ⟨marked, h, by simp, rfl⟩
  | cons r risks ih =>
    obtain ⟨all, hall, hrisks, htake⟩ := ih (h.concat r)
    refine ⟨all, hall, by simpa using hrisks, ?_⟩
    rw [foldl_cons, ← htake, chosen_concat]

/-- Room for one risk. An error counts twice. -/
def oneRisk : Budget := { total := 1, perFile := 5, severityWeights := [("error", 2.0)] }

def sureWarning : Risk := { kind := .intent, path := "a.py", lines := (1, 1), description := "", confidence := 0.75 }

def unsureError : Risk :=
  { kind := .intent, path := "b.py", lines := (1, 1), description := "", confidence := 0.5, severity := "Error" }

end Budget

end PatchReview.Risk
