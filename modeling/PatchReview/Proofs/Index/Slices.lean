import Mathlib.Data.Set.Card
import PatchReview.Proofs.Index.Tracing

/-!
# Slices

A slice takes nodes off a queue and adds those they lead to that were not seen before. All nodes that wait are about
equally far from the criteria, the nearer first, so that a new node is one step further than the one it was found from.
So the nodes are taken in the order of their distances, and a slice that is cut short has the nearest ones.
-/

namespace PatchReview

open Graph List

namespace Graph

variable {step : String → String → Prop} {next : String → List String} {starts done queue seen places : List String}
  {m n : String} {j limit : Nat}

lemma discover_eq (queue seen ns) :
    discover (queue, seen) ns = (queue ++ fresh seen ns, (fresh seen ns).reverse ++ seen) := by
  induction ns generalizing queue seen with
  | nil => simp [discover, fresh]
  | cons n ns ih =>
    change discover (if seen.contains n then (queue, seen) else (queue ++ [n], n :: seen)) ns = _
    by_cases hn : n ∈ seen
    · rw [if_pos (contains_iff_mem.2 hn), ih, fresh, if_pos hn]
    · rw [if_neg (by rwa [contains_iff_mem]), ih, fresh, if_neg hn]
      simp

/-- What is taken within a limit comes first within any greater one. -/
lemma take_spread (next limit more queue seen) :
    (spread next (limit + more) queue seen).take limit = spread next limit queue seen := by
  induction limit generalizing queue seen with
  | zero => simp [spread]
  | succ limit ih =>
    rw [Nat.add_right_comm]
    cases queue with
    | nil => rfl
    | cons n queue => rw [spread, spread, take_succ_cons, ih]

/-- A search on its way: what was taken leads to nothing new, the nodes taken and those that wait are in the order of
their distances, and none is more than one step further than one that waits. -/
structure Spreading (step : String → String → Prop) (starts done queue seen : Strings) : Prop where
  nodup : (done ++ queue).Nodup
  seen_iff : ∀ n, n ∈ seen ↔ n ∈ done ++ queue
  started : starts ⊆ done ++ queue
  reached : ∀ n ∈ done ++ queue, distance step starts n < ⊤
  closed : ∀ m ∈ done, ∀ n, step m n → n ∈ done ++ queue
  sorted : (done ++ queue).Pairwise fun m n => distance step starts m ≤ distance step starts n
  narrow : ∀ m ∈ queue, ∀ n ∈ done ++ queue, distance step starts n ≤ distance step starts m + 1

namespace Spreading

/-- What can be reached but was not seen lies behind a node that waits. -/
lemma escape (h : Spreading step starts done queue seen) (hn : ReachedWithin step starts j n)
    (hout : n ∉ done ++ queue) : ∃ m ∈ queue, distance step starts m + 1 ≤ j := by
  induction hn with
  | start hn => exact absurd (h.started hn) hout
  | @step j m n hm hstep ih =>
    by_cases hin : m ∈ done ++ queue
    · rcases mem_append.1 hin with hdone | hwait
      · exact absurd (h.closed m hdone n hstep) hout
      · have hle := distance_le_iff.2 hm
        refine ⟨m, hwait, ?_⟩
        push_cast
        gcongr
    · obtain ⟨x, hx, hle⟩ := ih hin
      exact ⟨x, hx, hle.trans (by exact_mod_cast Nat.le_succ j)⟩

section

variable (h : Spreading step starts done (m :: queue) seen)

include h

/-- The node that is taken next is as near as any that waits. -/
lemma head_le (hn : n ∈ m :: queue) : distance step starts m ≤ distance step starts n := by
  rcases mem_cons.1 hn with rfl | hn
  · exact le_rfl
  · exact (pairwise_cons.1 (pairwise_append.1 h.sorted).2.1).1 n hn

/-- A new node is one step further than the node it was found from. -/
lemma distance_of_new (hstep : step m n)
    (hnew : n ∉ done ++ m :: queue) : distance step starts n = distance step starts m + 1 := by
  refine le_antisymm (distance_le_add_one hstep) (le_distance_iff.2 fun k hk => ?_)
  obtain ⟨x, hx, hle⟩ := h.escape hk hnew
  refine le_trans ?_ hle
  gcongr
  exact h.head_le hx

/-- Taking a node keeps a search on its way. -/
lemma take (hnext : ∀ m n, n ∈ next m ↔ step m n) :
    Spreading step starts (done ++ [m]) (queue ++ fresh seen (next m)) ((fresh seen (next m)).reverse ++ seen) := by
  have hall : (done ++ [m]) ++ (queue ++ fresh seen (next m)) = (done ++ m :: queue) ++ fresh seen (next m) := by simp
  have hfresh : ∀ n, n ∈ fresh seen (next m) ↔ step m n ∧ n ∉ done ++ m :: queue := fun n => by
    rw [mem_fresh_iff, hnext, h.seen_iff]
  have hfar : ∀ n ∈ fresh seen (next m), distance step starts n = distance step starts m + 1 :=
    fun n hn => h.distance_of_new ((hfresh n).1 hn).1 ((hfresh n).1 hn).2
  have hnear : ∀ n ∈ (done ++ m :: queue) ++ fresh seen (next m),
      distance step starts n ≤ distance step starts m + 1 :=
    forall_mem_append.2 ⟨h.narrow m mem_cons_self, fun n hn => (hfar n hn).le⟩
  constructor <;> rw [hall]
  · exact h.nodup.append (nodup_fresh _ _) fun n hn hn' => ((hfresh n).1 hn').2 hn
  · intro n
    rw [mem_append, mem_append, mem_reverse, h.seen_iff, or_comm]
  · exact fun n hn => mem_append_left _ (h.started hn)
  · intro n hn
    refine (hnear n hn).trans_lt (ENat.add_lt_top.2 ⟨h.reached m ?_, ENat.one_lt_top⟩)
    simp
  · intro x hx n hstep
    rcases mem_append.1 hx with hx | hx
    · exact mem_append_left _ (h.closed x hx n hstep)
    · cases mem_singleton.1 hx
      by_cases hin : n ∈ done ++ m :: queue
      · exact mem_append_left _ hin
      · exact mem_append_right _ ((hfresh n).2 ⟨hstep, hin⟩)
  · refine pairwise_append.2 ⟨h.sorted, pairwise_of_forall_mem_list fun x hx y hy => ?_, fun x hx y hy => ?_⟩
    · rw [hfar x hx, hfar y hy]
    · rw [hfar y hy]
      exact hnear x (mem_append_left _ hx)
  · intro x hx n hn
    refine (hnear n hn).trans ?_
    gcongr
    rcases mem_append.1 hx with hx | hx
    · exact h.head_le (mem_cons_of_mem _ hx)
    · rw [hfar x hx]
      exact le_self_add

end

/-- A search with a limit above the number of places takes all that can be reached. -/
lemma spread (h : Spreading step starts done queue seen) (hnext : ∀ m n, n ∈ next m ↔ step m n)
    (hplaces : ∀ n ∈ reachable step starts, n ∈ places) (hlimit : places.length ≤ done.length + limit) :
    ∃ seen', Spreading step starts (done ++ spread next limit queue seen) [] seen' := by
  induction limit generalizing done queue seen with
  | zero =>
    have hsub : (done ++ queue).length ≤ places.length :=
      (subperm_of_subset h.nodup fun n hn => hplaces n (mem_reachable_iff.2 (h.reached n hn))).length_le
    rw [length_append] at hsub
    obtain rfl : queue = [] := eq_nil_of_length_eq_zero (by omega)
    rw [spread, append_nil]
    exact ⟨seen, h⟩
  | succ limit ih =>
    cases queue with
    | nil =>
      rw [spread, append_nil]
      exact ⟨seen, h⟩
    | cons m queue =>
      rw [spread, discover_eq, append_cons]
      exact ih (h.take hnext) (by rw [length_append, length_singleton]; omega)

/-- A search that has ended has taken all that can be reached. -/
lemma mem_done_iff (h : Spreading step starts done [] seen) : n ∈ done ↔ n ∈ reachable step starts := by
  have hreached := h.reached n
  rw [append_nil] at hreached
  refine ⟨fun hn => mem_reachable_iff.2 (hreached hn), ?_⟩
  rintro ⟨k, hk⟩
  by_contra hout
  obtain ⟨m, hm, -⟩ := h.escape hk (by rwa [append_nil])
  cases hm

end Spreading

end Graph

/-! ## The nearest nodes -/

/-- What a breadth-first search takes: nodes that can be reached, each once and the nearer first, as many as allowed or
as there are, and none left out that is nearer than the last. -/
structure BreadthFirst (step : String → String → Prop) (starts : Strings) (most : Nat) (taken : Strings) :
    Prop where
  nodup : taken.Nodup
  reached : ∀ n ∈ taken, n ∈ reachable step starts
  sorted : taken.Pairwise fun m n => distance step starts m ≤ distance step starts n
  length : (taken.length : ℕ∞) = min (most : ℕ∞) (reachable step starts).encard
  nearest : ∀ last, taken.getLast? = some last → ∀ n, distance step starts n < distance step starts last → n ∈ taken

namespace BreadthFirst

variable {step : String → String → Prop} {starts order taken : List String} {most : Nat} {n : String}

/-- The first nodes of all that can be reached in the order of their distances. -/
lemma of_order (hnodup : order.Nodup) (hmem : ∀ n, n ∈ order ↔ n ∈ reachable step starts)
    (hsorted : order.Pairwise fun m n => distance step starts m ≤ distance step starts n) (most) :
    BreadthFirst step starts most (order.take most) where
  nodup := hnodup.sublist (take_sublist _ _)
  reached n hn := (hmem n).1 (mem_of_mem_take hn)
  sorted := hsorted.sublist (take_sublist _ _)
  length := by
    have hset : reachable step starts = (order.toFinset : Set String) := by
      ext n
      rw [Finset.mem_coe, mem_toFinset, hmem]
    rw [hset, Set.encard_coe_eq_coe_finsetCard, toFinset_card_of_nodup hnodup, length_take]
    exact_mod_cast rfl
  nearest last hlast n hn := by
    have hin : n ∈ order.take most ++ order.drop most := by
      rw [take_append_drop, hmem, mem_reachable_iff]
      exact hn.trans_le le_top
    refine (mem_append.1 hin).resolve_right fun hdrop => hn.not_ge ?_
    rw [← take_append_drop most order] at hsorted
    exact (pairwise_append.1 hsorted).2.2 last (mem_of_getLast? hlast) n hdrop

/-- A search that may take as many nodes as there are takes them all. -/
lemma mem_iff (h : BreadthFirst step starts most taken) (hmost : (reachable step starts).encard ≤ most) :
    n ∈ taken ↔ n ∈ reachable step starts := by
  have hcard : (taken.toFinset : Set String).encard = (reachable step starts).encard := by
    rw [Set.encard_coe_eq_coe_finsetCard, toFinset_card_of_nodup h.nodup, h.length, min_eq_right hmost]
  have hall : (taken.toFinset : Set String) = reachable step starts :=
    taken.toFinset.finite_toSet.eq_of_subset_of_encard_le (fun n hn => h.reached n (mem_toFinset.1 hn)) hcard.ge
  rw [← mem_toFinset, ← Finset.mem_coe, hall]

/-- A search that took fewer nodes than it may has room for all. -/
lemma encard_le (h : BreadthFirst step starts most taken) (hfew : taken.length < most) :
    (reachable step starts).encard ≤ most := by
  by_contra hmore
  have hlength := h.length
  rw [min_eq_left (not_le.1 hmore).le, Nat.cast_inj] at hlength
  omega

end BreadthFirst

/-! ## Slices of an index -/

namespace Index

variable {ix : Index} {dir : Direction} {criteria : List String} {o : SliceOptions}

lemma spreading_once (step) (criteria) : Graph.Spreading step criteria [] (once criteria) (once criteria) := by
  have hzero : ∀ n ∈ once criteria, distance step criteria n = 0 := fun n hn => distance_eq_zero (mem_once_iff.1 hn)
  constructor <;> rw [nil_append]
  · exact nodup_once criteria
  · exact fun n => Iff.rfl
  · exact fun n hn => mem_once_iff.2 hn
  · intro n hn
    rw [hzero n hn]
    exact ENat.top_pos
  · intro m hm
    cases hm
  · refine pairwise_of_forall_mem_list fun m hm n hn => ?_
    rw [hzero m hm, hzero n hn]
  · intro m _ n hn
    rw [hzero n hn]
    exact zero_le

/-- A slice reads all edges of its kinds at every node. -/
def SliceOptions.ReadsEdges (o : SliceOptions) (ix : Index) (dir : Direction) : Prop :=
  ∀ n, ((ix.edgesAlong dir o.kinds n).length : Int) ≤ o.perNode.toInt

lemma breadthFirst_slice (hread : o.ReadsEdges ix dir) (criteria) :
    BreadthFirst (ix.Leads dir o.kinds) criteria o.maxNodes.toNat (ix.slice dir criteria o) := by
  have hplaces : ∀ n ∈ reachable (ix.Leads dir o.kinds) criteria, n ∈ criteria ++ ix.edges.map dir.far := by
    rintro n ⟨k, hk⟩
    cases hk with
    | start hn => exact mem_append_left _ hn
    | step _ hstep =>
      obtain ⟨e, he, -, -, rfl⟩ := hstep
      exact mem_append_right _ (mem_map_of_mem he)
  have hlimit : (criteria ++ ix.edges.map dir.far).length ≤
      ([] : Strings).length + (o.maxNodes.toNat + (criteria ++ ix.edges.map dir.far).length) := by omega
  obtain ⟨seen, hdone⟩ := (spreading_once (ix.Leads dir o.kinds) criteria).spread
    (fun m n => mem_neighborsAlong_iff (.inr (hread m))) hplaces hlimit
  -- the slice is the beginning of one whose limit does not bind
  rw [slice, ← take_spread _ _ (criteria ++ ix.edges.map dir.far).length]
  refine .of_order ?_ (fun n => hdone.mem_done_iff) ?_ _
  · simpa using hdone.nodup
  · simpa using hdone.sorted

lemma mem_reachable_turned {kinds m n} :
    n ∈ reachable (ix.Leads dir.turned kinds) [m] ↔ m ∈ reachable (ix.Leads dir kinds) [n] := by
  have hturned : ix.Leads dir.turned kinds = fun a b => ix.Leads dir kinds b a := by
    ext a b
    exact leads_turned
  rw [hturned, ← mem_reachable_turn]

/-- A slice that reads all edges is a breadth-first search. Where there is room for all that can be reached, one node is
in the slice of another exactly when that one is in its slice in the other direction. -/
theorem slice_breadth_first (ix : Index) (dir : Direction) (o : SliceOptions) (hread : o.ReadsEdges ix dir) :
    (∀ criteria, BreadthFirst (ix.Leads dir o.kinds) criteria o.maxNodes.toNat (ix.slice dir criteria o)) ∧
      (o.ReadsEdges ix dir.turned → ∀ m n, (reachable (ix.Leads dir o.kinds) [n]).encard ≤ o.maxNodes.toNat →
        (reachable (ix.Leads dir.turned o.kinds) [m]).encard ≤ o.maxNodes.toNat →
        (m ∈ ix.slice dir [n] o ↔ n ∈ ix.slice dir.turned [m] o)) := by
  refine ⟨breadthFirst_slice hread, fun hback m n hroom hroom' => ?_⟩
  rw [(breadthFirst_slice hread [n]).mem_iff hroom, (breadthFirst_slice hback [m]).mem_iff hroom', mem_reachable_turned]

/-- In a store with a round trip, both slices of the nodes at its ends have all four nodes, and a slice of three leaves
out one of the two that are furthest. -/
theorem round_store_slices : (∀ dir, ({} : SliceOptions).ReadsEdges roundStore dir) ∧
      roundStore.slice .out ["s", "s"] {} = ["s", "m", "k", "c"] ∧
      BreadthFirst (roundStore.Leads .out ({} : SliceOptions).kinds) ["s", "s"] 500
        (roundStore.slice .out ["s", "s"] {}) ∧
      roundStore.slice .out ["s"] { maxNodes := 3 } = ["s", "m", "k"] ∧
      BreadthFirst (roundStore.Leads .out ({} : SliceOptions).kinds) ["s"] 3
        (roundStore.slice .out ["s"] { maxNodes := 3 }) ∧
      roundStore.slice .into ["k"] {} = ["k", "m", "c", "s"] ∧
      ("k" ∈ roundStore.slice .out ["s"] {} ↔ "s" ∈ roundStore.slice .into ["k"] {}) := by
  have hread : ∀ (o : SliceOptions), 5 ≤ o.perNode.toInt → ∀ dir, o.ReadsEdges roundStore dir := fun o ho dir n =>
    (Int.ofNat_le.mpr (List.length_filter_le _ _)).trans ho
  have hout : roundStore.slice .out ["s"] {} = ["s", "m", "k", "c"] := by
    rw [slice, plain_roundStore.neighborsAlong_eq _ _ (by decide)]
    decide +kernel
  have hinto : roundStore.slice .into ["k"] {} = ["k", "m", "c", "s"] := by
    rw [slice, plain_roundStore.neighborsAlong_eq _ _ (by decide)]
    decide +kernel
  obtain ⟨hslices, hback⟩ := slice_breadth_first roundStore .out {} (hread _ (by decide) _)
  refine ⟨hread _ (by decide), ?_, hslices ["s", "s"], ?_,
    (slice_breadth_first roundStore .out { maxNodes := 3 } (hread _ (by decide) _)).1 ["s"], hinto,
    hback (hread _ (by decide) _) _ _ ((hslices ["s"]).encard_le ?_)
      ((breadthFirst_slice (hread _ (by decide) _) ["k"]).encard_le ?_)⟩
  · rw [slice, plain_roundStore.neighborsAlong_eq _ _ (by decide)]
    decide +kernel
  · rw [slice, plain_roundStore.neighborsAlong_eq _ _ (by decide)]
    decide +kernel
  · rw [hout]
    decide
  · change (roundStore.slice .into ["k"] {}).length < 500
    rw [hinto]
    decide

end Index

end PatchReview
