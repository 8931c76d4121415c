import PatchReview.Proofs.Inquiry.Region
import PatchReview.Proofs.Inquiry.Shortest

/-!
# The budget of a slice

A slice stops once it has noted as many nodes as it may have, but it counts them only between two nodes: of the node in
front all edges are taken, up to five hundred. So a slice keeps to its budget exactly when no round that starts below
the budget ends above it, and it never exceeds the budget by five hundred or more.
-/

namespace PatchReview.Inquiry

open Index (EdgeRow)
open Index List Nat

variable {ix : Index} {rev n : String} {o : WalkOptions} {j k fuel : Nat} {reached : Reached}
  {queue : List (String × Nat)} {state : Reached × List (String × Nat)} {starts targets : List String}

/-! ## Rounds of a walk -/

/-- One round of a walk, whatever its budget: the node in front leaves the queue, and its edges are taken unless it is
too far. -/
def advance (ix : Index) (rev : String) (o : WalkOptions) :
    Reached × List (String × Nat) → Reached × List (String × Nat)
  | (reached, []) => (reached, [])
  | (reached, (node, steps) :: queue) =>
    if o.maxSteps ≤ steps then (reached, queue)
    else ((expand ix rev o node steps reached).1, queue ++ (expand ix rev o node steps reached).2)

/-- A walk after some rounds. -/
def rounds (ix : Index) (rev : String) (o : WalkOptions) (starts : Strings) (j : Nat) :
    Reached × List (String × Nat) :=
  (advance ix rev o)^[j] ((once starts).map (·, none), starts.map (·, 0))

lemma rounds_succ (ix rev o starts j) : rounds ix rev o starts (j + 1) = advance ix rev o (rounds ix rev o starts j) :=
  Function.iterate_succ_apply' _ j _

lemma length_takenEdges_le (ix rev o n) : (takenEdges ix rev o n).length ≤ 500 := by
  unfold takenEdges edgesAtRev limited
  exact length_take_le 500 _

/-- A round adds to the notes, and not more than the edges that are taken from one node. -/
lemma exists_advance (ix rev o state) : ∃ more, (advance ix rev o state).1 = state.1 ++ more ∧ more.length ≤ 500 := by
  obtain ⟨reached, queue⟩ := state
  cases queue with
  | nil => exact ⟨[], by simp [advance], by simp⟩
  | cons p queue =>
    obtain ⟨node, steps⟩ := p
    rw [advance]
    split
    · exact ⟨[], by simp, by simp⟩
    · obtain ⟨new, heq, -, hfar⟩ := exists_expand ix rev o node steps reached
      refine ⟨_, by rw [heq], ?_⟩
      have hsub := subperm_of_subset (nodup_fresh reached.names (onward ix rev o node)) fun n hn => (mem_fresh_iff.1 hn).1
      have hle := hsub.length_le
      rw [← hfar, onward, length_map, length_map] at hle
      rw [length_map]
      exact hle.trans (length_takenEdges_le ix rev o node)

lemma prefix_rounds (hjk : j ≤ k) : (rounds ix rev o starts j).1 <+: (rounds ix rev o starts k).1 := by
  induction k, hjk using le_induction with
  | base => exact prefix_rfl
  | succ k _ ih =>
    obtain ⟨more, heq, -⟩ := exists_advance ix rev o (rounds ix rev o starts k)
    rw [rounds_succ]
    exact ih.trans ⟨more, heq.symm⟩

/-- Nothing happens any more once the queue is empty. -/
lemma rounds_of_nil (hempty : (rounds ix rev o starts j).2 = []) (hjk : j ≤ k) :
    rounds ix rev o starts k = rounds ix rev o starts j := by
  induction k, hjk using le_induction with
  | base => rfl
  | succ k _ ih =>
    rw [rounds_succ, ih, ← Prod.mk.eta (p := rounds ix rev o starts j), hempty]
    rfl

/-! ## Where a walk ends -/

/-- A walk with a budget ends after the first round at whose end the budget is used up or the queue is empty. -/
lemma exists_walk_eq (hgoal : o.goal = none) (htargets : ∀ n, onward ix rev o n ⊆ targets)
    (hfuel : queue.length + (unvisited targets reached.names).length < fuel) :
    ∃ j, walk ix rev o fuel reached queue = ((advance ix rev o)^[j] (reached, queue)).1 ∧
      (o.maxNodes ≤ ((advance ix rev o)^[j] (reached, queue)).1.length ∨
        ((advance ix rev o)^[j] (reached, queue)).2 = []) ∧
      ∀ i < j, ((advance ix rev o)^[i] (reached, queue)).1.length < o.maxNodes := by
  induction fuel generalizing reached queue with
  | zero => omega
  | succ fuel ih =>
    cases queue with
    | nil => exact ⟨0, rfl, .inr rfl, by simp⟩
    | cons p queue =>
      obtain ⟨node, steps⟩ := p
      by_cases hfull : o.maxNodes ≤ reached.length
      · exact ⟨0, by rw [walk, if_pos hfull]; rfl, .inl hfull, by simp⟩
      · have hstep : walk ix rev o (fuel + 1) reached ((node, steps) :: queue) =
            walk ix rev o fuel (advance ix rev o (reached, (node, steps) :: queue)).1
              (advance ix rev o (reached, (node, steps) :: queue)).2 := by
          rw [walk, if_neg hfull, hgoal, advance]
          by_cases hfar : o.maxSteps ≤ steps
          · simp [hfar]
          · simp [hfar]
        have hless : (advance ix rev o (reached, (node, steps) :: queue)).2.length +
            (unvisited targets (advance ix rev o (reached, (node, steps) :: queue)).1.names).length < fuel := by
          rw [length_cons] at hfuel
          have hle := length_expand_le (htargets node) steps reached queue
          rw [advance]
          split <;> dsimp only <;> omega
        obtain ⟨j, hwalk, hend, hroom⟩ := ih hless
        refine ⟨j + 1, hstep.trans hwalk, hend, fun i hi => ?_⟩
        cases i with
        | zero => exact Int.not_le.1 hfull
        | succ i => exact hroom i (lt_of_succ_lt_succ hi)

lemma exists_reach_eq (ix rev) (hgoal : o.goal = none) (starts) :
    ∃ j, reach ix rev o starts = (rounds ix rev o starts j).1 ∧
      (o.maxNodes ≤ (rounds ix rev o starts j).1.length ∨ (rounds ix rev o starts j).2 = []) ∧
      ∀ i < j, (rounds ix rev o starts i).1.length < o.maxNodes := by
  refine exists_walk_eq hgoal (onward_subset ix rev o) ?_
  have hle := length_unvisited_le (ix.edges.map o.direction.far) (Reached.names ((once starts).map (·, none)))
  rw [length_map] at hle ⊢
  omega

/-! ## What is returned -/

lemma length_located_le (ix) (h : reached <+: state.1) :
    (located ix reached.names).length ≤ (located ix state.1.names).length := by
  exact ((h.sublist.map _).filterMap _).length_le

lemma reachedNodes_eq {asked} (hasked : ix.requireRevision asked = .ok rev) (o starts) :
    reachedNodes ix asked o starts = if (reach ix rev o starts).length ≤ mostParameters then
      .ok (.found [("rev", .text rev), ("nodes", .list (nodeRecords (located ix (reach ix rev o starts).names))),
        ("count", .nat (nodeRecords (located ix (reach ix rev o starts).names)).length)])
    else .error (.operation "too many SQL variables") := by
  have hnames : ((reach ix rev o starts).map (·.1)).length = (reach ix rev o starts).length := length_map _
  rw [reachedNodes, hasked]
  change nodeHits ix "node" ((reach ix rev o starts).map (·.1)) >>= _ = _
  rw [nodeHits_eq, hnames]
  split <;> rfl

/-- What a slice or a query returns exceeds its budget by less than the edges that are taken from one node, and keeps to
it exactly when no round that starts below the budget ends with more nodes in files. Only a budget that is larger than a
statement can ask for may leave it without an answer. -/
theorem within_budget_iff {asked : Option String} (hasked : ix.requireRevision asked = .ok rev) (hgoal : o.goal = none)
    (hstarts : ((once starts).length : Int) ≤ o.maxNodes) :
    (∃ nodes, reachedNodes ix asked o starts =
        .ok (.found [("rev", .text rev), ("nodes", .list nodes), ("count", .nat nodes.length)]) ∧
      (nodes.length : Int) < o.maxNodes + 500 ∧
      ((nodes.length : Int) ≤ o.maxNodes ↔ ∀ j, ((rounds ix rev o starts j).1.length : Int) < o.maxNodes →
        ((located ix (rounds ix rev o starts (j + 1)).1.names).length : Int) ≤ o.maxNodes)) ∨
    (reachedNodes ix asked o starts = .error (.operation "too many SQL variables") ∧
      (mostParameters : Int) < o.maxNodes + 500) := by
  obtain ⟨j, hreach, hend, hbefore⟩ := exists_reach_eq ix rev hgoal starts
  have hle : (located ix (rounds ix rev o starts j).1.names).length ≤ (rounds ix rev o starts j).1.length := by
    refine (List.length_filterMap_le _ _).trans (le_of_eq ?_)
    exact List.length_map _
  have hzero : (rounds ix rev o starts 0).1.length = (once starts).length := List.length_map _
  have hover : ((rounds ix rev o starts j).1.length : Int) < o.maxNodes + 500 := by
    cases j with
    | zero => omega
    | succ j =>
      obtain ⟨more, heq, hmore⟩ := exists_advance ix rev o (rounds ix rev o starts j)
      have hlt := hbefore j (lt_succ_self j)
      rw [rounds_succ, heq, List.length_append]
      omega
  rw [reachedNodes_eq hasked, hreach]
  by_cases hroom : (rounds ix rev o starts j).1.length ≤ mostParameters
  · refine .inl ⟨_, if_pos hroom, ?_, ?_⟩
    · rw [length_nodeRecords]
      omega
    · rw [length_nodeRecords]
      constructor
      · -- a round below the budget comes before the end, or nothing happens in it any more
        intro hkept i hi
        rcases lt_or_ge i j with hij | hji
        · have := length_located_le ix (prefix_rounds hij : (rounds ix rev o starts (i + 1)).1 <+: _)
          omega
        · have hmono := (prefix_rounds hji : (rounds ix rev o starts j).1 <+: _).length_le
          have hempty := hend.resolve_left (by omega)
          rw [rounds_of_nil hempty (le_succ_of_le hji)]
          exact hkept
      · intro hrounds
        cases j with
        | zero => omega
        | succ j => exact hrounds j (hbefore j (lt_succ_self j))
  · exact .inr ⟨if_neg hroom, by omega⟩

/-- A store in which `a` leads to `b` and `c`. -/
def hubStore : Index where
  revisions := [⟨some "r", none, 0⟩]
  files := [⟨1, "/p.py", "python"⟩]
  versions := [⟨"r", 1, "x", 0⟩]
  nodes := ["a", "b", "c"].map fun n => ⟨n, "x", 1, "python", "call", ⟨0, 1, 1, 1, 1, 2⟩, ""⟩
  edges := ["b", "c"].map fun n => ⟨"x", 1, "a", n, "DDG", ""⟩

/-- A slice of the store. -/
def hubSlice (maxNodes : Int) : WalkOptions := { kinds := ["DDG"], maxNodes }

lemma requireRevision_hubStore : hubStore.requireRevision (some "r") = .ok "r" :=
  requireRevision_eq_ok_iff.2 ⟨by decide, by decide +kernel⟩

lemma edgesAtRev_hubStore (n) :
    hubStore.edgesAtRev "r" .out ["DDG"] edgeLimit n = hubStore.edges.filter (·.src == n) := by
  have hedge : ∀ e ∈ hubStore.edges.filter (·.src == n),
      e.kind = "DDG" ∧ hubStore.visibleAt "r" e.fileId e.blob := by
    intro e he
    have hall : ∀ e ∈ hubStore.edges, e.kind = "DDG" ∧ hubStore.visibleAt "r" e.fileId e.blob := by decide
    exact hall e (mem_filter.1 he).1
  change limited _ ((sortOn _ (hubStore.edges.filter (·.src == n))).filter _) = _
  rw [sortOn_of_key fun e he => (hedge e he).1, filter_eq_self.2, limited_of_le]
  · exact (Int.ofNat_le.2 (length_filter_le _ _)).trans (by decide)
  · intro e he
    rw [(hedge e he).1, (hedge e he).2]
    rfl

lemma expand_hubStore (maxNodes) : expand hubStore "r" (hubSlice maxNodes) "a" 0 [("a", none)] =
    ([("a", none), ("b", some ("a", "DDG")), ("c", some ("a", "DDG"))], [("b", 1), ("c", 1)]) := by
  unfold expand
  change List.foldl _ _ (hubStore.edgesAtRev "r" .out ["DDG"] edgeLimit "a") = _
  rw [edgesAtRev_hubStore]
  rfl

/-- A slice of the store with room for three nodes keeps to its budget: the first round takes them all. -/
theorem hub_store_within_budget : ((once ["a", "a"]).length : Int) ≤ 3 ∧
    ∃ nodes, reachedNodes hubStore (some "r") (hubSlice 3) ["a", "a"] =
        .ok (.found [("rev", .text "r"), ("nodes", .list nodes), ("count", .nat nodes.length)]) ∧
      (nodes.length : Int) ≤ 3 := by
  have hfirst : (rounds hubStore "r" (hubSlice 3) ["a", "a"] 1).1 =
      [("a", none), ("b", some ("a", "DDG")), ("c", some ("a", "DDG"))] := by
    rw [rounds_succ]
    change (if _ then _ else _ : Reached × List (String × Nat)).1 = _
    rw [if_neg (by decide)]
    exact congrArg Prod.fst (expand_hubStore 3)
  have hstarts : ((once ["a", "a"]).length : Int) ≤ (hubSlice 3).maxNodes := by decide
  rcases within_budget_iff requireRevision_hubStore rfl hstarts with
    ⟨nodes, hrun, -, hkept⟩ | ⟨-, hmany⟩
  · refine ⟨by decide, nodes, hrun, hkept.2 fun j hj => ?_⟩
    cases j with
    | zero =>
      rw [hfirst]
      decide +kernel
    | succ j =>
      have hle := (prefix_rounds (Nat.le_add_left 1 j) : (rounds hubStore "r" (hubSlice 3) ["a", "a"] 1).1 <+: _).length_le
      rw [hfirst] at hle
      exact absurd (Int.ofNat_le.2 hle) (Int.not_le.2 hj)
  · exact absurd hmany (by decide)

/-- With a budget of two, the slice of `a` has three nodes. -/
theorem hub_exceeds_budget : ((once ["a"]).length : Int) ≤ 2 ∧
      ∃ nodes, reachedNodes hubStore (some "r") (hubSlice 2) ["a"] =
          .ok (.found [("rev", .text "r"), ("nodes", .list nodes), ("count", .nat nodes.length)]) ∧
        nodes.length = 3 := by
  have hreach : reach hubStore "r" (hubSlice 2) ["a"] =
      [("a", none), ("b", some ("a", "DDG")), ("c", some ("a", "DDG"))] := by
    change walk hubStore "r" _ 4 [("a", none)] [("a", 0)] = _
    rw [walk, if_neg (by decide), if_neg (by decide), if_neg (by decide), expand_hubStore]
    rfl
  have hlocated : (located hubStore ["a", "b", "c"]).length = 3 := by decide +kernel
  refine ⟨by decide, _, ?_, (length_nodeRecords _).trans hlocated⟩
  rw [reachedNodes_eq requireRevision_hubStore, hreach]
  exact if_pos (by decide)

end PatchReview.Inquiry
