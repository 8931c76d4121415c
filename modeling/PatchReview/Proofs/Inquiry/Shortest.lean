import PatchReview.Proofs.Index.Slices
import PatchReview.Proofs.Inquiry.Isolation

/-!
# Shortest paths

A walk over the graph of a revision goes breadth first and notes for each node it reaches the node and the kind of edge
it came from. What is noted waits in the queue or has left it, so the walk spreads like any breadth-first search: every
node is noted at its distance from the start, and the notes lead back on a shortest path.
-/

namespace PatchReview.Inquiry

open Index (EdgeRow)
open Fields Index Inquiry List Nat

variable {ix : Index} {rev : String} {o : WalkOptions} {start m n : String} {k fuel : Nat} {reached : Reached}
  {queue : List (String × Nat)} {targets nodes kinds : List String} {e : EdgeRow}

/-! ## Distances -/

section

variable (ix rev o start)

/-- The edges that a walk takes from a node. -/
def takenEdges (node : String) : List EdgeRow :=
  ix.edgesAtRev rev o.direction o.kinds edgeLimit node

/-- The nodes that they lead to. -/
def onward (node : String) : Strings := (takenEdges ix rev o node).map o.direction.far

/-- One node leads to another along an edge that a walk takes. -/
abbrev Onward (m n : String) : Prop := n ∈ onward ix rev o m

/-- The least number of edges over which a node is reached. -/
noncomputable abbrev stepsTo (n : String) : ℕ∞ := distance (Onward ix rev o) [start] n

end

/-! ## What one step notes -/

/-- The nodes that are noted. -/
def Reached.names (reached : Reached) : Strings := reached.map (·.1)

lemma has_iff_mem_names : has reached n ↔ n ∈ reached.names := by simp [has, Reached.names]

/-- Taking the edges of a node notes the new ones of the nodes they lead to, each with an edge. -/
lemma exists_expand (ix rev o node steps reached) : ∃ new : List EdgeRow, expand ix rev o node steps reached =
        (reached ++ new.map (fun e => (o.direction.far e, some (node, e.kind))),
          new.map fun e => (o.direction.far e, steps + 1)) ∧
      new ⊆ takenEdges ix rev o node ∧ new.map o.direction.far = fresh reached.names (onward ix rev o node) := by
  have hfold (es : List EdgeRow) (st : Reached × List (String × Nat)) : ∃ new : List EdgeRow,
      es.foldl (fun p e => if has p.1 (o.direction.far e) then p
          else (p.1 ++ [(o.direction.far e, some (node, e.kind))], p.2 ++ [(o.direction.far e, steps + 1)])) st =
        (st.1 ++ new.map (fun e => (o.direction.far e, some (node, e.kind))),
          st.2 ++ new.map fun e => (o.direction.far e, steps + 1)) ∧
      new ⊆ es ∧ new.map o.direction.far = fresh st.1.names (es.map o.direction.far) := by
    induction es generalizing st with
    | nil => exact ⟨[], by simp, by simp, rfl⟩
    | cons e es ih =>
      rw [foldl_cons, map_cons, fresh]
      by_cases hknown : o.direction.far e ∈ st.1.names
      · rw [if_pos (has_iff_mem_names.2 hknown), if_pos hknown]
        obtain ⟨new, heq, hsub, hfar⟩ := ih st
        exact ⟨new, heq, subset_cons_of_subset e hsub, hfar⟩
      · rw [if_neg (mt has_iff_mem_names.1 hknown), if_neg hknown]
        obtain ⟨new, heq, hsub, hfar⟩ := ih
          (st.1 ++ [(o.direction.far e, some (node, e.kind))], st.2 ++ [(o.direction.far e, steps + 1)])
        refine ⟨e :: new, by simp [heq], cons_subset_cons e hsub, ?_⟩
        rw [map_cons, hfar]
        exact congrArg _ (fresh_congr (fun n => by simp [Reached.names, or_comm]) _)
  exact hfold (takenEdges ix rev o node) (reached, [])

lemma onward_subset (ix rev o n) : onward ix rev o n ⊆ ix.edges.map o.direction.far :=
  map_subset _ fun _ he => (mem_edgesAtRev he).1

/-- A node that joins the queue is one fewer to come. -/
lemma length_expand_le (htargets : onward ix rev o n ⊆ targets) (k reached queue) :
    (queue ++ (expand ix rev o n k reached).2).length +
        (unvisited targets (expand ix rev o n k reached).1.names).length ≤
      queue.length + (unvisited targets reached.names).length := by
  obtain ⟨new, heq, -, hfar⟩ := exists_expand ix rev o n k reached
  have hle := length_fresh_add_le reached.names (expand ix rev o n k reached).1.names htargets
    fun m => by rw [← hfar]; simp [heq, Reached.names]
  rw [← hfar, length_map] at hle
  simp only [heq, length_append, length_map] at hle ⊢
  omega

/-! ## What a walk keeps -/

variable (ix rev o start) in
/-- The notes of a walk: every node stands there once, with the edge of a nearer node it was reached by, the start
apart. -/
structure Tree (reached : Reached) : Prop where
  names : reached.names.Nodup
  depth : ∀ n ∈ reached.names, stepsTo ix rev o start n ≤ o.maxSteps.toNat ∧ stepsTo ix rev o start n < reached.length
  orphan : ∀ n, (n, none) ∈ reached → n = start
  parent : ∀ n m kind, (n, some (m, kind)) ∈ reached → m ∈ reached.names ∧
    (∃ e ∈ takenEdges ix rev o m, o.direction.far e = n ∧ e.kind = kind) ∧
    stepsTo ix rev o start n = stepsTo ix rev o start m + 1

variable (ix rev o start) in
/-- A walk on its way: it spreads from the start, and nodes wait in the queue with their distances. -/
structure Walking (reached : Reached) (queue : List (String × Nat)) : Prop extends Tree ix rev o start reached where
  spreads : ∃ done, Graph.Spreading (Onward ix rev o) [start] done (queue.map (·.1)) reached.names
  waiting : ∀ p ∈ queue, distance (Onward ix rev o) [start] p.1 = p.2

lemma walking_start (ix rev o start) : Walking ix rev o start [(start, none)] [(start, 0)] where
  names := by simp [Reached.names]
  depth := by simp [Reached.names, distance_eq_zero]
  orphan := by simp
  parent := by simp
  spreads := ⟨[], spreading_once (Onward ix rev o) [start]⟩
  waiting := by simp [distance_eq_zero]

/-- Once all that wait are as far away as the walk may go, what is near enough is noted. -/
lemma Walking.mem_names (h : Walking ix rev o start reached queue) (hfar : ∀ p ∈ queue, o.maxSteps ≤ p.2)
    (hn : stepsTo ix rev o start n ≤ o.maxSteps.toNat) : n ∈ reached.names := by
  obtain ⟨done, hspread⟩ := h.spreads
  by_contra hout
  obtain ⟨m, hm, hle⟩ := hspread.escape (distance_le_iff.1 hn) (mt (hspread.seen_iff n).2 hout)
  obtain ⟨p, hp, rfl⟩ := mem_map.1 hm
  have := hfar p hp
  rw [h.waiting p hp] at hle
  norm_cast at hle
  omega

section

variable (h : Walking ix rev o start reached ((n, k) :: queue))

include h

/-- The node at the head of the queue is nearest. -/
lemma Walking.head_le : ∀ p ∈ (n, k) :: queue, k ≤ p.2 := by
  obtain ⟨done, hspread⟩ := h.spreads
  intro p hp
  have hle := hspread.head_le (mem_map_of_mem hp)
  rw [h.waiting p hp, h.waiting (n, k) mem_cons_self] at hle
  exact_mod_cast hle

/-- Taking the edges of a node that is near enough keeps a walk on its way. -/
lemma Walking.expand (hnear : (k : Int) < o.maxSteps) :
    Walking ix rev o start (expand ix rev o n k reached).1 (queue ++ (expand ix rev o n k reached).2) := by
  obtain ⟨new, heq, hsub, hfar⟩ := exists_expand ix rev o n k reached
  obtain ⟨done, hspread⟩ := h.spreads
  have hk : stepsTo ix rev o start n = k := h.waiting (n, k) mem_cons_self
  have hn : n ∈ reached.names := (hspread.seen_iff n).2 (by simp)
  have hnames : (Inquiry.expand ix rev o n k reached).1.names = reached.names ++ new.map o.direction.far := by
    simp [heq, Reached.names]
  have hfresh : ∀ e ∈ new, o.direction.far e ∈ fresh reached.names (onward ix rev o n) :=
    fun e he => hfar ▸ mem_map_of_mem he
  have hdepth : ∀ e ∈ new, stepsTo ix rev o start (o.direction.far e) = k + 1 := by
    intro e he
    obtain ⟨hstep, hnew⟩ := mem_fresh_iff.1 (hfresh e he)
    rw [← hk]
    exact hspread.distance_of_new hstep (mt (hspread.seen_iff _).2 hnew)
  refine ⟨⟨?_, ?_, ?_, ?_⟩, ⟨done ++ [n], ?_⟩, ?_⟩
  · rw [hnames, hfar]
    exact h.names.append (nodup_fresh _ _) fun x hx hnew => (mem_fresh_iff.1 hnew).2 hx
  · rw [hnames, heq]
    simp only [length_append, length_map]
    refine forall_mem_append.2 ⟨fun x hx => ?_, forall_mem_map.2 fun e he => ?_⟩
    · exact ⟨(h.depth x hx).1, (h.depth x hx).2.trans_le (by norm_cast; omega)⟩
    · have hlt := (h.depth n hn).2
      have hpos := length_pos_of_mem he
      rw [hk] at hlt
      rw [hdepth e he]
      norm_cast at hlt ⊢
      omega
  · rw [heq]
    intro x hx
    exact (mem_append.1 hx).elim (h.orphan x) fun hx => by simp at hx
  · rw [hnames, heq]
    intro x m kind hx
    rcases mem_append.1 hx with hx | hx
    · obtain ⟨hm, hedge⟩ := h.parent x m kind hx
      exact ⟨mem_append_left _ hm, hedge⟩
    · obtain ⟨e, he, hpair⟩ := mem_map.1 hx
      cases hpair
      exact ⟨mem_append_left _ hn, ⟨e, hsub he, rfl, rfl⟩, by rw [hdepth e he, hk]⟩
  · have htake := hspread.take fun m x => (Iff.rfl : x ∈ onward ix rev o m ↔ _)
    rw [hnames, map_append, heq, map_map, show Prod.fst ∘ _ = o.direction.far from rfl, hfar]
    exact { htake with seen_iff := fun x => by rw [← htake.seen_iff, mem_append, mem_append, mem_reverse, or_comm] }
  · rw [heq]
    exact forall_mem_append.2 ⟨(forall_mem_cons.1 h.waiting).2, forall_mem_map.2 fun e he => by simp [hdepth e he]⟩

end

lemma walk_of_far (hfar : ∀ p ∈ queue, o.maxSteps ≤ p.2) : walk ix rev o fuel reached queue = reached := by
  induction fuel generalizing queue with
  | zero => rfl
  | succ fuel ih =>
    cases queue with
    | nil => rfl
    | cons p queue =>
      obtain ⟨hp, hrest⟩ := forall_mem_cons.1 hfar
      rw [walk, if_pos hp, ih hrest, ite_self, ite_self]

/-- A walk that is not cut short ends with notes of all that can be reached, or at least of the goal. -/
lemma Walking.walk (h : Walking ix rev o start reached queue) (htargets : ∀ n, onward ix rev o n ⊆ targets)
    (hroom : ∀ reached, Tree ix rev o start reached → reached.length < o.maxNodes)
    (hfuel : queue.length + (unvisited targets reached.names).length < fuel) :
    Tree ix rev o start (walk ix rev o fuel reached queue) ∧
      ∀ x, (∀ g, o.goal = some g → g = x) → stepsTo ix rev o start x ≤ o.maxSteps.toNat →
        x ∈ (walk ix rev o fuel reached queue).names := by
  induction fuel generalizing reached queue with
  | zero => omega
  | succ fuel ih =>
    cases queue with
    | nil => exact ⟨h.toTree, fun x _ => h.mem_names nofun⟩
    | cons p queue =>
      obtain ⟨n, k⟩ := p
      by_cases hfar : o.maxSteps ≤ k
      · have hall : ∀ p ∈ (n, k) :: queue, o.maxSteps ≤ p.2 := by
          intro p hp
          have := h.head_le p hp
          omega
        rw [walk_of_far hall]
        exact ⟨h.toTree, fun x _ => h.mem_names hall⟩
      · rw [Inquiry.walk, if_neg (not_le.2 (hroom reached h.toTree)), if_neg hfar]
        split
        · rename_i hgoal
          obtain ⟨done, hspread⟩ := h.spreads
          refine ⟨h.toTree, fun x hx _ => ?_⟩
          rw [← hx n (by simpa using hgoal)]
          exact (hspread.seen_iff n).2 (by simp)
        · have hle := length_expand_le (htargets n) k reached queue
          rw [length_cons] at hfuel
          exact ih (h.expand (by omega)) (lt_of_le_of_lt hle (by omega))

/-! ## The way back -/

variable (ix rev o start) in
/-- A way from the start, its last node first, with the kinds of its edges. -/
inductive Way : Strings → Strings → Prop
  | start : Way [start] []
  | step {m : String} {e : EdgeRow} {nodes kinds : Strings} : Way (m :: nodes) kinds →
      e ∈ takenEdges ix rev o m → Way (o.direction.far e :: m :: nodes) (e.kind :: kinds)

/-- From any node that is noted the notes lead back to the start, over as many edges as its distance. -/
lemma Tree.wayBack (h : Tree ix rev o start reached) (hnamed : ∀ n, ∀ e ∈ takenEdges ix rev o n, e.kind ≠ "")
    (hn : n ∈ reached.names) (hd : stepsTo ix rev o start n = k) (hk : k ≤ fuel) :
    ∃ nodes kinds, wayBack reached fuel n = (n :: nodes, kinds) ∧ Way ix rev o start (n :: nodes) kinds ∧
      nodes.length = k := by
  induction fuel generalizing n k with
  | zero =>
    obtain rfl : k = 0 := by omega
    cases distance_le_iff.1 hd.le with
    | start hn =>
      cases mem_singleton.1 hn
      exact ⟨[], [], rfl, .start, rfl⟩
  | succ fuel ih =>
    obtain ⟨⟨x, note⟩, hmem, rfl⟩ := mem_map.1 hn
    have hget : get? reached x = some note := get?_of_mem h.names hmem
    cases note with
    | none =>
      cases h.orphan x hmem
      rw [stepsTo, distance_eq_zero (mem_singleton.2 rfl)] at hd
      refine ⟨[], [], ?_, .start, by exact_mod_cast hd⟩
      simp [wayBack, hget]
    | some p =>
      obtain ⟨m, kind⟩ := p
      obtain ⟨hm, ⟨e, he, rfl, rfl⟩, hstep⟩ := h.parent x m kind hmem
      obtain ⟨d, hdm⟩ := ENat.ne_top_iff_exists.1 (h.depth m hm).2.ne_top
      rw [hd, ← hdm] at hstep
      obtain rfl : k = d + 1 := by exact_mod_cast hstep
      obtain ⟨nodes, kinds, hback, hway, hlen⟩ := ih hm hdm.symm (by omega)
      refine ⟨m :: nodes, e.kind :: kinds, ?_, .step hway he, by simp [hlen]⟩
      simp [wayBack, hget, hback, hnamed m e he]

/-! ## Walks that a revision sees -/

section

variable (ix rev)

/-- An edge of some kinds that a revision sees. -/
def SeenEdge (kinds : Strings) (e : EdgeRow) : Prop :=
  e ∈ ix.edges ∧ e.kind ∈ kinds ∧ ix.visibleAt rev e.fileId e.blob = true

/-- The edges of some kinds that a revision sees from a node. -/
def seenEdgesFrom (kinds : Strings) (node : String) : List EdgeRow :=
  ix.edges.filter fun e => e.src == node && kinds.contains e.kind && ix.visibleAt rev e.fileId e.blob

/-- A walk from one node to another along edges of some kinds that a revision sees. -/
structure SeenWalk (kinds : Strings) (start goal : String) (nodes : Strings) : Prop where
  start : nodes.head? = some start
  finish : nodes.getLast? = some goal
  joined : nodes.IsChain fun m n => ∃ e, SeenEdge ix rev kinds e ∧ e.src = m ∧ e.dst = n

/-- The kinds of edges along a walk: one for each pair of successive nodes, that of an edge between them. -/
structure KindsAlong (given nodes kinds : Strings) : Prop where
  length : kinds.length + 1 = nodes.length
  edge : ∀ (i : Nat) (kind : String), kinds[i]? = some kind → ∃ e, SeenEdge ix rev given e ∧ e.kind = kind ∧
    nodes[i]? = some e.src ∧ nodes[i + 1]? = some e.dst

end

lemma SeenWalk.concat {given} (h : SeenWalk ix rev given start m nodes) (he : SeenEdge ix rev given e)
    (hsrc : e.src = m) : SeenWalk ix rev given start e.dst (nodes ++ [e.dst]) where
  start := by
    rw [head?_append, h.start]
    rfl
  finish := by simp
  joined := by
    refine isChain_append.2 ⟨h.joined, .singleton _, ?_⟩
    intro x hx y hy
    rw [h.finish] at hx
    cases hx
    cases hy
    exact ⟨e, he, hsrc, rfl⟩

lemma KindsAlong.concat {given} (h : KindsAlong ix rev given nodes kinds) (he : SeenEdge ix rev given e)
    (hlast : nodes.getLast? = some e.src) : KindsAlong ix rev given (nodes ++ [e.dst]) (kinds ++ [e.kind]) where
  length := by simp [h.length]
  edge := by
    have hlen := h.length
    intro i kind hi
    rcases lt_trichotomy i kinds.length with hlt | rfl | hgt
    · rw [getElem?_append_left hlt] at hi
      obtain ⟨d, hd, hkind, hat, hnext⟩ := h.edge i kind hi
      refine ⟨d, hd, hkind, ?_, ?_⟩
      · rw [getElem?_append_left (by omega)]
        exact hat
      · rw [getElem?_append_left (by omega)]
        exact hnext
    · -- the new edge leads from the node that was last
      rw [getElem?_concat_length] at hi
      cases hi
      rw [getLast?_eq_getElem?, ← hlen, Nat.add_sub_cancel] at hlast
      refine ⟨e, he, rfl, ?_, ?_⟩
      · rw [getElem?_append_left (by omega), hlast]
      · rw [hlen, getElem?_concat_length]
    · rw [getElem?_eq_none (by rw [length_append, length_singleton]; omega)] at hi
      cases hi

section

variable {given : List String} {goal : String} (hforward : o.direction = .out) (hgiven : o.kinds ≠ [])
  (hfew : ∀ n, ((seenEdgesFrom ix rev o.kinds n).length : Int) ≤ edgeLimit.toInt)

include hforward hgiven hfew

lemma mem_takenEdges_iff : e ∈ takenEdges ix rev o n ↔ SeenEdge ix rev o.kinds e ∧ e.src = n := by
  have hfrom : (ix.seenEdges rev o.kinds).filter (Index.Direction.out.near · == n) = seenEdgesFrom ix rev o.kinds n := by
    rw [seenEdges, filter_filter]
    exact filter_congr fun e _ => (Bool.and_assoc _ _ _).symm
  have hperm := edgesAtRev_perm .out hgiven (hfrom ▸ hfew n)
  unfold takenEdges
  rw [hforward, hperm.mem_iff, hfrom]
  simp [seenEdgesFrom, SeenEdge]
  tauto

/-- A node is reached over at most so many edges exactly when a walk over at most so many leads to it. -/
lemma stepsTo_le_iff : stepsTo ix rev o start n ≤ k ↔
    ∃ nodes, SeenWalk ix rev o.kinds start n nodes ∧ nodes.length ≤ k + 1 := by
  have hstep {m n : String} : Onward ix rev o m n ↔ ∃ e, SeenEdge ix rev o.kinds e ∧ e.src = m ∧ e.dst = n := by
    simp [Onward, onward, mem_takenEdges_iff hforward hgiven hfew, hforward, Direction.far, and_assoc]
  rw [stepsTo, distance_le_iff]
  constructor
  · intro h
    induction h with
    | start hn =>
      cases mem_singleton.1 hn
      exact ⟨[start], ⟨rfl, rfl, .singleton start⟩, by simp⟩
    | step _ hn ih =>
      obtain ⟨nodes, hwalk, hlen⟩ := ih
      obtain ⟨e, hseen, hsrc, rfl⟩ := hstep.1 hn
      exact ⟨nodes ++ [e.dst], hwalk.concat hseen hsrc, by simpa using hlen⟩
  · rintro ⟨nodes, hwalk, hlen⟩
    -- the walk is followed from its start, at each node over the edge to the next
    have hfollow : ∀ l x j, ReachedWithin (Onward ix rev o) [start] j x →
        (x :: l).IsChain (fun m n => ∃ e, SeenEdge ix rev o.kinds e ∧ e.src = m ∧ e.dst = n) →
        (x :: l).getLast? = some n → ReachedWithin (Onward ix rev o) [start] (j + l.length) n := by
      intro l
      induction l with
      | nil =>
        intro x j hx _ hlast
        cases hlast
        exact hx
      | cons y l ih =>
        intro x j hx hchain hlast
        rw [isChain_cons_cons] at hchain
        have := ih y (j + 1) (.step hx (hstep.2 hchain.1)) hchain.2 hlast
        rwa [length_cons, add_comm l.length 1, ← add_assoc]
    obtain ⟨rest, rfl⟩ := head?_eq_some_iff.1 hwalk.start
    have := hfollow rest start 0 (.start (mem_singleton.2 rfl)) hwalk.joined hwalk.finish
    exact this.mono (by simpa using hlen)

/-- A way read forward is a walk with the kinds along it. -/
lemma Way.along (h : Way ix rev o start nodes kinds) :
    (∀ n, nodes.head? = some n → SeenWalk ix rev o.kinds start n nodes.reverse) ∧
      KindsAlong ix rev o.kinds nodes.reverse kinds.reverse := by
  induction h with
  | start =>
    refine ⟨fun n hn => ?_, rfl, by simp⟩
    cases hn
    exact ⟨rfl, rfl, .singleton start⟩
  | @step m e nodes kinds _ he ih =>
    obtain ⟨hwalk, hkinds⟩ := ih
    obtain ⟨hseen, hsrc⟩ := (mem_takenEdges_iff hforward hgiven hfew).1 he
    have hnodes : (o.direction.far e :: m :: nodes).reverse = (m :: nodes).reverse ++ [e.dst] := by
      rw [hforward]
      exact reverse_cons
    rw [hnodes, reverse_cons (a := e.kind)]
    refine ⟨fun n hn => ?_, hkinds.concat hseen ?_⟩
    · rw [hforward] at hn
      cases hn
      exact (hwalk m rfl).concat hseen hsrc
    · rw [getLast?_reverse, hsrc]
      rfl

end

/-! ## Reachability -/

/-- The nodes that walks of at most so many edges from a node lead to. -/
def Within (ix : Index) (rev : String) (kinds : Strings) (start : String) (maxSteps : Int) : Set String :=
  {n | ∃ nodes, SeenWalk ix rev kinds start n nodes ∧ (nodes.length : Int) ≤ maxSteps + 1}

/-- The walk that looks for a path. -/
def pathWalk (kinds : Strings) (goal : String) (maxSteps : Int) : WalkOptions :=
  { kinds, maxNodes := pathNodes, maxSteps, goal := some goal }

/-- The record of a path. -/
def pathRecord (ix : Index) (nodes kinds : Strings) : Json :=
  .object [("node_ids", .texts nodes), ("edge_kinds", .texts kinds),
    ("locations", .list ((nodes.filterMap ix.nodeSpan?).map location))]

section

variable {given : List String} {goal : String} {maxSteps : Int}

/-- A node is reachable when the walk notes it, and the path is the way back. -/
lemma reachability_apply {asked} (hasked : ix.requireRevision asked = .ok rev) (hgoal : goal ≠ "") (w) :
    reachability ix asked start goal given maxSteps w = (.ok (.found [("rev", rev),
        ("reachable", has (reach ix rev (pathWalk given goal maxSteps) [start]) goal),
        ("path", if has (reach ix rev (pathWalk given goal maxSteps) [start]) goal then
            let reached := reach ix rev (pathWalk given goal maxSteps) [start]
            pathRecord ix (wayBack reached reached.length goal).1.reverse
              (wayBack reached reached.length goal).2.reverse
          else .null)]), w) := by
  have hrun : ∀ out, pathTo ix asked { kinds := given, maxNodes := pathNodes, maxSteps } start goal = .ok out →
      reachability ix asked start goal given maxSteps w = (.ok out, w) := by
    intro out hout
    unfold reachability
    rw [if_neg (by simpa using hgoal), hout]
    rfl
  refine hrun _ ?_
  unfold pathTo
  rw [hasked]
  change (if (!has (reach ix rev (pathWalk given goal maxSteps) [start]) goal) = true then _ else _) = _
  cases has (reach ix rev (pathWalk given goal maxSteps) [start]) goal <;> rfl

variable (hgiven : given ≠ []) (hsteps : 0 ≤ maxSteps)
  (hfew : ∀ n, ((seenEdgesFrom ix rev given n).length : Int) ≤ edgeLimit.toInt)
  (hnear : (Within ix rev given start maxSteps).encard < 5000)

include hgiven hsteps hfew

lemma mem_within_iff (goal) :
    n ∈ Within ix rev given start maxSteps ↔ stepsTo ix rev (pathWalk given goal maxSteps) start n ≤ maxSteps.toNat := by
  rw [stepsTo_le_iff (o := pathWalk given goal maxSteps) rfl hgiven hfew]
  exact exists_congr fun nodes => and_congr_right fun _ => by omega

include hnear

/-- The walk is not cut short: it notes the nodes within its steps, the goal among them. -/
lemma tree_pathWalk (goal) :
    Tree ix rev (pathWalk given goal maxSteps) start (reach ix rev (pathWalk given goal maxSteps) [start]) ∧
    (goal ∈ (reach ix rev (pathWalk given goal maxSteps) [start]).names ↔
      goal ∈ Within ix rev given start maxSteps) := by
  have hroom : ∀ reached, Tree ix rev (pathWalk given goal maxSteps) start reached → reached.length < pathNodes := by
    intro reached h
    have hcard : (reached.names.toFinset : Set String).encard = (reached.length : ℕ∞) := by
      rw [Set.encard_coe_eq_coe_finsetCard, toFinset_card_of_nodup h.names, Reached.names, length_map]
    have hsub : (reached.names.toFinset : Set String) ⊆ Within ix rev given start maxSteps := fun n hn =>
      (mem_within_iff hgiven hsteps hfew goal).2 (h.depth n (mem_toFinset.1 hn)).1
    have hlt := hcard ▸ (Set.encard_le_encard hsub).trans_lt hnear
    change (reached.length : Int) < 5000
    exact_mod_cast hlt
  have hfuel := length_unvisited_le (ix.edges.map (·.dst)) [start]
  rw [length_map] at hfuel
  obtain ⟨htree, hcomplete⟩ := (walking_start ix rev (pathWalk given goal maxSteps) start).walk (onward_subset _ _ _)
    hroom (Nat.lt_succ_of_le (Nat.add_le_add_left hfuel 1))
  rw [mem_within_iff hgiven hsteps hfew goal]
  exact ⟨htree, fun hmem => (htree.depth goal hmem).1, hcomplete goal fun g hg => (Option.some.inj hg).symm⟩

end

/-- Reachability is answered as it is, with a shortest walk and the kinds of edges along it. -/
theorem reachability_shortest {asked : Option String} {given : List String} {goal : String} {maxSteps : Int}
    (hasked : ix.requireRevision asked = .ok rev) (hgoal : goal ≠ "") (hgiven : given ≠ []) (hnamed : "" ∉ given)
    (hsteps : 0 ≤ maxSteps) (hnear : (Within ix rev given start maxSteps).encard < 5000)
    (hfew : ∀ n, (seenEdgesFrom ix rev given n).length ≤ 500) (w : Workspace) :
    ∃ (found : Bool) (path : Json), reachability ix asked start goal given maxSteps w =
        (.ok (.found [("rev", .text rev), ("reachable", .bool found), ("path", path)]), w) ∧
      (found = true ↔ ∃ nodes, SeenWalk ix rev given start goal nodes ∧ (nodes.length : Int) ≤ maxSteps + 1) ∧
      (found = true → ∃ nodes kinds, path = pathRecord ix nodes kinds ∧
        SeenWalk ix rev given start goal nodes ∧ (nodes.length : Int) ≤ maxSteps + 1 ∧
        (∀ other, SeenWalk ix rev given start goal other → nodes.length ≤ other.length) ∧
        KindsAlong ix rev given nodes kinds) := by
  have hlimit : ∀ n, ((seenEdgesFrom ix rev given n).length : Int) ≤ edgeLimit.toInt := by
    intro n
    change ((seenEdgesFrom ix rev given n).length : Int) ≤ 500
    exact_mod_cast hfew n
  obtain ⟨htree, hmem⟩ := tree_pathWalk hgiven hsteps hlimit hnear goal
  refine ⟨_, _, reachability_apply hasked hgoal w, has_iff_mem_names.trans hmem, fun hfound => ?_⟩
  rw [if_pos hfound]
  have hnote := has_iff_mem_names.mp hfound
  obtain ⟨hk, hlt⟩ := htree.depth goal hnote
  obtain ⟨k, hd⟩ := ENat.ne_top_iff_exists.mp hlt.ne_top
  rw [← hd] at hk hlt
  have hkinds : ∀ n, ∀ e ∈ takenEdges ix rev (pathWalk given goal maxSteps) n, e.kind ≠ "" := by
    intro n e he hempty
    have hseen := ((mem_takenEdges_iff (o := pathWalk given goal maxSteps) rfl hgiven hlimit).mp he).1
    exact hnamed (hempty ▸ hseen.2.1)
  obtain ⟨nodes, kinds, hback, hway, hlen⟩ := htree.wayBack hkinds hnote hd.symm (by exact_mod_cast hlt.le)
  obtain ⟨hwalk, halong⟩ := Way.along (o := pathWalk given goal maxSteps) rfl hgiven hlimit hway
  dsimp only
  rw [hback]
  refine ⟨(goal :: nodes).reverse, kinds.reverse, rfl, hwalk goal rfl, ?_, ?_, halong⟩
  · have hk : k ≤ maxSteps.toNat := by exact_mod_cast hk
    rw [List.length_reverse, List.length_cons]
    omega
  · intro other hother
    have hpos := List.length_pos_of_mem (List.mem_of_head? hother.start)
    have hle := (stepsTo_le_iff (o := pathWalk given goal maxSteps) (k := other.length - 1) rfl hgiven hlimit).mpr
      ⟨other, hother, by omega⟩
    rw [← hd] at hle
    have hle : k ≤ other.length - 1 := by exact_mod_cast hle
    rw [List.length_reverse, List.length_cons]
    omega

/-! ## A store with two shortest walks -/

/-- A walk ends where it starts or where some edge leads. -/
lemma mem_of_mem_within {maxSteps} (h : n ∈ Within ix rev kinds start maxSteps) :
    n ∈ start :: ix.edges.map (·.dst) := by
  obtain ⟨nodes, hwalk, -⟩ := h
  obtain ⟨before, rfl⟩ := getLast?_eq_some_iff.1 hwalk.finish
  rcases eq_nil_or_concat before with rfl | ⟨rest, m, rfl⟩
  · cases hwalk.start
    exact mem_cons_self
  · obtain ⟨-, -, hlast⟩ := isChain_append.1 hwalk.joined
    obtain ⟨e, hseen, -, rfl⟩ := hlast m (by simp) n (by simp)
    exact mem_cons_of_mem _ (mem_map_of_mem hseen.1)

/-- In a store with few edges no limit binds. -/
lemma few_of_few_edges (ix) (hedges : ix.edges.length ≤ 500) (rev start kinds maxSteps) :
    (Within ix rev kinds start maxSteps).encard < 5000 ∧ ∀ n, (seenEdgesFrom ix rev kinds n).length ≤ 500 := by
  constructor
  · have hsub : Within ix rev kinds start maxSteps ⊆ ((start :: ix.edges.map (·.dst)).toFinset : Set String) :=
      fun n hn => mem_toFinset.2 (mem_of_mem_within hn)
    refine (Set.encard_le_encard hsub).trans_lt ?_
    have hcard := toFinset_card_le (start :: ix.edges.map (·.dst))
    rw [length_cons, length_map] at hcard
    exact_mod_cast (by omega : (start :: ix.edges.map (·.dst)).toFinset.card < 5000)
  · intro n
    exact (length_filter_le _ _).trans hedges

/-- A store with two edges of different kinds from `a` to `b`, a way back, and an edge from `a` to `c` that only another
revision sees. -/
def forkedStore : Index where
  revisions := [⟨some "r", none, 0⟩, ⟨some "q", none, 1⟩]
  files := [⟨1, "/p.py", "python"⟩]
  versions := [⟨"r", 1, "x", 0⟩, ⟨"q", 1, "y", 0⟩]
  edges := [⟨"y", 1, "a", "c", "CFG", "\x7b\x7d"⟩, ⟨"x", 1, "a", "b", "DDG", "\x7b\x7d"⟩,
    ⟨"x", 1, "a", "b", "CFG", "\x7b\x7d"⟩, ⟨"x", 1, "b", "a", "CFG", "\x7b\x7d"⟩, ⟨"x", 1, "b", "c", "DDG", "\x7b\x7d"⟩]

/-- At revision `r` a shortest walk from `a` to `c` has three nodes. -/
theorem forked_store_reachable :
    forkedStore.requireRevision (some "r") = .ok "r" ∧ (Within forkedStore "r" ["CFG", "DDG"] "a" 2).encard < 5000 ∧
      (∀ n, (seenEdgesFrom forkedStore "r" ["CFG", "DDG"] n).length ≤ 500) ∧
      ∃ (nodes kinds : List String), reachability forkedStore (some "r") "a" "c" ["CFG", "DDG"] 2 (rootWorkspace []) =
          (.ok (.found [("rev", .text "r"), ("reachable", .bool true), ("path", pathRecord forkedStore nodes kinds)]),
            rootWorkspace []) ∧
        SeenWalk forkedStore "r" ["CFG", "DDG"] "a" "c" nodes ∧ (nodes.length : Int) ≤ 2 + 1 ∧
        (∀ other, SeenWalk forkedStore "r" ["CFG", "DDG"] "a" "c" other → nodes.length ≤ other.length) ∧
        KindsAlong forkedStore "r" ["CFG", "DDG"] nodes kinds := by
  have hasked : forkedStore.requireRevision (some "r") = .ok "r" :=
    requireRevision_eq_ok_iff.mpr ⟨by decide, by decide +kernel⟩
  obtain ⟨hnear, hfew⟩ := few_of_few_edges forkedStore (by decide) "r" "a" ["CFG", "DDG"] 2
  have hgoal : "c" ≠ "" := by decide
  obtain ⟨found, path, hrun, hiff, hpath⟩ :=
    reachability_shortest hasked hgoal (by decide) (by decide) (by decide) hnear hfew (rootWorkspace [])
  have hwalk : SeenWalk forkedStore "r" ["CFG", "DDG"] "a" "c" ["a", "b", "c"] := by
    refine ⟨rfl, rfl, ?_⟩
    simp only [List.isChain_cons_cons, List.isChain_singleton, and_true]
    exact ⟨⟨⟨"x", 1, "a", "b", "CFG", "\x7b\x7d"⟩, ⟨by decide, by decide, by decide⟩, rfl, rfl⟩,
      ⟨⟨"x", 1, "b", "c", "DDG", "\x7b\x7d"⟩, ⟨by decide, by decide, by decide⟩, rfl, rfl⟩⟩
  obtain rfl : found = true := hiff.mpr ⟨_, hwalk, by decide⟩
  obtain ⟨nodes, kinds, rfl, hrest⟩ := hpath rfl
  exact ⟨hasked, hnear, hfew, nodes, kinds, hrun, hrest⟩

end PatchReview.Inquiry
