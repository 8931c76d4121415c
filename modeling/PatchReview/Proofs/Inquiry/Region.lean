import Mathlib.Data.Set.Card
import PatchReview.Proofs.Inquiry.Isolation

/-!
# Regions of a graph

A region grows from a node layer by layer: the edges at the nodes of a layer are taken, and the new nodes that they lead
to are the next layer. The layers are the nodes at one distance each, so the edges at a node are taken once, when its
layer is left, and an edge back to an earlier layer is taken like any other. The answer is exact where it is given: the
bound on the edges of a node has to fit into a cell, and the nodes of the region into the parameters of a statement.
-/

namespace PatchReview

open Index List

/-! ## Layers -/

/-- The nodes nearer than a distance, and those at it. -/
structure Layered (step : String → String → Prop) (start : String) (i : Nat) (before layer : Strings) : Prop where
  nodup : (before ++ layer).Nodup
  mem_before_iff : ∀ n, n ∈ before ↔ distance step [start] n < i
  mem_iff : ∀ n, n ∈ before ++ layer ↔ distance step [start] n ≤ i

section

variable {step : String → String → Prop} {start : String} {i : Nat} {before layer : List String}
  {onward : String → List String}

lemma layered_start (step) (start) : Layered step start 0 [] [start] where
  nodup := nodup_singleton start
  mem_before_iff n := by simp
  mem_iff n := by
    rw [distance_le_iff, nil_append]
    refine ⟨.start, fun h => ?_⟩
    cases h with
    | start hn => exact hn

/-- What a layer leads to and is not known yet is the next layer. -/
lemma Layered.next (h : Layered step start i before layer) (honward : ∀ m n, n ∈ onward m ↔ step m n) :
    Layered step start (i + 1) (before ++ layer) (fresh (before ++ layer) (layer.flatMap onward)) where
  nodup := h.nodup.append (nodup_fresh _ _) fun n hn hnew => (mem_fresh_iff.1 hnew).2 hn
  mem_before_iff n := by rw [h.mem_iff, Nat.cast_add_one, ENat.lt_natCast_add_one_iff]
  mem_iff n := by
    constructor
    · intro hn
      rcases mem_append.1 hn with hn | hn
      · exact ((h.mem_iff n).1 hn).trans (Nat.cast_le.2 (Nat.le_succ i))
      · obtain ⟨m, hm, hn⟩ := mem_flatMap.1 (mem_fresh_iff.1 hn).1
        have hle := (h.mem_iff m).1 (mem_append_right _ hm)
        calc distance step [start] n ≤ distance step [start] m + 1 := distance_le_add_one ((honward m n).1 hn)
          _ ≤ (i : ℕ∞) + 1 := by gcongr
          _ = (i + 1 : Nat) := (Nat.cast_add_one i).symm
    · intro hn
      by_cases hknown : n ∈ before ++ layer
      · exact mem_append_left _ hknown
      · have hfar : ¬ distance step [start] n ≤ i := fun hle => hknown ((h.mem_iff n).2 hle)
        cases distance_le_iff.1 hn with
        | start hstart =>
          rw [distance_eq_zero hstart] at hfar
          exact absurd zero_le hfar
        | @step _ m _ hm hstep =>
          rcases mem_append.1 ((h.mem_iff m).2 (distance_le_iff.2 hm)) with hbefore | hlayer
          · -- what an earlier layer leads to is known
            have hnear := Order.add_one_le_of_lt ((h.mem_before_iff m).1 hbefore)
            exact absurd ((distance_le_add_one hstep).trans hnear) hfar
          · refine mem_append_right _ (mem_fresh_iff.2 ⟨?_, hknown⟩)
            exact mem_flatMap.2 ⟨m, hlayer, (honward m n).2 hstep⟩

end

namespace Inquiry

open Index (EdgeRow)

variable {ix : Index} {rev start : String} {dir : Index.Direction} {kinds before layer : List String} {limit : Int64}
  {edges : List EdgeRow} {i : Nat}

/-- One node leads to another along an edge of some kinds that a revision sees. -/
def Follows (ix : Index) (rev : String) (dir : Index.Direction) (kinds : Strings) (m n : String) : Prop :=
  ∃ e ∈ ix.seenEdges rev kinds, dir.near e = m ∧ dir.far e = n

/-! ## Growing by a layer -/

namespace Region

lemma foldl_add (dir) (es : List EdgeRow) (region layer) : es.foldl (Region.add dir) (region, layer) =
      (⟨region.nodes ++ fresh region.nodes (es.map dir.far), region.edges ++ es⟩,
        layer ++ fresh region.nodes (es.map dir.far)) := by
  induction es generalizing region layer with
  | nil => simp [fresh]
  | cons e es ih =>
    rw [foldl_cons, map_cons, fresh, Region.add]
    by_cases hfar : dir.far e ∈ region.nodes
    · rw [if_pos (contains_iff_mem.2 hfar), if_pos hfar, ih]
      simp
    · have hswap : ∀ n, n ∈ region.nodes ++ [dir.far e] ↔ n ∈ dir.far e :: region.nodes := fun n => by simp [or_comm]
      rw [if_neg (by rwa [contains_iff_mem]), if_neg hfar, ih, fresh_congr hswap]
      simp

lemma grow_nil (depth region) : grow ix rev dir kinds limit depth [] region = region := by cases depth <;> rfl

lemma grow_succ (depth : Nat) (layer) (region : Region) :
    grow ix rev dir kinds limit (depth + 1) layer region = grow ix rev dir kinds limit depth
        (fresh region.nodes (layer.flatMap fun n => (ix.edgesAtRev rev dir kinds limit n).map dir.far))
        ⟨region.nodes ++ fresh region.nodes (layer.flatMap fun n => (ix.edgesAtRev rev dir kinds limit n).map dir.far),
          region.edges ++ layer.flatMap (ix.edgesAtRev rev dir kinds limit)⟩ := by
  cases layer with
  | nil => simp [fresh, grow_nil]
  | cons node layer =>
    rw [grow, ← foldl_flatMap, foldl_add, nil_append, map_flatMap]
    exact cons_ne_nil node layer

end Region

section

variable (hkinds : kinds ≠ [])
  (hfew : ∀ n, (((ix.seenEdges rev kinds).filter (dir.near · == n)).length : Int) ≤ limit.toInt)

include hkinds hfew

lemma mem_far_edgesAtRev_iff (m n) :
    n ∈ (ix.edgesAtRev rev dir kinds limit m).map dir.far ↔ Follows ix rev dir kinds m n := by
  rw [((edgesAtRev_perm dir hkinds (hfew m)).map dir.far).mem_iff]
  simp [Follows, and_assoc]

/-- A region has the nodes up to a layer and the edges at those before it, however many layers it grows by. -/
lemma Region.exists_grow (depth) (h : Layered (Follows ix rev dir kinds) start i before layer)
    (hedges : edges.Perm ((ix.seenEdges rev kinds).filter fun e => before.contains (dir.near e))) : ∃ nearer last taken,
      Region.grow ix rev dir kinds limit depth layer ⟨before ++ layer, edges⟩ = ⟨nearer ++ last, taken⟩ ∧
      Layered (Follows ix rev dir kinds) start (i + depth) nearer last ∧
      taken.Perm ((ix.seenEdges rev kinds).filter fun e => nearer.contains (dir.near e)) := by
  induction depth generalizing i before layer edges with
  | zero => exact ⟨before, layer, edges, rfl, h, hedges⟩
  | succ depth ih =>
    have hlayer := perm_flatMap_keys (fun n => edgesAtRev_perm dir hkinds (hfew n))
      (List.nodup_append.1 h.nodup).2.1
    have hdisjoint : ∀ e, before.contains (dir.near e) → layer.contains (dir.near e) = false := by
      intro e he
      have hout := disjoint_of_nodup_append h.nodup (contains_iff_mem.1 he)
      simpa using hout
    have hall : (edges ++ layer.flatMap (ix.edgesAtRev rev dir kinds limit)).Perm
        ((ix.seenEdges rev kinds).filter fun e => (before ++ layer).contains (dir.near e)) := by
      refine (hedges.append hlayer).trans ((filter_or_perm hdisjoint _).trans (List.Perm.of_eq ?_))
      exact filter_congr fun e _ => by simp
    have hnext := h.next (mem_far_edgesAtRev_iff hkinds hfew)
    rw [Region.grow_succ, Nat.add_comm depth 1, ← Nat.add_assoc]
    exact ih hnext hall

end

/-! ## What an answer tells -/

/-- The nodes of some that stand in a file, with their places. -/
def located (ix : Index) (nodes : Strings) : List (String × Graph.Span) :=
  nodes.filterMap fun n => (ix.nodeSpan? n).map (n, ·)

lemma mem_located_iff {nodes n s} : (n, s) ∈ located ix nodes ↔ ix.nodeSpan? n = some s ∧ n ∈ nodes := by
  simp [located, and_comm]

lemma map_fst_located (ix nodes) : (located ix nodes).map Prod.fst = nodes.filter fun n => (ix.nodeSpan? n).isSome := by
  rw [located, map_filterMap, ← filterMap_eq_filter]
  refine filterMap_congr fun n _ => ?_
  cases hspan : ix.nodeSpan? n <;> simp [Option.guard, hspan]

/-- The records of some nodes in an answer. -/
def nodeRecords (nodes : List (String × Graph.Span)) : List Json := nodes.map fun p => nodeHit "node" p.1 p.2

lemma length_nodeRecords (nodes) : (nodeRecords nodes).length = nodes.length := length_map _

/-- The nodes are asked for at once, so there may not be too many of them. -/
lemma nodeHits_eq (ix nodes) : nodeHits ix "node" nodes =
    if nodes.length ≤ mostParameters then .ok (nodeRecords (located ix nodes))
    else .error (.operation "too many SQL variables") := by
  unfold nodeHits nodeSpans
  by_cases hroom : nodes.length ≤ mostParameters
  · rw [if_pos hroom, if_neg (Nat.not_lt.2 hroom)]
    rfl
  · rw [if_neg hroom, if_pos (Nat.not_le.1 hroom)]
    rfl

/-- The record of an edge in an answer. -/
def edgeRecord (e : EdgeRow) : Json := .object [("src", e.src), ("dst", e.dst), ("kind", e.kind)]

/-- The data of an answer with some nodes and edges. -/
def regionData (rev : String) (nodes : List (String × Graph.Span)) (edges : List EdgeRow) : Json.Object :=
  [("rev", .text rev), ("nodes", .list (nodeRecords nodes)), ("edges", .list (edges.map edgeRecord))]

lemma Region.toOutcome_eq (r : Region) : r.toOutcome ix rev "node" =
    if r.nodes.length ≤ mostParameters then .ok (.found (regionData rev (located ix r.nodes) r.edges))
    else .error (.operation "too many SQL variables") := by
  rw [Region.toOutcome, nodeHits_eq]
  split <;> rfl

/-- The data are the calls around a node: the edges that a revision sees at the nodes nearer than the depth, each as
often as it is stored, and the places of the nodes up to the depth. -/
def CallsAround (ix : Index) (rev start : String) (dir : Index.Direction) (depth : Nat) (data : Json.Object) : Prop :=
  ∃ (nodes : List (String × Graph.Span)) (edges : List EdgeRow), data = regionData rev nodes edges ∧
    (∀ e, e ∈ edges ↔ e ∈ ix.seenEdges rev callKinds ∧
      distance (Follows ix rev dir callKinds) [start] (dir.near e) < depth) ∧
    (∀ e ∈ edges, edges.count e = ix.edges.count e) ∧
    (nodes.map Prod.fst).Nodup ∧
    ∀ n s, (n, s) ∈ nodes ↔ ix.nodeSpan? n = some s ∧ distance (Follows ix rev dir callKinds) [start] n ≤ depth

/-- The nodes at most so far from a node. -/
def within (ix : Index) (rev start : String) (dir : Index.Direction) (depth : Nat) : Set String :=
  {n | distance (Follows ix rev dir callKinds) [start] n ≤ depth}

/-- The region that grows along calls tells exactly the calls around its start. The bound does not matter before the
first layer is left. -/
lemma exists_callsAround (start) {depth : Nat} (hfew : depth = 0 ∨
      ∀ n, (((ix.seenEdges rev callKinds).filter (dir.near · == n)).length : Int) ≤ limit.toInt) :
    ∃ r, Region.grow ix rev dir callKinds limit depth [start] ⟨[start], []⟩ = r ∧
      CallsAround ix rev start dir depth (regionData rev (located ix r.nodes) r.edges) ∧
      (within ix rev start dir depth).encard = r.nodes.length := by
  obtain ⟨nearer, last, edges, hgrow, hlayers, hedges⟩ : ∃ nearer last edges,
      Region.grow ix rev dir callKinds limit depth [start] ⟨[start], []⟩ = ⟨nearer ++ last, edges⟩ ∧
      Layered (Follows ix rev dir callKinds) start depth nearer last ∧
      edges.Perm ((ix.seenEdges rev callKinds).filter fun e => nearer.contains (dir.near e)) := by
    have hstart := layered_start (Follows ix rev dir callKinds) start
    rcases hfew with rfl | hfew
    · exact ⟨[], [start], [], rfl, hstart, List.Perm.of_eq (by simp)⟩
    · have h := Region.exists_grow (by decide) hfew depth hstart (List.Perm.of_eq (by simp) : [].Perm _)
      rwa [Nat.zero_add] at h
  have hmem : ∀ e, e ∈ edges ↔ e ∈ ix.seenEdges rev callKinds ∧
      distance (Follows ix rev dir callKinds) [start] (dir.near e) < depth := fun e => by
    rw [hedges.mem_iff, List.mem_filter, List.contains_iff_mem, hlayers.mem_before_iff]
  refine ⟨⟨nearer ++ last, edges⟩, hgrow, ⟨_, edges, rfl, hmem, fun e he => ?_, ?_, fun n s => ?_⟩, ?_⟩
  · have hcount : ∀ {p : EdgeRow → Bool} {l : List EdgeRow}, e ∈ l.filter p → (l.filter p).count e = l.count e :=
      fun h => List.count_filter (List.mem_filter.mp h).2
    rw [hedges.count_eq, hcount (hedges.mem_iff.mp he)]
    exact hcount ((hmem e).mp he).1
  · rw [map_fst_located]
    exact hlayers.nodup.filter _
  · rw [mem_located_iff, hlayers.mem_iff]
  · have hset : within ix rev start dir depth = ((nearer ++ last).toFinset : Set String) := by
      ext n
      rw [List.coe_toFinset]
      exact (hlayers.mem_iff n).symm
    rw [hset, Set.encard_coe_eq_coe_finsetCard, List.toFinset_card_of_nodup hlayers.nodup]

/-! ## Asking by arguments -/

/-- How a direction is asked for. -/
def directionWord : Index.Direction → String
  | .out => "out"
  | .into => "in"

/-- The arguments of a question about the calls around a node. -/
def callGraphArguments (rev start : String) (dir : Index.Direction) (depth limit : Int) : Tool.Arguments :=
  [("rev", .text rev), ("node_or_symbol", .text start), ("direction", .text (directionWord dir)),
    ("depth", .int depth), ("limit", .int limit)]

lemma read_directionWord (dir) : Index.Direction.read (directionWord dir) = .ok dir := by cases dir <;> rfl

lemma ofParameter_text {s : String} (hs : Text.unpairedRun? s.toList = none) (k) :
    Cell.ofParameter k (.text s) = .ok (.text s) := by
  simp only [Cell.ofParameter, hs]

lemma nameOf_text (s) : nameOf (.text s) = s := by
  cases hs : Text.unpairedRun? s.toList with
  | none => simp only [nameOf, columnText?, ofParameter_text hs, Cell.text?, Option.getD_some]
  | some _ =>
    simp only [nameOf, columnText?, Cell.ofParameter, hs]
    rfl

lemma liftM_ok {α} (x : α) : (liftM (Except.ok x : Result α) : Action α) = pure x := rfl

/-- A fault of an inquiry refuses it. -/
lemma guarded_error {m : String} {e : Fault} (he : e.isError) (w) :
    guarded m (Action.ofExcept (.error e)) w = (.ok (.refused m [("error", .text e.message)]), w) := by
  unfold guarded
  rw [Action.bind_apply, Action.attempt_apply, Action.ofExcept_apply]
  simp only [he, if_true]
  rfl

section

variable {limit : Int} {depth : Nat} (hrev : ix.requireRevision (some rev) = .ok rev)
  (hname : Text.unpairedRun? rev.toList = none) (hstart : Text.unpairedRun? start.toList = none)

include hrev hname in
lemma revisionOf_text : revisionOf ix (.text rev) = .ok (rev, .text rev) := by
  obtain ⟨hne, hthere⟩ := requireRevision_eq_ok_iff.1 hrev
  have htruthy : (Json.text rev).truthy = true := by simpa [Json.truthy] using hne
  have hfilter : (Cell.text? (.text rev)).filter ix.hasRevision = some rev := by simp [Cell.text?, hthere]
  unfold revisionOf
  rw [if_pos htruthy, ofParameter_text hname, Action.ok_bind, hfilter]
  rfl

include hname hstart in
lemma edgeBound_eq : edgeBound (callGraphArguments rev start dir depth limit) (.text rev) (.text start) 200 =
    if Cell.holdsWhole limit then .ok (.ofInt limit) else .error Cell.tooLarge := by
  have hbind : bindable [.text rev, .text start, .int limit] =
      if Cell.holdsWhole limit then .ok () else .error Cell.tooLarge := by
    have hlimit (k) : Cell.ofParameter k (.int limit) =
        if Cell.holdsWhole limit then .ok (.whole limit) else .error Cell.tooLarge := rfl
    unfold bindable Cell.ofParameters
    simp only [Cell.ofParametersFrom, ofParameter_text hname, ofParameter_text hstart, hlimit]
    split <;> rfl
  change (bindable [.text rev, .text start, .int limit] >>= fun _ => pure (Int64.ofInt limit)) = _
  rw [hbind]
  split <;> rfl

include hrev hname hstart

/-- The arguments are read and the revision is given back as it was; the bound is read where edges are looked for. -/
lemma callGraphBy_eq : callGraphBy ix (callGraphArguments rev start dir depth limit) =
    if depth = 0 ∨ Cell.holdsWhole limit then guarded "cpg_callgraph failed" (do
      return (← callGraph ix (some rev) start (directionWord dir) depth (.ofInt limit)).echoing [("rev", .text rev)])
    else guarded "cpg_callgraph failed" (Action.ofExcept (.error Cell.tooLarge)) := by
  have hasked : asked ix (callGraphArguments rev start dir depth limit) = .ok (rev, .text rev) :=
    revisionOf_text hrev hname
  have hnode : (callGraphArguments rev start dir depth limit).get "node_or_symbol" = .text start := rfl
  have hdir : (callGraphArguments rev start dir depth limit).get "direction" "out" = .text (directionWord dir) := rfl
  have hdepth : (callGraphArguments rev start dir depth limit).int "depth" 2 = pure (depth : Int) := rfl
  have hseems : seemsId (.text start) = .ok (looksLikeId start) := rfl
  have hkey (s) : requireKey (.text s) = .ok () := rfl
  have hread : Index.Direction.read (Json.text (directionWord dir)).display = .ok dir := read_directionWord dir
  unfold callGraphBy
  simp only [hasked, hnode, hdir, hdepth, hseems, hkey, hread, nameOf_text, edgeBound_eq hname hstart, liftM_ok,
    pure_bind]
  rcases Nat.eq_zero_or_pos depth with rfl | hpos
  · rfl
  · rw [if_pos (by omega), if_pos (by omega)]
    simp only [hpos.ne', false_or]
    split <;> rfl

/-- What the tool answers: a region, or a refusal when it has too many nodes. -/
lemma callGraphBy_apply (hlimit : depth = 0 ∨ Cell.holdsWhole limit) {r : Region}
    (hgrow : Region.grow ix rev dir callKinds (.ofInt limit) depth [start] ⟨[start], []⟩ = r) (w) :
    callGraphBy ix (callGraphArguments rev start dir depth limit) w =
      (.ok (if r.nodes.length ≤ mostParameters then .found (regionData rev (located ix r.nodes) r.edges)
        else .refused "cpg_callgraph failed" [("error", .text "too many SQL variables")]), w) := by
  have hcall : callGraph ix (some rev) start (directionWord dir) depth (.ofInt limit) =
      guarded "cpg_callgraph failed" (Action.ofExcept (r.toOutcome ix rev "node")) := by
    rw [← hgrow]
    unfold callGraph
    cases depth with
    | zero =>
      rw [hrev]
      rfl
    | succ depth =>
      rw [hrev, read_directionWord]
      rfl
  rw [callGraphBy_eq hrev hname hstart, if_pos hlimit]
  refine guarded_of_ok ?_
  rw [hcall, Region.toOutcome_eq, Action.bind_apply]
  by_cases hroom : r.nodes.length ≤ mostParameters
  · rw [if_pos hroom, if_pos hroom, guarded_of_ok (Action.ofExcept_apply _ w)]
    rfl
  · rw [if_neg hroom, if_neg hroom, guarded_error rfl]
    rfl

end

/-! ## The calls around a node -/

/-- The tool tells exactly the calls around a node if the bound on the edges of a node fits into a cell, which only
matters where edges are looked for, and the nodes that are near enough fit into a statement; else it refuses. -/
theorem callGraph_exact_iff {limit : Int} (hrev : ix.requireRevision (some rev) = .ok rev)
    (hname : Text.unpairedRun? rev.toList = none) (hstart : Text.unpairedRun? start.toList = none)
    (hfew : ∀ n, (((ix.seenEdges rev callKinds).filter (dir.near · == n)).length : Int) ≤ limit) (depth : Nat)
    (w : Workspace) :
    (∃ data, callGraphBy ix (callGraphArguments rev start dir depth limit) w = (.ok (.found data), w) ∧
        CallsAround ix rev start dir depth data) ↔
      (depth = 0 ∨ limit < 2 ^ 63) ∧ (within ix rev start dir depth).encard ≤ mostParameters := by
  have hzero : 0 ≤ limit := (Int.natCast_nonneg _).trans (hfew start)
  have hholds : Cell.holdsWhole limit ↔ limit < 2 ^ 63 := by
    simp only [Cell.holdsWhole, Bool.and_eq_true, decide_eq_true_eq]
    omega
  by_cases hlimit : depth = 0 ∨ limit < 2 ^ 63
  · have hbound : depth = 0 ∨
        ∀ n, (((ix.seenEdges rev callKinds).filter (dir.near · == n)).length : Int) ≤ (Int64.ofInt limit).toInt :=
      hlimit.imp_right fun hlt n => by
        rw [Int64.toInt_ofInt_of_le (by omega) hlt]
        exact hfew n
    obtain ⟨r, hgrow, hexact, hcard⟩ := exists_callsAround start hbound
    rw [callGraphBy_apply hrev hname hstart (hlimit.imp_right hholds.2) hgrow, hcard, Nat.cast_le]
    constructor
    · rintro ⟨data, hdata, -⟩
      refine ⟨hlimit, ?_⟩
      by_contra hmany
      rw [if_neg hmany] at hdata
      cases hdata
    · rintro ⟨-, hroom⟩
      exact ⟨_, by rw [if_pos hroom], hexact⟩
  · refine ⟨fun ⟨data, hdata, _⟩ => ?_, fun h => absurd h.1 hlimit⟩
    rw [callGraphBy_eq hrev hname hstart, if_neg (by rwa [hholds]), guarded_error rfl] at hdata
    cases hdata

/-- A store in which `a` calls `b`, which returns to it and calls `c`; `c` stands in no file, and one more call of `a`
is seen by another revision only. -/
def calledStore : Index where
  revisions := [⟨some "r", none, 0⟩, ⟨some "q", none, 1⟩]
  files := [⟨1, "/p.py", "python"⟩]
  versions := [⟨"r", 1, "x", 0⟩, ⟨"q", 1, "y", 0⟩]
  nodes := [⟨"a", "x", 1, "python", "call", ⟨0, 1, 1, 1, 1, 2⟩, ""⟩,
    ⟨"b", "x", 1, "python", "call", ⟨2, 3, 2, 1, 2, 2⟩, ""⟩]
  edges := [⟨"y", 1, "a", "c", "CALL", ""⟩, ⟨"x", 1, "a", "b", "CALL", ""⟩, ⟨"x", 1, "b", "a", "CFG_IP_RET", ""⟩,
    ⟨"x", 1, "b", "c", "CALL", ""⟩]

lemma requireRevision_calledStore : calledStore.requireRevision (some "r") = .ok "r" :=
  requireRevision_eq_ok_iff.mpr ⟨by decide, by decide +kernel⟩

lemma calledStore_few {limit : Int} (hlimit : 4 ≤ limit) (dir : Index.Direction) (n) :
    (((calledStore.seenEdges "r" callKinds).filter (dir.near · == n)).length : Int) ≤ limit := by
  have hle : ((calledStore.seenEdges "r" callKinds).filter (dir.near · == n)).length ≤ 4 :=
    (List.length_filter_le _ _).trans (List.length_filter_le _ _)
  omega

/-- Whatever is reached is where a walk starts, or an edge leads there. -/
lemma encard_within_le (ix rev start dir depth) :
    (within ix rev start dir depth).encard ≤ (ix.edges.length + 1 : Nat) := by
  have hsub : within ix rev start dir depth ⊆ ((start :: ix.edges.map dir.far).toFinset : Set String) := by
    intro n hn
    rw [List.coe_toFinset]
    cases distance_le_iff.1 (show distance _ _ _ ≤ _ from hn) with
    | start h => exact mem_cons.2 (.inl (mem_singleton.1 h))
    | step _ hstep =>
      obtain ⟨e, he, -, rfl⟩ := hstep
      exact mem_cons_of_mem _ (mem_map_of_mem (mem_filter.1 he).1)
  refine (Set.encard_le_encard hsub).trans ?_
  rw [Set.encard_coe_eq_coe_finsetCard, Nat.cast_le]
  exact (List.toFinset_card_le _).trans (by simp)

/-- Two layers from `a` take in the call, the return and the call beyond; `c` is reached but has no place. -/
theorem called_store_region : ∃ data,
    callGraphBy calledStore (callGraphArguments "r" "a" .out 2 200) (rootWorkspace []) =
      (.ok (.found data), rootWorkspace []) ∧ CallsAround calledStore "r" "a" .out 2 data :=
  (callGraph_exact_iff requireRevision_calledStore (by decide +kernel) (by decide +kernel)
    (calledStore_few (by decide) .out) 2 (rootWorkspace [])).mpr
    ⟨.inr (by decide), (encard_within_le _ _ _ _ _).trans (by decide)⟩

/-- No node has more edges than the bound, but the bound does not fit into a cell. -/
theorem unbindable_limit_refused :
    (∀ n, (((calledStore.seenEdges "r" callKinds).filter (Index.Direction.out.near · == n)).length : Int) ≤ 2 ^ 63) ∧
      callGraphBy calledStore (callGraphArguments "r" "a" .out 2 (2 ^ 63)) (rootWorkspace []) =
        (.ok (.refused "cpg_callgraph failed"
          [("error", .text "Python int too large to convert to SQLite INTEGER")]), rootWorkspace []) := by
  refine ⟨calledStore_few (by decide) .out, ?_⟩
  have hrun : callGraphBy calledStore (callGraphArguments "r" "a" .out (2 : Nat) (2 ^ 63)) = _ :=
    callGraphBy_eq requireRevision_calledStore (by decide +kernel) (by decide +kernel)
  rw [if_neg (by decide)] at hrun
  exact (congrFun hrun _).trans (guarded_error rfl _)

end Inquiry

end PatchReview
