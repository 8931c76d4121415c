import PatchReview.Proofs.Graph.OneFile
import Mathlib.Data.List.Infix

/-!
# Edges of one tree

Syntax, control flow and data flow of a file are read from its tree by separate walks. All lead from nodes of the tree
to nodes of the tree.

The walk that reads data flow keeps the last definition of each variable. A use takes its value from the last assignment
to its variable that stands before it in the order of the tree. An assignment stands before its own right-hand side, so
a variable used in its own reassignment takes its value from the reassignment.
-/

namespace PatchReview.Graph

open DefUse Fields List Syntax Tree

/-- Edges that lead from some ids to some of them. -/
def Inside (ids : Strings) (es : List Edge) : Prop := ∀ e ∈ es, e.src ∈ ids ∧ e.dst ∈ ids

variable {ids : List String} {es : List Edge} {leading : String}

lemma Inside.append {es'} (h : Inside ids es) (h' : Inside ids es') : Inside ids (es ++ es') :=
  forall_mem_append.2 ⟨h, h'⟩

lemma Inside.mono {ids'} (h : Inside ids es) (hsub : ids ⊆ ids') : Inside ids' es :=
  fun e he => ⟨hsub (h e he).1, hsub (h e he).2⟩

/-! ## Syntax -/

mutual

/-- Every node but the root has an edge that comes to it, in the order of the tree. -/
lemma dst_flatEdges (o) : ∀ t, (flatEdges o t).map (·.dst) = (preorders t.children).map (blockId o.idLead)
  | .node k s e cs => by
    rw [flatEdges, dst_flatEdgesAll o _ cs]
    rfl

lemma dst_flatEdgesAll (o parent) : ∀ ts,
    (flatEdgesAll o parent ts).map (·.dst) = (preorders ts).map (blockId o.idLead)
  | [] => rfl
  | t :: ts => by
    rw [flatEdgesAll, preorders, preorder_eq]
    simp [dst_flatEdges o t, dst_flatEdgesAll o parent ts, syntaxEdge]

end

mutual

lemma src_flatEdges (o) : ∀ t, ∀ e ∈ flatEdges o t, e.src ∈ t.preorder.map (blockId o.idLead)
  | .node k s e cs, a, ha => by
    rw [flatEdges] at ha
    exact mem_cons.2 (src_flatEdgesAll o _ cs a ha)

/-- An edge below several trees starts at their parent or inside them. -/
lemma src_flatEdgesAll (o parent) : ∀ ts, ∀ e ∈ flatEdgesAll o parent ts,
    e.src = parent ∨ e.src ∈ (preorders ts).map (blockId o.idLead)
  | [], _, ha => by cases ha
  | t :: ts, a, ha => by
    rw [flatEdgesAll, cons_append, mem_cons, mem_append] at ha
    rw [preorders, map_append, mem_append]
    rcases ha with rfl | ha | ha
    · exact .inl rfl
    · exact .inr (.inl (src_flatEdges o t a ha))
    · exact (src_flatEdgesAll o parent ts a ha).imp_right .inr

end

lemma inside_flatEdges (o t) : Inside (t.preorder.map (blockId o.idLead)) (flatEdges o t) := by
  refine fun e he => ⟨src_flatEdges o t e he, ?_⟩
  have hdst : e.dst ∈ (flatEdges o t).map (·.dst) := mem_map_of_mem he
  rw [dst_flatEdges] at hdst
  rw [preorder_eq]
  exact mem_cons_of_mem _ hdst

/-! ## Control flow -/

mutual

/-- The statements of a tree are the nodes that are statements, in the order of the tree. -/
lemma statements_eq : ∀ t, statements t = t.preorder.filter isStatement
  | .node k s e cs => by
    rw [statements, preorder, filter_cons, statementsAll_eq cs]

lemma statementsAll_eq : ∀ ts, statementsAll ts = (preorders ts).filter isStatement
  | [] => rfl
  | t :: ts => by
    rw [statementsAll, preorders, filter_append, statements_eq t, statementsAll_eq ts]

end

lemma flow_sequence (leading ts) : (flowFrom leading ts).filter (·.kind == "CFG") =
    (ts.zip ts.tail).map fun p => ⟨blockId leading p.1, blockId leading p.2, "CFG", []⟩ := by
  have hbranch (t) : (branchEdges leading t).filter (·.kind == "CFG") = [] := by
    unfold branchEdges
    split <;> simp [filter_map, Function.comp_def]
  induction ts using flowFrom.induct with
  | case1 => rfl
  | case2 t => exact hbranch t
  | case3 t u rest ih =>
    rw [flowFrom, cons_append, filter_cons_of_pos (by rfl), filter_append, hbranch, ih]
    rfl

lemma inside_branchEdges {root t : Tree} (ht : t ∈ root.preorder) :
    Inside (root.preorder.map (blockId leading)) (branchEdges leading t) := by
  intro e he
  unfold branchEdges at he
  split at he
  · obtain ⟨c, hc, rfl⟩ := mem_map.1 he
    exact ⟨mem_map_of_mem ht, mem_map_of_mem (mem_preorder_of_child ht (mem_filter.1 hc).1)⟩
  · cases he

lemma inside_flowFrom {root : Tree} {ts} (hts : ∀ t ∈ ts, t ∈ root.preorder) :
    Inside (root.preorder.map (blockId leading)) (flowFrom leading ts) := by
  induction ts using flowFrom.induct with
  | case1 => exact fun _ h => by cases h
  | case2 t => exact inside_branchEdges (hts t mem_cons_self)
  | case3 t u rest ih =>
    obtain ⟨ht, hrest⟩ := forall_mem_cons.1 hts
    refine forall_mem_cons.2 ⟨⟨mem_map_of_mem ht, mem_map_of_mem (hrest u mem_cons_self)⟩, ?_⟩
    exact (inside_branchEdges ht).append (ih hrest)

lemma inside_flow (leading) (root : Tree) : Inside (root.preorder.map (blockId leading)) (flow leading root) := by
  refine inside_flowFrom fun t ht => ?_
  rw [statements_eq] at ht
  exact (mem_filter.1 ht).1

/-! ## One order for all walks -/

mutual

lemma length_preorder : ∀ t, (preorder t).length = t.size
  | .node k s e cs => by rw [preorder, length_cons, length_preorders cs, size]

lemma length_preorders : ∀ ts, (preorders ts).length = sizes ts
  | [] => rfl
  | t :: ts => by rw [preorders, length_append, length_preorder t, length_preorders ts, sizes]

end

/-- All walks over a tree meet its nodes in the same order, each once: the loop with a stack, by which symbols and calls
are found, and the recursions that flatten a tree and collect its statements. Every node is flattened and every node
but the root has an edge to it; symbols and calls are the nodes of their kinds that have names; and control flow joins
the statements that follow one another. -/
theorem walks_agree (o : Origin) (path lang leading : String) (source : Bytes) (root : Tree) :
    walk [root] = root.preorder ∧ root.preorder.length = root.size ∧
      flatNodes o root = root.preorder.map (nodeOf o) ∧
      (flatNodes o root).length = root.size ∧ (flatEdges o root).length + 1 = root.size ∧
      (flatEdges o root).map (·.dst) = root.preorder.tail.map (blockId o.idLead) ∧
      symbolsOf path lang leading source root =
        (root.preorder.filter (isSymbol lang source)).map (symbolAt path lang leading source) ∧
      (callSites leading source root).calls =
        (root.preorder.filter (isNamed source callKinds)).map (callEdge leading source) ∧
      statements root = root.preorder.filter isStatement ∧
      (flow leading root).filter (·.kind == "CFG") = ((statements root).zip (statements root).tail).map fun p =>
        ⟨blockId leading p.1, blockId leading p.2, "CFG", []⟩ := by
  have hlength := length_preorder root
  have hedges : (flatEdges o root).length = (preorders root.children).length := by
    rw [← length_map (·.dst), dst_flatEdges, length_map]
  refine ⟨walk_singleton root, hlength, flatNodes_eq o root, ?_, ?_, ?_, symbolsOf_eq _ _ _ _ _, calls_eq _ _ _,
    statements_eq root, flow_sequence leading _⟩
  · rw [flatNodes_eq, length_map, hlength]
  · rw [hedges, ← hlength, preorder_eq, length_cons]
  · rw [dst_flatEdges, preorder_eq, tail_cons]

/-! ## Data flow -/

/-- Whether a node is an assignment that defines a variable. -/
def defines (source : Bytes) (v : String) (t : Tree) : Bool :=
  isAssignment t && v != "" && definedVariable source t == v

/-- Whether a node is an identifier that can be defined and used. -/
def isVariable (t : Tree) : Bool := variableKinds.contains t.kind

def isCall (t : Tree) : Bool := callKinds.contains t.kind

/-- The edges that come to a node, when `known` gives the last definitions of the variables: to an assignment from the
first call below it, to an identifier from the definition of its variable, and to a call from the definitions of the
identifiers below it. -/
def inflow (leading : String) (source : Bytes) (known : String → Option String) (t : Tree) : List Edge :=
  let into (attrs : Pairs) (src : String) := ⟨src, blockId leading t, "DDG", attrs⟩
  let v := definedVariable source t
  (if isAssignment t && v != "" then
    (((preorders t.children).find? isCall).map (into [("var", v), ("via", "rhs_call")] <| blockId leading ·)).toList
  else []) ++
  (if isVariable t && !isAssignment t then
    ((known (t.text source)).map (into [("var", t.text source)])).toList
  else []) ++
  if isCall t then
    ((preorders t.children).filter isVariable).filterMap fun n =>
      (known (n.text source)).map (into [("var", n.text source), ("via", "arg")])
  else []

section

variable {leading : String} {source : Bytes} {d : DefUse} {t : Tree} {v : String} {known : String → Option String}

lemma isAssignment_of_isVariable (h : isVariable t) : isAssignment t = false := by
  have hk : t.kind ∈ variableKinds := contains_iff_mem.1 h
  unfold isAssignment
  simp only [variableKinds, mem_cons, not_mem_nil, or_false] at hk
  rcases hk with hk | hk | hk <;> rw [hk] <;> decide

/-- A call is neither an assignment nor an identifier. -/
lemma isCall_eq_false (h : isAssignment t ∨ isVariable t) : isCall t = false := by
  by_contra hcall
  have hk : t.kind ∈ callKinds := by simpa [isCall] using hcall
  simp only [callKinds, mem_cons, not_mem_nil, or_false] at hk
  unfold isAssignment isVariable at h
  rcases hk with hk | hk | hk | hk | hk <;> rw [hk] at h <;> revert h <;> decide

lemma mem_inflow {e} (he : e ∈ inflow leading source known t) : e.dst = blockId leading t ∧
    ((∃ c ∈ t.preorder, e.src = blockId leading c) ∨ ∃ v, known v = some e.src) := by
  unfold inflow at he
  simp only [mem_append] at he
  rcases he with (he | he) | he <;> split at he <;> try cases he
  · obtain ⟨c, hc, rfl⟩ := Option.map_eq_some_iff.1 (Option.mem_toList.1 he)
    rw [preorder_eq]
    exact ⟨rfl, .inl ⟨c, mem_cons_of_mem _ (mem_of_find?_eq_some hc), rfl⟩⟩
  · obtain ⟨src, hsrc, rfl⟩ := Option.map_eq_some_iff.1 (Option.mem_toList.1 he)
    exact ⟨rfl, .inr ⟨_, hsrc⟩⟩
  · obtain ⟨n, -, he⟩ := mem_filterMap.1 he
    obtain ⟨src, hsrc, rfl⟩ := Option.map_eq_some_iff.1 he
    exact ⟨rfl, .inr ⟨_, hsrc⟩⟩

namespace DefUse

lemma get?_last_visit (v) : get? (visit leading source d t).last v =
    if defines source v t then some (blockId leading t) else get? d.last v := by
  unfold visit defines
  dsimp only
  by_cases ha : isAssignment t
  · by_cases hv : definedVariable source t = ""
    · simp [ha, hv]
    · by_cases h : v = definedVariable source t
      · simp [ha, hv, h, get?_insert]
      · simp [ha, hv, h, Ne.symm h, get?_insert]
  · rw [if_neg ha]
    simp only [ha, Bool.false_and]
    split
    · split <;> rfl
    · split <;> rfl

/-- A node adds the edges that come to it from the definitions so far. -/
lemma edges_visit (d t) :
    (visit leading source d t).edges = d.edges ++ inflow leading source (get? d.last) t := by
  have hfirst : firstCall? t = t.preorder.find? isCall := by rw [firstCall?, walk_singleton]; rfl
  have hbelow : variablesBelow t = t.preorder.filter isVariable := by rw [variablesBelow, walk_singleton]; rfl
  have hvariable : variableKinds.contains t.kind = isVariable t := rfl
  have hcall : callKinds.contains t.kind = isCall t := rfl
  rw [preorder_eq] at hfirst hbelow
  unfold visit inflow
  rw [hfirst, hbelow, hvariable, hcall, find?_cons, filter_cons]
  by_cases ha : isAssignment t
  · by_cases hv : definedVariable source t = ""
    · simp [ha, hv, isCall_eq_false (.inl ha)]
    · cases h : (preorders t.children).find? isCall <;> simp [ha, hv, isCall_eq_false (.inl ha)]
  · by_cases hvar : isVariable t
    · cases h : get? d.last (t.text source) <;> simp [ha, hvar, isCall_eq_false (.inr hvar), h]
    · by_cases hc : isCall t = true <;> simp [ha, hvar, hc]

end DefUse

/-! ## Runs of the walk -/

/-- The last of some nodes that defines a variable. -/
def lastDefinition? (source : Bytes) (v : String) (ts : List Tree) : Option Tree :=
  (ts.filter (defines source v)).getLast?

lemma lastDefinition?_append_singleton (ts t) :
    lastDefinition? source v (ts ++ [t]) = if defines source v t then some t else lastDefinition? source v ts := by
  unfold lastDefinition?
  by_cases h : defines source v t = true <;> simp [h]

/-- After some nodes the walk knows the last of them that defines a variable. -/
lemma DefUse.get?_last_foldl (ts v) : get? (ts.foldl (visit leading source) {}).last v =
      (lastDefinition? source v ts).map (blockId leading) := by
  induction ts using List.reverseRecOn with
  | nil => rfl
  | append_singleton ts t ih =>
    rw [foldl_append, foldl_cons, foldl_nil, get?_last_visit, ih, lastDefinition?_append_singleton]
    split <;> rfl

/-- The edges that come to a node behind some others, from the last definitions among those. -/
def inflowAfter (leading : String) (source : Bytes) (before : List Tree) : Tree → List Edge :=
  inflow leading source fun v => (lastDefinition? source v before).map (blockId leading)

lemma DefUse.edges_concat (ts t) : ((ts ++ [t]).foldl (visit leading source) {}).edges =
    (ts.foldl (visit leading source) {}).edges ++ inflowAfter leading source ts t := by
  rw [foldl_append, foldl_cons, foldl_nil, edges_visit, funext (get?_last_foldl ts)]
  rfl

/-- The edges that come to some nodes in turn, behind some others. -/
def inflows (leading : String) (source : Bytes) (before ts : List Tree) : List Edge :=
  (ts.inits.zip ts).flatMap fun p => inflowAfter leading source (before ++ p.1) p.2

/-- Each node adds the edges that come to it from the last definitions before it. -/
lemma DefUse.edges_foldl (before ts) : ((before ++ ts).foldl (visit leading source) {}).edges =
    (before.foldl (visit leading source) {}).edges ++ inflows leading source before ts := by
  unfold inflows
  induction ts generalizing before with
  | nil => simp
  | cons t ts ih =>
    rw [append_cons, ih, edges_concat, inits_cons, zip_cons_cons, flatMap_cons, zip_map_left, flatMap_map]
    simp

lemma defUse_eq (leading source) (root : Tree) :
    defUse leading source root = inflows leading source [] root.preorder := by
  rw [defUse, walk_singleton, ← nil_append root.preorder, edges_foldl]
  rfl

lemma mem_inflows {before ts e} (he : e ∈ inflows leading source before ts) :
    ∃ ts' t, ts' <+: ts ∧ t ∈ ts ∧ e ∈ inflowAfter leading source (before ++ ts') t := by
  obtain ⟨⟨ts', t⟩, hp, he⟩ := mem_flatMap.1 he
  exact ⟨ts', t, (mem_inits _ _).1 (of_mem_zip hp).1, (of_mem_zip hp).2, he⟩

lemma dst_mem_of_mem_inflows {before ts e} (he : e ∈ inflows leading source before ts) :
    e.dst ∈ ts.map (blockId leading) := by
  obtain ⟨_, t, -, ht, he⟩ := mem_inflows he
  exact (mem_inflow he).1 ▸ mem_map_of_mem ht

end

/-- Data flow leads from nodes of the tree to nodes of the tree. -/
lemma inside_defUse (leading) (source) (root : Tree) :
    Inside (root.preorder.map (blockId leading)) (defUse leading source root) := by
  intro e he
  rw [defUse_eq] at he
  refine ⟨?_, dst_mem_of_mem_inflows he⟩
  obtain ⟨before, t, hbefore, ht, he⟩ := mem_inflows he
  rcases (mem_inflow he).2 with ⟨c, hc, hsrc⟩ | ⟨v, hv⟩
  · exact hsrc ▸ mem_map_of_mem (mem_preorder_trans root ht hc)
  · obtain ⟨a, ha, hsrc⟩ := Option.map_eq_some_iff.1 hv
    have hmem : a ∈ before := (mem_filter.1 (mem_of_getLast? ha)).1
    exact hsrc ▸ mem_map_of_mem (hbefore.subset hmem)

section

variable {leading : String} {source : Bytes} {root u : Tree} {v : String}

/-- The edge into an identifier comes from the last definition of its variable before it in the order of the tree; all
other edges come to other nodes. -/
lemma defUse_at (leading) (source) {before after : List Tree} (hu : isVariable u)
    (hplace : root.preorder = before ++ u :: after) :
    ∃ old new, defUse leading source root =
        old ++ ((lastDefinition? source (u.text source) before).map fun t =>
          (⟨blockId leading t, blockId leading u, "DDG", [("var", u.text source)]⟩ : Edge)).toList ++ new ∧
      (∀ e ∈ old, e.dst ∈ before.map (blockId leading)) ∧ ∀ e ∈ new, e.dst ∈ after.map (blockId leading) := by
  refine ⟨inflows leading source [] before, inflows leading source (before ++ [u]) after, ?_,
    fun e => dst_mem_of_mem_inflows, fun e => dst_mem_of_mem_inflows⟩
  unfold defUse
  rw [walk_singleton, hplace, append_cons, edges_foldl, edges_concat, ← nil_append before, edges_foldl]
  simp [inflowAfter, inflow, hu, isAssignment_of_isVariable hu, isCall_eq_false (.inr hu)]
  rfl

lemma lastDefinition?_of_sole {before between a} (ha : defines source v a)
    (hsole : ∀ t ∈ between, defines source v t = false) :
    lastDefinition? source v (before ++ a :: between) = some a := by
  have hnone : between.filter (defines source v) = [] := filter_eq_nil_iff.2 fun t ht => by simp [hsole t ht]
  simp [lastDefinition?, hnone, ha]

end

/-! ## Reassignments -/

/-- A variable is used in its own reassignment: the node `a` defines it, after the node `b` has defined it last, no node
below `a` defines it too, and `u`, below `a`, is an identifier of it other than the first one. -/
structure SelfUse (source : Bytes) (root : Tree) (v : String) (b a u : Tree) : Prop where
  place : ∃ before rest, root.preorder = before ++ a :: rest ∧ lastDefinition? source v before = some b
  reassigns : defines source v a = true
  sole : ∀ t ∈ preorders a.children, defines source v t = false
  use : isVariable u = true ∧ u.text source = v
  below : ∃ between rest, preorders a.children = between ++ u :: rest ∧ ∃ t ∈ between, isVariable t = true

/-- Data flow into a variable before it is reassigned is not cut: a use in the reassignment takes its value from the
definition before, and not from the reassignment. -/
def KeepsFlow (leading : String) (source : Bytes) (root : Tree) : Prop :=
  ∀ v b a u, SelfUse source root v b a u →
    (∃ e ∈ defUse leading source root, e.src = blockId leading b ∧ e.dst = blockId leading u) ∧
      ¬ ∃ e ∈ defUse leading source root, e.src = blockId leading a ∧ e.dst = blockId leading u

section

variable {leading : String} {source : Bytes} {root : Tree} {v : String} {b a u : Tree}

section

variable (h : SelfUse source root v b a u)

include h

/-- A use in a reassignment takes its value from the reassignment, and all other edges come to other nodes. -/
lemma SelfUse.defUse_eq (leading) : ∃ before after old new, root.preorder = before ++ u :: after ∧
      defUse leading source root = old ++ [⟨blockId leading a, blockId leading u, "DDG", [("var", v)]⟩] ++ new ∧
      (∀ e ∈ old, e.dst ∈ before.map (blockId leading)) ∧ ∀ e ∈ new, e.dst ∈ after.map (blockId leading) := by
  obtain ⟨before, rest, hroot, -⟩ := h.place
  obtain ⟨between, rest', hbelow, -⟩ := h.below
  obtain ⟨after, hrest⟩ := prefix_of_preorder_eq root hroot
  have hplace : root.preorder = (before ++ a :: between) ++ u :: (rest' ++ after) := by
    rw [hroot, ← hrest, hbelow]
    simp
  have hsole := (forall_mem_append.1 (hbelow ▸ h.sole)).1
  obtain ⟨hu, rfl⟩ := h.use
  obtain ⟨old, new, heq, hold, hnew⟩ := defUse_at leading source hu hplace
  rw [lastDefinition?_of_sole h.reassigns hsole] at heq
  exact ⟨_, _, old, new, hplace, heq, hold, hnew⟩

lemma SelfUse.mem_defUse (leading) :
    ⟨blockId leading a, blockId leading u, "DDG", [("var", v)]⟩ ∈ defUse leading source root := by
  obtain ⟨-, -, old, new, -, heq, -, -⟩ := h.defUse_eq leading
  rw [heq]
  simp

/-- When the use shares its id with no other node, nothing but the reassignment flows into it. -/
lemma SelfUse.eq_of_mem_defUse (hone : (root.preorder.map (blockId leading)).count (blockId leading u) = 1) {e}
    (he : e ∈ defUse leading source root) (hdst : e.dst = blockId leading u) :
    e = ⟨blockId leading a, blockId leading u, "DDG", [("var", v)]⟩ := by
  obtain ⟨before, after, old, new, hplace, heq, hold, hnew⟩ := h.defUse_eq leading
  rw [hplace, map_append, map_cons, count_append, count_cons_self] at hone
  have hbefore : blockId leading u ∉ before.map (blockId leading) := count_eq_zero.1 (by omega)
  have hafter : blockId leading u ∉ after.map (blockId leading) := count_eq_zero.1 (by omega)
  rw [heq] at he
  rcases mem_append.1 he with he | he
  · rcases mem_append.1 he with he | he
    · exact absurd (hdst ▸ hold e he) hbefore
    · exact mem_singleton.1 he
  · exact absurd (hdst ▸ hnew e he) hafter

end

end

/-- Every use of a variable in its own reassignment takes its value from the reassignment, and from nothing else where
no other node shares its id; so flow into reassigned variables is kept exactly when no variable is used in its own
reassignment. -/
theorem keepsFlow_iff (leading : String) (source : Bytes) (root : Tree) :
    (KeepsFlow leading source root ↔ ¬ ∃ v b a u, SelfUse source root v b a u) ∧
      ∀ v b a u, SelfUse source root v b a u →
        ⟨blockId leading a, blockId leading u, "DDG", [("var", v)]⟩ ∈ defUse leading source root ∧
          ((root.preorder.map (blockId leading)).count (blockId leading u) = 1 →
            ∀ e ∈ defUse leading source root, e.dst = blockId leading u → e.src = blockId leading a) := by
  refine ⟨⟨?_, ?_⟩, fun v b a u h => ⟨h.mem_defUse leading, fun hone e he hdst => ?_⟩⟩
  · rintro hkeeps ⟨v, b, a, u, h⟩
    exact (hkeeps v b a u h).2 ⟨_, h.mem_defUse leading, rfl, rfl⟩
  · intro hno v b a u h
    exact absurd ⟨v, b, a, u, h⟩ hno
  · rw [h.eq_of_mem_defUse hone he hdst]

/-! ## A variable that is counted up -/

/-- The text of `x=1` and `x=x+1` on two lines. -/
def countingSource : Bytes := utf8 "x=1\nx=x+1"

/-- The `x` on the right of the second line. -/
def countedOperand : Tree := .node "identifier" 6 7 []

def firstAssignment : Tree := .node "assignment" 0 3 [.node "identifier" 0 1 [], .node "integer" 2 3 []]

def secondAssignment : Tree :=
  .node "assignment" 4 9 [.node "identifier" 4 5 [],
    .node "binary_operator" 6 9 [countedOperand, .node "integer" 8 9 []]]

def countingTree : Tree := .node "module" 0 9 [firstAssignment, secondAssignment]

lemma selfUse_counting : SelfUse countingSource countingTree "x" firstAssignment secondAssignment countedOperand where
  place := ⟨[countingTree] ++ firstAssignment :: preorders firstAssignment.children,
    preorders secondAssignment.children, rfl, lastDefinition?_of_sole (by decide +kernel) (by decide +kernel)⟩
  reassigns := by decide +kernel
  sole := by decide +kernel
  use := by decide +kernel
  below := ⟨[.node "identifier" 4 5 [], .node "binary_operator" 6 9 [countedOperand, .node "integer" 8 9 []]],
    [.node "integer" 8 9 []], rfl, _, mem_cons_self, by decide⟩

/-- Nothing but `x=x+1` flows into the `x` on its right. -/
theorem counted_operand_sees_itself_only :
    SelfUse countingSource countingTree "x" firstAssignment secondAssignment countedOperand ∧
      (countingTree.preorder.map (blockId "h")).count (blockId "h" countedOperand) = 1 ∧
      ∀ e ∈ defUse "h" countingSource countingTree, e.dst = blockId "h" countedOperand →
        e.src = blockId "h" secondAssignment := by
  have hone : (countingTree.preorder.map (blockId "h")).count (blockId "h" countedOperand) = 1 := by decide +kernel
  exact ⟨selfUse_counting, hone, ((keepsFlow_iff "h" countingSource countingTree).2 _ _ _ _ selfUse_counting).2 hone⟩

/-- The value of `x` on the right of `x=x+1` comes from `x=x+1` itself, and not from `x=1`. -/
theorem counted_operand_sees_itself :
    SelfUse countingSource countingTree "x" firstAssignment secondAssignment countedOperand ∧
      (∃ e ∈ defUse "h" countingSource countingTree,
        e.src = blockId "h" secondAssignment ∧ e.dst = blockId "h" countedOperand) ∧
      ¬ ∃ e ∈ defUse "h" countingSource countingTree,
        e.src = blockId "h" firstAssignment ∧ e.dst = blockId "h" countedOperand :=
  ⟨selfUse_counting, by decide +kernel, by decide +kernel⟩

end PatchReview.Graph
