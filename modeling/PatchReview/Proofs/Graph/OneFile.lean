import PatchReview.Proofs.Graph.Draft

/-!
# The graph of one file

Ids of nodes, symbols and calls are ids of nodes of the file's syntax tree. Inside one file a call is matched exactly
when the file has a symbol of its name.
-/

namespace PatchReview.Graph

open Draft Fields List Syntax

/-! ## Flattened nodes -/

mutual

/-- Flattening goes through a tree as `preorder` does. -/
lemma flatNodes_eq (o) : ∀ t, flatNodes o t = t.preorder.map (nodeOf o)
  | .node k s e cs => by rw [flatNodes, Tree.preorder, map_cons, flatNodesAll_eq o cs]

lemma flatNodesAll_eq (o) : ∀ ts, flatNodesAll o ts = (Tree.preorders ts).map (nodeOf o)
  | [] => rfl
  | t :: ts => by rw [flatNodesAll, Tree.preorders, map_append, flatNodes_eq o t, flatNodesAll_eq o ts]

end

/-- The nodes of a graph are keyed by their ids, each once. -/
structure Keyed (nodes : List (String × Node)) : Prop where
  key : ∀ p ∈ nodes, p.1 = p.2.id
  nodup : (nodes.map (·.1)).Nodup

section

variable {g : Graph} (ns : List Node)

lemma foldl_addNode_keyed (h : Keyed g.nodes) : Keyed (ns.foldl addNode g).nodes := by
  refine List.foldlRecOn ns addNode (motive := fun g => Keyed g.nodes) h fun g h n _ => ⟨?_, ?_⟩
  · intro p hp
    rcases (mem_insert_iff h.nodup).1 hp with rfl | ⟨hp, -⟩
    · rfl
    · exact h.key p hp
  · exact nodup_insert h.nodup n.id n

lemma mem_foldl_addNode (h : Keyed g.nodes) {p} (hp : p ∈ (ns.foldl addNode g).nodes) : p.2 ∈ ns ∨ p ∈ g.nodes := by
  induction ns generalizing g with
  | nil => exact .inr hp
  | cons n ns ih =>
    rcases ih (foldl_addNode_keyed [n] h) hp with hp | hp
    · exact .inl (mem_cons_of_mem _ hp)
    · rcases (mem_insert_iff h.nodup).1 hp with rfl | ⟨hp, -⟩
      · exact .inl mem_cons_self
      · exact .inr hp

lemma mem_keys_foldl_addNode {id} :
    id ∈ (ns.foldl addNode g).nodes.map (·.1) ↔ id ∈ g.nodes.map (·.1) ∨ id ∈ ns.map (·.id) := by
  induction ns generalizing g with
  | nil => simp
  | cons n ns ih =>
    rw [foldl_cons, ih]
    change id ∈ (insert g.nodes n.id n).map (·.1) ∨ _ ↔ _
    rw [mem_keys_insert, map_cons, mem_cons, or_comm (a := id = n.id), or_assoc]

lemma symbols_foldl_addNode : (ns.foldl addNode g).symbols = g.symbols := by
  induction ns generalizing g with
  | nil => rfl
  | cons n ns ih => exact ih

lemma calls_foldl_addNode : (ns.foldl addNode g).calls = g.calls := by
  induction ns generalizing g with
  | nil => rfl
  | cons n ns ih => exact ih

end

/-! ## Calls, declarations and symbols of a tree -/

section

variable {path lang leading : String} {source : Bytes} {root : Tree}

/-- Whether a node is of one of some kinds and carries a name. -/
def isNamed (source : Bytes) (kinds : Strings) (t : Tree) : Bool :=
  kinds.contains t.kind && calledName source t != ""

def callEdge (leading : String) (source : Bytes) (t : Tree) : Edge :=
  ⟨blockId leading t, calledName source t, "CALL", [unresolvedMark]⟩

/-- A walk over some nodes adds the calls and the declarations among them. -/
lemma foldl_visit (ts : List Tree) (found) : ts.foldl (CallSites.visit leading source) found =
    ⟨found.calls ++ (ts.filter (isNamed source callKinds)).map (callEdge leading source),
      (ts.filter (isNamed source declarationKinds)).foldl (fun ds t =>
        insert ds (blockId leading t) (calledName source t, t)) found.declarations⟩ := by
  induction ts generalizing found with
  | nil => simp
  | cons t ts ih =>
    -- A node may declare a name and be a call at once.
    have hd : (declarationKinds.contains t.kind && calledName source t != "") = isNamed source declarationKinds t := rfl
    have hc : (callKinds.contains t.kind && calledName source t != "") = isNamed source callKinds t := rfl
    rw [foldl_cons, ih, filter_cons, filter_cons]
    unfold CallSites.visit
    dsimp only
    rw [hd, hc]
    cases isNamed source declarationKinds t <;> cases isNamed source callKinds t <;> simp [callEdge]

lemma calls_eq (leading source root) : (callSites leading source root).calls =
    (root.preorder.filter (isNamed source callKinds)).map (callEdge leading source) := by
  rw [callSites, Tree.walk_singleton, foldl_visit]
  rfl

lemma mem_calls {e} (he : e ∈ (callSites leading source root).calls) :
    e.attrs = [unresolvedMark] ∧ ∃ t ∈ root.preorder, e.src = blockId leading t := by
  rw [calls_eq] at he
  obtain ⟨t, ht, rfl⟩ := mem_map.1 he
  exact ⟨rfl, t, (mem_filter.1 ht).1, rfl⟩

lemma mem_declarations {p} (hp : p ∈ (callSites leading source root).declarations) :
    ∃ t ∈ root.preorder, p.1 = blockId leading t := by
  rw [callSites, Tree.walk_singleton, foldl_visit] at hp
  refine List.foldlRecOn (motive := fun ds => ∀ p ∈ ds, ∃ t ∈ root.preorder, p.1 = blockId leading t) _ _
    (by simp) (fun ds h t ht p hp => ?_) p hp
  rcases eq_or_mem_of_mem_insert hp with rfl | hp
  · exact ⟨t, (mem_filter.1 ht).1, rfl⟩
  · exact h p hp

/-- Whether a node is a declaration that is listed as a symbol. -/
def isSymbol (lang : String) (source : Bytes) (t : Tree) : Bool :=
  (symbolKinds.contains t.kind || lang == "typescript" && t.kind == "variable_declarator" && hasFunctionValue t)
    && declaredName source t != ""

def symbolAt (path lang leading : String) (source : Bytes) (t : Tree) : Symbol :=
  ⟨blockId leading t, declaredName source t, if symbolKinds.contains t.kind then symbolKindOf t.kind else "function",
    spanOf path source t, lang, path⟩

lemma symbolOf?_eq (t) : symbolOf? path lang leading source t =
    if isSymbol lang source t then some (symbolAt path lang leading source t) else none := by
  unfold symbolOf? isSymbol symbolAt
  dsimp only
  generalize symbolKinds.contains t.kind = listed, (lang == "typescript" && t.kind == "variable_declarator") = declares,
    hasFunctionValue t = function, (declaredName source t != "") = named
  cases listed <;> cases declares <;> cases function <;> cases named <;> rfl

lemma symbolsOf_eq (path lang leading source root) : symbolsOf path lang leading source root =
    (root.preorder.filter (isSymbol lang source)).map (symbolAt path lang leading source) := by
  rw [symbolsOf, Tree.walk_singleton, funext symbolOf?_eq, ← filterMap_eq_map, filterMap_filter]
  rfl

end

/-! ## One file -/

variable {f : ParsedFile} (policy : Policy) (interprocedural : Bool)

/-- Where the nodes of a file come from. -/
def originOf (f : ParsedFile) : Origin := ⟨f.path, f.lang, f.source, f.blob⟩

/-- The ids of the nodes of a file's tree. -/
def treeIds (f : ParsedFile) : Strings := f.root.preorder.map (blockId f.blob)

/-- The draft of a file alone with its collected symbols, its nodes and their edges. -/
def flattened (f : ParsedFile) : Draft :=
  let d := collect {} f
  let g := (flatNodes (originOf f) f.root).foldl addNode d.graph
  { d with graph := (g.addEdges (flatEdges (originOf f) f.root)).addEdges (flow f.blob f.root) }

/-- The draft of a file alone before its calls are added. -/
def declared (f : ParsedFile) : Draft := (callSites f.blob f.source f.root).declarations.foldl (declare f) (flattened f)

lemma build_singleton (f) : build policy interprocedural [f] = tag policy f.lang
      ((callSites f.blob f.source f.root).calls.foldl (Draft.addCall interprocedural f.lang) (declared f)).graph :=
  rfl

/-- What a draft of one file keeps to: its graph and index agree, its symbols are the file's own, and it has no
calls. -/
structure Draft.OwnTo (f : ParsedFile) (d : Draft) : Prop extends Coherent d where
  own : ∀ p ∈ d.graph.symbols, p.2.lang = f.lang ∧ p.1 ∈ treeIds f
  uncalled : d.graph.calls = []

lemma mem_treeIds_of_symbolOf? {t} {s : Symbol} (ht : t ∈ f.root.preorder)
    (hs : symbolOf? f.path f.lang f.blob f.source t = some s) : s.lang = f.lang ∧ s.id ∈ treeIds f := by
  rw [symbolOf?_eq] at hs
  split at hs
  · cases hs
    exact ⟨rfl, mem_map_of_mem ht⟩
  · cases hs

lemma Draft.OwnTo.addSymbol {d : Draft} (h : d.OwnTo f) {s} (hs : s.lang = f.lang ∧ s.id ∈ treeIds f) :
    (d.addSymbol s).OwnTo f where
  toCoherent := h.toCoherent.addSymbol s
  own := by
    intro p hp
    rcases (mem_insert_iff h.nodup).1 hp with rfl | ⟨hp, -⟩
    · exact hs
    · exact h.own p hp
  uncalled := h.uncalled

section

variable (f : ParsedFile)

lemma collect_ownTo : (collect {} f).OwnTo f := by
  refine List.foldlRecOn _ _ ⟨coherent_empty, by simp, rfl⟩ fun d h s hs => h.addSymbol ?_
  obtain ⟨t, ht, hs⟩ := mem_filterMap.1 hs
  rw [Tree.walk_singleton] at ht
  exact mem_treeIds_of_symbolOf? ht hs

lemma flattened_ownTo : (flattened f).OwnTo f := by
  have hc := collect_ownTo f
  have hs : (flattened f).graph.symbols = (collect {} f).graph.symbols := symbols_foldl_addNode _
  refine ⟨hc.toCoherent.congr hs rfl, ?_, (calls_foldl_addNode _).trans hc.uncalled⟩
  rw [hs]
  exact hc.own

lemma declared_ownTo : (declared f).OwnTo f := by
  refine List.foldlRecOn _ _ (flattened_ownTo f) fun d h decl hdecl => ?_
  obtain ⟨t, ht, hid⟩ := mem_declarations hdecl
  unfold declare
  dsimp only
  split
  · exact h
  · exact h.addSymbol ⟨rfl, hid ▸ mem_map_of_mem ht⟩

/-- Declaring names leaves the nodes alone. -/
lemma nodes_declared : (declared f).graph.nodes = ((flatNodes (originOf f) f.root).foldl addNode {}).nodes := by
  have collected : ∀ (ss : List Symbol) (d : Draft), (ss.foldl Draft.addSymbol d).graph.nodes = d.graph.nodes := by
    intro ss
    induction ss with
    | nil => exact fun _ => rfl
    | cons s ss ih => exact fun d => ih _
  have flat : ∀ (ns : List Node) (g g' : Graph), g.nodes = g'.nodes →
      (ns.foldl addNode g).nodes = (ns.foldl addNode g').nodes := by
    intro ns
    induction ns with
    | nil => exact fun _ _ h => h
    | cons n ns ih => exact fun g g' h => ih _ _ (by unfold addNode; rw [h])
  have declaring : ∀ (ds : List (String × String × Tree)) (d : Draft),
      (ds.foldl (declare f) d).graph.nodes = d.graph.nodes := by
    intro ds
    induction ds with
    | nil => exact fun _ => rfl
    | cons decl ds ih =>
      intro d
      rw [foldl_cons, ih]
      unfold declare
      dsimp only
      split <;> rfl
  exact (declaring _ _).trans (flat _ _ _ (collected _ _))

end

/-- A file's graph has the nodes of its tree, under the digest of its content. -/
lemma nodes_singleton (hb : f.blob ≠ "") : Keyed (build policy interprocedural [f]).nodes ∧
      (∀ p ∈ (build policy interprocedural [f]).nodes, p.2 ∈ f.root.preorder.map (nodeOf (originOf f))) ∧
      ∀ id, id ∈ (build policy interprocedural [f]).nodes.map (·.1) ↔ id ∈ treeIds f := by
  have hlead : (originOf f).idLead = f.blob := if_neg (by simpa [originOf] using hb)
  have hn : (build policy interprocedural [f]).nodes = ((flatNodes (originOf f) f.root).foldl addNode {}).nodes := by
    exact (Draft.foldl_addCall _ _ _ _).2.2.1.trans (nodes_declared f)
  have hempty : Keyed (Graph.nodes {}) := ⟨by simp, nodup_nil⟩
  rw [hn, ← flatNodes_eq]
  refine ⟨foldl_addNode_keyed _ hempty, ?_, ?_⟩
  · intro p hp
    exact (mem_foldl_addNode _ hempty hp).resolve_right (by simp)
  · intro id
    rw [mem_keys_foldl_addNode, flatNodes_eq]
    simp [treeIds, nodeOf, hlead]

/-- A file's graph has its symbols in its language, each under the id of a node of its tree. -/
lemma symbols_singleton (f) : ((build policy interprocedural [f]).symbols.map (·.1)).Nodup ∧
      ∀ p ∈ (build policy interprocedural [f]).symbols, p.1 = p.2.id ∧ p.2.lang = f.lang ∧ p.1 ∈ treeIds f := by
  have hd := declared_ownTo f
  obtain ⟨kind, hk⟩ := tag_symbols policy f.lang
    ((callSites f.blob f.source f.root).calls.foldl (Draft.addCall interprocedural f.lang) (declared f)).graph
  rw [(Draft.foldl_addCall _ _ _ _).2.1] at hk
  rw [build_singleton, hk]
  constructor
  · rw [map_map]
    exact hd.nodup
  · intro p hp
    obtain ⟨q, hq, rfl⟩ := mem_map.1 hp
    exact ⟨hd.keyed q hq, (hd.own q hq).1, (hd.own q hq).2⟩

/-- A call of a file's graph comes from a node of its tree. It carries the mark when the file has no symbol of its
name, else it leads to a symbol of the file. -/
lemma calls_singleton {policy interprocedural e} (he : e ∈ (build policy interprocedural [f]).calls) :
    e.src ∈ treeIds f ∧ (e.unresolved ∧ (∀ p ∈ (build policy interprocedural [f]).symbols, p.2.name ≠ e.dst) ∨
        e.unresolved = false ∧ e.dst ∈ (build policy interprocedural [f]).symbols.map (·.1)) := by
  have hd := declared_ownTo f
  obtain ⟨kind, hk⟩ := tag_symbols policy f.lang
    ((callSites f.blob f.source f.root).calls.foldl (Draft.addCall interprocedural f.lang) (declared f)).graph
  rw [(Draft.foldl_addCall _ _ _ _).2.1] at hk
  rw [build_singleton] at he ⊢
  rw [hk]
  have he : e ∈ (callSites f.blob f.source f.root).calls.map ((declared f).resolveCall f.lang) := by
    rw [← nil_append (List.map _ _), ← hd.uncalled, ← (Draft.foldl_addCall interprocedural _ _ _).2.2.2]
    exact he
  obtain ⟨c, hc, rfl⟩ := mem_map.1 he
  obtain ⟨hmark, t, ht, hsrc⟩ := mem_calls hc
  have hid : c.src ∈ treeIds f := hsrc ▸ mem_map_of_mem ht
  rcases hd.resolveCall_cases f.lang c with ⟨hr, hno⟩ | ⟨p, hp, -, hr⟩
  · rw [hr]
    refine ⟨hid, .inl ⟨by rw [Edge.unresolved, hmark]; rfl, ?_⟩⟩
    intro q hq
    obtain ⟨p, hp, rfl⟩ := mem_map.1 hq
    exact hno p hp (hd.own p hp).1
  · rw [hr]
    refine ⟨hid, .inr ⟨by rw [hmark]; rfl, ?_⟩⟩
    rw [map_map]
    exact mem_map_of_mem (f := (·.1)) hp

end PatchReview.Graph
