import Mathlib.Data.List.Forall2
import PatchReview.Proofs.Graph.TreeEdges

/-!
# Graphs without loose ends

Nodes, edges, symbols and calls of a graph are made by separate walks over the files, and calls are matched while later
files are not added yet. When all files are added, every edge joins nodes of the graph, every symbol is a node, and
every call leads to a symbol of the caller's language or carries the mark.
-/

namespace PatchReview.Graph

open Fields List Syntax

variable {files noded called : List ParsedFile} {f : ParsedFile} {d : Draft} {symbols symbols' : List (String × Symbol)}

/-- The ids of the nodes of some files' trees. -/
def forestIds (files : List ParsedFile) : Strings := files.flatMap treeIds

lemma treeIds_subset_forestIds (hf : f ∈ files) : treeIds f ⊆ forestIds files :=
  fun _ hid => mem_flatMap.2 ⟨f, hf, hid⟩

/-! ## The calls of a file -/

/-- Every symbol stays, with its language. -/
def KeepsLanguages (symbols symbols' : List (String × Symbol)) : Prop :=
  ∀ id s, get? symbols id = some s → ∃ s', get? symbols' id = some s' ∧ s'.lang = s.lang

lemma KeepsLanguages.refl (symbols) : KeepsLanguages symbols symbols := fun _ s h => ⟨s, h, rfl⟩

/-- Edges for the call sites of a file, in their order. Each carries the mark or leads to a symbol of the file's
language. -/
structure CallsOf (symbols : List (String × Symbol)) (f : ParsedFile) (es : List Edge) : Prop where
  sites : es.map (·.src) = (callSites f.blob f.source f.root).calls.map (·.src)
  target : ∀ e ∈ es, e.unresolved = true ∨ ∃ s, get? symbols e.dst = some s ∧ s.lang = f.lang

lemma CallsOf.keeps {es} (h : CallsOf symbols f es) (hk : KeepsLanguages symbols symbols') : CallsOf symbols' f es := by
  refine ⟨h.sites, fun e he => (h.target e he).imp_right ?_⟩
  rintro ⟨s, hs, hl⟩
  obtain ⟨s', hs', hl'⟩ := hk _ s hs
  exact ⟨s', hs', hl'.trans hl⟩

lemma CallsOf.src_mem {es} (h : CallsOf symbols f es) {e} (he : e ∈ es) : e.src ∈ treeIds f := by
  have hsrc : e.src ∈ (callSites f.blob f.source f.root).calls.map (·.src) := h.sites ▸ mem_map_of_mem he
  obtain ⟨c, hc, hsrc⟩ := mem_map.1 hsrc
  obtain ⟨-, t, ht, hid⟩ := mem_calls hc
  rw [← hsrc, hid]
  exact mem_map_of_mem ht

/-- The calls of a graph are those of some files, one after the other. -/
def CallsOfAll (g : Graph) (called : List ParsedFile) : Prop :=
  ∃ groups : List (List Edge), g.calls = groups.flatten ∧ List.Forall₂ (CallsOf g.symbols) called groups

lemma CallsOfAll.keeps {g g'} (h : CallsOfAll g called) (hc : g'.calls = g.calls)
    (hk : KeepsLanguages g.symbols g'.symbols) : CallsOfAll g' called := by
  obtain ⟨groups, hflat, hall⟩ := h
  exact ⟨groups, hc.trans hflat, hall.imp fun _ _ h => h.keeps hk⟩

/-! ## A draft on the way -/

/-- What holds of a draft while the graph of `files` is built: the nodes of `noded` and the calls of `called` are
there, and all else refers to nodes that are there in the end. -/
structure Draft.Partial (files noded called : List ParsedFile) (d : Draft) : Prop extends Draft.Coherent d where
  symbol : ∀ p ∈ d.graph.symbols, p.1 ∈ forestIds files
  node : ∀ id, id ∈ d.graph.nodes.map (·.1) ↔ id ∈ forestIds noded
  edge : Inside (forestIds files) d.graph.edges
  call : CallsOfAll d.graph called

lemma edges_foldl_addNode (ns : List Node) (g) : (ns.foldl addNode g).edges = g.edges := by
  induction ns generalizing g with
  | nil => rfl
  | cons n ns ih => exact ih _

namespace Draft

lemma partial_empty (files) : Partial files [] [] {} where
  toCoherent := coherent_empty
  symbol := by simp
  node := by simp [forestIds]
  edge := by simp [Inside]
  call := ⟨[], rfl, .nil⟩

/-- A symbol under a new id, or before any calls, keeps a draft what it is. -/
lemma Partial.addSymbol (h : d.Partial files noded called) {s} (hs : s.id ∈ forestIds files)
    (hk : called = [] ∨ s.id ∉ d.graph.symbols.map (·.1)) : (d.addSymbol s).Partial files noded called where
  toCoherent := h.toCoherent.addSymbol s
  symbol := by
    intro p hp
    rcases (mem_insert_iff h.nodup).1 hp with rfl | ⟨hp, -⟩
    · exact hs
    · exact h.symbol p hp
  node := h.node
  edge := h.edge
  call := by
    rcases hk with rfl | hnew
    · obtain ⟨groups, hflat, hall⟩ := h.call
      cases hall
      exact ⟨[], hflat, .nil⟩
    · refine h.call.keeps rfl fun id t ht => ⟨t, ?_, rfl⟩
      change get? (insert d.graph.symbols s.id s) id = some t
      rw [get?_insert, if_neg]
      · exact ht
      · rintro rfl
        exact hnew (mem_map_of_mem (f := (·.1)) (mem_of_get? ht))

lemma Partial.collect (h : d.Partial files noded []) (hf : f ∈ files) : (d.collect f).Partial files noded [] := by
  refine List.foldlRecOn _ _ h fun d h s hs => h.addSymbol ?_ (.inl rfl)
  obtain ⟨t, ht, hs⟩ := mem_filterMap.1 hs
  rw [Tree.walk_singleton] at ht
  exact treeIds_subset_forestIds hf (mem_treeIds_of_symbolOf? ht hs).2

/-! ## One file -/

/-- A draft with the nodes of a file and their edges. -/
def flatten (d : Draft) (f : ParsedFile) : Draft :=
  let g := (flatNodes (originOf f) f.root).foldl addNode d.graph
  { d with graph := (g.addEdges (flatEdges (originOf f) f.root)).addEdges (flow f.blob f.root) }

/-- A draft with the declarations of a file. -/
def declareAll (d : Draft) (f : ParsedFile) : Draft :=
  (callSites f.blob f.source f.root).declarations.foldl (declare f) d

/-- A draft with the calls of a file. -/
def callAll (interprocedural : Bool) (d : Draft) (f : ParsedFile) : Draft :=
  (callSites f.blob f.source f.root).calls.foldl (addCall interprocedural f.lang) d

lemma Partial.flatten (h : d.Partial files noded called) (hf : f ∈ files) (hb : f.blob ≠ "") :
    (d.flatten f).Partial files (noded ++ [f]) called := by
  have hlead : (originOf f).idLead = f.blob := if_neg (by simpa [originOf] using hb)
  have hsymbols : (d.flatten f).graph.symbols = d.graph.symbols := symbols_foldl_addNode _
  have hcalls : (d.flatten f).graph.calls = d.graph.calls := calls_foldl_addNode _
  have hsub := treeIds_subset_forestIds hf
  refine ⟨h.toCoherent.congr hsymbols rfl, hsymbols ▸ h.symbol, ?_, ?_, ?_⟩
  · intro id
    change id ∈ ((flatNodes (originOf f) f.root).foldl addNode d.graph).nodes.map (·.1) ↔ _
    rw [mem_keys_foldl_addNode, h.node, flatNodes_eq]
    simp [forestIds, treeIds, nodeOf, hlead]
  · have htree : Inside (treeIds f) (flatEdges (originOf f) f.root) := by
      have := inside_flatEdges (originOf f) f.root
      rwa [hlead] at this
    have hflow : Inside (treeIds f) (flow f.blob f.root) := inside_flow f.blob f.root
    change Inside _ ((_ ++ _) ++ _)
    rw [edges_foldl_addNode]
    exact (h.edge.append (htree.mono hsub)).append (hflow.mono hsub)
  · exact h.call.keeps hcalls (hsymbols ▸ .refl _)

lemma Partial.declareAll (h : d.Partial files noded called) (hf : f ∈ files) :
    (d.declareAll f).Partial files noded called := by
  refine List.foldlRecOn _ _ h fun d h decl hdecl => ?_
  obtain ⟨t, ht, hid⟩ := mem_declarations hdecl
  unfold Draft.declare
  dsimp only
  split
  · exact h
  · rename_i hnew
    refine h.addSymbol (treeIds_subset_forestIds hf (hid ▸ mem_map_of_mem ht)) (.inr fun hmem => hnew ?_)
    obtain ⟨p, hp, hkey⟩ := mem_map.1 hmem
    exact any_eq_true.2 ⟨p, hp, beq_iff_eq.2 hkey⟩

/-- A matched call of a draft leads to one of its symbols, in the caller's language; a call that is not matched carries
the mark. -/
lemma Coherent.resolveCall_target (h : Coherent d) (lang) {e} (he : e.attrs = [unresolvedMark]) :
    (d.resolveCall lang e).src = e.src ∧ ((d.resolveCall lang e).unresolved ∨
        ∃ s, get? d.graph.symbols (d.resolveCall lang e).dst = some s ∧ s.lang = lang) := by
  rcases h.resolveCall_cases lang e with ⟨hr, -⟩ | ⟨p, hp, hl, hr⟩
  · rw [hr]
    exact ⟨rfl, .inl (by rw [Edge.unresolved, he]; rfl)⟩
  · rw [hr]
    exact ⟨rfl, .inr ⟨p.2, get?_of_mem h.nodup hp, hl⟩⟩

/-- The flow into a callee and back joins the call to a symbol. -/
lemma Coherent.inside_addCall (h : Coherent d) {ids} (hsym : ∀ p ∈ d.graph.symbols, p.1 ∈ ids)
    (hedge : Inside ids d.graph.edges) (interprocedural) {lang e} (he : e.attrs = [unresolvedMark])
    (hsrc : e.src ∈ ids) : Inside ids (addCall interprocedural lang d e).graph.edges := by
  obtain ⟨hs, htarget⟩ := h.resolveCall_target lang he
  unfold addCall
  dsimp only
  split
  · rename_i hmatched
    rcases htarget with hmark | ⟨s, hget, -⟩
    · simp [hmark] at hmatched
    · have hdst : (d.resolveCall lang e).dst ∈ ids := hsym _ (mem_of_get? hget)
      have hsrc : (d.resolveCall lang e).src ∈ ids := hs ▸ hsrc
      refine (hedge.append ?_).append ?_
      · exact forall_mem_singleton.2 ⟨hsrc, hdst⟩
      · exact forall_mem_singleton.2 ⟨hdst, hsrc⟩
  · exact hedge

lemma Partial.callAll (h : d.Partial files noded called) (hf : f ∈ files) (interprocedural) :
    (d.callAll interprocedural f).Partial files noded (called ++ [f]) := by
  obtain ⟨hindex, hsymbols, hnodes, hcalls⟩ :=
    foldl_addCall interprocedural f.lang (callSites f.blob f.source f.root).calls d
  refine ⟨h.toCoherent.congr hsymbols hindex, hsymbols ▸ h.symbol, hnodes ▸ h.node, ?_, ?_⟩
  · -- the symbols stay while calls are added, so each call is matched in a coherent draft
    refine (List.foldlRecOn (motive := fun d' : Draft => d'.graph.symbols = d.graph.symbols ∧ d'.index = d.index ∧
      Inside (forestIds files) d'.graph.edges) _ _ ⟨rfl, rfl, h.edge⟩ ?_).2.2
    rintro d' ⟨hs, hi, hin⟩ e he
    obtain ⟨hmark, t, ht, hsrc⟩ := mem_calls he
    obtain ⟨hi', hs', -⟩ := foldl_addCall interprocedural f.lang [e] d'
    refine ⟨hs'.trans hs, hi'.trans hi, (h.toCoherent.congr hs hi).inside_addCall (hs ▸ h.symbol) hin _ hmark ?_⟩
    exact treeIds_subset_forestIds hf (hsrc ▸ mem_map_of_mem ht)
  · obtain ⟨groups, hflat, hall⟩ := h.call
    have hown : CallsOf d.graph.symbols f
        ((callSites f.blob f.source f.root).calls.map (d.resolveCall f.lang)) := by
      constructor
      · rw [map_map]
        exact map_congr_left fun e he => (h.toCoherent.resolveCall_target f.lang (mem_calls he).1).1
      · intro e' he'
        obtain ⟨e, he, rfl⟩ := mem_map.1 he'
        exact (h.toCoherent.resolveCall_target f.lang (mem_calls he).1).2
    refine ⟨groups ++ [(callSites f.blob f.source f.root).calls.map (d.resolveCall f.lang)], ?_, ?_⟩
    · rw [Draft.callAll, hcalls, hflat]
      simp
    · rw [Draft.callAll, hsymbols]
      exact rel_append hall (.cons hown .nil)

end Draft

/-! ## Tags -/

section

variable {policy : Policy} {lang : String} {g : Graph}

/-- A tagged symbol is one from before, but for its kind. -/
lemma mem_tag_symbols {p} (h : p ∈ (tag policy lang g).symbols) :
    ∃ q ∈ g.symbols, p.1 = q.1 ∧ p.2.id = q.2.id ∧ p.2.name = q.2.name := by
  obtain ⟨kind, hk⟩ := tag_symbols policy lang g
  rw [hk] at h
  obtain ⟨q, hq, rfl⟩ := mem_map.1 h
  exact ⟨q, hq, rfl, rfl, rfl⟩

lemma keys_tag : (tag policy lang g).symbols.map (·.1) = g.symbols.map (·.1) := by
  obtain ⟨kind, hk⟩ := tag_symbols policy lang g
  rw [hk, map_map]
  rfl

lemma get?_map_symbols (kind : Symbol → String) (id) :
    get? (symbols.map fun p => (p.1, { p.2 with kind := kind p.2 })) id =
      (get? symbols id).map fun s => { s with kind := kind s } := by
  induction symbols with
  | nil => rfl
  | cons p rest ih =>
    rw [map_cons, get?_cons, get?_cons, ih]
    split <;> rfl

lemma lang_get?_tag (policy) (lang) (g) (id : String) :
    (get? (tag policy lang g).symbols id).map (·.lang) = (get? g.symbols id).map (·.lang) := by
  obtain ⟨kind, hk⟩ := tag_symbols policy lang g
  rw [hk, get?_map_symbols, Option.map_map]
  rfl

lemma keepsLanguages_tag : KeepsLanguages g.symbols (tag policy lang g).symbols := by
  intro id s hs
  have hlang := lang_get?_tag policy lang g id
  rw [hs] at hlang
  exact Option.map_eq_some_iff.1 hlang

lemma Draft.Coherent.tag (h : d.Coherent) (policy lang) :
    Draft.Coherent { d with graph := Graph.tag policy lang d.graph } where
  keyed := by
    intro p hp
    obtain ⟨q, hq, hkey, hid, -⟩ := mem_tag_symbols hp
    rw [hkey, hid]
    exact h.keyed q hq
  nodup := by
    rw [keys_tag]
    exact h.nodup
  indexed := fun id => (h.indexed id).trans (lang_get?_tag policy lang d.graph id).symm
  listed := by
    intro p hp
    obtain ⟨q, hq, hkey, -, hname⟩ := mem_tag_symbols hp
    rw [hkey, hname]
    exact h.listed q hq
  known := by
    intro name id hid
    rw [keys_tag]
    exact h.known name id hid

lemma Draft.Partial.tag (h : d.Partial files noded called) (policy lang) :
    Draft.Partial files noded called { d with graph := Graph.tag policy lang d.graph } where
  toCoherent := h.toCoherent.tag policy lang
  symbol := by
    intro p hp
    obtain ⟨q, hq, hkey, -, -⟩ := mem_tag_symbols hp
    rw [hkey]
    exact h.symbol q hq
  node := h.node
  edge := h.edge
  call := h.call.keeps rfl keepsLanguages_tag

end

/-! ## All files -/

lemma Draft.Partial.addFile (h : d.Partial files noded noded) (hf : f ∈ files) (hb : f.blob ≠ "") (policy)
    (interprocedural : Bool) : (d.addFile policy interprocedural f).Partial files (noded ++ [f]) (noded ++ [f]) := by
  exact (((h.flatten hf hb).declareAll hf).callAll hf interprocedural).tag policy f.lang

lemma Draft.Partial.addFiles (policy) (interprocedural : Bool) (fs : List ParsedFile)
    (h : d.Partial files noded noded) (hfs : ∀ f ∈ fs, f ∈ files) (hb : ∀ f ∈ fs, f.blob ≠ "") :
    (fs.foldl (Draft.addFile policy interprocedural) d).Partial files (noded ++ fs) (noded ++ fs) := by
  induction fs generalizing d noded with
  | nil => simpa using h
  | cons f fs ih =>
    have hstep := h.addFile (hfs f mem_cons_self) (hb f mem_cons_self) policy interprocedural
    have hrun := ih hstep (fun g hg => hfs g (mem_cons_of_mem _ hg)) fun g hg => hb g (mem_cons_of_mem _ hg)
    rwa [append_assoc] at hrun

/-- A graph of some files without loose ends: its nodes are those of the files' trees, edges join nodes, symbols are
nodes, and the calls are those of the files in their order, each from a node and, unless it carries the mark, to a symbol
of the calling file's language. -/
structure Intact (files : List ParsedFile) (g : Graph) : Prop where
  node : ∀ id, id ∈ g.nodes.map (·.1) ↔ ∃ f ∈ files, id ∈ treeIds f
  edge : ∀ e ∈ g.edges, e.src ∈ g.nodes.map (·.1) ∧ e.dst ∈ g.nodes.map (·.1)
  symbol : ∀ p ∈ g.symbols, p.1 = p.2.id ∧ p.2.id ∈ g.nodes.map (·.1)
  call : ∃ groups : List (List Edge), g.calls = groups.flatten ∧
    List.Forall₂ (fun f es => CallsOf g.symbols f es ∧ ∀ e ∈ es, e.src ∈ g.nodes.map (·.1)) files groups

lemma Draft.Partial.intact (h : d.Partial files files files) : Intact files d.graph where
  node := fun id => (h.node id).trans mem_flatMap
  edge := fun e he => ⟨(h.node _).2 (h.edge e he).1, (h.node _).2 (h.edge e he).2⟩
  symbol := fun p hp => ⟨h.keyed p hp, h.keyed p hp ▸ (h.node _).2 (h.symbol p hp)⟩
  call := by
    obtain ⟨groups, hflat, hall⟩ := h.call
    have hmem : List.Forall₂ (fun f es => f ∈ files ∧ CallsOf d.graph.symbols f es) files groups :=
      (List.forall₂_and_left (p := (· ∈ files)) files groups).2 ⟨fun _ hf => hf, hall⟩
    refine ⟨groups, hflat, hmem.imp fun f es hcalls => ⟨hcalls.2, fun e he => ?_⟩⟩
    exact (h.node _).2 (treeIds_subset_forestIds hcalls.1 (hcalls.2.src_mem he))

lemma build_partial (policy) (interprocedural : Bool) (hb : ∀ f ∈ files, f.blob ≠ "") :
    ∃ d : Draft, d.graph = build policy interprocedural files ∧ d.Partial files files files := by
  have hcollected : (files.foldl Draft.collect {}).Partial files [] [] :=
    List.foldlRecOn _ _ (Draft.partial_empty files) fun d h f hf => h.collect hf
  exact ⟨_, rfl, hcollected.addFiles policy interprocedural files (fun _ hf => hf) hb⟩

/-- Data flow of the files keeps a graph without loose ends. -/
lemma Draft.Partial.withDefUse (h : d.Partial files files files) (hf : f ∈ files) :
    Draft.Partial files files files { d with graph := d.graph.withDefUse f } where
  toCoherent := h.toCoherent.congr rfl rfl
  symbol := h.symbol
  node := h.node
  edge := h.edge.append ((inside_defUse f.blob f.source f.root).mono (treeIds_subset_forestIds hf))
  call := h.call.keeps rfl (.refl _)

/-- The graph of files whose contents all have a digest has no loose ends, before and after the data flow of some of the
files is added to it. -/
theorem build_intact (policy : Policy) (interprocedural : Bool) {files flowing : List ParsedFile}
    (hb : ∀ f ∈ files, f.blob ≠ "") (hflowing : ∀ f ∈ flowing, f ∈ files) :
    Intact files (flowing.foldl withDefUse (build policy interprocedural files)) := by
  obtain ⟨d, hd, hpartial⟩ := build_partial policy interprocedural hb
  rw [← hd]
  have hrun : ∃ d' : Draft, d'.graph = flowing.foldl withDefUse d.graph ∧ d'.Partial files files files := by
    refine List.foldlRecOn (motive := fun g => ∃ d' : Draft, d'.graph = g ∧ d'.Partial files files files) flowing
      withDefUse ⟨d, rfl, hpartial⟩ ?_
    rintro _ ⟨d', rfl, h⟩ f hf
    exact ⟨_, rfl, h.withDefUse (hflowing f hf)⟩
  obtain ⟨d', hd', h⟩ := hrun
  rw [← hd']
  exact h.intact

/-! ## Files that are joined by a call -/

/-- A file that calls `f`, one that defines it, and one with data flow. -/
def joinedFiles : List ParsedFile := [
  ⟨"use.py", "python", utf8 "f()", "u", .node "call" 0 3 [.node "identifier" 0 1 []]⟩,
  ⟨"lib.py", "python", utf8 "def f", "l", .node "function_definition" 0 5 [.node "identifier" 4 5 []]⟩,
  ⟨"count.py", "python", countingSource, "c", countingTree⟩]

/-- The call leads into the file added after it, and the graph has no loose ends. -/
theorem joined_files_intact : (∀ f ∈ joinedFiles, f.blob ≠ "") ∧ (∀ f ∈ joinedFiles.drop 2, f ∈ joinedFiles) ∧
      (∀ kind ∈ ["CFG_IP_CALL", "CFG_IP_RET", "DDG"],
        ∃ e ∈ ((joinedFiles.drop 2).foldl withDefUse (build .standard true joinedFiles)).edges, e.kind = kind) ∧
      Intact joinedFiles ((joinedFiles.drop 2).foldl withDefUse (build .standard true joinedFiles)) := by
  have hdigests : ∀ f ∈ joinedFiles, f.blob ≠ "" := by decide
  have hflowing : ∀ f ∈ joinedFiles.drop 2, f ∈ joinedFiles := fun f hf => List.mem_of_mem_drop hf
  exact ⟨hdigests, hflowing, by decide +kernel, build_intact .standard true hdigests hflowing⟩

end PatchReview.Graph
