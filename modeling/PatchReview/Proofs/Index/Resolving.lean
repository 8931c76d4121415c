import Mathlib.Data.String.Basic
import PatchReview.Proofs.Grouping
import PatchReview.Proofs.Index.Content

/-!
# Resolving calls

An open call takes the least id among the symbols of its name, over all contents of the index, and is never looked at
again. The edges that follow from calls are made anew each time: three kinds of edges repeat what the table of calls
says, and resolving puts all three in step with it, whatever rows were there before.
-/

namespace PatchReview.Index

/-!
## Entering a file

Entering a file registers it, its version and its bytes, and stores what its content holds unless the content is held
already. Rows under new ids are appended; a node row under a known id is dropped.
-/

open List

variable {ix ix' : Index} {o : BuildOptions} {rev : String} {f : ParsedFile}

/-! ## Adding the rows of a content -/

/-- Some ids are new to a table and different from one another. -/
def Fresh (table ids : Strings) : Prop := ids.Nodup ∧ ∀ id ∈ ids, id ∉ table

lemma Fresh.tail {table ids id} (h : Fresh table (id :: ids)) : Fresh (table ++ [id]) ids := by
  obtain ⟨hnd, hnew⟩ := h
  rw [nodup_cons] at hnd
  refine ⟨hnd.2, ?_⟩
  intro i hi hmem
  rcases mem_append.1 hmem with hmem | hmem
  · exact hnew i (mem_cons_of_mem _ hi) hmem
  · exact hnd.1 (mem_singleton.1 hmem ▸ hi)

lemma Fresh.nodup_append {table ids} (h : Fresh table ids) (ht : table.Nodup) : (table ++ ids).Nodup :=
  List.nodup_append.2 ⟨ht, h.1, fun _ ha b hb e => h.2 b hb (e ▸ ha)⟩

lemma foldlM_addNodeRow_eq_ok {rs} (h : rs.foldlM addNodeRow ix = .ok ix') :
    ∃ new, ix' = { ix with nodes := ix.nodes ++ new } ∧ new.Sublist rs ∧ (∀ r ∈ rs, ∃ n ∈ ix'.nodes, n.id = r.id) ∧
      (Fresh (ix.nodes.map (·.id)) (rs.map (·.id)) → new = rs) := by
  induction rs generalizing ix with
  | nil =>
    cases h
    exact ⟨[], by simp, .slnil, by simp, fun _ => rfl⟩
  | cons r rs ih =>
    obtain ⟨ix₁, h₁, h⟩ := Action.except_bind_eq_ok_iff.1 h
    obtain ⟨new, rfl, hsub, hall, hfresh⟩ := ih h
    unfold addNodeRow at h₁
    split at h₁
    · rename_i hr
      cases h₁
      simp only [any_eq_true, beq_iff_eq] at hr
      refine ⟨new, rfl, hsub.cons r, ?_, ?_⟩
      · obtain ⟨n, hn, hid⟩ := hr
        exact forall_mem_cons.2 ⟨⟨n, mem_append_left _ hn, hid⟩, hall⟩
      · intro hf
        obtain ⟨n, hn, hid⟩ := hr
        exact absurd (hid ▸ mem_map_of_mem hn) (hf.2 r.id mem_cons_self)
    · split at h₁
      · cases h₁
        refine ⟨r :: new, by simp, hsub.cons_cons r, ?_, ?_⟩
        · exact forall_mem_cons.2 ⟨⟨r, by simp, rfl⟩, hall⟩
        · intro hf
          rw [hfresh (by simpa using hf.tail)]
      · cases h₁

/-- Puts a symbol row in place of one with its id. -/
def replaceSymbol (ss : List SymbolRow) (r : SymbolRow) : List SymbolRow := ss.filter (·.id != r.id) ++ [r]

lemma foldl_addSymbolRow (rs : List SymbolRow) (ix) :
    rs.foldl addSymbolRow ix = { ix with symbols := rs.foldl replaceSymbol ix.symbols } := by
  induction rs generalizing ix with
  | nil => rfl
  | cons r rs ih =>
    rw [foldl_cons, ih]
    rfl

lemma foldl_replaceSymbol_of_fresh {ss rs : List SymbolRow} (h : Fresh (ss.map (·.id)) (rs.map (·.id))) :
    rs.foldl replaceSymbol ss = ss ++ rs := by
  induction rs generalizing ss with
  | nil => simp
  | cons r rs ih =>
    have hr : replaceSymbol ss r = ss ++ [r] := by
      unfold replaceSymbol
      rw [filter_eq_self.2]
      intro s hs
      have : s.id ≠ r.id := fun e => h.2 r.id mem_cons_self (e ▸ mem_map_of_mem hs)
      simpa using this
    rw [foldl_cons, hr, ih (by simpa using h.tail), append_assoc]
    rfl

/-- What adding the rows of a content does to the tables, whether their ids are new or not. -/
lemma putRows_eq_ok {rows : ContentRows} (h : ix.putRows rows = .ok ix') : ∃ new, ix' = { ix with
        nodes := ix.nodes ++ new
        edges := ix.edges ++ rows.edges
        symbols := rows.symbols.foldl replaceSymbol ix.symbols
        calls := ix.calls ++ rows.calls
        documents := ix.documents ++ rows.documents } ∧
      new.Sublist rows.nodes ∧ (∀ r ∈ rows.nodes, ∃ n ∈ ix'.nodes, n.id = r.id) ∧
      (Fresh (ix.nodes.map (·.id)) (rows.nodes.map (·.id)) → new = rows.nodes) := by
  obtain ⟨ix₁, h₁, h⟩ := Action.except_bind_eq_ok_iff.1 h
  obtain ⟨new, rfl, hsub, hall, hfresh⟩ := foldlM_addNodeRow_eq_ok h₁
  dsimp only at h
  split at h
  · cases h
  · rw [foldl_addSymbolRow] at h
    cases h
    exact ⟨new, rfl, hsub, hall, hfresh⟩

/-! ## The table of files -/

/-- The id of a path: the one it has, else the next one. -/
def fileIdFor (ix : Index) (path : String) : Int :=
  match ix.fileAt? path with
  | some g => g.id
  | none => ix.lastFileId + 1

/-- Paths and ids occur once, and no id is greater than the last one given out. -/
structure FileTable (ix : Index) : Prop where
  paths : (ix.files.map (·.path)).Nodup
  ids : (ix.files.map (·.id)).Nodup
  bound : ∀ g ∈ ix.files, g.id ≤ ix.lastFileId

lemma upsertFile_snd (ix : Index) (path lang) : (ix.upsertFile path lang).2 = ix.fileIdFor path := by
  unfold upsertFile fileIdFor
  cases ix.fileAt? path <;> rfl

lemma upsertFile_fst (ix : Index) (path lang) : (ix.upsertFile path lang).1 = { ix with
      lastFileId := ix.lastFileId + 1
      files := (ix.upsertFile path lang).1.files } := by
  unfold upsertFile
  split <;> rfl

section

variable (h : FileTable ix)

include h

lemma FileTable.eq_of_path {g k} (hg : g ∈ ix.files) (hk : k ∈ ix.files) (hp : g.path = k.path) :
    g = k := inj_on_of_nodup_map h.paths hg hk hp

lemma FileTable.eq_of_id {g k} (hg : g ∈ ix.files) (hk : k ∈ ix.files) (hi : g.id = k.id) :
    g = k := inj_on_of_nodup_map h.ids hg hk hi

lemma FileTable.fileIdFor_of_mem {g} (hg : g ∈ ix.files) : ix.fileIdFor g.path = g.id := by
  unfold fileIdFor fileAt?
  cases hf : ix.files.find? (·.path == g.path) with
  | none => exact absurd (find?_eq_none.1 hf g hg) (by simp)
  | some k =>
    have hk := mem_of_find?_eq_some hf
    have hp : k.path = g.path := by simpa using find?_some hf
    rw [h.eq_of_path hk hg hp]

/-- After a path is entered, its row has its id and the new language; the other rows stay. -/
lemma FileTable.mem_upsertFile_iff {path lang g} :
    g ∈ (ix.upsertFile path lang).1.files ↔ g ∈ ix.files ∧ g.path ≠ path ∨ g = ⟨ix.fileIdFor path, path, lang⟩ := by
  unfold upsertFile fileIdFor
  cases hf : ix.fileAt? path with
  | none =>
    have hnew : ∀ k ∈ ix.files, k.path ≠ path := by simpa [fileAt?] using hf
    simp only [mem_append, mem_singleton]
    exact ⟨fun hg => hg.imp_left fun hg => ⟨hg, hnew g hg⟩, fun hg => hg.imp_left And.left⟩
  | some k =>
    have hk := mem_of_find?_eq_some hf
    have hp : k.path = path := by simpa using find?_some hf
    simp only [mem_map]
    constructor
    · rintro ⟨q, hq, rfl⟩
      by_cases hqp : q.path = path
      · obtain rfl := h.eq_of_path hq hk (hqp.trans hp.symm)
        exact .inr (by simp [hqp])
      · exact .inl (by simp [hqp, hq])
    · rintro (⟨hg, hne⟩ | rfl)
      · exact ⟨g, hg, by simp [hne]⟩
      · exact ⟨k, hk, by simp [hp]⟩

lemma FileTable.upsertFile (path lang) : FileTable (ix.upsertFile path lang).1 := by
  unfold Index.upsertFile
  cases hf : ix.fileAt? path with
  | none =>
    have hnew : ∀ k ∈ ix.files, k.path ≠ path := by simpa [fileAt?] using hf
    have hid : ∀ k ∈ ix.files, k.id ≠ ix.lastFileId + 1 := by
      intro k hk e
      have := h.bound k hk
      omega
    refine ⟨?_, ?_, ?_⟩
    · simpa [List.nodup_append] using ⟨h.paths, hnew⟩
    · simpa [List.nodup_append] using ⟨h.ids, hid⟩
    · intro g hg
      rcases mem_append.1 hg with hg | hg
      · have := h.bound g hg
        dsimp only
        omega
      · obtain rfl := mem_singleton.1 hg
        exact Int.le_refl _
  | some k =>
    -- Only languages change.
    have hkeep : ∀ {β : Type} (key : FileRow → β), (∀ g, key { g with lang } = key g) →
        (ix.files.map fun g => if g.path == path then { g with lang } else g).map key = ix.files.map key := by
      intro β key hkey
      rw [map_map]
      refine map_congr_left fun g _ => ?_
      rw [Function.comp_apply]
      split
      · exact hkey g
      · rfl
    refine ⟨?_, ?_, ?_⟩
    · exact (hkeep (·.path) fun _ => rfl) ▸ h.paths
    · exact (hkeep (·.id) fun _ => rfl) ▸ h.ids
    · intro g hg
      obtain ⟨k, hk, rfl⟩ := mem_map.1 hg
      have := h.bound k hk
      split <;> exact Int.le_trans this (Int.le_add_one (Int.le_refl _))

end

/-! ## Registering and entering -/

/-- The bytes that are kept with those of a file. -/
def keptWith (o : BuildOptions) (f : ParsedFile) (bs : List BlobRow) : List BlobRow :=
  if o.keepBytes && !bs.any (·.blob == f.blob) then bs ++ [⟨f.blob, true, .bytes f.source⟩] else bs

/-- Enters a file, its version and its bytes, but nothing of what its content holds. -/
def register (o : BuildOptions) (rev : String) (ix : Index) (f : ParsedFile) : Index :=
  { ix with
    lastFileId := ix.lastFileId + 1
    files := (ix.upsertFile f.path f.lang).1.files
    versions := ix.versions.filter (fun v => !(v.rev == rev && v.fileId == ix.fileIdFor f.path))
      ++ [⟨rev, ix.fileIdFor f.path, f.blob, f.source.length⟩]
    blobs := keptWith o f ix.blobs }

lemma hasFile_upsertFile (ix : Index) (path lang) : (ix.upsertFile path lang).1.hasFile (ix.fileIdFor path) := by
  unfold upsertFile fileIdFor hasFile
  cases hf : ix.fileAt? path with
  | none => simp
  | some k =>
    have hk := mem_of_find?_eq_some hf
    simp only [any_eq_true, mem_map, beq_iff_eq]
    exact ⟨_, ⟨k, hk, rfl⟩, by split <;> rfl⟩

/-- A file is entered under a revision that is there: it is registered, and what its content holds is stored unless it
is held. -/
lemma enter_eq (o) (rev) (ix) (f) : enter o rev ix f =
      if ix.hasRevision rev then
        if ix.hasArtifacts f.blob then .ok (register o rev ix f)
        else (register o rev ix f).putArtifacts (ix.fileIdFor f.path) f.blob f.lang (artifactsOf o.policy f)
      else .error danglingRow := by
  have hfst := upsertFile_fst ix f.path f.lang
  have hsnd := upsertFile_snd ix f.path f.lang
  have hfile := hasFile_upsertFile ix f.path f.lang
  have hblob : ∀ ix₁ : Index, (if o.keepBytes then ix₁.upsertBlob f.blob f.source true else ix₁) =
      { ix₁ with blobs := keptWith o f ix₁.blobs } := by
    intro ix₁
    unfold upsertBlob keptWith
    cases o.keepBytes with
    | false => rfl
    | true => cases ix₁.blobs.any (·.blob == f.blob) <;> rfl
  unfold enter register
  simp only [hblob]
  generalize (ix.upsertFile f.path f.lang) = p at *
  obtain ⟨ix₁, id⟩ := p
  subst hsnd
  unfold upsertVersion
  rw [hfile, Bool.and_true, hfst]
  split <;> rename_i hr
  · rw [if_pos (show ix.hasRevision rev from hr)]
    rfl
  · rw [if_neg (show ¬ ix.hasRevision rev from hr)]
    rfl

/-!
## Contents of an index

In an index that is filled by entering files, ids tell the content they belong to, every content belongs to one file,
and symbols and calls stand at nodes of their content. Entering a file whose content is new appends the content's
rows, and entering one whose content is held appends none.
-/

open Action List

/-- Files that are read go by the digests of their contents. -/
lemma digested_of_listing {root o w fs} (h : listing root o w = (.ok fs, w)) : ∀ f ∈ fs, f.Digested := by
  have read : ∀ lang path (w : Workspace) fs w', reading lang path w = (.ok fs, w') → ∀ f ∈ fs, f.Digested := by
    intro lang path w fs w' h
    obtain ⟨r, v, -, h⟩ := bind_eq_ok h
    split at h
    · cases h
      simp
    · obtain ⟨full, v, -, h⟩ := bind_eq_ok h
      obtain ⟨t, v, -, ⟨⟩⟩ := bind_eq_ok h
      intro f hf
      rw [mem_singleton.1 hf]
      rfl
  obtain ⟨groups, v, -, h⟩ := bind_eq_ok h
  obtain ⟨fss, v, hfss, ⟨⟩⟩ := bind_eq_ok h
  refine forall_mem_flatten_of_mapM (fun group w fs w' h => ?_) hfss
  obtain ⟨lang, v, -, h⟩ := bind_eq_ok h
  obtain ⟨u, v, -, h⟩ := bind_eq_ok h
  obtain ⟨fss, v, hfss, ⟨⟩⟩ := bind_eq_ok h
  exact forall_mem_flatten_of_mapM (read lang) hfss

variable {ix ix' : Index} {o : BuildOptions} {rev : String} {policy : Graph.Policy} {f : ParsedFile} {fileId : Int}
  {rows : ContentRows}

lemma hasArtifacts_iff {blob} : ix.hasArtifacts blob ↔ ∃ n ∈ ix.nodes, n.blob = blob := by simp [hasArtifacts]

/-- A call is open and its content has no symbol of its name, or it leads to a symbol of its name. -/
def Grounded (symbols : List SymbolRow) (c : CallRow) : Prop :=
  c.resolved = 0 ∧ c.symbol = none ∧ (∀ s ∈ symbols, s.blob = c.blob → s.name ≠ c.name) ∨
    c.resolved = 1 ∧ ∃ s ∈ symbols, c.symbol = some s.id ∧ s.name = c.name

/-- What holds of the nodes, symbols and calls of an index. -/
structure Contents (ix : Index) : Prop where
  nodeIds : (ix.nodes.map (·.id)).Nodup
  symbolIds : (ix.symbols.map (·.id)).Nodup
  /-- An id is made of the content's digest and a range. -/
  node : ∀ n ∈ ix.nodes, ':' ∉ n.blob.toList ∧ ∃ t, n.id = Graph.blockId n.blob t
  owner : ∀ n ∈ ix.nodes, ∀ m ∈ ix.nodes, n.blob = m.blob → n.fileId = m.fileId
  symbol : ∀ s ∈ ix.symbols, ∃ n ∈ ix.nodes, n.id = s.id ∧ n.blob = s.blob ∧ n.fileId = s.fileId
  call : ∀ c ∈ ix.calls, ∃ n ∈ ix.nodes, n.id = c.src ∧ n.blob = c.blob ∧ n.fileId = c.fileId
  grounded : ∀ c ∈ ix.calls, Grounded ix.symbols c

lemma contents_empty : Contents {} := by constructor <;> simp

/-- Only the tables of nodes, symbols and calls matter. -/
lemma Contents.congr (h : Contents ix) (hn : ix'.nodes = ix.nodes) (hs : ix'.symbols = ix.symbols)
    (hc : ix'.calls = ix.calls) : Contents ix' := by
  obtain ⟨h₁, h₂, h₃, h₄, h₅, h₆, h₇⟩ := h
  constructor <;> simp only [hn, hs, hc] <;> assumption

/-- Appends the rows of a content. -/
def append (ix : Index) (rows : ContentRows) : Index :=
  { ix with
    nodes := ix.nodes ++ rows.nodes
    edges := ix.edges ++ rows.edges
    symbols := ix.symbols ++ rows.symbols
    calls := ix.calls ++ rows.calls
    documents := ix.documents ++ rows.documents }

section

variable (h : Contents ix) (hf : f.Digested) (hnew : ix.hasArtifacts f.blob = false)

include h hf hnew

/-- No row stands under an id of a content that is not held. -/
lemma Contents.id_ne_of_new {id} (hid : id ∈ Graph.treeIds f) {n} (hn : n ∈ ix.nodes) : n.id ≠ id := by
  rintro rfl
  obtain ⟨hcolon, t, ht⟩ := h.node n hn
  obtain ⟨u, -, hu⟩ := mem_map.1 hid
  have hb : n.blob = f.blob := Graph.blockId_inj_left hcolon hf.colon_notMem (ht.symm.trans hu.symm)
  rw [hasArtifacts_iff.2 ⟨n, hn, hb⟩] at hnew
  cases hnew

section

variable (hrows : rows.Of (artifactsOf policy f) fileId f.blob)

include hrows

lemma Contents.fresh_nodes : Fresh (ix.nodes.map (·.id)) (rows.nodes.map (·.id)) := by
  refine ⟨hrows.nodeIds ▸ nodup_nodeIds_artifactsOf hf, ?_⟩
  intro id hid hmem
  obtain ⟨n, hn, rfl⟩ := mem_map.1 hmem
  exact h.id_ne_of_new hf hnew ((hrows.mem_nodeIds hf).1 hid) hn rfl

lemma Contents.fresh_symbols : Fresh (ix.symbols.map (·.id)) (rows.symbols.map (·.id)) := by
  have hids : rows.symbols.map (·.id) = (artifactsOf policy f).symbols.map (·.id) := by
    rw [hrows.symbols, map_map]
    rfl
  rw [hids]
  refine ⟨nodup_symbolIds_artifactsOf, ?_⟩
  intro id hid hmem
  obtain ⟨s, hs, rfl⟩ := mem_map.1 hmem
  obtain ⟨n, hn, hns, -⟩ := h.symbol s hs
  obtain ⟨q, hq, hqs⟩ := mem_map.1 hid
  exact h.id_ne_of_new hf hnew (hqs ▸ id_mem_treeIds_of_mem_symbols hq) hn hns

end

end

/-- How a file is entered: it is registered, and the rows of its content are appended when the content is new. -/
lemma Contents.enter_eq_ok (h : Contents ix) (hf : f.Digested) (he : enter o rev ix f = .ok ix') :
    ix.hasRevision rev ∧ ∃ rows, ix' = (register o rev ix f).append rows ∧
      (ix.hasArtifacts f.blob ∧ rows = {} ∨
        ix.hasArtifacts f.blob = false ∧ rows.Of (artifactsOf o.policy f) (ix.fileIdFor f.path) f.blob) := by
  rw [enter_eq] at he
  split at he
  · rename_i hrev
    refine ⟨hrev, ?_⟩
    split at he
    · rename_i hheld
      cases he
      exact ⟨{}, by simp [append], .inl ⟨hheld, rfl⟩⟩
    · rename_i hnew
      rw [Bool.not_eq_true] at hnew
      obtain ⟨rows, hrows, he⟩ := except_bind_eq_ok_iff.1 he
      have hof := rows_eq_ok hrows
      obtain ⟨new, rfl, -, -, hall⟩ := putRows_eq_ok he
      refine ⟨rows, ?_, .inr ⟨hnew, hof⟩⟩
      rw [hall (h.fresh_nodes hf hnew hof)]
      simp only [register, append]
      rw [foldl_replaceSymbol_of_fresh (h.fresh_symbols hf hnew hof)]
  · cases he

/-! ## What entering keeps -/

section

variable (h : Contents ix)

include h

lemma Contents.symbol_held {s} (hs : s ∈ ix.symbols) : ix.hasArtifacts s.blob := by
  obtain ⟨n, hn, -, hb, -⟩ := h.symbol s hs
  exact hasArtifacts_iff.2 ⟨n, hn, hb⟩

lemma Contents.call_held {c} (hc : c ∈ ix.calls) : ix.hasArtifacts c.blob := by
  obtain ⟨n, hn, -, hb, -⟩ := h.call c hc
  exact hasArtifacts_iff.2 ⟨n, hn, hb⟩

/-- A content that is not held has no symbols in the table. -/
lemma Contents.symbol_blob_ne {blob} (hnew : ix.hasArtifacts blob = false) {s} (hs : s ∈ ix.symbols) :
    s.blob ≠ blob := by
  rintro rfl
  rw [h.symbol_held hs] at hnew
  cases hnew

lemma Contents.call_blob_ne {blob} (hnew : ix.hasArtifacts blob = false) {c} (hc : c ∈ ix.calls) : c.blob ≠ blob := by
  rintro rfl
  rw [h.call_held hc] at hnew
  cases hnew

lemma Contents.append (hf : f.Digested) (hnew : ix.hasArtifacts f.blob = false)
    (hrows : rows.Of (artifactsOf policy f) fileId f.blob) : Contents (ix.append rows) where
  nodeIds := by
    change ((ix.nodes ++ rows.nodes).map _).Nodup
    rw [map_append]
    exact (h.fresh_nodes hf hnew hrows).nodup_append h.nodeIds
  symbolIds := by
    change ((ix.symbols ++ rows.symbols).map _).Nodup
    rw [map_append]
    exact (h.fresh_symbols hf hnew hrows).nodup_append h.symbolIds
  node := by
    intro n hn
    rcases mem_append.1 hn with hn | hn
    · exact h.node n hn
    · obtain ⟨t, -, ht⟩ := mem_map.1 ((hrows.mem_nodeIds hf).1 (mem_map_of_mem hn))
      rw [(hrows.node n hn).1]
      exact ⟨hf.colon_notMem, t, ht.symm⟩
  owner := by
    have apart : ∀ n ∈ ix.nodes, n.blob ≠ f.blob := by
      rintro n hn hb
      rw [hasArtifacts_iff.2 ⟨n, hn, hb⟩] at hnew
      cases hnew
    intro n hn m hm hb
    rcases mem_append.1 hn with hn | hn <;> rcases mem_append.1 hm with hm | hm
    · exact h.owner n hn m hm hb
    · exact absurd (hb.trans (hrows.node m hm).1) (apart n hn)
    · exact absurd (hb.symm.trans (hrows.node n hn).1) (apart m hm)
    · rw [(hrows.node n hn).2, (hrows.node m hm).2]
  symbol := by
    intro s hs
    rcases mem_append.1 hs with hs | hs
    · obtain ⟨n, hn, hns⟩ := h.symbol s hs
      exact ⟨n, mem_append_left _ hn, hns⟩
    · obtain ⟨n, hn, hns⟩ := hrows.exists_symbol_node hf hs
      exact ⟨n, mem_append_right _ hn, hns⟩
  call := by
    intro c hc
    rcases mem_append.1 hc with hc | hc
    · obtain ⟨n, hn, hnc⟩ := h.call c hc
      exact ⟨n, mem_append_left _ hn, hnc⟩
    · obtain ⟨n, hn, hnc⟩ := hrows.exists_call_node hf hc
      exact ⟨n, mem_append_right _ hn, hnc⟩
  grounded := by
    intro c hc
    rcases mem_append.1 hc with hc | hc
    · rcases h.grounded c hc with ⟨h₀, h₁, h₂⟩ | ⟨h₀, s, hs, h₁⟩
      · refine .inl ⟨h₀, h₁, ?_⟩
        intro s hs hb
        rcases mem_append.1 hs with hs | hs
        · exact h₂ s hs hb
        · exact absurd (hb.symm.trans (hrows.symbol_blob hs).1) (h.call_blob_ne hnew hc)
      · exact .inr ⟨h₀, s, mem_append_left _ hs, h₁⟩
    · rcases hrows.call_cases hc with ⟨h₀, h₁, h₂⟩ | ⟨h₀, s, hs, h₁⟩
      · refine .inl ⟨h₀, h₁, ?_⟩
        intro s hs hb
        rcases mem_append.1 hs with hs | hs
        · exact absurd (hb.trans (hrows.call_blob hc).1) (h.symbol_blob_ne hnew hs)
        · exact h₂ s hs
      · exact .inr ⟨h₀, s, mem_append_right _ hs, h₁⟩

lemma Contents.enter (hf : f.Digested) (he : enter o rev ix f = .ok ix') : Contents ix' := by
  have hreg : Contents (register o rev ix f) := h.congr rfl rfl rfl
  obtain ⟨-, rows, rfl, ⟨-, rfl⟩ | ⟨hnew, hrows⟩⟩ := h.enter_eq_ok hf he
  · exact hreg.congr (append_nil _) (append_nil _) (append_nil _)
  · exact hreg.append hf hnew hrows

end

variable {ix : Index} {lang : Option String} {c : CallRow} {name id : String}

/-! ## The least id of a name -/

lemma least?_eq_min? (ws) : least? ws = ws.min? := by
  cases ws with
  | nil => rfl
  | cons v ws =>
    rw [min?_cons']
    change ws.foldl _ (some v) = _
    induction ws generalizing v with
    | nil => rfl
    | cons w ws ih =>
      rw [foldl_cons, foldl_cons, ← ih]
      congr 1
      dsimp only
      split
      · rename_i hlt
        rw [min_eq_right_of_lt hlt]
      · rename_i hlt
        rw [min_eq_left (not_lt.1 hlt)]

variable {calls : List CallRow} {e : EdgeRow}

/-- A name is matched when a symbol has it, whatever content the symbol belongs to. -/
lemma symbolNamed?_eq_none_iff : ix.symbolNamed? none name = none ↔ ∀ s ∈ ix.symbols, s.name ≠ name := by
  simp [symbolNamed?, least?_eq_min?]

lemma symbolNamed?_eq_some_iff : ix.symbolNamed? none name = some id ↔ ∃ s ∈ ix.symbols, s.name = name ∧ s.id = id ∧
      ∀ t ∈ ix.symbols, t.name = name → id ≤ t.id := by
  simp only [symbolNamed?, least?_eq_min?, min?_eq_some_iff, Option.all_none, Bool.and_true, mem_map, mem_filter,
    beq_iff_eq]
  constructor
  · rintro ⟨⟨s, ⟨hs, hn⟩, rfl⟩, hmin⟩
    exact ⟨s, hs, hn, rfl, fun t ht htn => hmin t.id ⟨t, ⟨ht, htn⟩, rfl⟩⟩
  · rintro ⟨s, hs, hn, rfl, hmin⟩
    refine ⟨⟨s, ⟨hs, hn⟩, rfl⟩, ?_⟩
    rintro _ ⟨t, ⟨ht, htn⟩, rfl⟩
    exact hmin t ht htn

/-! ## One call -/

lemma resolveCall_of_ne_zero (h : c.resolved ≠ 0) : ix.resolveCall lang c = c := by simp [resolveCall, h]

lemma resolveCall_of_zero (h : c.resolved = 0) : ix.resolveCall lang c = { c with
      symbol := ix.symbolNamed? lang c.name
      resolved := if (ix.symbolNamed? lang c.name).isSome then 1 else 0 } := by
  simp [resolveCall, h]

@[simp] lemma resolveCall_blob : (ix.resolveCall lang c).blob = c.blob := by unfold resolveCall; split <;> rfl

@[simp] lemma resolveCall_fileId : (ix.resolveCall lang c).fileId = c.fileId := by unfold resolveCall; split <;> rfl

@[simp] lemma resolveCall_src : (ix.resolveCall lang c).src = c.src := by unfold resolveCall; split <;> rfl

@[simp] lemma resolveCall_name : (ix.resolveCall lang c).name = c.name := by unfold resolveCall; split <;> rfl

/-- A call that stays open stands for a name that no symbol has. -/
lemma symbolNamed?_of_resolveCall_open (h : (ix.resolveCall lang c).resolved = 0) :
    ix.symbolNamed? lang c.name = none := by
  by_cases hc : c.resolved = 0
  · rw [resolveCall_of_zero hc] at h
    cases hs : ix.symbolNamed? lang c.name with
    | none => rfl
    | some id => simp [hs] at h
  · rw [resolveCall_of_ne_zero hc] at h
    exact absurd h hc

lemma resolveCall_idem : ix.resolveCall lang (ix.resolveCall lang c) = ix.resolveCall lang c := by
  by_cases h : (ix.resolveCall lang c).resolved = 0
  · have hnone := symbolNamed?_of_resolveCall_open h
    have hc : c.resolved = 0 := by
      by_contra hc
      rw [resolveCall_of_ne_zero hc] at h
      exact hc h
    rw [resolveCall_of_zero hc, hnone]
    exact (resolveCall_of_zero rfl).trans (by rw [hnone])
  · exact resolveCall_of_ne_zero h

/-- Resolving leaves a grounded call grounded. -/
lemma Grounded.resolveCall (h : Grounded ix.symbols c) : Grounded ix.symbols (ix.resolveCall none c) := by
  rcases h with ⟨h₀, h₁, h₂⟩ | ⟨h₀, h₁⟩
  · rw [resolveCall_of_zero h₀]
    cases hs : ix.symbolNamed? none c.name with
    | none => exact .inl ⟨rfl, rfl, h₂⟩
    | some id =>
      obtain ⟨s, hmem, hn, rfl, -⟩ := symbolNamed?_eq_some_iff.1 hs
      exact .inr ⟨rfl, s, hmem, rfl, hn⟩
  · rw [resolveCall_of_ne_zero (by simp [h₀])]
    exact .inr ⟨h₀, h₁⟩

/-! ## Edges from calls -/

lemma mem_resolvedPairs_iff {p} : p ∈ resolvedPairs calls ↔ p.1 ∈ calls ∧ p.1.resolved = 1 ∧ p.1.symbol = some p.2 := by
  simp only [resolvedPairs, mem_filterMap, beq_iff_eq]
  constructor
  · rintro ⟨c, hc, h⟩
    split at h
    · rename_i hr
      obtain ⟨id, hid, rfl⟩ := Option.map_eq_some_iff.1 h
      exact ⟨hc, hr, hid⟩
    · cases h
  · rintro ⟨hc, hr, hs⟩
    exact ⟨p.1, hc, by simp [hr, hs]⟩

/-- An edge that follows from calls comes from a resolved call. -/
lemma mem_derivedEdges_iff : e ∈ derivedEdges calls ↔ ∃ c ∈ calls, ∃ id, c.resolved = 1 ∧ c.symbol = some id ∧
      (e = ⟨c.blob, c.fileId, c.src, id, "CFG_IP_CALL", "\x7b\x7d"⟩ ∨
        e = ⟨c.blob, c.fileId, id, c.src, "CFG_IP_RET", "\x7b\x7d"⟩ ∨
        e = ⟨c.blob, c.fileId, c.src, id, "CALL", "\x7b\x7d"⟩) := by
  simp only [derivedEdges, mem_append, mem_map, Prod.exists, mem_resolvedPairs_iff, or_assoc]
  constructor
  · rintro (⟨c, id, ⟨hc, hr, hs⟩, rfl⟩ | ⟨c, id, ⟨hc, hr, hs⟩, rfl⟩ | ⟨c, id, ⟨hc, hr, hs⟩, rfl⟩)
    · exact ⟨c, hc, id, hr, hs, .inl rfl⟩
    · exact ⟨c, hc, id, hr, hs, .inr (.inl rfl)⟩
    · exact ⟨c, hc, id, hr, hs, .inr (.inr rfl)⟩
  · rintro ⟨c, hc, id, hr, hs, rfl | rfl | rfl⟩
    · exact .inl ⟨c, id, ⟨hc, hr, hs⟩, rfl⟩
    · exact .inr (.inl ⟨c, id, ⟨hc, hr, hs⟩, rfl⟩)
    · exact .inr (.inr ⟨c, id, ⟨hc, hr, hs⟩, rfl⟩)

lemma contains_kind_of_mem_derivedEdges (he : e ∈ derivedEdges calls) : derivedKinds.contains e.kind := by
  obtain ⟨c, -, id, -, -, rfl | rfl | rfl⟩ := mem_derivedEdges_iff.1 he <;> simp [derivedKinds]

lemma filter_derivedEdges (calls) : (derivedEdges calls).filter (fun e => !derivedKinds.contains e.kind) = [] := by
  rw [filter_eq_nil_iff]
  intro e he
  rw [contains_kind_of_mem_derivedEdges he]
  decide

/-- The edges from some calls are the edges that stand where these calls stand. -/
lemma filter_derivedEdges_at (calls) (p : Int → String → Bool) :
    (derivedEdges calls).filter (fun e => p e.fileId e.blob) =
      derivedEdges (calls.filter fun c => p c.fileId c.blob) := by
  have hpairs : (resolvedPairs calls).filter (fun q => p q.1.fileId q.1.blob) =
      resolvedPairs (calls.filter fun c => p c.fileId c.blob) := by
    unfold resolvedPairs
    rw [filter_filterMap, filterMap_filter]
    refine congrArg (List.filterMap · calls) (funext fun c => ?_)
    cases hr : c.resolved == 1 <;> cases hs : c.symbol <;> cases hp : p c.fileId c.blob <;> simp [hp]
  unfold derivedEdges
  rw [filter_append, filter_append, filter_map, filter_map, filter_map, ← hpairs]
  rfl

/-- After resolving, the edges of the kinds that follow from calls are those of the calls. -/
lemma edges_resolveCalls_filter (ix : Index) (lang) :
    (ix.resolveCalls lang).edges.filter (fun e => derivedKinds.contains e.kind) =
      derivedEdges (ix.resolveCalls lang).calls := by
  change (List.filter _ ix.edges ++ derivedEdges _).filter _ = _
  rw [filter_append, filter_filter]
  have hnone : ix.edges.filter (fun e => derivedKinds.contains e.kind && !derivedKinds.contains e.kind) = [] := by
    simp
  rw [hnone]
  exact filter_eq_self.2 fun e he => contains_kind_of_mem_derivedEdges he

/-- Resolving a second time changes nothing. -/
lemma resolveCalls_idem (ix : Index) (lang) : (ix.resolveCalls lang).resolveCalls lang = ix.resolveCalls lang := by
  have hcalls : (ix.calls.map (ix.resolveCall lang)).map ((ix.resolveCalls lang).resolveCall lang) =
      ix.calls.map (ix.resolveCall lang) := by
    rw [map_map]
    exact map_congr_left fun c _ => resolveCall_idem
  unfold resolveCalls at hcalls ⊢
  rw [hcalls, filter_append, filter_derivedEdges]
  simp

/-! ## What resolving keeps -/

lemma Contents.resolveCalls (h : Contents ix) : Contents (ix.resolveCalls none) where
  nodeIds := h.nodeIds
  symbolIds := h.symbolIds
  node := h.node
  owner := h.owner
  symbol := h.symbol
  call := by
    intro c' hc'
    obtain ⟨c, hc, rfl⟩ := mem_map.1 hc'
    rw [resolveCall_src, resolveCall_blob, resolveCall_fileId]
    exact h.call c hc
  grounded := by
    intro c' hc'
    obtain ⟨c, hc, rfl⟩ := mem_map.1 hc'
    exact (h.grounded c hc).resolveCall

/-! ## Edges in step -/

section

variable {kind : String}

/-- The ends of the edges of one kind. -/
def endsOf (kind : String) (edges : List EdgeRow) : Pairs :=
  (edges.filter (·.kind == kind)).map fun e => (e.src, e.dst)

variable (calls : List CallRow)

/-- The node and the symbol of each resolved call. -/
def resolvedEnds : Pairs :=
  (calls.filter (·.resolved == 1)).filterMap fun c => c.symbol.map fun s => (c.src, s)

@[simp] lemma endsOf_append (kind as bs) : endsOf kind (as ++ bs) = endsOf kind as ++ endsOf kind bs := by simp [endsOf]

lemma map_resolvedPairs : (resolvedPairs calls).map (fun p => (p.1.src, p.2)) = resolvedEnds calls := by
  induction calls with
  | nil => rfl
  | cons c calls ih =>
    by_cases hr : c.resolved = 1
    · cases hs : c.symbol <;> simp_all [resolvedPairs, resolvedEnds]
    · simp_all [resolvedPairs, resolvedEnds]

/-- Edges that are all made of one kind have ends of that kind and of no other. -/
lemma endsOf_map {α : Type} (made : α → EdgeRow) {k} (hk : ∀ a, (made a).kind = k) (as : List α) :
    endsOf kind (as.map made) = if k = kind then as.map (fun a => ((made a).src, (made a).dst)) else [] := by
  induction as with
  | nil => simp [endsOf]
  | cons a as ih =>
    rw [map_cons, ← singleton_append, endsOf_append, ih]
    by_cases h : k = kind <;> simp [endsOf, hk, h]

/-- The edges into callees and those of the calls themselves have the ends of the resolved calls, the edges back from
callees have them turned around. -/
lemma endsOf_derivedEdges (kind) (calls) : endsOf kind (derivedEdges calls) =
      (if "CFG_IP_CALL" = kind then resolvedEnds calls else []) ++
        (if "CFG_IP_RET" = kind then (resolvedEnds calls).map Prod.swap else []) ++
        (if "CALL" = kind then resolvedEnds calls else []) := by
  simp only [derivedEdges, endsOf_append, ← map_resolvedPairs, map_map]
  rw [endsOf_map _ (k := "CFG_IP_CALL") fun _ => rfl, endsOf_map _ (k := "CFG_IP_RET") fun _ => rfl,
    endsOf_map _ (k := "CALL") fun _ => rfl]
  rfl

/-- Of the kinds that follow from calls, resolving leaves the edges of calls only. -/
lemma endsOf_resolveCalls (ix : Index) (lang) (hk : kind ∈ derivedKinds) :
    endsOf kind (ix.resolveCalls lang).edges = endsOf kind (derivedEdges (ix.resolveCalls lang).calls) := by
  rw [← edges_resolveCalls_filter]
  unfold endsOf
  rw [filter_filter_of_imp fun e _ he => by simpa [eq_of_beq he] using hk]

/-- Edges of any other kind stay. -/
lemma filter_edges_resolveCalls (ix : Index) (lang) (hk : kind ∉ derivedKinds) :
    (ix.resolveCalls lang).edges.filter (·.kind == kind) = ix.edges.filter (·.kind == kind) := by
  change (List.filter _ ix.edges ++ derivedEdges _).filter _ = _
  have hnone : (derivedEdges (ix.calls.map (ix.resolveCall lang))).filter (·.kind == kind) = [] := by
    rw [filter_eq_nil_iff]
    intro e he hek
    have := contains_kind_of_mem_derivedEdges he
    rw [eq_of_beq hek, contains_iff_mem] at this
    exact hk this
  rw [filter_append, hnone, append_nil]
  exact filter_filter_of_imp fun e _ he => by simpa [eq_of_beq he] using hk

/-! ## Rows before and after -/

/-- What resolving may make of a call, given the symbols there are. -/
structure Resolves (symbols : List SymbolRow) (c c' : CallRow) : Prop where
  /-- Only the symbol and the mark can change. -/
  row : c' = { c with symbol := c'.symbol, resolved := c'.resolved }
  kept : c.resolved ≠ 0 → c' = c
  resolved_iff : c.resolved = 0 → (c'.resolved = 1 ↔ ∃ s ∈ symbols, s.name = c.name)
  least : c.resolved = 0 → c'.resolved = 1 → ∃ s ∈ symbols, s.name = c.name ∧ c'.symbol = some s.id ∧
    ∀ t ∈ symbols, t.name = c.name → s.id ≤ t.id
  stays : c.resolved = 0 → c'.resolved ≠ 1 → c'.resolved = 0 ∧ c'.symbol = none

lemma resolves_resolveCall (ix : Index) (c) : Resolves ix.symbols c (ix.resolveCall none c) := by
  by_cases hc : c.resolved = 0
  · have hout : ix.resolveCall none c = _ := resolveCall_of_zero hc
    cases hs : ix.symbolNamed? none c.name with
    | none =>
      have hno := symbolNamed?_eq_none_iff.1 hs
      rw [hout, hs]
      refine ⟨rfl, fun h => absurd hc h, fun _ => ?_, fun _ h => ?_, fun _ _ => ⟨rfl, rfl⟩⟩
      · simpa using hno
      · simp at h
    | some id =>
      obtain ⟨s, hmem, hn, rfl, hmin⟩ := symbolNamed?_eq_some_iff.1 hs
      rw [hout, hs]
      exact ⟨rfl, fun h => absurd hc h, fun _ => iff_of_true rfl ⟨s, hmem, hn⟩, fun _ _ => ⟨s, hmem, hn, rfl, hmin⟩,
        fun _ h => absurd rfl h⟩
  · rw [resolveCall_of_ne_zero hc]
    exact ⟨rfl, fun _ => rfl, fun h => absurd h hc, fun h => absurd h hc, fun h => absurd h hc⟩

/-- After resolving, over whatever index, the edges of each of the three kinds that follow from calls are one for each
resolved call, edges of other kinds stay, each call row is what resolving may make of the row in its place, and
resolving once more changes neither table. -/
theorem call_edges_in_step (ix : Index) :
    endsOf "CFG_IP_CALL" (ix.resolveCalls none).edges = resolvedEnds (ix.resolveCalls none).calls ∧
      endsOf "CALL" (ix.resolveCalls none).edges = resolvedEnds (ix.resolveCalls none).calls ∧
      endsOf "CFG_IP_RET" (ix.resolveCalls none).edges = (resolvedEnds (ix.resolveCalls none).calls).map Prod.swap ∧
      (∀ kind, kind ∉ ["CFG_IP_CALL", "CFG_IP_RET", "CALL"] →
        (ix.resolveCalls none).edges.filter (·.kind == kind) = ix.edges.filter (·.kind == kind)) ∧
      List.Forall₂ (Resolves ix.symbols) ix.calls (ix.resolveCalls none).calls ∧
      ((ix.resolveCalls none).resolveCalls none).calls = (ix.resolveCalls none).calls ∧
      ((ix.resolveCalls none).resolveCalls none).edges = (ix.resolveCalls none).edges := by
  refine ⟨?_, ?_, ?_, ?_, ?_, ?_, ?_⟩
  · rw [endsOf_resolveCalls _ _ (by decide), endsOf_derivedEdges]
    simp
  · rw [endsOf_resolveCalls _ _ (by decide), endsOf_derivedEdges]
    simp
  · rw [endsOf_resolveCalls _ _ (by decide), endsOf_derivedEdges]
    simp
  · exact fun kind hk => filter_edges_resolveCalls ix none hk
  · change List.Forall₂ _ ix.calls (ix.calls.map (ix.resolveCall none))
    rw [List.forall₂_map_right_iff]
    exact List.forall₂_same.mpr fun c _ => resolves_resolveCall ix c
  · rw [resolveCalls_idem]
  · rw [resolveCalls_idem]

end

end PatchReview.Index
