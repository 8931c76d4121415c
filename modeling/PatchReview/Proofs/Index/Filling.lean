import PatchReview.Proofs.Index.Resolving

/-!
# Filling an index

What a run of indexing does to the tables. Contents that are held stay as they are, contents that are new are
appended, and calls are resolved at the end. `Filled` are the indexes that runs of indexing make.
-/

namespace PatchReview.Index

open List

variable {ix ix' ix'' : Index} {o : BuildOptions} {root : Path} {rev : String} {base : Option String}
  {f : ParsedFile} {fs : List ParsedFile} {w w' : Workspace} {rows more : ContentRows}

/-! ## Growing -/

/-- A call leads to a symbol of its own content and name. -/
def OwnCall (symbols : List SymbolRow) (c : CallRow) : Prop :=
  c.resolved = 1 ∧ ∃ s ∈ symbols, s.blob = c.blob ∧ s.fileId = c.fileId ∧ s.name = c.name ∧ c.symbol = some s.id

/-- An index grows by rows of contents that it did not hold, with calls as the contents give them. -/
structure Grows (ix ix' : Index) (rows : ContentRows) : Prop where
  nodes : ix'.nodes = ix.nodes ++ rows.nodes
  symbols : ix'.symbols = ix.symbols ++ rows.symbols
  calls : ix'.calls = ix.calls ++ rows.calls
  node_new : ∀ n ∈ rows.nodes, ix.hasArtifacts n.blob = false
  symbol_new : ∀ s ∈ rows.symbols, ix.hasArtifacts s.blob = false
  call_new : ∀ c ∈ rows.calls, ix.hasArtifacts c.blob = false
  call_own : ∀ c ∈ rows.calls, c.resolved = 0 ∨ OwnCall rows.symbols c

lemma Grows.refl (ix) : Grows ix ix {} := by constructor <;> simp

lemma Grows.hasArtifacts_mono (h : Grows ix ix' rows) {blob} (hb : ix.hasArtifacts blob) :
    ix'.hasArtifacts blob := by
  obtain ⟨n, hn, hnb⟩ := hasArtifacts_iff.1 hb
  exact hasArtifacts_iff.2 ⟨n, h.nodes ▸ mem_append_left _ hn, hnb⟩

lemma Grows.new_of_new (h : Grows ix ix' rows) {blob} (hb : ix'.hasArtifacts blob = false) :
    ix.hasArtifacts blob = false := by
  cases hx : ix.hasArtifacts blob with
  | false => rfl
  | true =>
    rw [h.hasArtifacts_mono hx] at hb
    cases hb

/-- The rows of two contents together. -/
def ContentRows.and (rows more : ContentRows) : ContentRows :=
  ⟨rows.nodes ++ more.nodes, rows.edges ++ more.edges, rows.symbols ++ more.symbols, rows.calls ++ more.calls,
    rows.documents ++ more.documents⟩

lemma OwnCall.mono {ss ts c} (h : OwnCall ss c) (hsub : ss ⊆ ts) : OwnCall ts c := by
  obtain ⟨hr, s, hs, hc⟩ := h
  exact ⟨hr, s, hsub hs, hc⟩

lemma Grows.trans (h : Grows ix ix' rows) (h' : Grows ix' ix'' more) : Grows ix ix'' (rows.and more) where
  nodes := by rw [h'.nodes, h.nodes, append_assoc]; rfl
  symbols := by rw [h'.symbols, h.symbols, append_assoc]; rfl
  calls := by rw [h'.calls, h.calls, append_assoc]; rfl
  node_new := forall_mem_append.2 ⟨h.node_new, fun n hn => h.new_of_new (h'.node_new n hn)⟩
  symbol_new := forall_mem_append.2 ⟨h.symbol_new, fun s hs => h.new_of_new (h'.symbol_new s hs)⟩
  call_new := forall_mem_append.2 ⟨h.call_new, fun c hc => h.new_of_new (h'.call_new c hc)⟩
  call_own := by
    intro c hc
    rcases mem_append.1 hc with hc | hc
    · exact (h.call_own c hc).imp_right fun hown => hown.mono (subset_append_left _ _)
    · exact (h'.call_own c hc).imp_right fun hown => hown.mono (subset_append_right _ _)

/-- Entering a file makes an index grow. -/
lemma Contents.grows_enter (h : Contents ix) (hf : f.Digested) (he : ix.enter o rev f = .ok ix') :
    ∃ rows, Grows ix ix' rows := by
  obtain ⟨-, rows, rfl, ⟨-, rfl⟩ | ⟨hnew, hrows⟩⟩ := h.enter_eq_ok hf he
  · exact ⟨{}, rfl, rfl, rfl, by simp, by simp, by simp, by simp⟩
  · refine ⟨rows, rfl, rfl, rfl, ?_, ?_, ?_, ?_⟩
    · intro n hn
      rw [(hrows.node n hn).1]
      exact hnew
    · intro s hs
      rw [(hrows.symbol_blob hs).1]
      exact hnew
    · intro c hc
      rw [(hrows.call_blob hc).1]
      exact hnew
    · intro c hc
      rcases hrows.call_cases hc with ⟨h₀, -, -⟩ | ⟨h₀, s, hs, hid, hname⟩
      · exact .inl h₀
      · obtain ⟨hsb, hsf⟩ := hrows.symbol_blob hs
        obtain ⟨hcb, hcf⟩ := hrows.call_blob hc
        exact .inr ⟨h₀, s, hs, hsb.trans hcb.symm, hsf.trans hcf.symm, hname, hid⟩

lemma Contents.grows_foldlM_enter (h : Contents ix) (hfs : ∀ f ∈ fs, f.Digested)
    (he : fs.foldlM (Index.enter o rev) ix = .ok ix') : Contents ix' ∧ ∃ rows, Grows ix ix' rows := by
  refine Action.keeps_foldlM (P := fun k => Contents k ∧ ∃ rows, Grows ix k rows) ?_ ⟨h, {}, .refl _⟩ he
  rintro f hf k k' ⟨hk, rows, hrows⟩ hstep
  obtain ⟨more, hmore⟩ := hk.grows_enter (hfs f hf) hstep
  exact ⟨hk.enter (hfs f hf) hstep, rows.and more, hrows.trans hmore⟩

/-! ## Files and versions -/

/-- What holds of the files, versions and kept bytes of an index. -/
structure Versions (ix : Index) : Prop extends FileTable ix where
  node_file : ∀ n ∈ ix.nodes, ix.hasFile n.fileId = true
  version : ∀ v ∈ ix.versions, ix.hasRevision v.rev = true ∧ ix.hasFile v.fileId = true ∧ ix.hasArtifacts v.blob = true
  keys : (ix.versions.map fun v => (v.rev, v.fileId)).Nodup
  bytes : ∀ r ∈ ix.blobs, ∃ b, r.content = .bytes b

lemma versions_empty : Versions {} where
  paths := nodup_nil
  ids := nodup_nil
  bound := by simp
  node_file := by simp
  version := by simp
  keys := nodup_nil
  bytes := by simp

/-- Contents matter only by their nodes. -/
lemma Versions.congr (h : Versions ix) (hr : ix'.revisions = ix.revisions) (hf : ix'.files = ix.files)
    (hl : ix'.lastFileId = ix.lastFileId) (hv : ix'.versions = ix.versions) (hb : ix'.blobs = ix.blobs)
    (hn : ix'.nodes = ix.nodes) : Versions ix' := by
  obtain ⟨⟨h₁, h₂, h₃⟩, h₄, h₅, h₆, h₇⟩ := h
  constructor
  · constructor <;> simp only [hf, hl] <;> assumption
  all_goals simp only [hasRevision, hasFile, hasArtifacts, hr, hf, hv, hb, hn]; assumption

lemma hasFile_iff {id} : ix.hasFile id ↔ ∃ g ∈ ix.files, g.id = id := by simp [hasFile]

/-- Files stay when a path is entered, under their ids and paths. -/
lemma FileTable.exists_mem_upsertFile (h : FileTable ix) {g} (hg : g ∈ ix.files) (path lang) :
    ∃ k ∈ (ix.upsertFile path lang).1.files, k.id = g.id ∧ k.path = g.path := by
  by_cases hp : g.path = path
  · exact ⟨_, h.mem_upsertFile_iff.2 (.inr rfl), hp ▸ h.fileIdFor_of_mem hg, hp.symm⟩
  · exact ⟨g, h.mem_upsertFile_iff.2 (.inl ⟨hg, hp⟩), rfl, rfl⟩

lemma FileTable.hasFile_mono (h : FileTable ix) {id} (hid : ix.hasFile id) (path lang) :
    (ix.upsertFile path lang).1.hasFile id := by
  obtain ⟨g, hg, rfl⟩ := hasFile_iff.1 hid
  obtain ⟨k, hk, hki, -⟩ := h.exists_mem_upsertFile hg path lang
  exact hasFile_iff.2 ⟨k, hk, hki⟩

lemma Versions.enter (h : Versions ix) (hc : Contents ix) (hf : f.Digested) (he : ix.enter o rev f = .ok ix') :
    Versions ix' := by
  obtain ⟨_, hgrow⟩ := hc.grows_enter hf he
  obtain ⟨hrev, rows, rfl, hcase⟩ := hc.enter_eq_ok hf he
  have hheld : ((register o rev ix f).append rows).hasArtifacts f.blob := by
    rcases hcase with ⟨hheld, -⟩ | ⟨-, hrows⟩
    · exact hgrow.hasArtifacts_mono hheld
    · obtain ⟨r, hr, -, hb, -⟩ := hrows.exists_node hf
        (mem_map_of_mem (Syntax.Tree.mem_preorder_self f.root))
      exact hasArtifacts_iff.2 ⟨r, mem_append_right _ hr, hb⟩
  have hfile : ((register o rev ix f).append rows).hasFile (ix.fileIdFor f.path) :=
    hasFile_upsertFile ix f.path f.lang
  obtain ⟨hpaths, hids, hbound⟩ := h.toFileTable.upsertFile f.path f.lang
  rw [show (ix.upsertFile f.path f.lang).1.lastFileId = ix.lastFileId + 1 from
    congrArg Index.lastFileId (upsertFile_fst ix f.path f.lang)] at hbound
  refine ⟨⟨hpaths, hids, hbound⟩, ?_, ?_, ?_, ?_⟩
  · intro n hn
    rcases mem_append.1 hn with hn | hn
    · exact h.toFileTable.hasFile_mono (h.node_file n hn) f.path f.lang
    · rcases hcase with ⟨-, rfl⟩ | ⟨-, hrows⟩
      · cases hn
      · rw [(hrows.node n hn).2]
        exact hfile
  · intro v hv
    rcases mem_append.1 hv with hv | hv
    · obtain ⟨h₁, h₂, h₃⟩ := h.version v (mem_filter.1 hv).1
      exact ⟨h₁, h.toFileTable.hasFile_mono h₂ f.path f.lang, hgrow.hasArtifacts_mono h₃⟩
    · cases mem_singleton.1 hv
      exact ⟨hrev, hfile, hheld⟩
  · change ((List.filter _ ix.versions ++ [_]).map _).Nodup
    rw [map_append, map_singleton, List.nodup_append]
    refine ⟨h.keys.sublist (filter_sublist.map _), nodup_singleton _, ?_⟩
    rintro a ha b hb rfl
    obtain ⟨v, hv, rfl⟩ := mem_map.1 ha
    simp only [mem_singleton, Prod.mk.injEq] at hb
    have hkeep := (mem_filter.1 hv).2
    simp [hb.1, hb.2] at hkeep
  · intro r hr
    change r ∈ keptWith o f ix.blobs at hr
    unfold keptWith at hr
    split at hr
    · rcases mem_append.1 hr with hr | hr
      · exact h.bytes r hr
      · cases mem_singleton.1 hr
        exact ⟨_, rfl⟩
    · exact h.bytes r hr

/-! ## Beginning a revision -/

lemma hasRevision_beginRevision (ix : Index) (rev base now r) :
    (ix.beginRevision rev base now).hasRevision r = (r == rev || ix.hasRevision r) := by
  unfold beginRevision hasRevision
  rw [Bool.eq_iff_iff]
  split
  · simp only [any_append, any_filter, any_cons, any_nil, Bool.or_false, Bool.or_eq_true,
      any_eq_true, Bool.and_eq_true, bne_iff_ne, beq_iff_eq, Option.some.injEq]
    constructor
    · rintro (⟨q, hq, -, hr⟩ | rfl)
      · exact .inr ⟨q, hq, hr⟩
      · exact .inl rfl
    · rintro (rfl | ⟨q, hq, hr⟩)
      · exact .inr rfl
      · by_cases h : rev = r
        · exact .inr h
        · exact .inl ⟨q, hq, fun e => h (Option.some.inj (e.symm.trans hr)), hr⟩
  · simp only [any_append, any_cons, any_nil, Bool.or_false, Bool.or_eq_true, beq_iff_eq, Option.some.injEq]
    rw [or_comm, eq_comm]

/-- A revision begins without versions; the versions of the others stay. -/
lemma Versions.versions_beginRevision (h : Versions ix) (rev base now) :
    (ix.beginRevision rev base now).versions = ix.versions.filter (·.rev != rev) := by
  unfold beginRevision
  split
  · rfl
  · rename_i hrev
    refine (filter_eq_self.2 fun v hv => ?_).symm
    rw [bne_iff_ne]
    rintro rfl
    exact hrev (h.version v hv).1

/-- Beginning a revision touches no files and no contents. -/
lemma beginRevision_tables (ix : Index) (rev base now) :
    (ix.beginRevision rev base now).files = ix.files ∧ (ix.beginRevision rev base now).lastFileId = ix.lastFileId ∧
      (ix.beginRevision rev base now).blobs = ix.blobs ∧ (ix.beginRevision rev base now).nodes = ix.nodes ∧
      (ix.beginRevision rev base now).edges = ix.edges ∧ (ix.beginRevision rev base now).symbols = ix.symbols ∧
      (ix.beginRevision rev base now).calls = ix.calls := by
  unfold beginRevision
  split <;> exact ⟨rfl, rfl, rfl, rfl, rfl, rfl, rfl⟩

lemma hasArtifacts_beginRevision (ix : Index) (rev base now blob) :
    (ix.beginRevision rev base now).hasArtifacts blob = ix.hasArtifacts blob := by
  unfold hasArtifacts
  rw [(beginRevision_tables ix rev base now).2.2.2.1]

lemma Versions.beginRevision (h : Versions ix) (rev) (base) (now : Float) :
    Versions (ix.beginRevision rev base now) := by
  have hv := h.versions_beginRevision rev base now
  obtain ⟨hf, hl, hb, hn, -, -, -⟩ := beginRevision_tables ix rev base now
  have hfile : ∀ id, (ix.beginRevision rev base now).hasFile id = ix.hasFile id := by
    intro id
    unfold hasFile
    rw [hf]
  refine ⟨⟨hf ▸ h.paths, hf ▸ h.ids, hf ▸ hl ▸ h.bound⟩, ?_, ?_, ?_, hb ▸ h.bytes⟩
  · intro n hmem
    rw [hfile]
    exact h.node_file n (hn ▸ hmem)
  · intro v hmem
    rw [hv] at hmem
    obtain ⟨h₁, h₂, h₃⟩ := h.version v (mem_filter.1 hmem).1
    refine ⟨?_, (hfile _).trans h₂, ?_⟩
    · rw [hasRevision_beginRevision, h₁, Bool.or_true]
    · rwa [hasArtifacts_beginRevision]
  · rw [hv]
    exact h.keys.sublist (filter_sublist.map _)

/-! ## Runs of indexing -/

/-- What holds of an index that is filled by indexing. -/
structure Sound (ix : Index) : Prop where
  contents : Contents ix
  versions : Versions ix

/-- Every open call stands for a name that no symbol has, and the edges that follow from calls are in step with
them. -/
structure Settled (ix : Index) : Prop where
  calls : ∀ c ∈ ix.calls, c.resolved = 0 → ∀ s ∈ ix.symbols, s.name ≠ c.name
  edges : ix.edges.filter (fun e => derivedKinds.contains e.kind) = derivedEdges ix.calls

lemma Sound.enter (h : Sound ix) (hf : f.Digested) (he : ix.enter o rev f = .ok ix') : Sound ix' :=
  ⟨h.contents.enter hf he, h.versions.enter h.contents hf he⟩

lemma Sound.foldlM_enter (h : Sound ix) (hfs : ∀ f ∈ fs, f.Digested)
    (he : fs.foldlM (Index.enter o rev) ix = .ok ix') : Sound ix' :=
  Action.keeps_foldlM (fun f hf _ _ hk hstep => hk.enter (hfs f hf) hstep) h he

lemma Sound.beginRevision (h : Sound ix) (rev) (base) (now : Float) : Sound (ix.beginRevision rev base now) := by
  obtain ⟨-, -, -, hn, -, hs, hc⟩ := beginRevision_tables ix rev base now
  exact ⟨h.contents.congr hn hs hc, h.versions.beginRevision rev base now⟩

lemma Sound.resolveCalls (h : Sound ix) : Sound (ix.resolveCalls none) :=
  ⟨h.contents.resolveCalls, h.versions.congr rfl rfl rfl rfl rfl rfl⟩

lemma settled_resolveCalls (ix : Index) : Settled (ix.resolveCalls none) where
  calls := by
    intro c' hc' hr
    obtain ⟨c, -, rfl⟩ := mem_map.1 hc'
    rw [resolveCall_name]
    exact symbolNamed?_eq_none_iff.1 (symbolNamed?_of_resolveCall_open hr)
  edges := edges_resolveCalls_filter ix none

/-- A run of indexing grows the index by the contents it finds new, and then resolves the calls. -/
lemma Sound.addRepository (h : Sound ix) (hrun : ix.addRepository root rev base o w = (.ok ix', w')) :
    ∃ fs mid rows, listing root o w = (.ok fs, w) ∧
      fs.foldlM (Index.enter o rev) (ix.beginRevision rev base w.clock) = .ok mid ∧ Sound mid ∧ Grows ix mid rows ∧
      ix' = mid.resolveCalls none := by
  obtain ⟨-, fs, mid, hlist, hfold, rfl⟩ := addRepository_eq_ok_iff.1 hrun
  have hfs := digested_of_listing hlist
  have hbegun := h.beginRevision rev base w.clock
  obtain ⟨-, rows, hrows⟩ := hbegun.contents.grows_foldlM_enter hfs hfold
  obtain ⟨-, -, -, hn, -, hs, hc⟩ := beginRevision_tables ix rev base w.clock
  have hheld := hasArtifacts_beginRevision ix rev base w.clock
  refine ⟨fs, mid, rows, hlist, hfold, hbegun.foldlM_enter hfs hfold, ?_, rfl⟩
  refine ⟨hn ▸ hrows.nodes, hs ▸ hrows.symbols, hc ▸ hrows.calls, ?_, ?_, ?_, hrows.call_own⟩
  · exact fun n hmem => (hheld _).symm.trans (hrows.node_new n hmem)
  · exact fun s hmem => (hheld _).symm.trans (hrows.symbol_new s hmem)
  · exact fun c hmem => (hheld _).symm.trans (hrows.call_new c hmem)

/-- Two indexes differ at most in facts, summaries, packages, runs and documents. -/
structure SameTables (ix ix' : Index) : Prop where
  revisions : ix'.revisions = ix.revisions
  files : ix'.files = ix.files
  lastFileId : ix'.lastFileId = ix.lastFileId
  versions : ix'.versions = ix.versions
  blobs : ix'.blobs = ix.blobs
  nodes : ix'.nodes = ix.nodes
  edges : ix'.edges = ix.edges
  symbols : ix'.symbols = ix.symbols
  calls : ix'.calls = ix.calls

/-- The indexes that runs of indexing make, with anything stored beside the files and their contents in between. -/
inductive Filled : Index → Prop
  | empty : Filled {}
  | run {ix ix' : Index} {root : Path} {rev : String} {base : Option String} {o : BuildOptions} {w w' : Workspace} :
      Filled ix → ix.addRepository root rev base o w = (.ok ix', w') → Filled ix'
  | beside {ix ix' : Index} : Filled ix → SameTables ix ix' → Filled ix'

lemma SameTables.sound (h : SameTables ix ix') (hs : Sound ix) : Sound ix' :=
  ⟨hs.contents.congr h.nodes h.symbols h.calls,
    hs.versions.congr h.revisions h.files h.lastFileId h.versions h.blobs h.nodes⟩

lemma SameTables.settled (h : SameTables ix ix') (hs : Settled ix) : Settled ix' :=
  ⟨h.calls ▸ h.symbols ▸ hs.calls, h.calls ▸ h.edges ▸ hs.edges⟩

lemma Filled.sound (h : Filled ix) : Sound ix := by
  induction h with
  | empty => exact ⟨contents_empty, versions_empty⟩
  | run _ hrun ih =>
    obtain ⟨_, mid, _, _, _, hmid, _, rfl⟩ := ih.addRepository hrun
    exact hmid.resolveCalls
  | beside _ hsame ih => exact hsame.sound ih

lemma Filled.settled (h : Filled ix) : Settled ix := by
  induction h with
  | empty => exact ⟨by simp, rfl⟩
  | run _ hrun _ =>
    obtain ⟨-, _, mid, _, _, rfl⟩ := addRepository_eq_ok_iff.1 hrun
    exact settled_resolveCalls mid
  | beside _ hsame ih => exact hsame.settled ih

end PatchReview.Index
