import PatchReview.Proofs.Index.AtRoot
import PatchReview.Proofs.Index.Registering

/-!
# What the versions of a revision hold

The rows of a content stand under the file that brought it first, while a version names its own file. So a version may
stand for a content whose rows belong to another file, and then nothing is found under it. `versions_hold_iff` says
exactly when a run of indexing leaves every version of its revision with the rows of its file.
-/

namespace PatchReview.Index

open List

variable {ix ix' mid : Index} {o : BuildOptions} {root : Path} {rev : String} {base : Option String} {w w' : Workspace}
  {f g : ParsedFile} {fs : List ParsedFile} {rows : ContentRows} {a : Artifacts} {fileId : Int} {blob : String}

/-! ## The rows of one content -/

/-- The node, symbol and call rows of a content. -/
def rowsOf (ix : Index) (blob : String) : ContentRows where
  nodes := ix.nodes.filter (·.blob == blob)
  symbols := ix.symbols.filter (·.blob == blob)
  calls := ix.calls.filter (·.blob == blob)

/-- A call as it is before it is resolved. -/
def CallRow.bare (c : CallRow) : CallRow := { c with symbol := none, resolved := 0 }

/-- A content is held for a file: it has a node row there, and its symbol and call rows there are one for each symbol
and one for each call, up to how calls are resolved. -/
structure Holds (ix : Index) (a : Artifacts) (fileId : Int) (blob : String) : Prop where
  node : ∃ n ∈ (ix.rowsOf blob).nodes, n.fileId = fileId
  symbols : ((ix.rowsOf blob).symbols.filter (·.fileId == fileId)).Perm (a.symbols.map (symbolRow blob fileId))
  calls : (((ix.rowsOf blob).calls.filter (·.fileId == fileId)).map CallRow.bare).Perm
    (a.calls.map fun c => (c.row blob fileId).bare)

lemma Holds.congr (h : Holds ix a fileId blob) (hrows : ix'.rowsOf blob = ix.rowsOf blob) :
    Holds ix' a fileId blob := by
  obtain ⟨h₁, h₂, h₃⟩ := h
  rw [← hrows] at h₁ h₂ h₃
  exact ⟨h₁, h₂, h₃⟩

lemma bare_resolveCall {lang} (c) : (ix.resolveCall lang c).bare = c.bare := by
  unfold resolveCall
  split <;> rfl

/-- Resolving calls does not matter for what is held. -/
lemma holds_resolveCalls_iff : Holds (ix.resolveCalls none) a fileId blob ↔ Holds ix a fileId blob := by
  have hcalls : (((ix.resolveCalls none).rowsOf blob).calls.filter (·.fileId == fileId)).map CallRow.bare =
      ((ix.rowsOf blob).calls.filter (·.fileId == fileId)).map CallRow.bare := by
    change (((ix.calls.map (ix.resolveCall none)).filter _).filter _).map _ = _
    rw [filter_map, filter_map, map_map]
    have hbare : CallRow.bare ∘ ix.resolveCall none = CallRow.bare := funext bare_resolveCall
    have hfile : (fun c : CallRow => c.fileId == fileId) ∘ ix.resolveCall none = fun c => c.fileId == fileId := by
      funext c
      rw [Function.comp_apply, resolveCall_fileId]
    have hblob : (fun c : CallRow => c.blob == blob) ∘ ix.resolveCall none = fun c => c.blob == blob := by
      funext c
      rw [Function.comp_apply, resolveCall_blob]
    rw [hbare, hfile, hblob]
    rfl
  constructor
  · rintro ⟨h₁, h₂, h₃⟩
    exact ⟨h₁, h₂, hcalls ▸ h₃⟩
  · rintro ⟨h₁, h₂, h₃⟩
    exact ⟨h₁, h₂, hcalls.symm ▸ h₃⟩

/-- Growing leaves the rows of a content that is held as they are. -/
lemma Grows.rowsOf_of_held (h : Grows ix ix' rows) (hheld : ix.hasArtifacts blob) :
    ix'.rowsOf blob = ix.rowsOf blob := by
  have other : ∀ {b : String}, ix.hasArtifacts b = false → (b == blob) = false := by
    intro b hb
    rw [beq_eq_false_iff_ne]
    rintro rfl
    rw [hheld] at hb
    cases hb
  have hn : rows.nodes.filter (·.blob == blob) = [] :=
    filter_eq_nil_iff.2 fun n hn => by simp [other (h.node_new n hn)]
  have hs : rows.symbols.filter (·.blob == blob) = [] :=
    filter_eq_nil_iff.2 fun s hs => by simp [other (h.symbol_new s hs)]
  have hc : rows.calls.filter (·.blob == blob) = [] :=
    filter_eq_nil_iff.2 fun c hc => by simp [other (h.call_new c hc)]
  unfold rowsOf
  rw [h.nodes, h.symbols, h.calls, filter_append, filter_append, filter_append, hn, hs, hc]
  simp only [append_nil]

/-! ## The file that brings a content -/

/-- Rows of a content that is not held yet are its only rows. -/
lemma Contents.rowsOf_append (h : Contents ix) (hnew : ix.hasArtifacts blob = false) (hrows : rows.Of a fileId blob) :
    (ix.append rows).rowsOf blob = { nodes := rows.nodes, symbols := rows.symbols, calls := rows.calls } := by
  have hn : ix.nodes.filter (·.blob == blob) = [] := by
    refine filter_eq_nil_iff.2 fun n hn hb => ?_
    rw [hasArtifacts_iff.2 ⟨n, hn, beq_iff_eq.1 hb⟩] at hnew
    cases hnew
  have hs : ix.symbols.filter (·.blob == blob) = [] :=
    filter_eq_nil_iff.2 fun s hs hb => h.symbol_blob_ne hnew hs (beq_iff_eq.1 hb)
  have hc : ix.calls.filter (·.blob == blob) = [] :=
    filter_eq_nil_iff.2 fun c hc hb => h.call_blob_ne hnew hc (beq_iff_eq.1 hb)
  have hn' : rows.nodes.filter (·.blob == blob) = rows.nodes :=
    filter_eq_self.2 fun n hn => beq_iff_eq.2 (hrows.node n hn).1
  have hs' : rows.symbols.filter (·.blob == blob) = rows.symbols :=
    filter_eq_self.2 fun s hs => beq_iff_eq.2 (hrows.symbol_blob hs).1
  have hc' : rows.calls.filter (·.blob == blob) = rows.calls :=
    filter_eq_self.2 fun c hc => beq_iff_eq.2 (hrows.call_blob hc).1
  unfold rowsOf Index.append
  rw [filter_append, filter_append, filter_append, hn, hs, hc, hn', hs', hc']
  rfl

/-- The rows of a content that is new to a run are those of the first file that has it. -/
lemma Sound.rowsOf_foldlM_enter (h : Sound ix) (hfs : ∀ f ∈ fs, f.Digested)
    (he : fs.foldlM (Index.enter o rev) ix = .ok mid) (hnew : ix.hasArtifacts blob = false)
    (hfirst : fs.find? (·.blob == blob) = some g) :
    ∃ id rows, FileAt mid g.path id ∧ ContentRows.Of (artifactsOf o.policy g) id blob rows ∧
      mid.rowsOf blob = { nodes := rows.nodes, symbols := rows.symbols, calls := rows.calls } := by
  induction fs generalizing ix with
  | nil => cases hfirst
  | cons f fs ih =>
    obtain ⟨ix₁, h₁, hrest⟩ := Action.except_bind_eq_ok_iff.1 he
    obtain ⟨hf, hfs'⟩ := forall_mem_cons.1 hfs
    have hsound := h.enter hf h₁
    by_cases hb : f.blob = blob
    · subst hb
      rw [find?_cons_of_pos (by simp)] at hfirst
      cases hfirst
      have hat := (hsound.registers_foldlM_enter hfs' hrest).files _ _ (fileAt_enter h hf h₁)
      obtain ⟨-, more, hgrow⟩ := hsound.contents.grows_foldlM_enter hfs' hrest
      obtain ⟨-, rows, rfl, ⟨hheld, -⟩ | ⟨-, hrows⟩⟩ := h.contents.enter_eq_ok hf h₁
      · rw [hnew] at hheld
        cases hheld
      · have hreg : Contents (register o rev ix g) := h.contents.congr rfl rfl rfl
        obtain ⟨n, hn, -, hnb, -⟩ := hrows.exists_node hf
          (mem_map_of_mem (Syntax.Tree.mem_preorder_self g.root))
        refine ⟨_, rows, hat, hrows, ?_⟩
        rw [hgrow.rowsOf_of_held (hasArtifacts_iff.2 ⟨n, mem_append_right _ hn, hnb⟩), hreg.rowsOf_append hnew hrows]
    · rw [find?_cons_of_neg (by simpa using hb)] at hfirst
      refine ih hsound hfs' hrest ?_ hfirst
      -- The rows that come with the file are those of another content.
      rw [Bool.eq_false_iff]
      intro hheld
      obtain ⟨n, hn, hnb⟩ := hasArtifacts_iff.1 hheld
      obtain ⟨-, rows, rfl, hcase⟩ := h.contents.enter_eq_ok hf h₁
      rcases mem_append.1 hn with hn | hn
      · have hheld : ix.hasArtifacts blob := hasArtifacts_iff.2 ⟨n, hn, hnb⟩
        rw [hnew] at hheld
        cases hheld
      · rcases hcase with ⟨-, rfl⟩ | ⟨-, hrows⟩
        · cases hn
        · exact hb ((hrows.node n hn).1.symm.trans hnb)

/-- Two contents bring the same symbol and call rows for a file, up to how calls are resolved. -/
def SameRows (a b : Artifacts) (fileId : Int) (blob : String) : Prop :=
  (a.symbols.map (symbolRow blob fileId)).Perm (b.symbols.map (symbolRow blob fileId)) ∧
    (a.calls.map fun c => (c.row blob fileId).bare).Perm (b.calls.map fun c => (c.row blob fileId).bare)

/-- Rows of one file are held for that file only. -/
lemma holds_iff_of_rowsOf {id} (hg : g.Digested) (hrows : rows.Of (artifactsOf o.policy g) id g.blob)
    (hmid : mid.rowsOf g.blob = { nodes := rows.nodes, symbols := rows.symbols, calls := rows.calls }) :
    Holds mid a fileId g.blob ↔ id = fileId ∧ SameRows (artifactsOf o.policy g) a fileId g.blob := by
  have hs : rows.symbols.filter (·.fileId == id) = rows.symbols :=
    filter_eq_self.2 fun s hs => beq_iff_eq.2 (hrows.symbol_blob hs).2
  have hc : rows.calls.filter (·.fileId == id) = rows.calls :=
    filter_eq_self.2 fun c hc => beq_iff_eq.2 (hrows.call_blob hc).2
  have hsame : ∀ {b : Artifacts}, SameRows (artifactsOf o.policy g) b id g.blob ↔
      rows.symbols.Perm (b.symbols.map (symbolRow g.blob id)) ∧
        (rows.calls.map CallRow.bare).Perm (b.calls.map fun c => (c.row g.blob id).bare) := by
    rw [hrows.symbols, hrows.calls, map_map]
    rfl
  constructor
  · rintro ⟨⟨n, hn, rfl⟩, h₂, h₃⟩
    rw [hmid] at hn h₂ h₃
    obtain rfl := (hrows.node n hn).2
    rw [hs] at h₂
    rw [hc] at h₃
    exact ⟨rfl, hsame.2 ⟨h₂, h₃⟩⟩
  · rintro ⟨rfl, h⟩
    obtain ⟨h₂, h₃⟩ := hsame.1 h
    obtain ⟨n, hn, -, -, hid⟩ := hrows.exists_node hg
      (mem_map_of_mem (Syntax.Tree.mem_preorder_self g.root))
    refine ⟨?_, ?_, ?_⟩ <;> rw [hmid]
    · exact ⟨n, hn, hid⟩
    · rw [hs]
      exact h₂
    · rw [hc]
      exact h₃

/-! ## The versions of a run -/

/-- A version is that of a file: it has the file's content, and the id of the file's path. -/
def VersionRow.IsOf (v : VersionRow) (ix : Index) (f : ParsedFile) : Prop := v.blob = f.blob ∧ FileAt ix f.path v.fileId

/-- A version that entering files leaves was there before, or is that of one of the files. -/
lemma Sound.version_foldlM_enter (h : Sound ix) (hfs : ∀ f ∈ fs, f.Digested)
    (he : fs.foldlM (Index.enter o rev) ix = .ok mid) {v} (hv : v ∈ mid.versions) :
    v ∈ ix.versions ∨ ∃ f ∈ fs, v.IsOf mid f := by
  induction fs generalizing ix with
  | nil =>
    cases he
    exact .inl hv
  | cons f fs ih =>
    obtain ⟨ix₁, h₁, hrest⟩ := Action.except_bind_eq_ok_iff.1 he
    obtain ⟨hf, hfs'⟩ := forall_mem_cons.1 hfs
    rcases ih (h.enter hf h₁) hfs' hrest with hv₁ | ⟨g, hg, hof⟩
    · have hat := ((h.enter hf h₁).registers_foldlM_enter hfs' hrest).files _ _ (fileAt_enter h hf h₁)
      obtain ⟨-, rows, rfl, -⟩ := h.contents.enter_eq_ok hf h₁
      rcases mem_append.1 hv₁ with hv₁ | hv₁
      · exact .inl (mem_filter.1 hv₁).1
      · cases mem_singleton.1 hv₁
        exact .inr ⟨f, mem_cons_self, rfl, hat⟩
    · exact .inr ⟨g, mem_cons_of_mem _ hg, hof⟩

/-- What it takes for a file's content to be held for the file after a run: it is held for it before the run, or it is
new and the first file of the run that has the content lies at the same path and brings the same rows. -/
def BroughtFor (ix : Index) (o : BuildOptions) (fs : List ParsedFile) (f : ParsedFile) (fileId : Int) : Prop :=
  if ix.hasArtifacts f.blob then Holds ix (artifactsOf o.policy f) fileId f.blob
  else ∃ g ∈ fs.find? (·.blob == f.blob), g.path = f.path ∧
    SameRows (artifactsOf o.policy g) (artifactsOf o.policy f) fileId f.blob

/-- One file of a run. -/
lemma holds_iff_broughtFor (h : Sound ix) (hrun : ix.addRepository root rev base o w = (.ok ix', w'))
    (hlist : listing root o w = (.ok fs, w)) (hf : f ∈ fs) (hat : FileAt ix' f.path fileId) :
    Holds ix' (artifactsOf o.policy f) fileId f.blob ↔ BroughtFor ix o fs f fileId := by
  obtain ⟨fs', mid, rows, hlist', hfold, hmid, hgrow, rfl⟩ := h.addRepository hrun
  cases hlist.symm.trans hlist'
  have hfs := digested_of_listing hlist
  rw [holds_resolveCalls_iff]
  unfold BroughtFor
  split
  · rename_i hheld
    have hrows := hgrow.rowsOf_of_held hheld
    exact ⟨fun hh => hh.congr hrows.symm, fun hh => hh.congr hrows⟩
  · rename_i hnew
    rw [Bool.not_eq_true] at hnew
    have hnew' := (hasArtifacts_beginRevision ix rev base w.clock f.blob).trans hnew
    obtain ⟨g, hfirst⟩ : ∃ g, fs.find? (·.blob == f.blob) = some g :=
      Option.isSome_iff_exists.1 (find?_isSome.2 ⟨f, hf, by simp⟩)
    have hgb : g.blob = f.blob := by simpa using find?_some hfirst
    obtain ⟨id, new, hg, hnewrows, hall⟩ :=
      (h.beginRevision rev base w.clock).rowsOf_foldlM_enter hfs hfold hnew' hfirst
    rw [← hgb] at hnewrows hall
    rw [hfirst, ← hgb, holds_iff_of_rowsOf (hfs g (mem_of_find?_eq_some hfirst)) hnewrows hall,
      hmid.versions.toFileTable.fileAt_iff_eq hg hat]
    simp only [Option.mem_def, Option.some.injEq, exists_eq_left']

/-- After a run, every version of its revision is that of a file that was read; and every such version has its file's
nodes, symbols and calls under its own file and content exactly when each of these contents was held for its file
before, or is new and was brought by its file. -/
theorem versions_hold_iff (hfilled : Filled ix) (hrun : ix.addRepository root rev base o w = (.ok ix', w')) :
    ∃ fs, listing root o w = (.ok fs, w) ∧ (∀ v ∈ ix'.versions, v.rev = rev → ∃ f ∈ fs, v.IsOf ix' f) ∧
      ((∀ v ∈ ix'.versions, v.rev = rev → ∀ f ∈ fs, v.IsOf ix' f → Holds ix' (artifactsOf o.policy f) v.fileId v.blob) ↔
        ∀ v ∈ ix'.versions, v.rev = rev → ∀ f ∈ fs, v.IsOf ix' f → BroughtFor ix o fs f v.fileId) := by
  have h := hfilled.sound
  obtain ⟨fs, mid, rows, hlist, hfold, -, -, rfl⟩ := h.addRepository hrun
  have heach : ∀ v : VersionRow, ∀ f ∈ fs, v.IsOf (mid.resolveCalls none) f →
      (Holds (mid.resolveCalls none) (artifactsOf o.policy f) v.fileId v.blob ↔ BroughtFor ix o fs f v.fileId) := by
    rintro v f hf ⟨hb, hat⟩
    rw [hb]
    exact holds_iff_broughtFor h hrun hlist hf hat
  refine ⟨fs, hlist, ?_, ?_, ?_⟩
  · intro v hv hrev
    rcases (h.beginRevision rev base w.clock).version_foldlM_enter (digested_of_listing hlist) hfold hv with hv | hof
    · rw [h.versions.versions_beginRevision] at hv
      exact absurd hrev (bne_iff_ne.mp (List.mem_filter.mp hv).2)
    · exact hof
  · intro hall v hv hrev f hf hof
    exact (heach v f hf hof).mp (hall v hv hrev f hf hof)
  · intro hall v hv hrev f hf hof
    exact (heach v f hf hof).mpr (hall v hv hrev f hf hof)

/-! ## Two repositories -/

instance (ix : Index) (a : Artifacts) (fileId : Int) (blob : String) : Decidable (Holds ix a fileId blob) :=
  decidable_of_iff (_ ∧ _ ∧ _) ⟨fun h => ⟨h.1, h.2.1, h.2.2⟩, fun h => ⟨h.node, h.symbols, h.calls⟩⟩

instance (a b : Artifacts) (fileId : Int) (blob : String) : Decidable (SameRows a b fileId blob) :=
  inferInstanceAs (Decidable (_ ∧ _))

instance (v : VersionRow) (ix : Index) (f : ParsedFile) : Decidable (v.IsOf ix f) :=
  inferInstanceAs (Decidable (_ ∧ ∃ g ∈ ix.files, _))

instance (ix : Index) (o : BuildOptions) (fs : List ParsedFile) (f : ParsedFile) (fileId : Int) :
    Decidable (BroughtFor ix o fs f fileId) :=
  inferInstanceAs (Decidable (if ix.hasArtifacts f.blob then _ else ∃ g ∈ fs.find? _, _))

/-- The files of a repository in which no two contents are alike. -/
def distinctFiles : List RootFile := [definingFile "lib.py" 0, callingFile]

/-- An index with one of these files. -/
def distinctBase : Index := ({} : Index).takeRoot "base" none [definingFile "lib.py" 0]

/-- The index after the repository is indexed. -/
def distinctHead : Index := distinctBase.takeRoot "head" (some "base") distinctFiles

/-- A content that was held for its file and one that is new are both held after a run. -/
theorem distinct_versions_hold : ∃ (o : BuildOptions) (w w' : Workspace) (ix ix' : Index) (fs : List ParsedFile),
      Filled ix ∧ ix.addRepository ⟨"/", []⟩ "head" (some "base") o w = (.ok ix', w') ∧
      listing ⟨"/", []⟩ o w = (.ok fs, w) ∧ (∃ v ∈ ix'.versions, v.rev = "head" ∧ ∃ f ∈ fs, v.IsOf ix' f) ∧
      ∀ v ∈ ix'.versions, v.rev = "head" → ∀ f ∈ fs, v.IsOf ix' f →
        Holds ix' (artifactsOf o.policy f) v.fileId v.blob := by
  have hfacts : canTake {} "base" none [definingFile "lib.py" 0] = true ∧
      canTake distinctBase "head" (some "base") distinctFiles = true ∧
      (∃ v ∈ distinctHead.versions, v.rev = "head") ∧
      ∀ v ∈ distinctHead.versions, v.rev = "head" → ∀ f ∈ rootReading "python" distinctFiles, v.IsOf distinctHead f →
        BroughtFor distinctBase (rootOptions distinctFiles) (rootReading "python" distinctFiles) f v.fileId := by
    decide +kernel
  obtain ⟨hbase, hhead, ⟨v, hv, hrev⟩, hcond⟩ := hfacts
  obtain ⟨w₁, h₁⟩ := takeRoot_run (by decide +kernel) hbase
  obtain ⟨w₂, h₂⟩ := takeRoot_run (by decide +kernel) hhead
  have hfilled : Filled distinctBase := .run .empty h₁
  obtain ⟨fs, hlist, hof, hiff⟩ := versions_hold_iff hfilled h₂
  obtain rfl : fs = rootReading "python" distinctFiles := by
    have hread : listing ⟨"/", []⟩ (rootOptions distinctFiles) (rootWorkspace distinctFiles) =
        (.ok (rootReading "python" distinctFiles), rootWorkspace distinctFiles) :=
      listing_rootWorkspace (by decide +kernel) rfl
    exact Except.ok.inj (congrArg Prod.fst (hlist.symm.trans hread))
  exact ⟨_, _, w₂, distinctBase, distinctHead, _, hfilled, h₂, hlist, ⟨v, hv, hrev, hof v hv hrev⟩, hiff.mpr hcond⟩

/-- Two files of one content. -/
def copiedFiles : List RootFile := [definingFile "a.py" 0, definingFile "b.py" 0]

/-- The index after both are indexed. -/
def copiedHead : Index := ({} : Index).takeRoot "head" none copiedFiles

/-- After a repository with a copied file is indexed, a version of it has no node at all, though its file defines a
symbol. -/
theorem copied_version_holds_nothing : ∃ (o : BuildOptions) (w w' : Workspace) (ix : Index) (fs : List ParsedFile),
      ({} : Index).addRepository ⟨"/", []⟩ "head" none o w = (.ok ix, w') ∧ listing ⟨"/", []⟩ o w = (.ok fs, w) ∧
      ∃ v ∈ ix.versions, v.rev = "head" ∧ ∃ f ∈ fs, v.IsOf ix f ∧ (artifactsOf o.policy f).symbols ≠ [] ∧
        (∀ n ∈ ix.nodes, ¬ (n.fileId = v.fileId ∧ n.blob = v.blob)) ∧
        ¬ Holds ix (artifactsOf o.policy f) v.fileId v.blob := by
  have hfacts : canTake {} "head" none copiedFiles = true ∧
      ∃ v ∈ copiedHead.versions, v.rev = "head" ∧ ∃ f ∈ rootReading "python" copiedFiles, v.IsOf copiedHead f ∧
        (artifactsOf (rootOptions copiedFiles).policy f).symbols ≠ [] ∧
        (∀ n ∈ copiedHead.nodes, ¬ (n.fileId = v.fileId ∧ n.blob = v.blob)) ∧
        ¬ Holds copiedHead (artifactsOf (rootOptions copiedFiles).policy f) v.fileId v.blob := by
    decide +kernel
  obtain ⟨hcan, hout⟩ := hfacts
  obtain ⟨w₁, h₁⟩ := takeRoot_run (by decide +kernel) hcan
  exact ⟨_, _, w₁, copiedHead, _, h₁, listing_rootWorkspace (by decide +kernel) rfl, hout⟩

end PatchReview.Index
