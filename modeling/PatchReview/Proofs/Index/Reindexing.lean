import Mathlib.Data.List.Induction
import PatchReview.Proofs.Index.AtRoot
import PatchReview.Proofs.Index.Filling

/-!
# Indexing twice

A second run over the same files finds their contents held, makes the same versions again and resolves nothing more. So
it changes nothing but the time of the revision, unless all node ids of some file have been taken by other contents:
then the content is never held and is stored anew by every run.
-/

namespace PatchReview.Index

/-!
## Registering the same files again

Registering files sets the language of each path, replaces the version of each file under the revision, and keeps bytes
that are not kept yet. Done a second time with the same files, it leaves the files and bytes as they are and makes the
same versions again.
-/

open List

variable {ix ix' : Index} {o : BuildOptions} {rev : String} {f : ParsedFile} {fs : List ParsedFile} {path : String}

/-! ## Languages -/

/-- Gives a row the language of a file at its path. -/
def setLang (f : ParsedFile) (g : FileRow) : FileRow := if g.path == f.path then { g with lang := f.lang } else g

/-- Gives a row the language of the last file at its path. -/
def setLangs (fs : List ParsedFile) (g : FileRow) : FileRow := fs.foldl (fun g f => setLang f g) g

lemma path_setLang (f g) : (setLang f g).path = g.path := by unfold setLang; split <;> rfl

lemma id_setLang (f g) : (setLang f g).id = g.id := by unfold setLang; split <;> rfl

lemma path_id_setLangs (fs g) : (setLangs fs g).path = g.path ∧ (setLangs fs g).id = g.id := by
  induction fs generalizing g with
  | nil => exact ⟨rfl, rfl⟩
  | cons f fs ih =>
    obtain ⟨hp, hi⟩ := ih (setLang f g)
    exact ⟨hp.trans (path_setLang f g), hi.trans (id_setLang f g)⟩

lemma files_register (o rev ix f) : (register o rev ix f).files = if (ix.fileAt? f.path).isSome then
      ix.files.map (setLang f) else ix.files ++ [⟨ix.lastFileId + 1, f.path, f.lang⟩] := by
  change (ix.upsertFile f.path f.lang).1.files = _
  unfold upsertFile
  cases ix.fileAt? f.path <;> rfl

/-- A row of the table after a file is registered has the file's language or was there before. -/
lemma mem_files_register {g} (hg : g ∈ (register o rev ix f).files) :
    g.path = f.path ∧ g.lang = f.lang ∨ g.path ≠ f.path ∧ g ∈ ix.files := by
  rw [files_register] at hg
  split at hg <;> rename_i hknown
  · obtain ⟨k, hk, rfl⟩ := mem_map.1 hg
    by_cases hp : k.path = f.path
    · exact .inl ⟨(path_setLang f k).trans hp, by simp [setLang, hp]⟩
    · exact .inr ⟨by rwa [path_setLang], by simpa [setLang, hp] using hk⟩
  · rcases mem_append.1 hg with hg | hg
    · exact .inr ⟨fun e => hknown (find?_isSome.2 ⟨g, hg, beq_iff_eq.2 e⟩), hg⟩
    · rw [mem_singleton.1 hg]
      exact .inl ⟨rfl, rfl⟩

/-- The id that a path has in the table of files. -/
def idAt (ix : Index) (path : String) : Option Int := (ix.fileAt? path).map (·.id)

/-- A file that is registered has its id then, and the other paths keep theirs. -/
lemma idAt_register (o rev ix f path) :
    idAt (register o rev ix f) path = if f.path = path then some (ix.fileIdFor path) else idAt ix path := by
  have hpath : (fun g : FileRow => g.path == path) ∘ setLang f = fun g => g.path == path :=
    funext fun g => by rw [Function.comp_apply, path_setLang]
  unfold idAt fileIdFor
  rw [fileAt?, files_register]
  cases hat : ix.fileAt? f.path with
  | none =>
    rw [if_neg (by simp), find?_append, ← fileAt?]
    split <;> rename_i hp
    · rw [← hp, hat]
      simp
    · simp [hp]
  | some k =>
    rw [if_pos (by simp), find?_map, hpath, Option.map_map, show (·.id) ∘ setLang f = (·.id) from funext (id_setLang f)]
    split <;> rename_i hp
    · rw [← hp, ← fileAt?, hat]
      rfl
    · rfl

lemma isSome_idAt_register (h : f.path = path ∨ (idAt ix path).isSome) : (idAt (register o rev ix f) path).isSome := by
  rw [idAt_register]
  split
  · rfl
  · exact h.resolve_left ‹_›

lemma fileIdFor_of_idAt {id} (h : idAt ix path = some id) : ix.fileIdFor path = id := by
  obtain ⟨g, hg, rfl⟩ := Option.map_eq_some_iff.1 h
  unfold fileIdFor
  rw [hg]

lemma fileIdFor_register (h : f.path = path ∨ (idAt ix path).isSome) :
    (register o rev ix f).fileIdFor path = ix.fileIdFor path := by
  refine fileIdFor_of_idAt ((idAt_register o rev ix f path).trans ?_)
  split
  · rfl
  · obtain ⟨id, hid⟩ := Option.isSome_iff_exists.1 (h.resolve_left ‹_›)
    rw [hid, fileIdFor_of_idAt hid]

/-- After some files are registered, setting their languages again changes nothing. -/
lemma setLangs_of_mem_foldl_register {g} (hg : g ∈ (fs.foldl (register o rev) ix).files) : setLangs fs g = g := by
  induction fs using List.reverseRecOn with
  | nil => rfl
  | append_singleton fs f ih =>
    rw [foldl_append] at hg
    have hlast : setLangs (fs ++ [f]) g = setLang f (setLangs fs g) := foldl_append ..
    rw [hlast]
    rcases mem_files_register hg with ⟨hp, hl⟩ | ⟨hp, hg⟩
    · obtain ⟨hp', hi'⟩ := path_id_setLangs fs g
      cases g
      simp_all [setLang]
    · rw [ih hg]
      simp [setLang, hp]

lemma files_foldl_register_of_known (h : ∀ f ∈ fs, (idAt ix f.path).isSome) :
    (fs.foldl (register o rev) ix).files = ix.files.map (setLangs fs) := by
  induction fs generalizing ix with
  | nil => exact (map_id _).symm
  | cons f fs ih =>
    have hf := h f mem_cons_self
    rw [idAt, Option.isSome_map] at hf
    rw [foldl_cons, ih fun g hg => isSome_idAt_register (.inr (h g (mem_cons_of_mem _ hg))), files_register, if_pos hf,
      map_map]
    rfl

/-- What a file brings about and the files after it keep holds in the end. -/
lemma foldl_of_mem {P : α → Prop} {op : α → β → α} {l : List β} {a b} (hb : b ∈ l) (hop : ∀ a, P (op a b))
    (hkeep : ∀ a c, P a → P (op a c)) : P (l.foldl op a) := by
  obtain ⟨before, after, rfl⟩ := append_of_mem hb
  rw [foldl_append]
  exact foldlRecOn after op (hop _) fun a ha c _ => hkeep a c ha

lemma isSome_idAt_foldl_register (o rev ix) (hf : f ∈ fs) : (idAt (fs.foldl (register o rev) ix) f.path).isSome :=
  foldl_of_mem (P := fun ix => (idAt ix f.path).isSome) hf (fun _ => isSome_idAt_register (.inl rfl))
    fun _ _ h => isSome_idAt_register (.inr h)

/-- Registering the same files again leaves the table of files. -/
lemma files_foldl_register_again (h : ix'.files = (fs.foldl (register o rev) ix).files) :
    (fs.foldl (register o rev) ix').files = ix'.files := by
  have hknown : ∀ f ∈ fs, (idAt ix' f.path).isSome := by
    intro f hf
    rw [idAt, fileAt?, h]
    exact isSome_idAt_foldl_register o rev ix hf
  rw [files_foldl_register_of_known hknown]
  refine (map_congr_left fun g hg => ?_).trans (map_id _)
  exact setLangs_of_mem_foldl_register (h ▸ hg)

/-! ## Bytes -/

lemma blobs_foldl_register_of_kept (h : o.keepBytes → ∀ f ∈ fs, ∃ r ∈ ix.blobs, r.blob = f.blob) :
    (fs.foldl (register o rev) ix).blobs = ix.blobs := by
  induction fs generalizing ix with
  | nil => rfl
  | cons f fs ih =>
    have hkept : keptWith o f ix.blobs = ix.blobs := by
      unfold keptWith
      rw [if_neg]
      intro hnew
      rw [Bool.and_eq_true, Bool.not_eq_true', any_eq_false] at hnew
      obtain ⟨r, hr, hb⟩ := h hnew.1 f mem_cons_self
      exact hnew.2 r hr (beq_iff_eq.2 hb)
    have hreg : (register o rev ix f).blobs = ix.blobs := hkept
    rw [foldl_cons, ih, hreg]
    rw [hreg]
    exact fun hk g hg => h hk g (mem_cons_of_mem _ hg)

lemma exists_blob_foldl_register (hk : o.keepBytes) (hf : f ∈ fs) :
    ∃ r ∈ (fs.foldl (register o rev) ix).blobs, r.blob = f.blob := by
  refine foldl_of_mem (P := fun k : Index => ∃ r ∈ k.blobs, r.blob = f.blob) hf (fun k => ?_) ?_
  · change ∃ r ∈ keptWith o f k.blobs, r.blob = f.blob
    unfold keptWith
    split
    · exact ⟨_, mem_append_right _ mem_cons_self, rfl⟩
    · rename_i hany
      rw [hk, Bool.true_and, Bool.not_eq_true', Bool.not_eq_false, any_eq_true] at hany
      obtain ⟨r, hr, hb⟩ := hany
      exact ⟨r, hr, beq_iff_eq.1 hb⟩
  · rintro k g ⟨r, hr, hb⟩
    refine ⟨r, ?_, hb⟩
    change r ∈ keptWith o g k.blobs
    unfold keptWith
    split
    exacts [mem_append_left _ hr, hr]

/-- Registering the same files again leaves the bytes. -/
lemma blobs_foldl_register_again (h : ix'.blobs = (fs.foldl (register o rev) ix).blobs) :
    (fs.foldl (register o rev) ix').blobs = ix'.blobs := by
  refine blobs_foldl_register_of_kept fun hk f hf => ?_
  rw [h]
  exact exists_blob_foldl_register hk hf

/-! ## Versions -/

lemma fileIdFor_foldl_register (h : (idAt ix path).isSome) :
    (fs.foldl (register o rev) ix).fileIdFor path = ix.fileIdFor path := by
  induction fs generalizing ix with
  | nil => rfl
  | cons f fs ih => rw [foldl_cons, ih (isSome_idAt_register (.inr h)), fileIdFor_register (.inr h)]

/-- Puts the version of a file in place of the one it has under a revision. -/
def putVersion (rev : String) (id : String → Int) (vs : List VersionRow) (f : ParsedFile) : List VersionRow :=
  vs.filter (fun v => !(v.rev == rev && v.fileId == id f.path)) ++ [⟨rev, id f.path, f.blob, f.source.length⟩]

/-- The versions after some files are registered, by the ids that the files have in the end. -/
lemma versions_foldl_register (o rev ix) (fs : List ParsedFile) : (fs.foldl (register o rev) ix).versions =
      fs.foldl (putVersion rev (fs.foldl (register o rev) ix).fileIdFor) ix.versions := by
  induction fs generalizing ix with
  | nil => rfl
  | cons f fs ih =>
    have hid : (fs.foldl (register o rev) (register o rev ix f)).fileIdFor f.path = ix.fileIdFor f.path :=
      (fileIdFor_foldl_register (isSome_idAt_register (.inl rfl))).trans (fileIdFor_register (.inl rfl))
    rw [foldl_cons, foldl_cons, ih]
    unfold putVersion at *
    rw [hid]
    rfl

/-- Registering the same files again, from the versions there were at first, makes the same versions. -/
lemma versions_foldl_register_again (hf : ix'.files = (fs.foldl (register o rev) ix).files)
    (hv : ix'.versions = ix.versions) :
    (fs.foldl (register o rev) ix').versions = (fs.foldl (register o rev) ix).versions := by
  have hids : ∀ f ∈ fs, (fs.foldl (register o rev) ix').fileIdFor f.path =
      (fs.foldl (register o rev) ix).fileIdFor f.path := by
    intro f hmem
    obtain ⟨id, hid⟩ := Option.isSome_iff_exists.1 (isSome_idAt_foldl_register o rev ix hmem)
    have hid' : idAt (fs.foldl (register o rev) ix') f.path = some id := by
      rw [idAt, fileAt?, files_foldl_register_again hf, hf]
      exact hid
    rw [fileIdFor_of_idAt hid, fileIdFor_of_idAt hid']
  rw [versions_foldl_register o rev ix', versions_foldl_register o rev ix, hv]
  refine foldl_ext _ _ _ fun vs f hmem => ?_
  unfold putVersion
  rw [hids f hmem]

open Graph (treeIds)
open Action Index

variable {ix ix' ix₁ mid : Index} {o : BuildOptions} {root : Path} {rev : String} {base : Option String}
  {w w' w₁ : Workspace} {f g : ParsedFile} {fs : List ParsedFile}

/-! ## Rows that refer to revisions -/

/-- Versions, packages and runs refer to revisions that are there. -/
structure Keyed (ix : Index) : Prop where
  versions : ∀ v ∈ ix.versions, ix.hasRevision v.rev = true
  packages : ∀ p ∈ ix.packages, ix.hasRevision p.rev = true
  runs : ∀ r ∈ ix.runs, ix.hasRevision r.rev = true

/-- An index whose revision begins anew. -/
def begun (ix : Index) (rev : String) (base : Option String) (now : Float) : Index :=
  { ix with
    revisions := ix.revisions.filter (·.rev != some rev) ++ [⟨some rev, base, now⟩]
    versions := ix.versions.filter (·.rev != rev)
    packages := ix.packages.filter (·.rev != rev)
    runs := ix.runs.filter (·.rev != rev) }

lemma beginRevision_of_hasRevision (h : ix.hasRevision rev) (base) (now : Float) :
    ix.beginRevision rev base now = ix.begun rev base now := by
  unfold beginRevision
  rw [if_pos h]
  rfl

lemma hasRevision_begun (ix : Index) (rev base now) : (ix.begun rev base now).hasRevision rev := by
  simp [hasRevision, begun]

lemma Keyed.beginRevision_eq (h : Keyed ix) (rev base now) : ix.beginRevision rev base now = ix.begun rev base now := by
  by_cases hrev : ix.hasRevision rev
  · exact beginRevision_of_hasRevision hrev base now
  · have hne : ∀ {r : String}, ix.hasRevision r = true → (r != rev) = true := by
      intro r hr
      rw [bne_iff_ne]
      rintro rfl
      exact hrev hr
    have hrevs : ix.revisions.filter (·.rev != some rev) = ix.revisions := by
      refine filter_eq_self.2 fun r hr => ?_
      rw [bne_iff_ne]
      exact fun e => hrev (any_eq_true.2 ⟨r, hr, beq_iff_eq.2 e⟩)
    have hv : ix.versions.filter (·.rev != rev) = ix.versions := filter_eq_self.2 fun v hv => hne (h.versions v hv)
    have hp : ix.packages.filter (·.rev != rev) = ix.packages := filter_eq_self.2 fun p hp => hne (h.packages p hp)
    have hr : ix.runs.filter (·.rev != rev) = ix.runs := filter_eq_self.2 fun r hr => hne (h.runs r hr)
    unfold beginRevision begun
    rw [if_neg hrev, hrevs, hv, hp, hr]

lemma Keyed.beginRevision (h : Keyed ix) (rev base now) : Keyed (ix.beginRevision rev base now) := by
  have hrevs := hasRevision_beginRevision ix rev base now
  have hold : ∀ {r : String}, ix.hasRevision r → (ix.beginRevision rev base now).hasRevision r := by
    intro r hr
    rw [hrevs, hr, Bool.or_true]
  rw [h.beginRevision_eq] at hold ⊢
  exact ⟨fun v hv => hold (h.versions v (mem_filter.1 hv).1), fun p hp => hold (h.packages p (mem_filter.1 hp).1),
    fun r hr => hold (h.runs r (mem_filter.1 hr).1)⟩

/-! ## Entering a file into any index -/

/-- An index without what contents hold. -/
def shell (ix : Index) : Index := { ix with nodes := [], edges := [], symbols := [], calls := [], documents := [] }

lemma hasRevision_shell (ix : Index) (rev) : ix.shell.hasRevision rev = ix.hasRevision rev := rfl

lemma shell_register (o rev ix f) : (register o rev ix f).shell = register o rev ix.shell f := by
  have hfiles : (ix.upsertFile f.path f.lang).1.files = (ix.shell.upsertFile f.path f.lang).1.files := by
    unfold upsertFile
    rw [show ix.shell.fileAt? f.path = ix.fileAt? f.path from rfl]
    cases ix.fileAt? f.path <;> rfl
  unfold register
  rw [← hfiles]
  rfl

/-- How a file is entered into an index of any origin: beside the contents it is registered, new nodes are nodes of its
tree, and unless its content was held all ids of its tree are taken afterwards. -/
lemma enter_eq_ok (hf : f.Digested) (he : ix.enter o rev f = .ok ix') :
    ix.hasRevision rev ∧ ix'.shell = register o rev ix.shell f ∧
      ∃ new, ix'.nodes = ix.nodes ++ new ∧ (∀ n ∈ new, n.blob = f.blob ∧ n.id ∈ treeIds f) ∧
        (ix.hasArtifacts f.blob ∨ ∀ id ∈ treeIds f, ∃ n ∈ ix'.nodes, n.id = id) := by
  rw [enter_eq] at he
  split at he
  · rename_i hrev
    refine ⟨hrev, ?_⟩
    split at he
    · rename_i hheld
      cases he
      exact ⟨shell_register o rev ix f, [], (append_nil _).symm, by simp, .inl hheld⟩
    · obtain ⟨rows, hrows, he⟩ := except_bind_eq_ok_iff.1 he
      have hof := rows_eq_ok hrows
      obtain ⟨new, rfl, hsub, hall, -⟩ := putRows_eq_ok he
      refine ⟨shell_register o rev ix f, new, rfl, ?_, .inr ?_⟩
      · intro n hn
        have hn := hsub.subset hn
        exact ⟨(hof.node n hn).1, (hof.mem_nodeIds hf).1 (mem_map_of_mem hn)⟩
      · intro id hid
        obtain ⟨r, hr, rfl⟩ := mem_map.1 ((hof.mem_nodeIds hf).2 hid)
        exact hall r hr
  · cases he

lemma shell_foldlM_enter (hfs : ∀ f ∈ fs, f.Digested) (he : fs.foldlM (enter o rev) ix = .ok mid) :
    mid.shell = fs.foldl (register o rev) ix.shell := by
  induction fs generalizing ix with
  | nil =>
    cases he
    rfl
  | cons f fs ih =>
    obtain ⟨ix₁, h₁, hrest⟩ := except_bind_eq_ok_iff.1 he
    obtain ⟨-, hshell, -⟩ := enter_eq_ok (hfs f mem_cons_self) h₁
    rw [foldl_cons, ← hshell]
    exact ih (fun g hg => hfs g (mem_cons_of_mem _ hg)) hrest

/-! ## Contents that come to be held -/

/-- The content of a file is held, or some id of its nodes is free. -/
def Storable (ix : Index) (f : ParsedFile) : Prop :=
  ix.hasArtifacts f.blob = true ∨ ∃ id ∈ treeIds f, ∀ n ∈ ix.nodes, n.id ≠ id

/-- Only the table of nodes matters. -/
lemma Storable.congr (h : Storable ix f) (hnodes : ix'.nodes = ix.nodes) : Storable ix' f := by
  unfold Storable hasArtifacts at h ⊢
  rw [hnodes]
  exact h

lemma hasArtifacts_enter {blob} (hg : g.Digested) (he : ix.enter o rev g = .ok ix')
    (hheld : ix.hasArtifacts blob) : ix'.hasArtifacts blob := by
  obtain ⟨-, -, new, hnodes, -⟩ := enter_eq_ok hg he
  obtain ⟨n, hn, hb⟩ := hasArtifacts_iff.1 hheld
  exact hasArtifacts_iff.2 ⟨n, hnodes ▸ mem_append_left _ hn, hb⟩

/-- Only the content of a file takes the ids of its nodes. -/
lemma Storable.enter (h : Storable ix f) (hf : f.Digested) (hg : g.Digested) (he : ix.enter o rev g = .ok ix') :
    Storable ix' f := by
  obtain ⟨-, -, new, hnodes, hnew, -⟩ := enter_eq_ok hg he
  rcases h with hheld | ⟨id, hid, hfree⟩
  · exact .inl (hasArtifacts_enter hg he hheld)
  · by_cases htaken : ∃ n ∈ new, n.id = id
    · obtain ⟨n, hn, rfl⟩ := htaken
      refine .inl (hasArtifacts_iff.2 ⟨n, hnodes ▸ mem_append_right _ hn, ?_⟩)
      rw [(hnew n hn).1]
      exact hg.blob_eq hf (hnew n hn).2 hid
    · refine .inr ⟨id, hid, fun n hn e => ?_⟩
      rcases mem_append.1 (hnodes ▸ hn) with hn | hn
      · exact hfree n hn e
      · exact htaken ⟨n, hn, e⟩

lemma Storable.held (h : Storable ix f) (hf : f.Digested) (he : ix.enter o rev f = .ok ix') :
    ix'.hasArtifacts f.blob := by
  obtain ⟨-, -, -, -, -, hheld | hall⟩ := enter_eq_ok hf he
  · exact hasArtifacts_enter hf he hheld
  · rcases h.enter hf hf he with hheld | ⟨id, hid, hfree⟩
    · exact hheld
    · obtain ⟨n, hn, e⟩ := hall id hid
      exact absurd e (hfree n hn)

/-- In an index filled by entering files the ids of a node tell its content, so no file is kept out. -/
lemma Contents.storable (h : Contents ix) (hf : f.Digested) : Storable ix f := by
  by_cases hheld : ix.hasArtifacts f.blob
  · exact .inl hheld
  · refine .inr ⟨Graph.blockId f.blob f.root, mem_map_of_mem f.root.mem_preorder_self, fun n hn e => hheld ?_⟩
    obtain ⟨hcolon, t, ht⟩ := h.node n hn
    exact hasArtifacts_iff.2 ⟨n, hn, Graph.blockId_inj_left hcolon hf.colon_notMem (ht.symm.trans e)⟩

lemma hasArtifacts_foldlM_enter_of_held (hfs : ∀ f ∈ fs, f.Digested) (he : fs.foldlM (enter o rev) ix = .ok mid)
    {blob} (hheld : ix.hasArtifacts blob) : mid.hasArtifacts blob := by
  refine keeps_foldlM (P := fun k => k.hasArtifacts blob) ?_ hheld he
  exact fun f hf k k' hk hstep => hasArtifacts_enter (hfs f hf) hstep hk

/-- After files that can be stored are entered, their contents are held. -/
lemma hasArtifacts_foldlM_enter (hfs : ∀ f ∈ fs, f.Digested) (hstore : ∀ f ∈ fs, Storable ix f)
    (he : fs.foldlM (enter o rev) ix = .ok mid) : ∀ f ∈ fs, mid.hasArtifacts f.blob := by
  induction fs generalizing ix with
  | nil => exact fun f hf => absurd hf not_mem_nil
  | cons g fs ih =>
    obtain ⟨ix₁, h₁, hrest⟩ := except_bind_eq_ok_iff.1 he
    have hg := hfs g mem_cons_self
    have hfs' : ∀ f ∈ fs, f.Digested := fun f hf => hfs f (mem_cons_of_mem _ hf)
    intro f hf
    rcases mem_cons.1 hf with rfl | hf
    · exact hasArtifacts_foldlM_enter_of_held hfs' hrest ((hstore f mem_cons_self).held hg h₁)
    · exact ih hfs' (fun k hk => (hstore k (mem_cons_of_mem _ hk)).enter (hfs' k hk) hg h₁) hrest f hf

/-- Files whose contents are held are only registered. -/
lemma foldlM_enter_of_held (hrev : ix.hasRevision rev) (hheld : ∀ f ∈ fs, ix.hasArtifacts f.blob) :
    fs.foldlM (enter o rev) ix = .ok (fs.foldl (register o rev) ix) := by
  induction fs generalizing ix with
  | nil => rfl
  | cons f fs ih =>
    rw [foldlM_cons, enter_eq, if_pos hrev, if_pos (hheld f mem_cons_self)]
    exact ih hrev fun g hg => hheld g (mem_cons_of_mem _ hg)

/-! ## Registering into a revision that begins anew -/

/-- Registering touches the files, their versions and the kept bytes only. -/
lemma foldl_register_eq (o rev ix) (fs : List ParsedFile) : fs.foldl (register o rev) ix = { ix with
      lastFileId := (fs.foldl (register o rev) ix).lastFileId
      files := (fs.foldl (register o rev) ix).files
      versions := (fs.foldl (register o rev) ix).versions
      blobs := (fs.foldl (register o rev) ix).blobs } := by
  induction fs generalizing ix with
  | nil => rfl
  | cons f fs ih =>
    exact ih (register o rev ix f)

/-- The versions of the other revisions stay. -/
lemma filter_foldl_putVersion (rev id vs) (fs : List ParsedFile) :
    (fs.foldl (putVersion rev id) vs).filter (·.rev != rev) = vs.filter (·.rev != rev) := by
  induction fs generalizing vs with
  | nil => rfl
  | cons f fs ih =>
    rw [foldl_cons, ih, putVersion, filter_append, filter_cons_of_neg (by simp), filter_nil, append_nil]
    refine filter_filter_of_imp fun v _ hv => ?_
    simp [bne_iff_ne.1 hv]

/-- What holds of all rows still does when one takes the place of some. -/
lemma forall_mem_replaced {rows : List α} {row q} {P : α → Prop} (h : ∀ r ∈ rows, P r) (hrow : P row) :
    ∀ r ∈ rows.filter q ++ [row], P r :=
  forall_mem_append.2 ⟨fun r hr => h r (mem_filter.1 hr).1, forall_mem_singleton.2 hrow⟩

lemma Keyed.register (h : Keyed ix) (hrev : ix.hasRevision rev) : Keyed (register o rev ix f) :=
  ⟨forall_mem_replaced h.versions hrev, h.packages, h.runs⟩

lemma Keyed.foldl_register (h : Keyed ix) (hrev : ix.hasRevision rev) :
    Keyed (fs.foldl (Index.register o rev) ix) := by
  induction fs generalizing ix with
  | nil => exact h
  | cons f fs ih => exact ih (h.register hrev) hrev

lemma Keyed.addRepository (h : Keyed ix) (hrun : ix.addRepository root rev base o w = (.ok ix', w')) : Keyed ix' := by
  obtain ⟨-, fs, mid, hlist, hfold, rfl⟩ := addRepository_eq_ok_iff.1 hrun
  have hshell := shell_foldlM_enter (digested_of_listing hlist) hfold
  have hbegun := h.beginRevision rev base w.clock
  have hbegun : Keyed (ix.beginRevision rev base w.clock).shell := ⟨hbegun.versions, hbegun.packages, hbegun.runs⟩
  have hrev : (ix.beginRevision rev base w.clock).shell.hasRevision rev := by
    rw [h.beginRevision_eq]
    exact hasRevision_begun ix rev base w.clock
  have hmid : Keyed mid.shell := hshell ▸ hbegun.foldl_register hrev
  exact ⟨hmid.versions, hmid.packages, hmid.runs⟩

/-- Every index that can be made: from an empty one, by runs of indexing, by beginning revisions, entering versions,
packages and runs, and by anything that leaves these tables alone. -/
inductive Made : Index → Prop
  | empty : Made {}
  | begin {ix : Index} (rev : String) (base : Option String) (now : Float) :
      Made ix → Made (ix.beginRevision rev base now)
  | nameless {ix : Index} (base : Option String) (now : Float) : Made ix → Made (ix.beginNameless base now)
  | version {ix ix' : Index} {rev : String} {fileId : Int} {blob : String} {size : Int} :
      Made ix → ix.upsertVersion rev fileId blob size = .ok ix' → Made ix'
  | packages {ix ix' : Index} {rows : List PackageRow} : Made ix → ix.putPackages rows = .ok ix' → Made ix'
  | summaryRun {ix ix' : Index} {row : RunRow} : Made ix → ix.putRun row = .ok ix' → Made ix'
  | indexed {ix ix' : Index} {root : Path} {rev : String} {base : Option String} {o : BuildOptions}
      {w w' : Workspace} : Made ix → ix.addRepository root rev base o w = (.ok ix', w') → Made ix'
  | beside {ix ix' : Index} : Made ix → ix'.revisions = ix.revisions → ix'.versions = ix.versions →
      ix'.packages = ix.packages → ix'.runs = ix.runs → Made ix'

lemma Keyed.putPackages {rows} (h : Keyed ix) (hp : ix.putPackages rows = .ok ix') : Keyed ix' := by
  refine keeps_foldlM ?_ h hp
  intro r _ k k' hk hstep
  split at hstep
  · rename_i hrev
    cases hstep
    exact ⟨hk.versions, forall_mem_replaced hk.packages hrev, hk.runs⟩
  · cases hstep

lemma Made.putArtifacts {fileId blob lang a} (h : Made ix) (hp : ix.putArtifacts fileId blob lang a = .ok ix') :
    Made ix' := by
  obtain ⟨rows, -, hp⟩ := except_bind_eq_ok_iff.1 hp
  obtain ⟨new, rfl, -⟩ := putRows_eq_ok hp
  exact .beside h rfl rfl rfl rfl

lemma Made.keyed (h : Made ix) : Keyed ix := by
  induction h with
  | empty => exact ⟨by simp, by simp, by simp⟩
  | begin rev base now _ ih => exact ih.beginRevision rev base now
  | @nameless ix base now _ ih =>
    have hold : ∀ {r : String}, ix.hasRevision r → (ix.beginNameless base now).hasRevision r := by
      intro r hr
      obtain ⟨k, hk, hkr⟩ := any_eq_true.1 hr
      exact any_eq_true.2 ⟨k, mem_append_left _ hk, hkr⟩
    exact ⟨fun v hv => hold (ih.versions v hv), fun p hp => hold (ih.packages p hp), fun r hr => hold (ih.runs r hr)⟩
  | version _ hv ih =>
    unfold upsertVersion at hv
    split at hv
    · rename_i hrev
      rw [Bool.and_eq_true] at hrev
      cases hv
      exact ⟨forall_mem_replaced ih.versions hrev.1, ih.packages, ih.runs⟩
    · cases hv
  | packages _ hp ih => exact ih.putPackages hp
  | summaryRun _ hr ih =>
    unfold putRun at hr
    split at hr
    · rename_i hrev
      cases hr
      exact ⟨ih.versions, ih.packages, forall_mem_replaced ih.runs hrev⟩
    · cases hr
  | indexed _ hrun ih => exact ih.addRepository hrun
  | beside _ hr hv hp hs ih =>
    obtain ⟨h₁, h₂, h₃⟩ := ih
    constructor <;> simp only [hasRevision, hr, hv, hp, hs] <;> assumption

/-! ## The second run -/

/-- An index in which only the time of a revision, and how far file ids are counted, is another. -/
def redated (ix : Index) (rev : String) (t : Float) (last : Int) : Index :=
  { ix with
    lastFileId := last
    revisions := ix.revisions.map fun r => if r.rev == some rev then { r with createdAt := t } else r }

lemma resolveCalls_redated (ix : Index) (rev t last lang) :
    (ix.redated rev t last).resolveCalls lang = (ix.resolveCalls lang).redated rev t last := rfl

lemma begun_begun (ix : Index) (rev base now t) : (ix.begun rev base now).begun rev base t = ix.begun rev base t := by
  simp only [begun]
  simp

lemma begun_eq_redated (ix : Index) (rev base now t) :
    ix.begun rev base t = (ix.begun rev base now).redated rev t ix.lastFileId := by
  have hothers : (ix.revisions.filter (·.rev != some rev)).map
      (fun r => if r.rev == some rev then { r with createdAt := t } else r) =
      ix.revisions.filter (·.rev != some rev) := by
    refine (map_congr_left fun r hr => ?_).trans (map_id _)
    exact if_neg (by simpa using (mem_filter.1 hr).2)
  unfold begun redated
  rw [map_append, hothers]
  simp

/-- Registering the same files once more restores what beginning the revision anew took away. -/
lemma foldl_register_begun (hkeyed : Keyed ix) (now t : Float)
    (hmid : mid.shell = fs.foldl (register o rev) (ix.beginRevision rev base now).shell) :
    ∃ last, fs.foldl (register o rev) (mid.begun rev base t) = mid.redated rev t last := by
  rw [hkeyed.beginRevision_eq] at hmid
  have hfirst := foldl_register_eq o rev (ix.begun rev base now).shell fs
  rw [← hmid] at hfirst
  have hrevisions : mid.revisions = (ix.begun rev base now).revisions := (congrArg revisions hfirst :)
  have hpackages : mid.packages = (ix.begun rev base now).packages := (congrArg packages hfirst :)
  have hruns : mid.runs = (ix.begun rev base now).runs := (congrArg runs hfirst :)
  have hversions : mid.versions = (fs.foldl (register o rev) (ix.begun rev base now).shell).versions :=
    (congrArg versions hmid :)
  have hagain := begun_begun ix rev base now t
  -- what is left of the versions is what the first run began with
  have hleft : (mid.begun rev base t).versions = (ix.begun rev base now).versions := by
    change mid.versions.filter (·.rev != rev) = _
    rw [hversions, versions_foldl_register, filter_foldl_putVersion]
    exact (congrArg versions hagain :)
  have hfiles : (mid.begun rev base t).files = (fs.foldl (register o rev) (ix.begun rev base now).shell).files :=
    (congrArg files hmid :)
  have hblobs : (mid.begun rev base t).blobs = (fs.foldl (register o rev) (ix.begun rev base now).shell).blobs :=
    (congrArg blobs hmid :)
  have hbegun : mid.begun rev base t = { mid.redated rev t mid.lastFileId with
      versions := (mid.begun rev base t).versions } := by
    unfold redated
    unfold begun
    rw [hrevisions, hpackages, hruns]
    congr 1
    · exact (congrArg revisions (hagain.trans (begun_eq_redated ix rev base now t)) :)
    · exact (congrArg packages hagain :)
    · exact (congrArg runs hagain :)
  refine ⟨(fs.foldl (register o rev) (mid.begun rev base t)).lastFileId,
    (foldl_register_eq o rev (mid.begun rev base t) fs).trans ?_⟩
  rw [files_foldl_register_again hfiles, blobs_foldl_register_again hblobs,
    versions_foldl_register_again hfiles hleft, ← hversions, hbegun]
  rfl

/-- A second run over the same files, at whatever time, ends normally when the first one did. No table changes but for
the time of the revision, and the numbers of rows are the same, if the content of each file was held or some id of its
nodes was free. -/
theorem reindexing_changes_nothing (hmade : Made ix) (hlist : listing root o w = (.ok fs, w))
    (hstore : ∀ f ∈ fs, Storable ix f) (hrun : ix.addRepository root rev base o w = (.ok ix₁, w₁)) (t : Float) :
    ∃ last w₂, ix₁.addRepository root rev base o { w with clock := t } = (.ok (ix₁.redated rev t last), w₂) ∧
      (ix₁.redated rev t last).stats = ix₁.stats := by
  obtain ⟨-, fs', mid, hlist', hfold, hix₁⟩ := addRepository_eq_ok_iff.mp hrun
  cases hlist.symm.trans hlist'
  have hfs := digested_of_listing hlist
  have hkeyed := hmade.keyed
  -- resolving calls leaves what is registered and which contents are held
  have hshell : ix₁.shell = fs.foldl (register o rev) (ix.beginRevision rev base w.clock).shell := by
    rw [← shell_foldlM_enter hfs hfold, hix₁]
    rfl
  have hrev : ix₁.hasRevision rev = true := by
    rw [← hasRevision_shell, hshell, foldl_register_eq, hkeyed.beginRevision_eq]
    exact hasRevision_begun ix rev base w.clock
  have hheld : ∀ f ∈ fs, (ix₁.begun rev base t).hasArtifacts f.blob = true := by
    obtain ⟨-, -, -, hnodes, -⟩ := beginRevision_tables ix rev base w.clock
    have hmid := hasArtifacts_foldlM_enter hfs (fun f hf => (hstore f hf).congr hnodes) hfold
    rw [hix₁]
    exact hmid
  have hsettled : ix₁.resolveCalls none = ix₁ := by rw [hix₁, resolveCalls_idem]
  obtain ⟨last, hagain⟩ := foldl_register_begun hkeyed w.clock t hshell
  have hsecond : fs.foldlM (enter o rev) (ix₁.beginRevision rev base t) = .ok (ix₁.redated rev t last) := by
    rw [beginRevision_of_hasRevision hrev, foldlM_enter_of_held (hasRevision_begun ix₁ rev base t) hheld, hagain]
  refine ⟨last, _, addRepository_eq_ok_iff.mpr ⟨rfl, fs, _, ((steady_listing root o).ok_iff t).mpr hlist, hsecond, ?_⟩,
    rfl⟩
  rw [resolveCalls_redated, hsettled]

/-! ## Two repositories -/

/-- A repository in which a call has found its definition. -/
def grownFiles : List RootFile := [definingFile "lib.py" 0, callingFile]

/-- An index from before the definition was there. -/
def grownBase : Index := ({} : Index).takeRoot "base" none [callingFile]

/-- Indexing the grown repository once more, later, changes nothing but the time of its revision. -/
theorem grown_repository_reindexed :
    ∃ (o : BuildOptions) (w w₁ w₂ : Workspace) (ix ix₁ : Index) (fs : List ParsedFile) (last : Int),
      Made ix ∧ listing ⟨"/", []⟩ o w = (.ok fs, w) ∧ fs ≠ [] ∧ (∀ f ∈ fs, Storable ix f) ∧
      ix.addRepository ⟨"/", []⟩ "head" (some "base") o w = (.ok ix₁, w₁) ∧
      ix₁.addRepository ⟨"/", []⟩ "head" (some "base") o { w with clock := 2000.0 } =
        (.ok (ix₁.redated "head" 2000.0 last), w₂) ∧ (ix₁.redated "head" 2000.0 last).stats = ix₁.stats := by
  have hfacts : canTake {} "base" none [callingFile] = true ∧
      canTake grownBase "head" (some "base") grownFiles = true := by
    decide +kernel
  obtain ⟨hbase, hhead⟩ := hfacts
  obtain ⟨w₁, h₁⟩ := takeRoot_run (by decide +kernel) hbase
  obtain ⟨w₂, h₂⟩ := takeRoot_run (by decide +kernel) hhead
  have hlist : listing ⟨"/", []⟩ (rootOptions grownFiles) (rootWorkspace grownFiles) =
      (.ok (rootReading "python" grownFiles), rootWorkspace grownFiles) :=
    listing_rootWorkspace (by decide +kernel) rfl
  have hcontents : Contents grownBase := (Filled.run .empty h₁).sound.contents
  have hstore : ∀ f ∈ rootReading "python" grownFiles, Storable grownBase f :=
    fun f hf => hcontents.storable (digested_of_listing hlist f hf)
  have hmade : Made grownBase := .indexed .empty h₁
  obtain ⟨last, w₃, hagain, hstats⟩ := reindexing_changes_nothing hmade hlist hstore h₂ 2000.0
  exact ⟨_, _, _, w₃, grownBase, _, _, last, hmade, hlist, by simp [rootReading, grownFiles], hstore, h₂, hagain,
    hstats⟩

/-- Nodes of another content under the ids of the calling file's nodes. -/
def takingArtifacts : Artifacts where
  nodes := (rootReading "python" [callingFile]).flatMap fun f => (treeIds f).map fun id =>
    ⟨id, "call", ⟨"/p.py", 1, 1, 1, 4⟩, none, some "python", []⟩

/-- An index in which they are stored. -/
def takenBase : Index :=
  ((({} : Index).upsertFile "/p.py" "python").1.putArtifacts 1 "x" "python" takingArtifacts).toOption.getD {}

/-- The index after the calling file is indexed. -/
def takenHead : Index := takenBase.takeRoot "r" none [callingFile]

/-- Where another content has taken all ids of a file, a second run over the same file adds edges and calls. -/
theorem taken_ids_grow_again : ∃ (o : BuildOptions) (w w₁ w₂ : Workspace) (ix ix₁ ix₂ : Index), Made ix ∧
      (({} : Index).upsertFile "/p.py" "python").1.putArtifacts 1 "x" "python" takingArtifacts = .ok ix ∧
      ix.addRepository ⟨"/", []⟩ "r" none o w = (.ok ix₁, w₁) ∧
      ix₁.addRepository ⟨"/", []⟩ "r" none o w = (.ok ix₂, w₂) ∧
      ix₁.edges.length < ix₂.edges.length ∧ ix₁.calls.length < ix₂.calls.length ∧ ix₂.stats ≠ ix₁.stats := by
  have hfacts : ((({} : Index).upsertFile "/p.py" "python").1.putArtifacts 1 "x" "python" takingArtifacts).isOk = true ∧
      canTake takenBase "r" none [callingFile] = true ∧ canTake takenHead "r" none [callingFile] = true ∧
      takenHead.edges.length < (takenHead.takeRoot "r" none [callingFile]).edges.length ∧
      takenHead.calls.length < (takenHead.takeRoot "r" none [callingFile]).calls.length ∧
      (takenHead.takeRoot "r" none [callingFile]).stats ≠ takenHead.stats := by
    decide +kernel
  obtain ⟨hput, hcan₁, hcan₂, hgrown⟩ := hfacts
  have hput : (({} : Index).upsertFile "/p.py" "python").1.putArtifacts 1 "x" "python" takingArtifacts =
      .ok takenBase := by
    unfold takenBase
    cases hout : (({} : Index).upsertFile "/p.py" "python").1.putArtifacts 1 "x" "python" takingArtifacts with
    | ok ix => rfl
    | error e =>
      rw [hout] at hput
      cases hput
  have hfile : Made (({} : Index).upsertFile "/p.py" "python").1 := .beside .empty rfl rfl rfl rfl
  obtain ⟨w₁, h₁⟩ := takeRoot_run (by decide +kernel) hcan₁
  obtain ⟨w₂, h₂⟩ := takeRoot_run (by decide +kernel) hcan₂
  exact ⟨_, _, w₁, w₂, takenBase, takenHead, _, hfile.putArtifacts hput, hput, h₁, h₂, hgrown⟩

end PatchReview.Index
