import PatchReview.Proofs.Index.Filling

/-!
# What registering files leaves alone

Files that are entered under a revision keep the ids and paths that are given out, the versions of the other revisions
and the bytes that are kept.
-/

namespace PatchReview.Index

open List

variable {ix ix' ix'' mid : Index} {o : BuildOptions} {root : Path} {rev : String} {base : Option String}
  {w w' : Workspace} {f : ParsedFile} {fs : List ParsedFile} {fileId : Int} {path : String}

/-! ## Files and their ids -/

/-- A path has an id in the table of files. -/
def FileAt (ix : Index) (path : String) (id : Int) : Prop := ∃ g ∈ ix.files, g.path = path ∧ g.id = id

lemma FileTable.fileAt_iff_eq {p q i j} (h : FileTable ix) (hp : FileAt ix p i) (hq : FileAt ix q j) :
    i = j ↔ p = q := by
  obtain ⟨g, hg, rfl, rfl⟩ := hp
  obtain ⟨k, hk, rfl, rfl⟩ := hq
  constructor
  · intro e
    rw [h.eq_of_id hg hk e]
  · intro e
    rw [h.eq_of_path hg hk e]

lemma fileAt_enter (h : Sound ix) (hf : f.Digested) (he : ix.enter o rev f = .ok ix') :
    FileAt ix' f.path (ix.fileIdFor f.path) := by
  obtain ⟨-, rows, rfl, -⟩ := h.contents.enter_eq_ok hf he
  exact ⟨_, h.versions.toFileTable.mem_upsertFile_iff.2 (.inr rfl), rfl, rfl⟩

lemma FileAt.enter (hp : FileAt ix path fileId) (h : Sound ix) (hf : f.Digested) (he : ix.enter o rev f = .ok ix') :
    FileAt ix' path fileId := by
  obtain ⟨-, rows, rfl, -⟩ := h.contents.enter_eq_ok hf he
  obtain ⟨k, hk, rfl, rfl⟩ := hp
  obtain ⟨q, hq, hid, hpath⟩ := h.versions.toFileTable.exists_mem_upsertFile hk f.path f.lang
  exact ⟨q, hq, hpath, hid⟩

lemma FileTable.fileOf?_of_mem (h : FileTable ix) {g} (hg : g ∈ ix.files) : ix.fileOf? g.id = some g := by
  unfold fileOf?
  cases hf : ix.files.find? (·.id == g.id) with
  | none => exact absurd (find?_eq_none.1 hf g hg) (by simp)
  | some k =>
    have hid : k.id = g.id := by simpa using find?_some hf
    rw [h.eq_of_id (mem_of_find?_eq_some hf) hg hid]

/-! ## The rest of the tables -/

/-- Files are registered under a revision: ids and paths stay, and so do the revisions, the versions of the other
revisions and the bytes that are kept. Bytes come only for contents without any. -/
structure Registers (rev : String) (ix ix' : Index) : Prop where
  revisions : ix'.revisions = ix.revisions
  versions : ∀ a, a ≠ rev → ix'.versions.filter (·.rev == a) = ix.versions.filter (·.rev == a)
  files : ∀ path id, FileAt ix path id → FileAt ix' path id
  bytes : ∃ more, ix'.blobs = ix.blobs ++ more ∧ ∀ r ∈ more, ∀ k ∈ ix.blobs, k.blob ≠ r.blob

lemma Registers.refl (rev ix) : Registers rev ix ix :=
  ⟨rfl, fun _ _ => rfl, fun _ _ h => h, [], (append_nil _).symm, by simp⟩

lemma Registers.trans (h : Registers rev ix ix') (h' : Registers rev ix' ix'') : Registers rev ix ix'' := by
  obtain ⟨more, hm, hnew⟩ := h.bytes
  obtain ⟨more', hm', hnew'⟩ := h'.bytes
  refine ⟨h'.revisions.trans h.revisions, fun a ha => (h'.versions a ha).trans (h.versions a ha),
    fun path id hat => h'.files path id (h.files path id hat), more ++ more', ?_, ?_⟩
  · rw [hm', hm, append_assoc]
  · exact forall_mem_append.2 ⟨hnew, fun r hr k hk => hnew' r hr k (hm ▸ mem_append_left _ hk)⟩

lemma Sound.registers_enter (h : Sound ix) (hf : f.Digested) (he : ix.enter o rev f = .ok ix') :
    Registers rev ix ix' := by
  have hfiles : ∀ path id, FileAt ix path id → FileAt ix' path id := fun _ _ hat => hat.enter h hf he
  obtain ⟨-, rows, rfl, -⟩ := h.contents.enter_eq_ok hf he
  refine ⟨rfl, ?_, hfiles, ?_⟩
  · intro a ha
    change (ix.versions.filter _ ++ [_]).filter _ = _
    rw [filter_append, filter_cons_of_neg (by simpa using Ne.symm ha), filter_nil, append_nil]
    refine filter_filter_of_imp fun v _ hv => ?_
    simp [beq_iff_eq.1 hv, ha]
  · change ∃ more, keptWith o f ix.blobs = _ ∧ _
    unfold keptWith
    split
    · rename_i hkept
      rw [Bool.and_eq_true, Bool.not_eq_true', any_eq_false] at hkept
      refine ⟨_, rfl, ?_⟩
      intro r hr k hk hb
      rw [mem_singleton.1 hr] at hb
      exact hkept.2 k hk (beq_iff_eq.2 hb)
    · exact ⟨[], (append_nil _).symm, by simp⟩

lemma Sound.registers_foldlM_enter (h : Sound ix) (hfs : ∀ f ∈ fs, f.Digested)
    (he : fs.foldlM (Index.enter o rev) ix = .ok mid) : Registers rev ix mid := by
  refine (Action.keeps_foldlM (P := fun k => Sound k ∧ Registers rev ix k) ?_ ⟨h, .refl rev ix⟩ he).2
  rintro f hf k k' ⟨hk, hreg⟩ hstep
  exact ⟨hk.enter (hfs f hf) hstep, hreg.trans (hk.registers_enter (hfs f hf) hstep)⟩

/-- What a run of indexing does to the files, versions and bytes of an index. -/
lemma Sound.registers_addRepository (h : Sound ix) (hrun : ix.addRepository root rev base o w = (.ok ix', w')) :
    (∀ a, ix'.hasRevision a = (a == rev || ix.hasRevision a)) ∧
      (∀ a, a ≠ rev → ix'.versions.filter (·.rev == a) = ix.versions.filter (·.rev == a)) ∧
      (∀ path id, FileAt ix path id → FileAt ix' path id) ∧
      ∃ more, ix'.blobs = ix.blobs ++ more ∧ ∀ r ∈ more, ∀ k ∈ ix.blobs, k.blob ≠ r.blob := by
  obtain ⟨fs, mid, rows, hlist, hfold, -, -, rfl⟩ := h.addRepository hrun
  have hreg := (h.beginRevision rev base w.clock).registers_foldlM_enter (digested_of_listing hlist) hfold
  obtain ⟨hf, -, hb, -⟩ := beginRevision_tables ix rev base w.clock
  refine ⟨?_, ?_, ?_, hb ▸ hreg.bytes⟩
  · intro a
    rw [← hasRevision_beginRevision ix rev base w.clock a]
    exact congrArg (List.any · _) hreg.revisions
  · intro a ha
    refine (hreg.versions a ha).trans ?_
    rw [h.versions.versions_beginRevision]
    refine filter_filter_of_imp fun v _ hv => ?_
    simp [beq_iff_eq.1 hv, ha]
  · intro path id hat
    obtain ⟨g, hg, hat⟩ := hat
    exact hreg.files path id ⟨g, hf ▸ hg, hat⟩

end PatchReview.Index
