import PatchReview.Proofs.Index.Callees
import PatchReview.Proofs.Inquiry.Isolation

/-!
# Symbols by name

A name is looked up in two steps. Of all symbols of the name, whatever revision sees them, as many are taken as a limit
allows, by their languages and then as they were stored; of these the ones stay that the revision sees. So asking for a
name at a revision works for every limit exactly when the revision sees the first symbol of the name, and the
signatures of those that it sees can be read.
-/

namespace PatchReview

open Action Action.Steady Index Inquiry List Option Repository

namespace Index

variable {ix ix' : Index} {rev name : String} {s : SymbolRow}

/-! ## Stores -/

/-- Every index that can be written: from an empty one, by beginning revisions, entering files, versions and contents,
and by anything that leaves the files, versions and symbols alone. -/
inductive Written : Index → Prop
  | empty : Written {}
  | begin {ix : Index} (rev : String) (base : Option String) (now : Float) :
      Written ix → Written (ix.beginRevision rev base now)
  | file {ix : Index} (path lang : String) : Written ix → Written (ix.upsertFile path lang).1
  | version {ix ix' : Index} {rev : String} {fileId : Int} {blob : String} {size : Int} :
      Written ix → ix.upsertVersion rev fileId blob size = .ok ix' → Written ix'
  | content {ix ix' : Index} {fileId : Int} {blob lang : String} {a : Artifacts} :
      Written ix → ix.putArtifacts fileId blob lang a = .ok ix' → Written ix'
  | beside {ix ix' : Index} : Written ix → ix'.files = ix.files → ix'.lastFileId = ix.lastFileId →
      ix'.versions = ix.versions → ix'.symbols = ix.symbols → Written ix'

/-- What the tables of files, versions and symbols keep to. -/
structure Tabled (ix : Index) : Prop extends FileTable ix where
  symbolIds : (ix.symbols.map (·.id)).Nodup
  versionFile : ∀ v ∈ ix.versions, ix.hasFile v.fileId = true

lemma nodup_replaceSymbol {ss : List SymbolRow} (h : (ss.map (·.id)).Nodup) (r) :
    ((replaceSymbol ss r).map (·.id)).Nodup := by
  unfold replaceSymbol
  rw [map_append, List.nodup_append]
  refine ⟨h.sublist (filter_sublist.map _), nodup_singleton _, ?_⟩
  intro a ha b hb
  obtain ⟨t, ht, rfl⟩ := mem_map.1 ha
  rw [mem_singleton.1 hb]
  simpa using (mem_filter.1 ht).2

lemma nodup_foldl_replaceSymbol (rs : List SymbolRow) {ss : List SymbolRow} (h : (ss.map (·.id)).Nodup) :
    ((rs.foldl replaceSymbol ss).map (·.id)).Nodup := by
  induction rs generalizing ss with
  | nil => exact h
  | cons r rs ih => exact ih (nodup_replaceSymbol h r)

section

variable (h : Tabled ix)

include h

lemma Tabled.beginRevision (rev base now) : Tabled (ix.beginRevision rev base now) := by
  unfold Index.beginRevision
  split
  · exact ⟨⟨h.paths, h.ids, h.bound⟩, h.symbolIds, fun v hv => h.versionFile v (mem_filter.1 hv).1⟩
  · exact ⟨⟨h.paths, h.ids, h.bound⟩, h.symbolIds, h.versionFile⟩

lemma Tabled.upsertFile (path lang) : Tabled (ix.upsertFile path lang).1 where
  toFileTable := h.toFileTable.upsertFile path lang
  symbolIds := by
    rw [upsertFile_fst]
    exact h.symbolIds
  versionFile := by
    intro v hv
    rw [upsertFile_fst] at hv
    exact h.toFileTable.hasFile_mono (h.versionFile v hv) path lang

lemma Tabled.upsertVersion {fileId blob size} (hv : ix.upsertVersion rev fileId blob size = .ok ix') : Tabled ix' := by
  unfold Index.upsertVersion at hv
  split at hv
  · rename_i hthere
    rw [Bool.and_eq_true] at hthere
    cases hv
    refine ⟨⟨h.paths, h.ids, h.bound⟩, h.symbolIds, forall_mem_append.2 ⟨?_, forall_mem_singleton.2 hthere.2⟩⟩
    exact fun v hv => h.versionFile v (mem_filter.1 hv).1
  · cases hv

lemma Tabled.putArtifacts {fileId : Int} {blob lang : String} {a : Artifacts}
    (hp : ix.putArtifacts fileId blob lang a = .ok ix') : Tabled ix' := by
  obtain ⟨rows, -, hp⟩ := except_bind_eq_ok_iff.1 hp
  obtain ⟨new, rfl, -⟩ := putRows_eq_ok hp
  exact ⟨⟨h.paths, h.ids, h.bound⟩, nodup_foldl_replaceSymbol rows.symbols h.symbolIds, h.versionFile⟩

end

lemma Written.tabled (h : Written ix) : Tabled ix := by
  induction h with
  | empty => exact ⟨versions_empty.toFileTable, nodup_nil, by simp⟩
  | begin rev base now _ ih => exact ih.beginRevision rev base now
  | file path lang _ ih => exact ih.upsertFile path lang
  | version _ hv ih => exact ih.upsertVersion hv
  | content _ hp ih => exact ih.putArtifacts hp
  | beside _ hf hl hv hs ih =>
    refine ⟨⟨hf ▸ ih.paths, hf ▸ ih.ids, hf ▸ hl ▸ ih.bound⟩, hs ▸ ih.symbolIds, ?_⟩
    intro v hmem
    obtain ⟨g, hg, hid⟩ := hasFile_iff.1 (ih.versionFile v (hv ▸ hmem))
    exact hasFile_iff.2 ⟨g, hf ▸ hg, hid⟩

lemma Written.enter {o f} (h : Written ix) (he : ix.enter o rev f = .ok ix') : Written ix' := by
  obtain ⟨k, hk, he⟩ := except_bind_eq_ok_iff.1 he
  have hk : Written k := .version (h.file f.path f.lang) hk
  have hkept : Written (if o.keepBytes then k.upsertBlob f.blob f.source true else k) := by
    unfold upsertBlob
    split
    · split
      · exact hk
      · exact hk.beside rfl rfl rfl rfl
    · exact hk
  dsimp only at he
  generalize (if o.keepBytes then k.upsertBlob f.blob f.source true else k) = kept at hkept he
  split at he
  · cases he
    exact hkept
  · exact hkept.content he

lemma Written.addRepository {root base o w w'} (h : Written ix)
    (hrun : ix.addRepository root rev base o w = (.ok ix', w')) : Written ix' := by
  obtain ⟨-, fs, mid, -, hfold, rfl⟩ := addRepository_eq_ok_iff.1 hrun
  have hmid : Written mid := keeps_foldlM (fun _ _ _ _ hk hstep => hk.enter hstep) (h.begin rev base w.clock) hfold
  exact hmid.beside rfl rfl rfl rfl

/-! ## The symbols of a name -/

/-- The symbols of a name as they are looked up: by language, then as they were stored. -/
def rowsNamed (ix : Index) (name : String) : List SymbolRow := sortOn (·.lang) (ix.symbols.filter (·.name == name))

/-- A symbol comes first among those of a name: the ones that were stored before it are of greater languages, and the
ones after it of no lesser ones. -/
def FirstNamed (ix : Index) (name : String) (s : SymbolRow) : Prop :=
  ∃ before after, ix.symbols.filter (·.name == name) = before ++ s :: after ∧ (∀ t ∈ before, s.lang < t.lang) ∧
    ∀ t ∈ after, s.lang ≤ t.lang

lemma Tabled.head?_rowsNamed (h : Tabled ix) : (ix.rowsNamed name).head? = some s ↔ FirstNamed ix name s :=
  head?_sortOn_iff ((h.symbolIds.of_map _).filter _)

lemma mem_rowsNamed : s ∈ ix.rowsNamed name ↔ s ∈ ix.symbols ∧ s.name = name := by simp [rowsNamed, sortOn]

/-- A symbol with its file, if a revision sees it. -/
def seenRow? (ix : Index) (rev : String) (s : SymbolRow) : Option LocatedSymbol := do
  let f ← ix.fileOf? s.fileId
  if ix.visibleAt rev s.fileId s.blob then some ⟨f, s⟩ else none

lemma Tabled.symbolAtRev? (h : Tabled ix) (rev) (hs : s ∈ ix.symbols) :
    ix.symbolAtRev? rev s.id = ix.seenRow? rev s := by
  have hfind : ix.symbolAt? s.id = some s := by
    unfold symbolAt?
    cases hf : ix.symbols.find? (·.id == s.id) with
    | none => exact absurd (find?_eq_none.1 hf s hs) (by simp)
    | some t =>
      have hid : t.id = s.id := by simpa using find?_some hf
      rw [inj_on_of_nodup_map h.symbolIds (mem_of_find?_eq_some hf) hs hid]
  unfold Index.symbolAtRev?
  rw [hfind]
  rfl

lemma Tabled.seenRow?_eq_some_iff (h : Tabled ix) {x} : ix.seenRow? rev s = some x ↔
      x.row = s ∧ x.file ∈ ix.files ∧ x.file.id = s.fileId ∧ ix.visibleAt rev s.fileId s.blob := by
  unfold seenRow?
  constructor
  · intro hx
    obtain ⟨f, hf, hx⟩ := bind_eq_some_iff.1 hx
    split at hx
    · rename_i hseen
      cases hx
      exact ⟨rfl, mem_of_find?_eq_some hf, by simpa using find?_some hf, hseen⟩
    · cases hx
  · rintro ⟨rfl, hf, hid, hseen⟩
    rw [← hid, h.toFileTable.fileOf?_of_mem hf, hid]
    exact if_pos hseen

lemma Tabled.exists_file (h : Tabled ix) {id blob} (hv : ix.visibleAt rev id blob) :
    ∃ f ∈ ix.files, f.id = id := by
  obtain ⟨v, hmem, -, rfl, -⟩ := visibleAt_iff.1 hv
  exact hasFile_iff.1 (h.versionFile v hmem)

/-- The symbols among the first of a name that a revision sees. -/
def seenNamed (ix : Index) (rev name : String) (limit : Int64) : List LocatedSymbol :=
  (limited limit (ix.rowsNamed name)).filterMap (ix.seenRow? rev)

lemma Tabled.filterMap_symbolIds (h : Tabled ix) (rev name limit) :
    (ix.symbolIds name none limit).filterMap (ix.symbolAtRev? rev) = ix.seenNamed rev name limit := by
  change ((limited limit (ix.rowsNamed name)).map (·.id)).filterMap _ = _
  rw [filterMap_map]
  refine filterMap_congr fun s hs => ?_
  exact h.symbolAtRev? rev (mem_rowsNamed.1 (mem_of_mem_limited hs)).1

end Index

namespace Inquiry

open Index (LocatedSymbol SymbolRow Tabled Written)

variable {ix : Index} {rev name : String} {asked : Option String} {w : Workspace} {x : LocatedSymbol}

/-! ## Signatures -/

lemma steady_declaredSignature (ix x) : (declaredSignature ix x).Steady := by
  refine (Action.Steady.ofExcept _).bind fun source => ?_
  cases source with
  | none => exact .pure ""
  | some source =>
    have hparser : Action.Steady (do
        let lang ← Action.ofExcept (Syntax.Language.normal x.file.lang)
        requireParser lang) :=
      (Action.Steady.ofExcept _).bind fun lang => steady_requireParser lang
    refine hparser.attempt.bind fun parser => ?_
    cases parser with
    | error e => exact .pure ""
    | ok u =>
      refine (steady_treeOf source).bind fun root => ?_
      split
      · exact .pure ""
      · split
        · exact .pure _
        · exact .throw _

lemma steady_signature (ix x) : (signature ix x).Steady := by
  unfold signature
  split
  · exact .ite (.pure _) (steady_declaredSignature ix x)
  · exact steady_declaredSignature ix x

/-- The record of a symbol with its signature. -/
def signed (ix : Index) (x : LocatedSymbol) : Action Json := do
  return .object (symbolFields x ++ [("signature", .text (← signature ix x))])

lemma steady_signed (ix x) : (signed ix x).Steady := (steady_signature ix x).bind fun _ => .pure _

lemma exists_signed_iff : (∃ y, signed ix x w = (.ok y, w)) ↔ ∃ sig, signature ix x w = (.ok sig, w) := by
  constructor
  · rintro ⟨y, hy⟩
    obtain ⟨sig, v, hsig, -⟩ := bind_eq_ok hy
    obtain rfl := (steady_signature ix x).eq_of_ok hsig
    exact ⟨sig, hsig⟩
  · rintro ⟨sig, hsig⟩
    exact ⟨_, bind_eq_ok_iff.2 ⟨sig, w, hsig, rfl⟩⟩

section

variable (h : Tabled ix) (hasked : ix.requireRevision asked = .ok rev) (hname : looksLikeId name = false)

include h hasked hname

lemma signatures_eq (limit) : signatures ix name asked none limit = guarded "get_signature failed" (
      if (ix.symbolIds name none limit).isEmpty then
        return .refused "no symbols found for name" [("rev", .text rev), ("name", .text name), ("lang", .null)]
      else do
        let results ← (ix.seenNamed rev name limit).mapM (signed ix)
        return .found [("rev", .text rev), ("query", .text name), ("results", .list results)]) := by
  unfold signatures
  rw [hasked, ← h.filterMap_symbolIds]
  simp only [hname]
  rfl

/-- Signatures are found when a symbol is seen among the first of the name, and those that are seen can be read. -/
lemma signatures_found_iff (limit) : (∃ results, results ≠ [] ∧ signatures ix name asked none limit w =
      (.ok (.found [("rev", rev), ("query", name), ("results", .list results)]), w)) ↔
    ix.seenNamed rev name limit ≠ [] ∧ ∀ x ∈ ix.seenNamed rev name limit, ∃ sig, signature ix x w = (.ok sig, w) := by
  simp only [← exists_signed_iff]
  rw [signatures_eq h hasked hname]
  constructor
  · rintro ⟨results, hne, hrun⟩
    have hrun := eq_found_of_guarded hrun
    split at hrun
    · cases hrun
    · obtain ⟨ys, v, hmap, hpure⟩ := bind_eq_ok hrun
      cases hpure
      obtain ⟨hlen, hall⟩ := of_mapM_eq_ok (steady_signed ix) hmap
      refine ⟨?_, hall⟩
      intro hnil
      rw [hnil] at hlen
      exact hne (length_eq_zero_iff.1 hlen)
  · rintro ⟨hne, hall⟩
    have hrows : (ix.symbolIds name none limit).isEmpty = false := by
      rw [isEmpty_eq_false_iff]
      intro hnil
      rw [← h.filterMap_symbolIds, hnil] at hne
      exact hne rfl
    obtain ⟨results, hmap⟩ := exists_mapM_eq_ok hall
    refine ⟨results, ?_, guarded_of_ok ?_⟩
    · rintro rfl
      exact hne (length_eq_zero_iff.1 (of_mapM_eq_ok (steady_signed ix) hmap).1.symm)
    · rw [hrows]
      exact bind_eq_ok_iff.2 ⟨results, w, hmap, rfl⟩

/-- A symbol that comes first among those of its name, and is seen, is summed up when its signature can be read. -/
lemma summary_found {s sig} (hfirst : (ix.rowsNamed name).head? = some s) (hx : ix.seenRow? rev s = some x)
    (hsig : signature ix x w = (.ok sig, w)) :
    ∃ rest, summary ix name asked w = (.ok (.found (("rev", .text rev) :: symbolFields x ++ rest)), w) := by
  have hids : ix.symbolIds name none 1 = [s.id] := by
    change (limited 1 (ix.rowsNamed name)).map (·.id) = _
    rw [limited_one, hfirst]
    rfl
  have hmem := (mem_rowsNamed.1 (mem_of_head? hfirst)).1
  have hsummed : summarized ix rev name = .ok x := by
    unfold summarized
    rw [hname, hids]
    simp only [Bool.false_eq_true, if_false]
    rw [h.symbolAtRev? rev hmem, hx]
  unfold summary
  rw [hasked]
  simp only [ofExcept_ok_bind, hsummed]
  cases hstored : ix.symbolSummaries.find? (·.id == x.row.id) with
  | some stored => exact ⟨_, guarded_of_ok rfl⟩
  | none =>
    -- The signature is drawn from the bytes, so that these can be read.
    have hdeclared := hsig
    unfold signature at hdeclared
    rw [hstored] at hdeclared
    obtain ⟨source, v, hsource, -⟩ := bind_eq_ok hdeclared
    obtain rfl := (Action.Steady.ofExcept _).eq_of_ok hsource
    cases source with
    | none => exact ⟨_, guarded_of_ok (bind_eq_ok_iff.2 ⟨none, w, hsource, bind_eq_ok_iff.2 ⟨sig, w, hsig, rfl⟩⟩)⟩
    | some b =>
      exact ⟨_, guarded_of_ok (bind_eq_ok_iff.2 ⟨some b, w, hsource, bind_eq_ok_iff.2 ⟨sig, w, hsig, rfl⟩⟩)⟩

end

/-! ## Asking for a name -/

/-- A revision sees a symbol of a name, in a file. -/
structure Sees (ix : Index) (rev name : String) (x : LocatedSymbol) : Prop where
  row : x.row ∈ ix.symbols
  named : x.row.name = name
  file : x.file ∈ ix.files
  owner : x.file.id = x.row.fileId
  seen : ix.visibleAt rev x.row.fileId x.row.blob = true

/-- Asking for a name at a revision works: what is summed up is a symbol of the name that the revision sees, and
signatures are found whatever the limit. -/
structure Answers (ix : Index) (asked : Option String) (rev name : String) (w : Workspace) : Prop where
  summary : ∃ x rest, Sees ix rev name x ∧
    summary ix name asked w = (.ok (.found (("rev", .text rev) :: symbolFields x ++ rest)), w)
  signatures : ∀ limit : Int64, limit ≠ 0 → ∃ results, results ≠ [] ∧ signatures ix name asked none limit w =
      (.ok (.found [("rev", .text rev), ("query", .text name), ("results", .list results)]), w)

lemma sees_iff (h : Tabled ix) : Sees ix rev name x ↔ x.row ∈ ix.rowsNamed name ∧ ix.seenRow? rev x.row = some x := by
  rw [mem_rowsNamed, h.seenRow?_eq_some_iff]
  constructor
  · rintro ⟨hrow, hnamed, hfile, howner, hseen⟩
    exact ⟨⟨hrow, hnamed⟩, rfl, hfile, howner, hseen⟩
  · rintro ⟨⟨hrow, hnamed⟩, -, hfile, howner, hseen⟩
    exact ⟨hrow, hnamed, hfile, howner, hseen⟩

lemma mem_seenNamed_iff (h : Tabled ix) {limit} :
    x ∈ ix.seenNamed rev name limit ↔ x.row ∈ limited limit (ix.rowsNamed name) ∧ Sees ix rev name x := by
  unfold seenNamed
  rw [mem_filterMap, sees_iff h]
  constructor
  · rintro ⟨s, hs, hx⟩
    obtain rfl := (h.seenRow?_eq_some_iff.1 hx).1
    exact ⟨hs, mem_of_mem_limited hs, hx⟩
  · rintro ⟨hs, -, hx⟩
    exact ⟨x.row, hs, hx⟩

section

variable (h : Tabled ix) (hasked : ix.requireRevision asked = .ok rev) (hname : looksLikeId name = false)

include h hasked hname

/-- A limit of one shows whether the first symbol is seen. -/
lemma Answers.first (hw : Answers ix asked rev name w) :
    ∃ s, Index.FirstNamed ix name s ∧ ix.visibleAt rev s.fileId s.blob := by
  obtain ⟨hne, -⟩ := (signatures_found_iff h hasked hname 1).1 (hw.signatures 1 (by decide))
  obtain ⟨x, hx⟩ := exists_mem_of_ne_nil _ hne
  obtain ⟨hlimited, hsees⟩ := (mem_seenNamed_iff h).1 hx
  rw [limited_one, mem_toList] at hlimited
  exact ⟨x.row, h.head?_rowsNamed.1 hlimited, hsees.seen⟩

/-- No limit at all shows whether all that are seen can be read. -/
lemma Answers.readable (hw : Answers ix asked rev name w) (hx : Sees ix rev name x) :
    ∃ sig, signature ix x w = (.ok sig, w) := by
  have hrow := ((sees_iff h).1 hx).1
  obtain ⟨-, hall⟩ := (signatures_found_iff h hasked hname _).1 (hw.signatures (-1) (by decide))
  exact hall x ((mem_seenNamed_iff h).2 ⟨hrow, hx⟩)

end

/-- Asking for a name at a revision works exactly when the revision sees the first symbol of the name, and the
signatures of those that it sees can be read. -/
theorem answers_iff (hix : Written ix) (hasked : ix.requireRevision asked = .ok rev) (hname : looksLikeId name = false)
    (w : Workspace) :
    Answers ix asked rev name w ↔ (∃ s, Index.FirstNamed ix name s ∧ ix.visibleAt rev s.fileId s.blob = true) ∧
        ∀ x, Sees ix rev name x → ∃ sig, signature ix x w = (.ok sig, w) := by
  have h := hix.tabled
  refine ⟨fun hw => ⟨hw.first h hasked hname, fun x hx => hw.readable h hasked hname hx⟩, ?_⟩
  rintro ⟨⟨s, hfirst, hseen⟩, hread⟩
  have hhead := h.head?_rowsNamed.mpr hfirst
  obtain ⟨hrow, hnamed⟩ := mem_rowsNamed.mp (List.mem_of_head? hhead)
  obtain ⟨f, hf, hid⟩ := h.exists_file hseen
  have hx : Sees ix rev name ⟨f, s⟩ := ⟨hrow, hnamed, hf, hid, hseen⟩
  constructor
  · obtain ⟨sig, hsig⟩ := hread _ hx
    obtain ⟨rest, hrun⟩ := summary_found h hasked hname hhead ((sees_iff h).mp hx).2 hsig
    exact ⟨_, rest, hx, hrun⟩
  · intro limit hlimit
    refine (signatures_found_iff h hasked hname limit).mpr ⟨?_, ?_⟩
    · exact List.ne_nil_of_mem ((mem_seenNamed_iff h).mpr ⟨mem_limited_of_head? hlimit hhead, hx⟩)
    · exact fun y hy => hread y ((mem_seenNamed_iff h).mp hy).2

/-! ## A definition that moved -/

/-- Where nothing is kept to read signatures from, they are empty. -/
lemma signature_of_no_bytes (hblobs : ix.blobs = []) (hsums : ix.symbolSummaries = []) (x w) :
    signature ix x w = (.ok "", w) := by
  unfold signature declaredSignature blobContent
  rw [hsums, hblobs]
  rfl

open Index (canTake callingFile definingFile movedBase movedHead takeRoot_run)

/-- What the two runs leave: of the definitions of `f` the one that only base sees was stored first, and nothing is
kept to read their signatures from. -/
lemma movedHead_facts : canTake {} "base" none [definingFile "lib.py" 0, callingFile] ∧
    canTake movedBase "head" (some "base") [definingFile "lib.py" 1, callingFile] ∧
    movedHead.hasRevision "base" ∧ movedHead.hasRevision "head" ∧ looksLikeId "f" = false ∧
    Index.DefinedAt movedHead "head" "f" ∧ movedHead.blobs = [] ∧ movedHead.symbolSummaries = [] ∧
    ∃ s ∈ movedHead.symbols, ∃ t ∈ movedHead.symbols,
      movedHead.symbols.filter (·.name == "f") = [s, t] ∧ s.lang = t.lang ∧
      movedHead.visibleAt "base" s.fileId s.blob ∧ movedHead.visibleAt "head" s.fileId s.blob = false := by
  decide +kernel

lemma written_movedHead : Written movedHead := by
  obtain ⟨hbase, hhead, -⟩ := movedHead_facts
  obtain ⟨w₁, h₁⟩ := takeRoot_run (by decide +kernel) hbase
  obtain ⟨w₂, h₂⟩ := takeRoot_run (by decide +kernel) hhead
  exact (Written.empty.addRepository h₁).addRepository h₂

lemma firstNamed_movedHead : ∃ s, Index.FirstNamed movedHead "f" s ∧ movedHead.visibleAt "base" s.fileId s.blob ∧
      movedHead.visibleAt "head" s.fileId s.blob = false := by
  obtain ⟨-, -, -, -, -, -, -, -, s, -, t, -, hrows, hlang, hseen⟩ := movedHead_facts
  refine ⟨s, ⟨[], [t], hrows, by simp, ?_⟩, hseen⟩
  intro u hu
  obtain rfl := mem_singleton.1 hu
  exact hlang ▸ String.le_refl s.lang

/-- At base, which sees the definition of `f` that was stored first, asking for `f` works. -/
theorem old_definition_found :
    Written movedHead ∧ movedHead.requireRevision (some "base") = .ok "base" ∧ looksLikeId "f" = false ∧
      Answers movedHead (some "base") "base" "f" { files := ⟨[]⟩ } := by
  obtain ⟨-, -, hrev, -, hname, -, hblobs, hsums, -⟩ := movedHead_facts
  have hasked := requireRevision_eq_ok_iff.mpr ⟨show "base" ≠ "" by decide, hrev⟩
  refine ⟨written_movedHead, hasked, hname, (answers_iff written_movedHead hasked hname _).mpr ⟨?_, ?_⟩⟩
  · obtain ⟨s, hfirst, hbase, -⟩ := firstNamed_movedHead
    exact ⟨s, hfirst, hbase⟩
  · exact fun x _ => ⟨"", signature_of_no_bytes hblobs hsums x _⟩

/-- Head sees a definition of `f`, but not the one that was stored first, so asking for `f` at head fails. -/
theorem new_definition_not_found :
    Written movedHead ∧ movedHead.requireRevision (some "head") = .ok "head" ∧ looksLikeId "f" = false ∧
      Index.DefinedAt movedHead "head" "f" ∧ ¬ Answers movedHead (some "head") "head" "f" { files := ⟨[]⟩ } := by
  obtain ⟨-, -, -, hrev, hname, hdefined, -⟩ := movedHead_facts
  have hasked := requireRevision_eq_ok_iff.mpr ⟨show "head" ≠ "" by decide, hrev⟩
  refine ⟨written_movedHead, hasked, hname, hdefined, ?_⟩
  intro hw
  have h := written_movedHead.tabled
  obtain ⟨t, ht, hseen⟩ := hw.first h hasked hname
  obtain ⟨s, hs, -, hunseen⟩ := firstNamed_movedHead
  obtain rfl : t = s := some.inj ((h.head?_rowsNamed.mpr ht).symm.trans (h.head?_rowsNamed.mpr hs))
  exact Bool.false_ne_true (hunseen.symm.trans hseen)

end Inquiry

end PatchReview
