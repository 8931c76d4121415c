import PatchReview.Proofs.Index.AtRoot
import PatchReview.Proofs.Inquiry.Telling
import PatchReview.Proofs.Inquiry.View

/-!
# Revisions apart

A run of indexing under one revision may change the answers about another: a call that was open is resolved to a symbol
that the run brings, bytes of a shared content come to be kept, and the language of a shared file may change.
`isolated_iff` says that nothing else does.
-/

namespace PatchReview.Inquiry

open Index (BuildOptions CallRow EdgeRow FileAt FileRow Filled NodeRow Settled Sound SymbolRow VersionRow)
open Index List

variable {ix ix' : Index} {o : BuildOptions} {root : Path} {a rev : String} {base : Option String} {w w' : Workspace}

/-- What changes in an index does not touch a revision: no symbol has a name that the revision calls in vain, no bytes
come for its contents, and the rows of its files stay. -/
structure Undisturbed (ix ix' : Index) (rev : String) : Prop where
  calls : ∀ c ∈ ix.calls, c.resolved = 0 → ix.visibleAt rev c.fileId c.blob = true → ∀ s ∈ ix'.symbols, s.name ≠ c.name
  bytes : ∀ v ∈ ix.versions, v.rev = rev → ∀ r ∈ ix'.blobs, r.blob = v.blob → r ∈ ix.blobs
  files : ∀ v ∈ ix.versions, v.rev = rev → ∀ g ∈ ix.files, g.id = v.fileId → g ∈ ix'.files

/-- A revision that is there under a name can be asked for. -/
lemma requireRevision_eq_ok_iff : ix.requireRevision (some a) = .ok a ↔ a ≠ "" ∧ ix.hasRevision a := by
  unfold requireRevision
  dsimp only
  split
  · -- The empty name stands for the newest revision, and that one has a name.
    rename_i he
    have he : a = "" := beq_iff_eq.1 he
    subst he
    refine iff_of_false ?_ (fun h => h.1 rfl)
    unfold requireRevision.newest
    split
    · split
      · rintro ⟨⟩
      · rename_i hne
        rintro ⟨⟩
        exact hne rfl
    · rintro ⟨⟩
  · rename_i hne
    have hne : a ≠ "" := fun e => hne (beq_iff_eq.2 e)
    split <;> rename_i hr
    · exact iff_of_true rfl ⟨hne, hr⟩
    · exact iff_of_false (by rintro ⟨⟩) fun h => hr h.2

lemma contains_callKinds (kind) : callKinds.contains kind = derivedKinds.contains kind := by
  have hperm : callKinds.Perm derivedKinds := by decide
  exact hperm.contains_eq

/-- What stands under a version belongs to a content that is held. -/
lemma held_of_visibleAt (h : Sound ix) {id blob} (hv : ix.visibleAt a id blob) :
    ix.hasArtifacts blob := by
  obtain ⟨v, hmem, -, -, rfl⟩ := visibleAt_iff.1 hv
  exact (h.versions.version v hmem).2.2

/-- A call that the revision sees is not resolved any further. -/
lemma Undisturbed.resolveCall (hu : Undisturbed ix ix' a) (h : Sound ix) {c} (hc : c ∈ ix.calls)
    (hv : ix.visibleAt a c.fileId c.blob) : ix'.resolveCall none c = c := by
  by_cases h₀ : c.resolved = 0
  · obtain ⟨-, hnone, -⟩ | ⟨h₁, -⟩ := h.contents.grounded c hc
    · have hno : ix'.symbolNamed? none c.name = none := symbolNamed?_eq_none_iff.2 (hu.calls c hc h₀ hv)
      rw [resolveCall_of_zero h₀, hno]
      exact congrArg₂ (fun s r => { c with symbol := s, resolved := r }) hnone.symm h₀.symm
    · rw [h₀] at h₁
      cases h₁
  · exact resolveCall_of_ne_zero h₀

/-- Every node stands somewhere. -/
lemma exists_nodeSpan? (h : Sound ix) {n} (hn : n ∈ ix.nodes) : ∃ p, ix.nodeSpan? n.id = some p := by
  obtain ⟨m, hm⟩ : ∃ m, ix.nodes.find? (·.id == n.id) = some m :=
    Option.isSome_iff_exists.1 (find?_isSome.2 ⟨n, hn, by simp⟩)
  obtain ⟨g, hg, hid⟩ := hasFile_iff.1 (h.versions.node_file m (mem_of_find?_eq_some hm))
  refine ⟨spanAt g.path m.place, ?_⟩
  simp only [nodeSpan?, hm, ← hid, h.versions.toFileTable.fileOf?_of_mem hg, Option.bind_eq_bind, Option.bind_some]
  rfl

section

variable (h : Sound ix) (hrun : ix.addRepository root rev base o w = (.ok ix', w'))

include h hrun

/-- A node stands where it stood before a run. -/
lemma nodeSpan?_of_mem {n} (hn : n ∈ ix.nodes) : ix'.nodeSpan? n.id = ix.nodeSpan? n.id := by
  obtain ⟨-, -, hfiles, -⟩ := h.registers_addRepository hrun
  obtain ⟨fs, mid, rows, -, -, hmid, hgrow, rfl⟩ := h.addRepository hrun
  obtain ⟨m, hm⟩ : ∃ m, ix.nodes.find? (·.id == n.id) = some m :=
    Option.isSome_iff_exists.1 (find?_isSome.2 ⟨n, hn, by simp⟩)
  have hm' : (mid.resolveCalls none).nodes.find? (·.id == n.id) = some m := by
    change mid.nodes.find? _ = _
    rw [hgrow.nodes, find?_append, hm]
    rfl
  obtain ⟨g, hg, hid⟩ := hasFile_iff.1 (h.versions.node_file m (mem_of_find?_eq_some hm))
  obtain ⟨k, hk, hpath, hkid⟩ := hfiles g.path g.id ⟨g, hg, rfl, rfl⟩
  have hfile : ix.fileOf? m.fileId = some g := hid ▸ h.versions.toFileTable.fileOf?_of_mem hg
  have hfile' : (mid.resolveCalls none).fileOf? m.fileId = some k := by
    rw [← hid, ← hkid]
    exact hmid.resolveCalls.versions.toFileTable.fileOf?_of_mem hk
  unfold nodeSpan?
  rw [hm, hm']
  simp only [Option.bind_eq_bind, Option.bind_some, hfile, hfile', hpath]

/-- The calls of contents that were held are those there were, resolved further. -/
lemma filter_calls_of_held {p : Int → String → Bool} (hp : ∀ id blob, p id blob → ix.hasArtifacts blob) :
    ix'.calls.filter (fun c => p c.fileId c.blob) =
      (ix.calls.filter fun c => p c.fileId c.blob).map (ix'.resolveCall none) := by
  obtain ⟨-, mid, rows, -, -, -, hgrow, rfl⟩ := h.addRepository hrun
  have hnil : rows.calls.filter (fun c => p c.fileId c.blob) = [] := by
    refine filter_eq_nil_iff.2 fun c hc hv => ?_
    have := hgrow.call_new c hc
    rw [hp _ _ hv] at this
    cases this
  have hcomp : (fun c : CallRow => p c.fileId c.blob) ∘ mid.resolveCall none = fun c => p c.fileId c.blob := by
    funext c
    rw [Function.comp_apply, resolveCall_fileId, resolveCall_blob]
  change (mid.calls.map (mid.resolveCall none)).filter _ = _
  rw [filter_map, hcomp, hgrow.calls, filter_append, hnil, append_nil]
  rfl

lemma place_of_call {c} (hc : c ∈ ix.calls) : ix'.nodeSpan? c.src = ix.nodeSpan? c.src := by
  obtain ⟨n, hn, hid, -⟩ := h.contents.call c hc
  rw [← hid]
  exact nodeSpan?_of_mem h hrun hn

lemma place_of_symbol {s} (hs : s ∈ ix.symbols) : ix'.nodeSpan? s.id = ix.nodeSpan? s.id := by
  obtain ⟨n, hn, hid, -⟩ := h.contents.symbol s hs
  rw [← hid]
  exact nodeSpan?_of_mem h hrun hn

/-- A run that does not disturb a revision leaves what it sees. -/
lemma Undisturbed.sameView (hset : Settled ix) (hne : a ≠ rev) (hasked : ix.requireRevision (some a) = .ok a)
    (hu : Undisturbed ix ix' a) : SameView ix ix' a := by
  obtain ⟨hrevs, hversions, hfiles, more, hmore, hnew⟩ := h.registers_addRepository hrun
  have hset' : Settled ix' := by
    obtain ⟨-, mid, -, -, -, -, -, rfl⟩ := h.addRepository hrun
    exact settled_resolveCalls mid
  have hcalls : ix'.calls.filter (fun c => ix.visibleAt a c.fileId c.blob) =
      ix.calls.filter (fun c => ix.visibleAt a c.fileId c.blob) := by
    rw [filter_calls_of_held h hrun (p := ix.visibleAt a) fun _ _ hv => held_of_visibleAt h hv]
    refine (map_congr_left fun c hc => ?_).trans (map_id _)
    obtain ⟨hc, hv⟩ := mem_filter.1 hc
    exact hu.resolveCall h hc hv
  refine ⟨hasked, ?_, hversions a hne, ?_, ?_, ?_, hcalls, ?_, ?_, ?_⟩
  · obtain ⟨hname, hrev⟩ := requireRevision_eq_ok_iff.1 hasked
    exact requireRevision_eq_ok_iff.2 ⟨hname, by rw [hrevs, hrev, Bool.or_true]⟩
  · intro v hv hr
    obtain ⟨g, hg, hid⟩ := hasFile_iff.1 (h.versions.version v hv).2.1
    have hg' := hu.files v hv hr g hg hid
    obtain ⟨-, mid, -, -, -, hmid, -, rfl⟩ := h.addRepository hrun
    rw [← hid, h.versions.toFileTable.fileOf?_of_mem hg, hmid.resolveCalls.versions.toFileTable.fileOf?_of_mem hg']
  · intro v hv hr
    unfold blobContent
    rw [hmore, find?_append]
    cases hf : ix.blobs.find? (·.blob == v.blob) with
    | some r => rfl
    | none =>
      have hnone : more.find? (·.blob == v.blob) = none := by
        refine find?_eq_none.2 fun r hmem hb => ?_
        have hold := hu.bytes v hv hr r (hmore ▸ mem_append_right _ hmem) (beq_iff_eq.1 hb)
        exact find?_eq_none.1 hf r hold hb
      rw [hnone]
      rfl
  · obtain ⟨-, mid, rows, -, -, -, hgrow, rfl⟩ := h.addRepository hrun
    have hnil : rows.symbols.filter (fun s => ix.visibleAt a s.fileId s.blob) = [] := by
      refine filter_eq_nil_iff.2 fun s hs hv => ?_
      have := hgrow.symbol_new s hs
      rw [held_of_visibleAt h hv] at this
      cases this
    change mid.symbols.filter _ = _
    rw [hgrow.symbols, filter_append, hnil, append_nil]
  · have hpart : ∀ k, Settled k →
        k.edges.filter (fun e => callKinds.contains e.kind && ix.visibleAt a e.fileId e.blob) =
          derivedEdges (k.calls.filter fun c => ix.visibleAt a c.fileId c.blob) := by
      intro k hk
      rw [← filter_derivedEdges_at, ← hk.edges, filter_filter]
      simp only [contains_callKinds, Bool.and_comm]
    rw [hpart ix' hset', hpart ix hset, hcalls]
  · exact fun c hc _ => place_of_call h hrun hc
  · intro e he hkind _
    have hderived : e ∈ derivedEdges ix.calls := by
      rw [← hset.edges]
      exact mem_filter.2 ⟨he, contains_callKinds e.kind ▸ hkind⟩
    obtain ⟨c, hc, id, hone, hcid, hshape⟩ := mem_derivedEdges_iff.1 hderived
    obtain ⟨h₀, -⟩ | ⟨-, s, hs, hsid, -⟩ := h.contents.grounded c hc
    · rw [hone] at h₀
      cases h₀
    · have hid : id = s.id := Option.some.inj (hcid.symm.trans hsid)
      have hsrc := place_of_call h hrun hc
      have hdst := place_of_symbol h hrun hs
      rw [← hid] at hdst
      rcases hshape with rfl | rfl | rfl
      · exact ⟨hsrc, hdst⟩
      · exact ⟨hdst, hsrc⟩
      · exact ⟨hsrc, hdst⟩

/-- A revision whose outlines are as before was not disturbed. -/
lemma undisturbed_of_outline (hne : a ≠ rev) (hasked : ix.requireRevision (some a) = .ok a)
    (hsame : ∀ q, q.rev = some a → outline ix' q = outline ix q) : Undisturbed ix ix' a := by
  obtain ⟨hrevs, hversions, hfiles, more, hmore, hnew⟩ := h.registers_addRepository hrun
  have h' : Sound ix' := by
    obtain ⟨-, mid, -, -, -, hmid, -, rfl⟩ := h.addRepository hrun
    exact hmid.resolveCalls
  have hasked' : ix'.requireRevision (some a) = .ok a := by
    obtain ⟨hname, hrev⟩ := requireRevision_eq_ok_iff.1 hasked
    exact requireRevision_eq_ok_iff.2 ⟨hname, by rw [hrevs, hrev, Bool.or_true]⟩
  -- Every version of the revision is still there, and its file still has its id and path.
  have hkept : ∀ v ∈ ix.versions, v.rev = a → v ∈ ix'.versions := by
    intro v hv hr
    have hmem : v ∈ ix'.versions.filter (·.rev == a) := hversions a hne ▸ mem_filter.2 ⟨hv, beq_iff_eq.2 hr⟩
    exact (mem_filter.1 hmem).1
  refine ⟨?_, ?_, ?_⟩
  · intro c hc h₀ hvis s hs hname
    obtain ⟨v, hv, rfl, hvid, hvb⟩ := visibleAt_iff.1 hvis
    obtain ⟨g, hg, hid⟩ := hasFile_iff.1 (h.versions.version v hv).2.1
    obtain ⟨g', hg', hpath, hid'⟩ := hfiles g.path g.id ⟨g, hg, rfl, rfl⟩
    have hcalls := calls_eq_of_outline h h' hasked hasked' hv (hkept v hv rfl) hg hg' hid (hid'.trans hid) hpath hsame
    have hheld : ∀ id blob, (id == v.fileId && blob == v.blob) → ix.hasArtifacts blob := by
      intro id blob hat
      rw [Bool.and_eq_true, beq_iff_eq, beq_iff_eq] at hat
      rw [hat.2]
      exact (h.versions.version v hv).2.2
    rw [filter_calls_of_held h hrun (p := fun id blob => id == v.fileId && blob == v.blob) hheld,
      filterMap_map] at hcalls
    have hplaced : ∀ d ∈ ix.calls, ∃ p, ix.nodeSpan? d.src = some p ∧ ix'.nodeSpan? d.src = some p := by
      intro d hd
      obtain ⟨n, hn, hnid, -⟩ := h.contents.call d hd
      obtain ⟨p, hp⟩ := exists_nodeSpan? h hn
      rw [hnid] at hp
      exact ⟨p, hp, (place_of_call h hrun hd).trans hp⟩
    have hrow := eq_of_filterMap_eq ?_ ?_ hcalls c
      (mem_filter.2 ⟨hc, by rw [hvid, hvb, beq_self_eq_true, beq_self_eq_true]; rfl⟩)
    · -- The call was open and is resolved now, which its record shows.
      obtain ⟨p, hp, hp'⟩ := hplaced c hc
      have hfound : (ix'.symbolNamed? none c.name).isSome := by
        rw [Option.isSome_iff_ne_none]
        intro hnone
        exact symbolNamed?_eq_none_iff.1 hnone s hs hname
      simp [callHit, resolveCall_of_zero h₀, hp, hp', hfound, h₀] at hrow
    · intro d hd
      obtain ⟨p, -, hp'⟩ := hplaced d (mem_filter.1 hd).1
      simp [callHit, hp']
    · intro d hd
      obtain ⟨p, hp, -⟩ := hplaced d (mem_filter.1 hd).1
      simp [callHit, hp]
  · intro v hv hr r hmem hb
    subst hr
    rw [hmore] at hmem
    rcases mem_append.1 hmem with hmem | hmem
    · exact hmem
    · exfalso
      obtain ⟨g, hg, hid⟩ := hasFile_iff.1 (h.versions.version v hv).2.1
      obtain ⟨g', hg', hpath, hid'⟩ := hfiles g.path g.id ⟨g, hg, rfl, rfl⟩
      have hbefore : ix.blobs.find? (·.blob == v.blob) = none :=
        find?_eq_none.2 fun k hk hkb => hnew r hmem k hk ((beq_iff_eq.1 hkb).trans hb.symm)
      obtain ⟨k, hk⟩ : ∃ k, ix'.blobs.find? (·.blob == v.blob) = some k :=
        Option.isSome_iff_exists.1 (find?_isSome.2 ⟨r, hmore ▸ mem_append_right _ hmem, by simpa using hb⟩)
      obtain ⟨b, hbytes⟩ := h'.versions.bytes k (mem_of_find?_eq_some hk)
      refine bytes_of_outline h h' hasked hasked' hv (hkept v hv rfl) hg hg' hid (hid'.trans hid) hpath hsame
        (b := b) ?_ ?_
      · simp only [blobContent, hk, Index.BlobRow.bytes, hbytes]
        rfl
      · simp only [blobContent, hbefore]
  · intro v hv hr g hg hid
    subst hr
    obtain ⟨g', hg', hpath, hid'⟩ := hfiles g.path g.id ⟨g, hg, rfl, rfl⟩
    have hlang := lang_eq_of_outline h h' hasked hasked' hv (hkept v hv rfl) hg hg' hid (hid'.trans hid) hpath hsame
    have hgg : g' = g := by
      cases g'
      cases hpath
      cases hid'
      cases hlang
      rfl
    exact hgg ▸ hg'

/-- A node that the run brings is found where there was none. -/
lemma nodes_subset_of_callGraph (hasked : ix.requireRevision (some a) = .ok a)
    (hasked' : ix'.requireRevision (some a) = .ok a)
    (hsame : ∀ start, callGraph ix' (some a) start "out" 0 0 = callGraph ix (some a) start "out" 0 0) :
    ∀ n ∈ ix'.nodes, n ∈ ix.nodes := by
  intro n hn
  obtain ⟨-, mid, rows, -, -, hmid, hgrow, rfl⟩ := h.addRepository hrun
  obtain ⟨p, hp⟩ := exists_nodeSpan? hmid.resolveCalls hn
  have hout := congrFun (hsame n.id) w
  simp only [callGraph, hasked, hasked', Region.toOutcome, nodeHits] at hout
  have hfound := Except.ok.inj (Prod.mk.inj hout).1
  cases hbefore : ix.nodes.find? (·.id == n.id) with
  | none =>
    have hnone : ix.nodeSpan? n.id = none := by
      simp only [nodeSpan?, hbefore]
      rfl
    simp [hp, hnone] at hfound
  | some m =>
    have hm := mem_of_find?_eq_some hbefore
    have hid : m.id = n.id := by simpa using find?_some hbefore
    have hm' : m ∈ mid.nodes := hgrow.nodes ▸ mem_append_left _ hm
    exact inj_on_of_nodup_map hmid.contents.nodeIds hm' hn hid ▸ hm

/-- When a run brings no nodes, everything stands where it stood. -/
lemma nodeSpan?_eq_of_nodes_subset (hnodes : ∀ n ∈ ix'.nodes, n ∈ ix.nodes) (id) :
    ix'.nodeSpan? id = ix.nodeSpan? id := by
  by_cases hid : ∃ n ∈ ix.nodes, n.id = id
  · obtain ⟨n, hn, rfl⟩ := hid
    exact nodeSpan?_of_mem h hrun hn
  · have hnone : ∀ k : Index, (∀ n ∈ k.nodes, n ∈ ix.nodes) → k.nodeSpan? id = none := by
      intro k hk
      have hfind : k.nodes.find? (·.id == id) = none := find?_eq_none.2 fun n hn e => hid ⟨n, hk n hn, beq_iff_eq.1 e⟩
      simp only [nodeSpan?, hfind]
      rfl
    rw [hnone ix' hnodes, hnone ix fun _ hn => hn]

end

/-! ## Isolation -/

/-- The answers about a revision are the same in two indexes: outlines, searches for symbols, and call graphs around
some nodes. -/
structure SameAnswers (ix ix' : Index) (rev : String) (starts : String → Prop) : Prop where
  outline : ∀ q : OutlineQuery, q.rev = some rev → outline ix' q = outline ix q
  symbolSearch : ∀ q : SymbolQuery, q.rev = some rev → symbolSearch ix' q = symbolSearch ix q
  callGraph : ∀ start, starts start → ∀ direction depth limit,
    callGraph ix' (some rev) start direction depth limit = callGraph ix (some rev) start direction depth limit

/-- After another revision is indexed, the answers about a revision are as before exactly when the run does not disturb
it; call graphs around nodes that the run brings apart. With these, they are as before exactly when the run brings no
nodes besides. -/
theorem isolated_iff (hfilled : Filled ix) (hasked : ix.requireRevision (some a) = .ok a) (hne : a ≠ rev)
    (hrun : ix.addRepository root rev base o w = (.ok ix', w')) :
    (SameAnswers ix ix' a (fun start => ix'.nodeSpan? start = ix.nodeSpan? start) ↔ Undisturbed ix ix' a) ∧
    (SameAnswers ix ix' a (fun _ => True) ↔ Undisturbed ix ix' a ∧ ∀ n ∈ ix'.nodes, n ∈ ix.nodes) := by
  have h := hfilled.sound
  have hset := hfilled.settled
  have hview : Undisturbed ix ix' a → SameView ix ix' a := fun hu => hu.sameView h hrun hset hne hasked
  refine ⟨⟨?_, ?_⟩, ?_, ?_⟩
  · intro hsame
    exact undisturbed_of_outline h hrun hne hasked hsame.outline
  · intro hu
    exact ⟨fun _ hq => (hview hu).outline hq, fun _ hq => (hview hu).symbolSearch hq,
      fun _ hstart => (hview hu).callGraph hstart⟩
  · intro hsame
    have hu := undisturbed_of_outline h hrun hne hasked hsame.outline
    exact ⟨hu, nodes_subset_of_callGraph h hrun hasked (hview hu).asked'
      fun start => hsame.callGraph start trivial _ _ _⟩
  · rintro ⟨hu, hnodes⟩
    exact ⟨fun _ hq => (hview hu).outline hq, fun _ hq => (hview hu).symbolSearch hq,
      fun start _ => (hview hu).callGraph (nodeSpan?_eq_of_nodes_subset h hrun hnodes start)⟩

/-! ## Two histories -/

instance (ix ix' : Index) (rev : String) : Decidable (Undisturbed ix ix' rev) :=
  decidable_of_iff (_ ∧ _ ∧ _) ⟨fun h => ⟨h.1, h.2.1, h.2.2⟩, fun h => ⟨h.calls, h.bytes, h.files⟩⟩

open Index (callingFile canTake definingFile takeRoot_run)

/-- A file that holds one name. -/
def quietFile : Index.RootFile := ("name.py", [120], .node "identifier" 0 1 [])

/-- An index with a call of `f` that leads nowhere. -/
def vainIndex : Index := ({} : Index).takeRoot "first" none [callingFile]

lemma vainIndex_spec : Filled vainIndex ∧ vainIndex.requireRevision (some "first") = .ok "first" := by
  obtain ⟨w, h⟩ := takeRoot_run (by decide +kernel) (by decide +kernel : canTake {} "first" none [callingFile])
  exact ⟨.run .empty h, requireRevision_eq_ok_iff.2 ⟨by decide, by decide +kernel⟩⟩

/-- The index after a file without symbols has come. -/
def quietIndex : Index := vainIndex.takeRoot "second" none [quietFile, callingFile]

/-- A file without symbols leaves the answers about an earlier revision, though a call there leads nowhere. -/
theorem quiet_file_isolated : ∃ (o : BuildOptions) (w w' : Workspace) (ix ix' : Index),
      Filled ix ∧ ix.requireRevision (some "first") = .ok "first" ∧ "first" ≠ "second" ∧
      ix.addRepository ⟨"/", []⟩ "second" none o w = (.ok ix', w') ∧
      (∃ c ∈ ix.calls, c.resolved = 0 ∧ ix.visibleAt "first" c.fileId c.blob = true) ∧
      SameAnswers ix ix' "first" (fun start => ix'.nodeSpan? start = ix.nodeSpan? start) := by
  have hfacts : canTake vainIndex "second" none [quietFile, callingFile] = true ∧
      (∃ c ∈ vainIndex.calls, c.resolved = 0 ∧ vainIndex.visibleAt "first" c.fileId c.blob = true) ∧
      Undisturbed vainIndex quietIndex "first" := by
    decide +kernel
  obtain ⟨hsecond, hvain, hu⟩ := hfacts
  obtain ⟨w', hrun⟩ := takeRoot_run (by decide +kernel) hsecond
  obtain ⟨hfilled, hasked⟩ := vainIndex_spec
  exact ⟨_, _, w', vainIndex, quietIndex, hfilled, hasked, by decide, hrun, hvain,
    (isolated_iff hfilled hasked (by decide) hrun).1.mpr hu⟩

/-- The index after a definition of `f` has come. -/
def answeredIndex : Index := vainIndex.takeRoot "second" none [definingFile "lib.py" 0, callingFile]

/-- A definition that comes with a second revision changes an outline of the first, which does not have it. -/
theorem definition_changes_earlier_outline : ∃ (o : BuildOptions) (w w' : Workspace) (ix ix' : Index),
      Filled ix ∧ ix.requireRevision (some "first") = .ok "first" ∧
      ix.addRepository ⟨"/", []⟩ "second" none o w = (.ok ix', w') ∧
      ∃ q : OutlineQuery, q.rev = some "first" ∧ outline ix' q ≠ outline ix q := by
  have hfacts : canTake vainIndex "second" none [definingFile "lib.py" 0, callingFile] = true ∧
      ¬ Undisturbed vainIndex answeredIndex "first" := by
    decide +kernel
  obtain ⟨hsecond, hdisturbed⟩ := hfacts
  obtain ⟨w', hrun⟩ := takeRoot_run (by decide +kernel) hsecond
  obtain ⟨hfilled, hasked⟩ := vainIndex_spec
  refine ⟨_, _, w', vainIndex, answeredIndex, hfilled, hasked, hrun, ?_⟩
  by_contra hsame
  refine hdisturbed (undisturbed_of_outline hfilled.sound hrun (by decide) hasked fun q hq => ?_)
  by_contra hdiffers
  exact hsame ⟨q, hq, hdiffers⟩

end PatchReview.Inquiry
