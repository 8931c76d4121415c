import PatchReview.Inquiry.Symbols
import PatchReview.Proofs.Action
import PatchReview.Proofs.Distance
import PatchReview.Proofs.Index.Asking

/-!
# What a revision sees

The answers about a revision depend only on what the revision sees: its versions with their files and kept bytes, the
symbols and calls under its versions, and the edges that follow from calls. Two indexes in which a revision sees the
same answer alike.
-/

namespace PatchReview.Inquiry

open Index (CallRow EdgeRow FileRow SymbolRow VersionRow)
open Action Index List

variable {ix ix' : Index} {rev blob : String} {id : Int} {limit : Int64} {q : SymbolQuery} {dir : Index.Direction} {e : EdgeRow}

/-- A revision that can be asked for sees the same in two indexes. -/
structure SameView (ix ix' : Index) (rev : String) : Prop where
  asked : ix.requireRevision (some rev) = .ok rev
  asked' : ix'.requireRevision (some rev) = .ok rev
  versions : ix'.versions.filter (·.rev == rev) = ix.versions.filter (·.rev == rev)
  file : ∀ v ∈ ix.versions, v.rev = rev → ix'.fileOf? v.fileId = ix.fileOf? v.fileId
  bytes : ∀ v ∈ ix.versions, v.rev = rev → ix'.blobContent v.blob = ix.blobContent v.blob
  symbols : ix'.symbols.filter (fun s => ix.visibleAt rev s.fileId s.blob) =
    ix.symbols.filter (fun s => ix.visibleAt rev s.fileId s.blob)
  calls : ix'.calls.filter (fun c => ix.visibleAt rev c.fileId c.blob) =
    ix.calls.filter (fun c => ix.visibleAt rev c.fileId c.blob)
  edges : ix'.edges.filter (fun e => callKinds.contains e.kind && ix.visibleAt rev e.fileId e.blob) =
    ix.edges.filter (fun e => callKinds.contains e.kind && ix.visibleAt rev e.fileId e.blob)
  callPlace : ∀ c ∈ ix.calls, ix.visibleAt rev c.fileId c.blob = true → ix'.nodeSpan? c.src = ix.nodeSpan? c.src
  edgePlace : ∀ e ∈ ix.edges, callKinds.contains e.kind = true → ix.visibleAt rev e.fileId e.blob = true →
    ix'.nodeSpan? e.src = ix.nodeSpan? e.src ∧ ix'.nodeSpan? e.dst = ix.nodeSpan? e.dst

lemma visibleAt_iff :
    ix.visibleAt rev id blob ↔ ∃ v ∈ ix.versions, v.rev = rev ∧ v.fileId = id ∧ v.blob = blob := by
  simp [Index.visibleAt, and_assoc]

/-- What is seen is a matter of the versions of the revision. -/
lemma visibleAt_eq (ix : Index) (rev id blob) :
    ix.visibleAt rev id blob = (ix.versions.filter (·.rev == rev)).any fun v => v.fileId == id && v.blob == blob := by
  unfold Index.visibleAt
  rw [any_filter]
  simp only [Bool.and_assoc]

/-- A query takes no file for what its revision does not see. -/
lemma fileOf?_of_unseen (q : SymbolQuery) (hv : ix.visibleAt rev id blob = false) :
    q.fileOf? ix rev id blob = none := by
  unfold SymbolQuery.fileOf?
  rw [hv]
  cases ix.fileOf? id <;> simp

lemma visibleAt_of_fileOf? (hf : (q.fileOf? ix rev id blob).isSome) : ix.visibleAt rev id blob := by
  cases hv : ix.visibleAt rev id blob with
  | true => rfl
  | false =>
    rw [fileOf?_of_unseen q hv] at hf
    cases hf

/-- The nodes of a region stand at the same places in two indexes. -/
def Region.Placed (ix ix' : Index) (r : Region) : Prop := ∀ n ∈ r.nodes, ix'.nodeSpan? n = ix.nodeSpan? n

lemma Region.Placed.add {state : Region × Strings}
    (hstate : state.1.Placed ix ix') (hfar : ix'.nodeSpan? (dir.far e) = ix.nodeSpan? (dir.far e)) :
    (Region.add dir state e).1.Placed ix ix' := by
  intro n hn
  unfold Region.add at hn
  dsimp only at hn
  split at hn
  · exact hstate n hn
  · rcases mem_append.1 hn with hn | hn
    · exact hstate n hn
    · rw [mem_singleton.1 hn]
      exact hfar

lemma Region.Placed.toOutcome {r : Region} (hr : r.Placed ix ix') (kind) :
    r.toOutcome ix' rev kind = r.toOutcome ix rev kind := by
  have hspans : ix'.nodeSpans r.nodes = ix.nodeSpans r.nodes := by
    unfold nodeSpans
    rw [filterMap_congr fun n hn => by rw [hr n hn]]
  rw [Region.toOutcome, Region.toOutcome, nodeHits, nodeHits, hspans]

namespace SameView

variable (h : SameView ix ix' rev)

include h

lemma visibleAt (id) (blob) : ix'.visibleAt rev id blob = ix.visibleAt rev id blob := by
  rw [visibleAt_eq, visibleAt_eq, h.versions]

/-! ## Searching for symbols -/

section

variable (q : SymbolQuery)

lemma fileOf? (id blob) : q.fileOf? ix' rev id blob = q.fileOf? ix rev id blob := by
  unfold SymbolQuery.fileOf?
  rw [h.visibleAt]
  cases hv : ix.visibleAt rev id blob with
  | true =>
    obtain ⟨v, hmem, hr, rfl, -⟩ := visibleAt_iff.1 hv
    rw [h.file v hmem hr]
  | false => cases ix'.fileOf? id <;> cases ix.fileOf? id <;> simp

/-- Symbols are found in the same files, however they are chosen and sorted. -/
lemma filterMap_symbols {le : SymbolRow → SymbolRow → Bool}
    (trans : ∀ a b c, le a b → le b c → le a c) (total : ∀ a b, (le a b || le b a))
    (p : SymbolRow → Bool) :
    ((ix'.symbols.filter p).mergeSort le).filterMap
        (fun s => (q.fileOf? ix' rev s.fileId s.blob).map fun f => (f.path, s)) =
      ((ix.symbols.filter p).mergeSort le).filterMap
        (fun s => (q.fileOf? ix rev s.fileId s.blob).map fun f => (f.path, s)) := by
  have hseen : ∀ l : List SymbolRow,
      l.filterMap (fun s => (q.fileOf? ix rev s.fileId s.blob).map fun f => (f.path, s)) =
        (l.filter fun s => ix.visibleAt rev s.fileId s.blob).filterMap
          (fun s => (q.fileOf? ix rev s.fileId s.blob).map fun f => (f.path, s)) := by
    intro l
    rw [filterMap_filter]
    refine filterMap_congr fun s _ => ?_
    split
    · rfl
    · rename_i hv
      rw [fileOf?_of_unseen q (Bool.not_eq_true _ ▸ hv)]
      rfl
  simp only [h.fileOf?]
  rw [hseen, hseen (((ix.symbols.filter p).mergeSort le)), filter_mergeSort_congr trans total h.symbols]

lemma exactSymbols : exactSymbols ix' rev q = exactSymbols ix rev q := by
  unfold Inquiry.exactSymbols Index.sortOn
  rw [h.filterMap_symbols q (sortOn_trans _) (sortOn_total _)]

lemma similarSymbols : similarSymbols ix' rev q = similarSymbols ix rev q := by
  unfold Inquiry.similarSymbols
  dsimp only
  rw [h.filterMap_symbols q (sortOn_trans _) (sortOn_total _)]

lemma callersOf (limit names) : callersOf ix' rev q limit names = callersOf ix rev q limit names := by
  have hrows : ∀ n, ((ix'.calls.filter (·.name == n)).mergeSort fun a b => decide (a.resolved ≤ b.resolved)).filter
        (fun c => (q.fileOf? ix rev c.fileId c.blob).isSome) =
      ((ix.calls.filter (·.name == n)).mergeSort fun a b => decide (a.resolved ≤ b.resolved)).filter
        (fun c => (q.fileOf? ix rev c.fileId c.blob).isSome) := by
    intro n
    have hsort := filter_mergeSort_congr (sortOn_trans CallRow.resolved) (sortOn_total _) h.calls (·.name == n)
    exact filter_congr_of_seen hsort fun c => visibleAt_of_fileOf?
  unfold Inquiry.callersOf
  simp only [h.fileOf?, filter_flatMap, hrows]

end

/-- A caller stands at a call that the revision sees. -/
lemma place_of_mem_callersOf {names id} (hid : id ∈ Inquiry.callersOf ix rev q limit names) :
    ix'.nodeSpan? id = ix.nodeSpan? id := by
  obtain ⟨c, hc, rfl⟩ := mem_map.1 (mem_once_iff.1 (mem_of_mem_limited hid))
  obtain ⟨hc, hf⟩ := mem_filter.1 hc
  obtain ⟨n, -, hc⟩ := mem_flatMap.1 hc
  exact h.callPlace c (mem_filter.1 (mem_mergeSort.1 hc)).1 (visibleAt_of_fileOf? hf)

lemma symbolSearch (hq : q.rev = some rev) : symbolSearch ix' q = symbolSearch ix q := by
  have hplaces : ∀ limit names, (Inquiry.callersOf ix rev q limit names).filterMap
        (fun id => (ix'.nodeSpan? id).map (nodeHit "callsite" id)) =
      (Inquiry.callersOf ix rev q limit names).filterMap
        (fun id => (ix.nodeSpan? id).map (nodeHit "callsite" id)) := by
    intro limit names
    refine filterMap_congr fun id hid => ?_
    rw [h.place_of_mem_callersOf hid]
  unfold Inquiry.symbolSearch
  rw [hq, h.asked, h.asked']
  simp only [ok_bind, pure_bind, h.exactSymbols, h.similarSymbols, h.callersOf, hplaces, filterMap_nil]

/-! ## Outlines -/

/-- A file of the revision has the same outline. -/
lemma outlineOf {q f} (hv : ix.visibleAt rev f.id blob) : outlineOf ix' q f blob = outlineOf ix q f blob := by
  obtain ⟨v, hmem, hr, -, rfl⟩ := visibleAt_iff.1 hv
  have hsymbols : ix'.symbolsOfBlob v.blob f.id = ix.symbolsOfBlob v.blob f.id := by
    unfold symbolsOfBlob
    rw [filter_congr_of_seen h.symbols fun s hs => ?_]
    simp only [Bool.and_eq_true, beq_iff_eq] at hs
    rw [hs.1, hs.2]
    exact hv
  have hcalls : ∀ n, (Index.limited n (ix'.calls.filter fun c => c.fileId == f.id && c.blob == v.blob)).filterMap
        (callHit ix') =
      (Index.limited n (ix.calls.filter fun c => c.fileId == f.id && c.blob == v.blob)).filterMap (callHit ix) := by
    have hat : ∀ c : CallRow, (c.fileId == f.id && c.blob == v.blob) →
        ix.visibleAt rev c.fileId c.blob := by
      intro c hc
      simp only [Bool.and_eq_true, beq_iff_eq] at hc
      rw [hc.1, hc.2]
      exact hv
    intro n
    rw [filter_congr_of_seen h.calls hat]
    refine filterMap_congr fun c hc => ?_
    obtain ⟨hc, hc'⟩ := mem_filter.1 (mem_of_mem_limited hc)
    unfold callHit
    rw [h.callPlace c hc (hat c hc')]
  unfold Inquiry.outlineOf
  simp only [hsymbols, hcalls, h.bytes v hmem hr]

lemma outline {q} (hq : q.rev = some rev) : outline ix' q = outline ix q := by
  have hrows : ∀ k : FileRow → Bool, (ix'.versions.filter (·.rev == rev)).filterMap (fun v => do
        let f ← ix'.fileOf? v.fileId
        if k f then some (f, v.blob) else none) =
      (ix.versions.filter (·.rev == rev)).filterMap (fun v => do
        let f ← ix.fileOf? v.fileId
        if k f then some (f, v.blob) else none) := by
    intro k
    rw [h.versions]
    refine filterMap_congr fun v hv => ?_
    obtain ⟨hv, hr⟩ := mem_filter.1 hv
    rw [h.file v hv (beq_iff_eq.1 hr)]
  unfold Inquiry.outline
  rw [hq, h.asked, h.asked']
  simp only [ofExcept_ok_bind, hrows]
  refine congrArg (guarded _) (congrArg (· >>= _) (mapM_congr fun p hp => ?_))
  obtain ⟨v, hv, hp⟩ := mem_filterMap.1 (mem_mergeSort.1 hp)
  obtain ⟨hv, hr⟩ := mem_filter.1 hv
  obtain ⟨f, hf, hp⟩ := Option.bind_eq_some_iff.1 hp
  split at hp
  · cases hp
    have hid : f.id = v.fileId := by simpa using find?_some hf
    exact h.outlineOf (visibleAt_iff.2 ⟨v, hv, beq_iff_eq.1 hr, hid.symm, rfl⟩)
  · cases hp

/-! ## Call graphs -/

lemma edgesAtRev (dir limit node) :
    ix'.edgesAtRev rev dir callKinds limit node = ix.edgesAtRev rev dir callKinds limit node := by
  unfold Index.edgesAtRev Index.edgesAt Index.sortOn
  simp only [h.visibleAt]
  exact congrArg (Index.limited limit)
    (filter_mergeSort_congr (sortOn_trans _) (sortOn_total _) h.edges _)

lemma grow (dir limit depth layer region) : Region.grow ix' rev dir callKinds limit depth layer region =
      Region.grow ix rev dir callKinds limit depth layer region := by
  induction depth generalizing layer region with
  | zero => rfl
  | succ depth ih =>
    cases layer with
    | nil => rfl
    | cons node layer => simp only [Region.grow, h.edgesAtRev, ih]

/-- The nodes at the far ends of call edges stand where they stood. -/
lemma place_far {node} (he : e ∈ ix.edgesAtRev rev dir callKinds limit node) :
    ix'.nodeSpan? (dir.far e) = ix.nodeSpan? (dir.far e) := by
  obtain ⟨hmem, -, hkind, hv⟩ := mem_edgesAtRev he
  obtain ⟨hsrc, hdst⟩ := h.edgePlace e hmem hkind hv
  cases dir with
  | out => exact hdst
  | into => exact hsrc

/-- A region that grows keeps standing where it stood. -/
lemma placed_grow {depth layer region} (hregion : region.Placed ix ix') :
    (Region.grow ix rev dir callKinds limit depth layer region).Placed ix ix' := by
  induction depth generalizing layer region with
  | zero => exact hregion
  | succ depth ih =>
    cases layer with
    | nil => exact hregion
    | cons node layer =>
      refine ih ?_
      refine List.foldlRecOn (motive := fun state : Region × Strings => state.1.Placed ix ix') (node :: layer) _
        hregion ?_
      intro state hstate node _
      refine List.foldlRecOn (motive := fun state : Region × Strings => state.1.Placed ix ix') _ _ hstate ?_
      intro state hstate e he
      exact hstate.add (h.place_far he)

lemma callGraph {start : String} (hstart : ix'.nodeSpan? start = ix.nodeSpan? start) (direction : String)
    (depth : Int) (limit : Int64) :
    callGraph ix' (some rev) start direction depth limit = callGraph ix (some rev) start direction depth limit := by
  have hsingle : Region.Placed ix ix' ⟨[start], []⟩ := by
    intro n hn
    rw [mem_singleton.1 hn]
    exact hstart
  unfold Inquiry.callGraph
  simp only [h.asked, h.asked', ok_bind, h.grow, hsingle.toOutcome, (h.placed_grow hsingle).toOutcome]

end SameView

end PatchReview.Inquiry
