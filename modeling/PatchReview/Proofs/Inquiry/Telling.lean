import PatchReview.Inquiry.Symbols
import PatchReview.Proofs.Index.Registering

/-!
# What outlines tell

From the outline of one file of a revision its language, its calls and whether its bytes are kept can be read off. So
two indexes that give the same outlines agree on these.
-/

namespace PatchReview.Inquiry

open Index (CallRow FileRow Sound VersionRow)
open Action Except List

lemma filterMap_eq_singleton {α β : Type} {l : List α} {k : α → Option β} {x : α} {b : β} (hnd : l.Nodup)
    (hx : x ∈ l) (hk : k x = some b) (hother : ∀ y ∈ l, y ≠ x → k y = none) : l.filterMap k = [b] := by
  induction l with
  | nil => cases hx
  | cons y l ih =>
    rw [nodup_cons] at hnd
    rcases mem_cons.1 hx with rfl | hx
    · have hrest : l.filterMap k = [] := by
        refine filterMap_eq_nil_iff.2 fun z hz => hother z (mem_cons_of_mem _ hz) ?_
        rintro rfl
        exact hnd.1 hz
      rw [filterMap_cons_some hk, hrest]
    · have hy : k y = none := by
        refine hother y mem_cons_self ?_
        rintro rfl
        exact hnd.1 hx
      rw [filterMap_cons_none hy]
      exact ih hnd.2 hx fun z hz => hother z (mem_cons_of_mem _ hz)

lemma eq_of_filterMap_eq {α β : Type} {l : List α} {f k : α → Option β} (hf : ∀ x ∈ l, (f x).isSome)
    (hk : ∀ x ∈ l, (k x).isSome) (h : l.filterMap f = l.filterMap k) : ∀ x ∈ l, f x = k x := by
  induction l with
  | nil => exact fun x hx => absurd hx not_mem_nil
  | cons y l ih =>
    obtain ⟨b, hb⟩ := Option.isSome_iff_exists.1 (hf y mem_cons_self)
    obtain ⟨d, hd⟩ := Option.isSome_iff_exists.1 (hk y mem_cons_self)
    rw [filterMap_cons_some hb, filterMap_cons_some hd, List.cons.injEq] at h
    intro x hx
    rcases mem_cons.1 hx with rfl | hx
    · rw [hb, hd, h.1]
    · exact ih (fun z hz => hf z (mem_cons_of_mem _ hz)) (fun z hz => hk z (mem_cons_of_mem _ hz)) h.2 x hx

/-- An inquiry that finds something did so without a fault. -/
lemma eq_found_of_guarded {m : String} {x : Action Outcome} {w w' : Workspace} {data : List (String × Json)}
    (hx : guarded m x w = (.ok (.found data), w')) : x w = (.ok (.found data), w') := by
  obtain ⟨r, v, hr, hx⟩ := bind_eq_ok hx
  rw [attempt_apply] at hr
  cases hxw : x w with
  | mk y u =>
    rw [hxw] at hr
    cases y with
    | ok out =>
      cases hr
      exact hx
    | error e =>
      dsimp only at hr
      split at hr
      · cases hr
        dsimp only at hx
        split at hx <;> cases hx
      · cases hr

lemma guarded_of_ok {m : String} {a : Action Outcome} {out : Outcome} {w w' : Workspace} (h : a w = (.ok out, w')) :
    guarded m a w = (.ok out, w') := by
  unfold guarded
  rw [bind_apply, attempt_apply, h]
  rfl

section

variable {ix : Index} {v : VersionRow} {g : FileRow} (h : Sound ix)
  (hasked : ix.requireRevision (some v.rev) = .ok v.rev) (hv : v ∈ ix.versions) (hg : g ∈ ix.files)
  (hid : g.id = v.fileId)

include h hasked hv hg hid

/-- An outline that asks for one file of a revision shows that one. -/
lemma outline_eq {q : OutlineQuery} (hrev : q.rev = some v.rev) (hfiles : q.files = some [g.path])
    (hlang : q.lang = none) :
    outline ix q = guarded "ast_index failed" (do
      let x ← outlineOf ix q g v.blob
      return .found [("rev", v.rev), ("files", .list [x])]) := by
  have hrows : (ix.versions.filter (·.rev == v.rev)).filterMap (fun u => do
      let f ← ix.fileOf? u.fileId
      if q.files.all (·.contains f.path) && q.lang.all (fun l => l == "" || f.lang == l) then some (f, u.blob)
      else none) = [(g, v.blob)] := by
    have hnd : ix.versions.Nodup := h.versions.keys.of_map _
    have hfile : ix.fileOf? v.fileId = some g := hid ▸ h.versions.toFileTable.fileOf?_of_mem hg
    refine filterMap_eq_singleton (hnd.filter _) (mem_filter.2 ⟨hv, by simp⟩) ?_ ?_
    · simp [hfile, hfiles, hlang]
    · intro u hu hne
      obtain ⟨hu, hr⟩ := mem_filter.1 hu
      cases hf : ix.fileOf? u.fileId with
      | none => rfl
      | some f =>
        have hfid : f.id = u.fileId := by simpa using find?_some hf
        have hpath : f.path ≠ g.path := by
          intro hp
          have hfg := h.versions.toFileTable.eq_of_path (mem_of_find?_eq_some hf) hg hp
          refine hne (inj_on_of_nodup_map h.versions.keys hu hv ?_)
          rw [beq_iff_eq.1 hr, ← hfid, hfg, hid]
        simp [hfiles, hpath]
  unfold outline
  rw [hrev, hasked]
  simp only [ofExcept_ok_bind, hrows, Index.sortOn, mergeSort_singleton, mapM_cons, mapM_nil, bind_assoc, pure_bind]

end

/-! ## Two indexes -/

section

variable {ix ix' : Index} {v : VersionRow} {g g' : FileRow} (h : Sound ix) (h' : Sound ix')
  (hasked : ix.requireRevision (some v.rev) = .ok v.rev) (hasked' : ix'.requireRevision (some v.rev) = .ok v.rev)
  (hv : v ∈ ix.versions) (hv' : v ∈ ix'.versions) (hg : g ∈ ix.files) (hg' : g' ∈ ix'.files) (hid : g.id = v.fileId)
  (hid' : g'.id = v.fileId) (hpath : g'.path = g.path)
  (hsame : ∀ q : OutlineQuery, q.rev = some v.rev → outline ix' q = outline ix q)

include h h' hasked hasked' hv hv' hg hg' hid hid' hpath hsame

/-- What is asked about one file is answered alike. -/
lemma guarded_outlineOf_eq {q} (hrev : q.rev = some v.rev) (hfiles : q.files = some [g.path]) (hlang : q.lang = none) :
    guarded "ast_index failed" (do
        let x ← outlineOf ix' q g' v.blob
        return .found [("rev", v.rev), ("files", .list [x])]) =
      guarded "ast_index failed" (do
        let x ← outlineOf ix q g v.blob
        return .found [("rev", v.rev), ("files", .list [x])]) := by
  rw [← outline_eq h hasked hv hg hid hrev hfiles hlang,
    ← outline_eq h' hasked' hv' hg' hid' hrev (hpath ▸ hfiles) hlang]
  exact hsame q hrev

/-- An outline tells the language of a file. -/
lemma lang_eq_of_outline : g'.lang = g.lang := by
  have heq := guarded_outlineOf_eq h h' hasked hasked' hv hv' hg hg' hid hid' hpath hsame
    (q := { rev := some v.rev, files := some [g.path], definitions := false, calls := false, imports := false })
    rfl rfl rfl
  have hout := congrFun heq { files := ⟨[]⟩ }
  have hfound := ok.inj (Prod.mk.inj hout).1
  simp at hfound
  exact hfound.2

/-- An outline tells the calls of a file. -/
lemma calls_eq_of_outline :
    (ix'.calls.filter fun c => c.fileId == v.fileId && c.blob == v.blob).filterMap (callHit ix') =
      (ix.calls.filter fun c => c.fileId == v.fileId && c.blob == v.blob).filterMap (callHit ix) := by
  have heq := guarded_outlineOf_eq h h' hasked hasked' hv hv' hg hg' hid hid' hpath hsame
    (q := { rev := some v.rev, files := some [g.path], definitions := false, imports := false, limit := .ok (-1) })
    rfl rfl rfl
  have hout := congrFun heq { files := ⟨[]⟩ }
  have hfound := ok.inj (Prod.mk.inj hout).1
  simp [hid, hid'] at hfound
  exact hfound.2.2

/-- An outline tells whether the bytes of a content are kept. -/
lemma bytes_of_outline {b} (hb : ix'.blobContent v.blob = .ok (some b)) : ix.blobContent v.blob ≠ .ok none := by
  intro hnone
  have heq := guarded_outlineOf_eq h h' hasked hasked' hv hv' hg hg' hid hid' hpath hsame
    (q := { rev := some v.rev, files := some [g.path], definitions := false, calls := false }) rfl rfl rfl
  have hout := congrFun heq { files := ⟨[]⟩ }
  simp only [outlineOf, hb, hnone, ofExcept_ok_bind, pure_bind] at hout
  obtain ⟨x, u, hx, hfound⟩ := bind_eq_ok (eq_found_of_guarded hout)
  obtain ⟨hits, u', -, hx⟩ := bind_eq_ok hx
  cases hx
  have hsame := ok.inj (Prod.mk.inj hfound).1
  simp at hsame

end

end PatchReview.Inquiry
