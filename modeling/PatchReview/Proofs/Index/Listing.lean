import PatchReview.Index.Prepare
import PatchReview.Proofs.Action

/-!
# Indexing a repository in two halves

Indexing looks at the workspace and changes the index, and neither half needs the other: first all files are read,
which is a steady step, then they are entered one after the other, which does not look at the workspace any more.
-/

namespace PatchReview

open Files List Repository

namespace Action

variable {α β σ : Type}

variable {look : α → Action (List β)}

/-- A loop whose steps look at the workspace and then change a value looks first and changes afterwards. -/
lemma foldlM_eq_ok_iff {change : σ → β → Result σ} {step : σ → α → Action σ} (hlook : ∀ a, Steady (look a))
    (hstep : ∀ s a w s' w', step s a w = (.ok s', w') ↔ w' = w ∧ ∃ bs, look a w = (.ok bs, w) ∧ bs.foldlM change s = .ok s')
    (l : List α) (s : σ) (w) (s' : σ) (w') : l.foldlM step s w = (.ok s', w') ↔
      w' = w ∧ ∃ bss, l.mapM look w = (.ok bss, w) ∧ bss.flatten.foldlM change s = .ok s' := by
  induction l generalizing s with
  | nil =>
    constructor
    · rintro h
      cases h
      exact ⟨rfl, [], rfl, rfl⟩
    · rintro ⟨rfl, bss, hb, hc⟩
      cases hb
      cases hc
      rfl
  | cons a l ih =>
    rw [foldlM_cons, mapM_cons, bind_eq_ok_iff]
    constructor
    · rintro ⟨t, v, ha, hl⟩
      obtain ⟨rfl, bs, hb, hc⟩ := (hstep s a w t v).1 ha
      obtain ⟨rfl, bss, hbs, hcs⟩ := (ih t).1 hl
      refine ⟨rfl, bs :: bss, ?_, ?_⟩
      · exact bind_eq_ok_iff.2 ⟨bs, w', hb, bind_eq_ok_iff.2 ⟨bss, w', hbs, rfl⟩⟩
      · rw [flatten_cons, foldlM_append, hc]
        exact hcs
    · rintro ⟨rfl, bss, hb, hc⟩
      obtain ⟨bs, v, hbs, hrest⟩ := bind_eq_ok hb
      obtain ⟨rest, u, hr, hp⟩ := bind_eq_ok hrest
      cases hp
      obtain rfl := (hlook a).eq_of_ok hbs
      rw [flatten_cons, foldlM_append, except_bind_eq_ok_iff] at hc
      obtain ⟨t, ht, hcs⟩ := hc
      exact ⟨t, w', (hstep s a w' t w').2 ⟨rfl, bs, hbs, ht⟩, (ih t).2 ⟨rfl, rest, hr, hcs⟩⟩

/-- What each of several looks finds, they find together. -/
lemma forall_mem_flatten_of_mapM {P : β → Prop} (h : ∀ a w bs w', look a w = (.ok bs, w') → ∀ b ∈ bs, P b)
    {l : List α} {w w' bss} (hl : l.mapM look w = (.ok bss, w')) : ∀ b ∈ bss.flatten, P b := by
  induction l generalizing w bss with
  | nil =>
    cases hl
    simp
  | cons a l ih =>
    rw [mapM_cons] at hl
    obtain ⟨bs, v, hbs, hl⟩ := bind_eq_ok hl
    obtain ⟨rest, u, hr, ⟨⟩⟩ := bind_eq_ok hl
    exact forall_mem_append.2 ⟨h a w bs v hbs, ih hr⟩

end Action

namespace Index

open Action

/-- Reads a file under a language; there is none when it cannot be read. -/
def reading (lang : String) (path : Path) : Action (List ParsedFile) := do
  match ← Action.attempt (readBytes path) with
  | .error _ => return []
  | .ok source =>
    let full := (← resolve path).toString
    return [⟨full, lang, source, Sha256.hexDigest source, ← treeOf source⟩]

/-- Enters a file that was read. -/
def enter (o : BuildOptions) (rev : String) (ix : Index) (f : ParsedFile) : Result Index := do
  let (ix, id) := ix.upsertFile f.path f.lang
  let ix ← ix.upsertVersion rev id f.blob f.source.length
  let ix := if o.keepBytes then ix.upsertBlob f.blob f.source true else ix
  if ix.hasArtifacts f.blob then return ix
  ix.putArtifacts id f.blob f.lang (artifactsOf o.policy f)

variable (group : String × List Path)

/-- Reads the files of a language. -/
def languageReading : Action (List ParsedFile) := do
  let lang ← Action.ofExcept (Syntax.Language.normal group.1)
  requireParser lang
  return (← group.2.mapM (reading lang)).flatten

/-- The files that are to be indexed, by language. -/
def groupsOf (root : Path) (o : BuildOptions) : Action (List (String × List Path)) :=
  match o.paths with
  | none => scan root o.scan
  | some paths => chosenFiles o.scan paths

/-- Reads the files that are to be indexed. -/
def listing (root : Path) (o : BuildOptions) : Action (List ParsedFile) := do
  let groups ← groupsOf root o
  return (← groups.mapM languageReading).flatten

variable {ix ix' : Index} {o : BuildOptions} {rev lang : String} {base : Option String} {root : Path}
  {w w' : Workspace}

/-! ## Reading is steady -/

lemma steady_chosenFiles (o paths) : Steady (chosenFiles o paths) := by
  refine (Steady.foldlM (fun groups p => (steady_resolve p).attempt.bind fun r => ?_) _ _).bind fun _ => .pure _
  split
  · exact .pure _
  · refine (steady_scanned? o _).bind fun lang => ?_
    cases lang with
    | none => exact .pure _
    | some lang => exact .pure _

lemma steady_reading (lang path) : Steady (reading lang path) := by
  refine (steady_readBytes path).attempt.bind fun r => ?_
  split
  · exact .pure _
  · exact (steady_resolve path).bind fun _ => (steady_treeOf _).bind fun _ => .pure _

lemma steady_languageReading : Steady (languageReading group) := by
  exact (Steady.ofExcept _).bind fun lang => (steady_requireParser lang).bind fun _ =>
    (Steady.mapM (steady_reading lang) _).bind fun _ => .pure _

lemma steady_groupsOf (root o) : Steady (groupsOf root o) := by
  unfold groupsOf
  split
  · exact steady_scan root o.scan
  · exact steady_chosenFiles o.scan _

lemma steady_listing (root o) : Steady (listing root o) := by
  exact (steady_groupsOf root o).bind fun _ => (Steady.mapM steady_languageReading _).bind fun _ => .pure _

/-! ## Entering what was read -/

lemma treeOf_eq_ok (source w) : ∃ t, treeOf source w = (.ok t, w) := by
  unfold treeOf
  rw [bind_apply, get_apply]
  dsimp only
  cases w.trees.find? (·.1 == source) with
  | none => exact ⟨_, rfl⟩
  | some p => exact ⟨p.2, rfl⟩

/-- Once the place of a file is known, it is entered whatever the workspace. -/
lemma addFile_of_resolve {path full source t} (hs : attempt (readBytes path) w = (.ok (.ok source), w))
    (hp : resolve path w = (.ok full, w)) (ht : treeOf source w = (.ok t, w)) : addFile o rev lang ix path w =
      (ix.enter o rev ⟨full.toString, lang, source, Sha256.hexDigest source, t⟩, w) := by
  unfold addFile enter
  rw [bind_apply, hs]
  simp only [bind_apply, hp]
  cases (ix.upsertFile full.toString lang).1.upsertVersion rev (ix.upsertFile full.toString lang).2
      (Sha256.hexDigest source) source.length with
  | error e => rfl
  | ok ix₁ =>
    change (if (if o.keepBytes then _ else _ : Index).hasArtifacts _ then _ else _ : Action Index) w =
      (if (if o.keepBytes then _ else _ : Index).hasArtifacts _ then _ else _, w)
    generalize (if o.keepBytes then ix₁.upsertBlob (Sha256.hexDigest source) source true else ix₁) = ix₂
    split
    · rfl
    · rw [bind_apply, ht]
      exact ofExcept_apply _ w

section

variable (o : BuildOptions)

/-- A file is read and then entered. -/
lemma addFile_apply (rev lang ix path w) : addFile o rev lang ix path w = match reading lang path w with
      | (.ok fs, w') => (fs.foldlM (enter o rev) ix, w')
      | (.error e, w') => (.error e, w') := by
  have hs := (steady_readBytes path).attempt.after w
  have hp := (steady_resolve path).after w
  rcases hr : (attempt (readBytes path) w).1 with e | e | source
  · rw [hr] at hs
    rw [addFile, reading, bind_apply, bind_apply, hs]
  · rw [hr] at hs
    rw [addFile, reading, bind_apply, bind_apply, hs]
    rfl
  · rw [hr] at hs
    cases hf : (resolve path w).1 with
    | error e =>
      rw [hf] at hp
      rw [addFile, reading, bind_apply, bind_apply, hs]
      simp only [bind_apply, hp]
    | ok full =>
      rw [hf] at hp
      obtain ⟨t, ht⟩ := treeOf_eq_ok source w
      rw [addFile_of_resolve hs hp ht, reading, bind_apply, hs]
      simp only [bind_apply, hp, ht, pure_apply, foldlM_cons, foldlM_nil, bind_pure]

/-- What a loop of steady looks and changes has to say of each step. -/
lemma addFile_eq_ok_iff (rev lang ix path w ix' w') : addFile o rev lang ix path w = (.ok ix', w') ↔
      w' = w ∧ ∃ fs, reading lang path w = (.ok fs, w) ∧ fs.foldlM (enter o rev) ix = .ok ix' := by
  rw [addFile_apply, (steady_reading lang path).after w]
  cases (reading lang path w).1 with
  | error e =>
    constructor
    · rintro ⟨⟩
    · rintro ⟨_, _, ⟨⟩, _⟩
  | ok fs =>
    constructor
    · intro h
      exact ⟨(congrArg Prod.snd h).symm, fs, rfl, congrArg Prod.fst h⟩
    · rintro ⟨rfl, _, ⟨⟩, h⟩
      exact Prod.ext h rfl

lemma addLanguage_eq_ok_iff (rev) (ix) (group)
    (w) (ix') (w') :
    addLanguage o rev ix group w = (.ok ix', w') ↔
      w' = w ∧ ∃ fs, languageReading group w = (.ok fs, w) ∧ fs.foldlM (enter o rev) ix = .ok ix' := by
  have hloop := fun lang => foldlM_eq_ok_iff (steady_reading lang) (addFile_eq_ok_iff o rev lang) group.2
  constructor
  · intro h
    obtain ⟨lang, v, hl, h₁⟩ := bind_eq_ok h
    obtain rfl := (Steady.ofExcept _).eq_of_ok hl
    obtain ⟨u, v, hu, h₂⟩ := bind_eq_ok h₁
    obtain rfl := (steady_requireParser lang).eq_of_ok hu
    obtain ⟨rfl, fss, hf, he⟩ := (hloop lang ix w ix' w').1 h₂
    exact ⟨rfl, fss.flatten, bind_eq_ok_iff.2 ⟨lang, w', hl, bind_eq_ok_iff.2
      ⟨u, w', hu, bind_eq_ok_iff.2 ⟨fss, w', hf, rfl⟩⟩⟩, he⟩
  · rintro ⟨rfl, fs, h, he⟩
    obtain ⟨lang, v, hl, h₁⟩ := bind_eq_ok h
    obtain rfl := (Steady.ofExcept _).eq_of_ok hl
    obtain ⟨u, v, hu, h₂⟩ := bind_eq_ok h₁
    obtain rfl := (steady_requireParser lang).eq_of_ok hu
    obtain ⟨fss, v, hf, ⟨⟩⟩ := bind_eq_ok h₂
    exact bind_eq_ok_iff.2 ⟨lang, w', hl, bind_eq_ok_iff.2
      ⟨u, w', hu, (hloop lang ix w' ix' w').2 ⟨rfl, fss, hf, he⟩⟩⟩

end

/-- Indexing ends normally when all files can be read and entered. It moves the clock by one reading, and its index
is the old one with the revision begun anew, the files entered and the calls resolved. -/
lemma addRepository_eq_ok_iff : ix.addRepository root rev base o w = (.ok ix', w') ↔
      w' = { w with clock := w.clock + w.clockStep } ∧ ∃ fs ix₁, listing root o w = (.ok fs, w) ∧
        fs.foldlM (enter o rev) (ix.beginRevision rev base w.clock) = .ok ix₁ ∧
        ix' = ix₁.resolveCalls none := by
  have hloop := foldlM_eq_ok_iff steady_languageReading (addLanguage_eq_ok_iff o rev)
  have hgroups : ix.addRepository root rev base o = (do
      let ix := ix.beginRevision rev base (← now)
      let groups ← groupsOf root o
      let ix ← groups.foldlM (addLanguage o rev) ix
      return ix.resolveCalls none) := by
    unfold addRepository groupsOf
    cases o.paths <;> rfl
  rw [hgroups, bind_apply, now_apply]
  constructor
  · intro h
    obtain ⟨groups, v, hg, h₁⟩ := bind_eq_ok h
    obtain rfl := (steady_groupsOf root o).eq_of_ok hg
    obtain ⟨ix₁, v, hl, ⟨⟩⟩ := bind_eq_ok h₁
    obtain ⟨rfl, fss, hf, he⟩ := (hloop _ _ _ _ _).1 hl
    refine ⟨rfl, fss.flatten, ix₁, ((steady_listing root o).ok_iff (w.clock + w.clockStep)).1 ?_, he, rfl⟩
    exact bind_eq_ok_iff.2 ⟨groups, _, hg, bind_eq_ok_iff.2 ⟨fss, _, hf, rfl⟩⟩
  · rintro ⟨rfl, fs, ix₁, h, he, rfl⟩
    have h := ((steady_listing root o).ok_iff (w.clock + w.clockStep)).2 h
    obtain ⟨groups, v, hg, h₁⟩ := bind_eq_ok h
    obtain rfl := (steady_groupsOf root o).eq_of_ok hg
    obtain ⟨fss, v, hf, ⟨⟩⟩ := bind_eq_ok h₁
    exact bind_eq_ok_iff.2 ⟨groups, _, hg, bind_eq_ok_iff.2
      ⟨ix₁, _, (hloop _ _ _ _ _).2 ⟨rfl, fss, hf, he⟩, rfl⟩⟩

/-- The index after files that were read are entered under a revision and the calls are resolved; an empty one when
they cannot be entered. -/
def taking (o : BuildOptions) (rev : String) (base : Option String) (now : Float) (ix : Index)
    (fs : List ParsedFile) : Index :=
  match fs.foldlM (enter o rev) (ix.beginRevision rev base now) with
  | .ok ix₁ => ix₁.resolveCalls none
  | .error _ => {}

lemma addRepository_of_listing {fs} (hl : listing root o w = (.ok fs, w))
    (hok : (fs.foldlM (enter o rev) (ix.beginRevision rev base w.clock)).isOk) :
    ix.addRepository root rev base o w =
      (.ok (taking o rev base w.clock ix fs), { w with clock := w.clock + w.clockStep }) := by
  cases hf : fs.foldlM (enter o rev) (ix.beginRevision rev base w.clock) with
  | error e =>
    rw [hf] at hok
    cases hok
  | ok ix₁ => exact addRepository_eq_ok_iff.2 ⟨rfl, fs, ix₁, hl, hf, by rw [taking, hf]⟩

end Index

end PatchReview
