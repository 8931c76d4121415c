import PatchReview.Proofs.Index.Listing
import PatchReview.Proofs.Repository.Walking

/-!
# Files at the root

A file that lies at the root under a plain name is found, resolved and read as it is, and a list of such files is read
in the order of their names.
-/

namespace PatchReview

open Action FileTree Files List Repository

/-- The path of a name at the root. -/
def atRoot (name : String) : Path := ⟨"/", [name]⟩

/-- Bytes lie at the root under a name that stands for no other place and is not too long. -/
structure LiesAtRoot (w : Workspace) (name : String) (b : Bytes) : Prop where
  entry : ∃ t, w.files.entry? [name] = some (.file (.bytes b) t)
  plain : name ≠ ".."
  short : name.utf8ByteSize ≤ nameLimit
  path_short : (atRoot name).toString.utf8ByteSize < pathLimit
  clean : holdsNull (atRoot name) = false

namespace LiesAtRoot

variable {w : Workspace} {name : String} {b : Bytes} (h : LiesAtRoot w name b)

include h

lemma stands : FileTree.Stands w.files [name] := by
  obtain ⟨t, ht⟩ := h.entry
  exact .step (q := []) .root rfl h.plain h.short ht

lemma resolve : resolve (atRoot name) w = (.ok (atRoot name), w) := by
  obtain ⟨t, ht⟩ := h.entry
  exact (ofExcept_apply _ w).trans (h.stands.resolve ht nofun h.clean w.cwd ▸ rfl)

lemma find? : ∃ t, w.files.find? w.cwd (atRoot name) = .ok (some (.file (.bytes b) t)) := by
  obtain ⟨t, ht⟩ := h.entry
  exact ⟨t, find?_eq_some_iff.2 ⟨h.clean, _, h.stands.locate ht nofun h.path_short w.cwd, ht⟩⟩

lemma readBytes : readBytes (atRoot name) w = (.ok b, w) := by
  obtain ⟨t, ht⟩ := h.find?
  exact readBytes_apply ht

end LiesAtRoot

namespace Index

variable {w : Workspace} {o : Repository.ScanOptions} {lang : String}

/-- A file at the root is one that is indexed under a language. -/
structure Indexed (w : Workspace) (o : Repository.ScanOptions) (lang : String) (file : String × Bytes) : Prop
    extends LiesAtRoot w file.1 file.2 where
  included : (atRoot file.1).allParts.any o.excludes.contains = false
  small : file.2.length ≤ o.maxBytes
  language : Syntax.Language.ofPath? (atRoot file.1) = some lang
  chosen : (o.languages.isEmpty || o.languages.contains lang) = true

/-- What is read at the root. -/
def readAtRoot (w : Workspace) (lang : String) (file : String × Bytes) : ParsedFile :=
  ⟨(atRoot file.1).toString, lang, file.2, Sha256.hexDigest file.2, (treeOf file.2 w).1.toOption.getD default⟩

lemma Indexed.scanned? {file} (h : Indexed w o lang file) : scanned? o (atRoot file.1) w = (.ok (some lang), w) := by
  have hverdict : verdict o (atRoot file.1) (.bytes file.2) = some lang := by
    rw [verdict, h.included, h.language, Option.filter, if_pos h.chosen]
    exact if_neg (Bool.eq_false_iff.1 (decide_eq_false (Int.not_lt.2 h.small)))
  obtain ⟨t, ht⟩ := h.find?
  rw [scanned?_apply ht, contentOf, Option.bind_some, hverdict]

lemma Indexed.reading {file} (h : Indexed w o lang file) :
    reading lang (atRoot file.1) w = (.ok [readAtRoot w lang file], w) := by
  obtain ⟨t, ht⟩ := treeOf_eq_ok file.2 w
  unfold Index.reading
  rw [bind_apply, attempt_apply, h.readBytes]
  dsimp only
  rw [bind_of_ok h.resolve, bind_of_ok ht, readAtRoot, ht]
  rfl

/-- Takes a path into the groups of files by language. -/
def chooseInto (o : Repository.ScanOptions) (groups : List (String × List Path)) (p : Path) :
    Action (List (String × List Path)) := do
  match ← Action.attempt (resolve p) with
  | .error _ => return groups
  | .ok q =>
    match ← scanned? o q with
    | some lang => return addTo groups lang q
    | none => return groups

lemma chosenFiles_eq (o paths) : chosenFiles o paths = (do
      let groups ← paths.foldlM (chooseInto o) []
      return groups.map fun (lang, ps) => (lang, sortOn Path.toString ps)) := rfl

lemma Indexed.chooseInto {file} (h : Indexed w o lang file) (groups) :
    chooseInto o groups (atRoot file.1) w = (.ok (addTo groups lang (atRoot file.1)), w) := by
  unfold Index.chooseInto
  rw [bind_apply, attempt_apply, h.resolve]
  dsimp only
  rw [bind_apply, h.scanned?]
  rfl

section

variable {files : List (String × Bytes)} (h : ∀ f ∈ files, Indexed w o lang f)

include h

lemma foldlM_chooseInto (ps) : (files.map fun f => atRoot f.1).foldlM (chooseInto o) [(lang, ps)] w =
      (.ok [(lang, ps ++ files.map fun f => atRoot f.1)], w) := by
  induction files generalizing ps with
  | nil => simp [pure_apply]
  | cons f files ih =>
    have hadd : addTo [(lang, ps)] lang (atRoot f.1) = [(lang, ps ++ [atRoot f.1])] := by
      simp [addTo, Fields.insert, Fields.get?]
    rw [map_cons, foldlM_cons, bind_apply, (h f mem_cons_self).chooseInto, hadd]
    dsimp only
    rw [ih (fun g hg => h g (mem_cons_of_mem _ hg)), append_assoc]
    rfl

/-- Files at the root that are given by name are read in the order of their paths. -/
lemma listing_atRoot {options} (ho : options.scan = o) (hp : options.paths = some (files.map fun f => atRoot f.1))
    (hne : files ≠ []) (hsorted : (files.map fun f => (atRoot f.1).toString).Pairwise (· ≤ ·))
    (hlang : Syntax.Language.normal lang = .ok lang) (hparsed : w.unparsed.contains lang = false) (root) :
    listing root options w = (.ok (files.map (readAtRoot w lang)), w) := by
  subst ho
  have hsort : sortOn Path.toString (files.map fun f => atRoot f.1) = files.map fun f => atRoot f.1 := by
    refine mergeSort_of_pairwise ?_
    rw [pairwise_map] at hsorted ⊢
    exact hsorted.imp decide_eq_true
  have hgroups : groupsOf root options w = (.ok [(lang, files.map fun f => atRoot f.1)], w) := by
    unfold groupsOf
    rw [hp]
    dsimp only
    rw [chosenFiles_eq, bind_apply]
    cases files with
    | nil => exact absurd rfl hne
    | cons f files =>
      rw [map_cons, foldlM_cons, bind_of_ok ((h f mem_cons_self).chooseInto _),
        show addTo [] lang (atRoot f.1) = [(lang, [atRoot f.1])] from rfl,
        foldlM_chooseInto fun g hg => h g (mem_cons_of_mem _ hg)]
      rw [map_cons] at hsort
      dsimp only
      rw [pure_apply, map_singleton, singleton_append, hsort]
  have hread : (files.map fun f => atRoot f.1).mapM (reading lang) w =
      (.ok (files.map fun f => [readAtRoot w lang f]), w) := by
    clear hp hne hsorted hsort hgroups
    induction files with
    | nil => rfl
    | cons f files ih =>
      rw [map_cons, mapM_cons, bind_of_ok (h f mem_cons_self).reading,
        bind_of_ok (ih fun g hg => h g (mem_cons_of_mem _ hg))]
      rfl
  have hrequire : requireParser lang w = (.ok (), w) := by
    unfold requireParser
    rw [bind_apply, get_apply]
    dsimp only
    rw [hparsed]
    rfl
  have hlanguage : languageReading (lang, files.map fun f => atRoot f.1) w =
      (.ok (files.map (readAtRoot w lang)), w) := by
    unfold languageReading
    rw [bind_apply, ofExcept_apply, hlang]
    dsimp only
    rw [bind_of_ok hrequire, bind_of_ok hread, pure_apply, ← flatMap_def, map_eq_flatMap]
  unfold listing
  rw [bind_of_ok hgroups, mapM_cons, bind_apply, bind_apply, hlanguage]
  simp [pure_apply]

end

/-! ## Repositories without directories -/

/-- A file with its name, its bytes and its syntax tree. -/
abbrev RootFile := String × Bytes × Syntax.Tree

/-- A workspace with files at the root. -/
def rootWorkspace (files : List RootFile) : Workspace :=
  { files := ⟨files.map fun f => ([f.1], .file (.bytes f.2.1) 0)⟩, trees := files.map (·.2) }

/-- Indexes files at the root by their names. -/
def rootOptions (files : List RootFile) : BuildOptions := { paths := some (files.map fun f => atRoot f.1) }

/-- What is read of files at the root. -/
def rootReading (lang : String) (files : List RootFile) : List ParsedFile :=
  files.map fun f => readAtRoot (rootWorkspace files) lang (f.1, f.2.1)

/-- A name under which a file at the root is indexed in a language. -/
def PlainName (lang name : String) : Prop :=
  name ≠ ".." ∧ name.utf8ByteSize ≤ nameLimit ∧
    (atRoot name).toString.utf8ByteSize < pathLimit ∧ holdsNull (atRoot name) = false ∧
    (atRoot name).allParts.any scanExcludes.contains = false ∧
    Syntax.Language.ofPath? (atRoot name) = some lang

instance (lang name : String) : Decidable (PlainName lang name) := inferInstanceAs (Decidable (_ ∧ _))

lemma entry_rootWorkspace {files} (hnd : (files.map (·.1)).Nodup) {f} (hf : f ∈ files) :
    (rootWorkspace files).files.entry? [f.1] = some (.file (.bytes f.2.1) 0) := by
  have hfind : (files.map fun f => (([f.1], .file (.bytes f.2.1) 0) : Trail × Entry)).find? (·.1 == [f.1]) =
      some ([f.1], .file (.bytes f.2.1) 0) := by
    induction files with
    | nil => cases hf
    | cons g files ih =>
      rw [map_cons, nodup_cons] at hnd
      rcases mem_cons.1 hf with rfl | hf
      · simp
      · have hne : g.1 ≠ f.1 := fun e => hnd.1 (e ▸ mem_map_of_mem hf)
        rw [map_cons, find?_cons_of_neg (by simpa using hne)]
        exact ih hnd.2 hf
  change ((files.map _).find? _).map _ = _
  rw [hfind]
  rfl

/-- Files of distinct plain names that stand in the order of these. -/
def Orderly (lang : String) (files : List RootFile) : Prop :=
  files ≠ [] ∧ (files.map (·.1)).Nodup ∧ (∀ f ∈ files, PlainName lang f.1 ∧ f.2.1.length ≤ 2000000) ∧
    (files.map fun f => (atRoot f.1).toString).Pairwise (· ≤ ·)

instance (lang : String) (files : List RootFile) : Decidable (Orderly lang files) := inferInstanceAs (Decidable (_ ∧ _))

section

variable {root : Path} {files : List RootFile} (h : Orderly lang files) (hlang : Syntax.Language.normal lang = .ok lang)

include h hlang

/-- Files at the root are read in the order of their names. -/
lemma listing_rootWorkspace :
    listing root (rootOptions files) (rootWorkspace files) = (.ok (rootReading lang files), rootWorkspace files) := by
  obtain ⟨hne, hnd, hplain, hsorted⟩ := h
  have hindexed : ∀ p ∈ files.map fun f => (f.1, f.2.1), Indexed (rootWorkspace files) {} lang p := by
    intro p hp
    obtain ⟨f, hf, rfl⟩ := mem_map.1 hp
    obtain ⟨⟨h₁, h₂, h₃, h₄, h₅, h₆⟩, h₇⟩ := hplain f hf
    exact ⟨⟨⟨0, entry_rootWorkspace hnd hf⟩, h₁, h₂, h₃, h₄⟩, h₅, Int.ofNat_le.2 h₇, h₆, rfl⟩
  have hmap : ∀ {β : Type} (k : String × Bytes → β),
      (files.map fun f => (f.1, f.2.1)).map k = files.map fun f => k (f.1, f.2.1) := by
    intro β k
    rw [map_map]
    rfl
  rw [listing_atRoot hindexed rfl (congrArg some (hmap fun p => atRoot p.1).symm) (by simpa using hne)
    ((hmap fun p => (atRoot p.1).toString).symm ▸ hsorted) hlang rfl root, hmap]
  rfl

/-- Indexing files at the root takes what is read of them. -/
lemma addRepository_rootWorkspace {ix : Index} {rev base}
    (hok : ((rootReading lang files).foldlM (enter (rootOptions files) rev)
      (ix.beginRevision rev base (rootWorkspace files).clock)).isOk) :
    ∃ w', ix.addRepository root rev base (rootOptions files) (rootWorkspace files) =
      (.ok (taking (rootOptions files) rev base (rootWorkspace files).clock ix (rootReading lang files)), w') :=
  ⟨_, addRepository_of_listing (listing_rootWorkspace h hlang) hok⟩

end

/-- A file that calls `f`. -/
def callingFile : RootFile := ("use.py", [102, 40, 41], .node "call" 0 3 [.node "identifier" 0 1 []])

/-- A file that defines `f` in its first five bytes, with blanks after it. -/
def definingFile (name : String) (blanks : Nat) : RootFile :=
  (name, [100, 101, 102, 32, 102] ++ List.replicate blanks 32,
    .node "function_definition" 0 5 [.node "identifier" 4 5 []])

variable (ix : Index) (rev : String) (base : Option String) (files : List RootFile)

/-- Whether files at the root can be entered into an index under a revision. -/
def canTake : Bool :=
  ((rootReading "python" files).foldlM (enter (rootOptions files) rev) (ix.beginRevision rev base 1000.0)).isOk

/-- An index with files at the root taken in under a revision. -/
def takeRoot : Index :=
  taking (rootOptions files) rev base 1000.0 ix (rootReading "python" files)

variable {ix rev base files} in
lemma takeRoot_run (h : Orderly "python" files) (hcan : canTake ix rev base files) :
    ∃ w', ix.addRepository ⟨"/", []⟩ rev base (rootOptions files) (rootWorkspace files) =
      (.ok (ix.takeRoot rev base files), w') :=
  addRepository_rootWorkspace h rfl hcan

end Index

end PatchReview
