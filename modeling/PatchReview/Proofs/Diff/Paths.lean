import PatchReview.Proofs.Diff.Numbering
import PatchReview.Proofs.Index.Asking
import PatchReview.Proofs.Text
import PatchReview.Repository.Git

/-!
# Files keep their paths

The changed files of a diff are listed by path, and the path that a file has in the diff is trimmed once more for this:
blanks around it, a leading side mark and a leading slash are dropped. So a file is listed by its own path just when
that has none of these. Otherwise two files may become one, as `a/x` and `x` do.

The paths that a diff names are also read line by line, without regard to where a hunk begins, so a line of a hunk can
pass for one of a header.
-/

namespace PatchReview.Diff

open Fields List Nat Option PatchFile Repository Text

variable {diff path : String} {f g : String → String} {s : String} {files : List FileDiff}
  {entries : List (String × ChangedFile)} {parse : String → Result (List FileDiff)}

/-! ## Trimming -/

/-- What a function does not leave as it is it makes shorter. -/
def Shortens (f : String → String) : Prop := ∀ s, f s = s ∨ (f s).length < s.length

lemma Shortens.comp (hg : Shortens g) (hf : Shortens f) : Shortens fun s => g (f s) := by
  intro s
  have hfs := hf s
  have hgs := hg (f s)
  grind

lemma Shortens.comp_eq_iff (hg : Shortens g) (hf : Shortens f) : g (f s) = s ↔ f s = s ∧ g s = s := by
  have hfs := hf s
  have hgs := hg (f s)
  grind

lemma shortens_of_sublist {t : Chars → Chars} (h : ∀ s, (t s).Sublist s) :
    Shortens fun s => String.ofList (t s.toList) := by
  intro s
  dsimp only
  rcases lt_or_eq_of_le (h s.toList).length_le with hlt | heq
  · exact .inr (by rwa [String.length_ofList])
  · exact .inl (by rw [(h s.toList).eq_of_length heq, String.ofList_toList])

lemma shortens_strip : Shortens strip := by
  refine shortens_of_sublist fun s => ?_
  refine .trans ?_ (dropWhile_sublist Text.isBlank)
  exact reverse_sublist.1 (by simpa [Text.strip, Text.dropRightWhile] using dropWhile_sublist _)

lemma exists_of_beginsWith {p} (h : beginsWith p s) :
    ∃ r, dropLead? p.toList s.toList = some r ∧ s.length = p.length + r.length := by
  obtain ⟨r, hr⟩ := isSome_iff_exists.1 h
  exact ⟨r, hr, by simpa [← String.length_toList] using congrArg length (dropLead?_eq_some_iff.1 hr)⟩

lemma length_withoutSide (h : beginsWith "a/" s || beginsWith "b/" s) : (withoutSide s).length < s.length := by
  have hlength : 2 ≤ s.length := by
    rcases (Bool.or_eq_true ..).mp h with h | h <;>
    · obtain ⟨r, -, hr⟩ := exists_of_beginsWith h
      exact hr ▸ Nat.le_add_right ..
  rw [withoutSide, if_pos h, dropChars, String.length_ofList, length_drop, String.length_toList]
  omega

lemma length_withoutLead (h : beginsWith "/" s) : (withoutLead "/" s).length < s.length := by
  obtain ⟨r, hr, hlength⟩ := exists_of_beginsWith h
  rw [withoutLead, hr, hlength, String.length_ofList]
  exact Nat.lt_add_of_pos_left (by decide)

lemma shorter_cases {b t} (hlt : b = true → t.length < s.length) (heq : b = false → t = s) :
    (t = s ∨ t.length < s.length) ∧ (t = s ↔ b = false) := by
  cases b with
  | true => exact ⟨.inr (hlt rfl), fun h => absurd (congrArg String.length h) (hlt rfl).ne, nofun⟩
  | false => exact ⟨.inl (heq rfl), fun _ => rfl, heq⟩

lemma withoutSide_cases (s) : (withoutSide s = s ∨ (withoutSide s).length < s.length) ∧
    (withoutSide s = s ↔ (beginsWith "a/" s || beginsWith "b/" s) = false) :=
  shorter_cases length_withoutSide fun h => by rw [withoutSide, h]; rfl

lemma withoutLead_cases (s) : (withoutLead "/" s = s ∨ (withoutLead "/" s).length < s.length) ∧
    (withoutLead "/" s = s ↔ beginsWith "/" s = false) :=
  shorter_cases length_withoutLead fun h => by
    rw [withoutLead, not_isSome_iff_eq_none.1 (Bool.eq_false_iff.1 h)]

/-- A path without blanks around it, side marks and leading slashes. -/
structure PlainPath (path : String) : Prop where
  blanks : strip path = path
  sides : (beginsWith "a/" path || beginsWith "b/" path) = false
  slash : beginsWith "/" path = false

lemma shortens_afterStrip : Shortens fun s => withoutLead "/" (withoutSide s) :=
  Shortens.comp (fun s => (withoutLead_cases s).1) fun s => (withoutSide_cases s).1

lemma shortens_normalPath : Shortens normalPath := shortens_afterStrip.comp shortens_strip

/-- The paths that stay as they are. -/
lemma normalPath_eq_iff : normalPath path = path ↔ PlainPath path := by
  have houter := shortens_afterStrip.comp_eq_iff shortens_strip (s := path)
  have hinner := Shortens.comp_eq_iff (fun s => (withoutLead_cases s).1) (fun s => (withoutSide_cases s).1) (s := path)
  rw [(withoutSide_cases path).2, (withoutLead_cases path).2] at hinner
  rw [hinner] at houter
  exact houter.trans ⟨fun ⟨h, h', h''⟩ => ⟨h, h', h''⟩, fun ⟨h, h', h''⟩ => ⟨h, h', h''⟩⟩

/-! ## The list of changed files -/

/-- The path in the header of a file, without the mark of its side. -/
def FileDiff.headerPath (f : FileDiff) : String := withoutSide f.header

/-- Some files are listed by their keys, each by its own. -/
structure ListedBy (key : FileDiff → String) (files : List FileDiff) (entries : List (String × ChangedFile)) : Prop where
  nodup : (entries.map (·.1)).Nodup
  listed : ∀ f ∈ files, f.Kept → key f ∈ entries.map (·.1)
  own : ∀ e ∈ entries, ∃ f ∈ files, f.Kept ∧ key f = e.1 ∧ e.2 = ChangedFile.ofPatch e.1 f

/-- The key that a file is listed by. -/
def FileDiff.key (f : FileDiff) : String := normalPath f.path

lemma ListedBy.add (h : ListedBy FileDiff.key files entries) (f) :
    ListedBy FileDiff.key (files ++ [f]) (addFile entries f) := by
  have hown : ∀ e ∈ entries, ∃ g ∈ files ++ [f], g.Kept ∧ g.key = e.1 ∧ e.2 = ChangedFile.ofPatch e.1 g := by
    intro e he
    obtain ⟨g, hg, hown⟩ := h.own e he
    exact ⟨g, mem_append_left _ hg, hown⟩
  by_cases hf : f.Kept
  · rw [addFile_of_kept entries hf]
    refine ⟨nodup_insert h.nodup _ _, ?_, ?_⟩
    · intro g hg hkept
      rw [mem_keys_insert]
      rcases mem_append.1 hg with hg | hg
      · exact .inr (h.listed g hg hkept)
      · rw [mem_singleton.1 hg, FileDiff.key]
        exact .inl rfl
    · intro e he
      rcases eq_or_mem_of_mem_insert he with rfl | he
      · exact ⟨f, mem_append_right _ mem_cons_self, hf, by dsimp only [FileDiff.key], by dsimp only⟩
      · exact hown e he
  · rw [addFile_of_not_kept entries hf]
    refine ⟨h.nodup, ?_, hown⟩
    intro g hg hkept
    rcases mem_append.1 hg with hg | hg
    · exact h.listed g hg hkept
    · exact absurd (mem_singleton.1 hg ▸ hkept) hf

lemma listedBy_listFiles (files) : ListedBy FileDiff.key files (listFiles files) := by
  suffices h : ∀ done entries, ListedBy FileDiff.key done entries →
      ListedBy FileDiff.key (done ++ files) (files.foldl addFile entries) from h [] [] ⟨.nil, nofun, nofun⟩
  induction files with
  | nil => exact fun done entries h => by rwa [append_nil]
  | cons f files ih =>
    intro done entries h
    rw [append_cons]
    exact ih _ _ (h.add f)

lemma exists_length_bound (files : List FileDiff) : ∃ bound, ∀ f ∈ files, f.path.length < bound := by
  induction files with
  | nil => exact ⟨0, nofun⟩
  | cons f files ih =>
    obtain ⟨bound, hbound⟩ := ih
    refine ⟨max bound (f.path.length + 1), forall_mem_cons.2 ⟨?_, fun g hg => ?_⟩⟩
    · exact lt_of_lt_of_le (lt_succ_self _) (le_max_right ..)
    · exact lt_of_lt_of_le (hbound g hg) (le_max_left ..)

/-- When the trimmed paths are the paths of the files, all of these are plain: one that is not is the trimmed path of a
longer one, which is not plain either, and there is no end of them. -/
lemma plainPath_of_listedBy (h : ListedBy (·.path) files entries) (hnormal : ListedBy FileDiff.key files entries) :
    ∀ f ∈ files, f.Kept → PlainPath f.path := by
  intro f hf hkept
  by_contra hodd
  obtain ⟨bound, hbound⟩ := exists_length_bound files
  suffices hlong : ∀ n, ∃ g ∈ files, g.Kept ∧ ¬ PlainPath g.path ∧ n ≤ g.path.length by
    obtain ⟨g, hg, -, -, hle⟩ := hlong bound
    exact absurd (hbound g hg) hle.not_gt
  intro n
  induction n with
  | zero => exact ⟨f, hf, hkept, hodd, zero_le _⟩
  | succ n ih =>
    obtain ⟨g, hg, hgkept, hgodd, hle⟩ := ih
    obtain ⟨e, he, hep⟩ := mem_map.1 (h.listed g hg hgkept)
    obtain ⟨g', hg', hgkept', hge, -⟩ := hnormal.own e he
    have hnormal' : normalPath g'.path = g.path := hge.trans hep
    have hodd' : ¬ PlainPath g'.path := fun hplain => hgodd (by rwa [← hnormal', normalPath_eq_iff.2 hplain])
    have hshorter := (shortens_normalPath g'.path).resolve_left fun heq => hodd' (normalPath_eq_iff.1 heq)
    rw [hnormal'] at hshorter
    exact ⟨g', hg', hgkept', hodd', by omega⟩

/-- Whatever parser reads a diff, if it gives every file the path of its header, then the text files are listed by these
paths just when they are plain. -/
theorem listed_by_path_iff (hdiff : strip diff ≠ "") (hparse : parse diff = .ok files)
    (hpath : ∀ f ∈ files, f.path = f.headerPath) :
    (∃ entries, changedFilesBy parse diff = .ok entries ∧ ListedBy FileDiff.headerPath files entries) ↔
      ∀ f ∈ files, f.Kept → PlainPath f.headerPath := by
  have hnormal := listedBy_listFiles files
  rw [changedFilesBy_of_parse hdiff hparse]
  constructor
  · rintro ⟨entries, hlist, hlisted⟩ f hf hkept
    obtain rfl := Except.ok.inj hlist
    rw [← hpath f hf]
    refine plainPath_of_listedBy ⟨hlisted.nodup, fun g hg => ?_, fun e he => ?_⟩ hnormal f hf hkept
    · rw [hpath g hg]
      exact hlisted.listed g hg
    · obtain ⟨g, hg, hkept, hkey, hown⟩ := hlisted.own e he
      exact ⟨g, hg, hkept, (hpath g hg).trans hkey, hown⟩
  · intro hplain
    have hkey : ∀ f ∈ files, f.Kept → f.key = f.headerPath := by
      intro f hf hkept
      rw [FileDiff.key, hpath f hf]
      exact normalPath_eq_iff.mpr (hplain f hf hkept)
    refine ⟨_, rfl, hnormal.nodup, fun f hf hkept => ?_, fun e he => ?_⟩
    · rw [← hkey f hf hkept]
      exact hnormal.listed f hf hkept
    · obtain ⟨f, hf, hkept, hown⟩ := hnormal.own e he
      exact ⟨f, hf, hkept, hkey f hf hkept ▸ hown⟩

/-- A file of one line that is removed. -/
def removedFile : FileDiff where
  header := "a/b/x"
  path := "b/x"
  removed := true
  hunks := [⟨1, 1, 0, 0, [⟨.removed, "y\n", some 1, none⟩]⟩]

/-- A file that is removed may have any path. -/
theorem listed_by_path_beside_removed :
    Diff.parse (twoHunks ++ "--- a/b/x\n+++ /dev/null\n@@ -1 +0,0 @@\n-y\n") = .ok [twoHunksFile, removedFile] ∧
      (∀ f ∈ [twoHunksFile, removedFile], f.path = f.headerPath) ∧
      ∃ entries, changedFilesBy Diff.parse (twoHunks ++ "--- a/b/x\n+++ /dev/null\n@@ -1 +0,0 @@\n-y\n") = .ok entries ∧
        ListedBy FileDiff.headerPath [twoHunksFile, removedFile] entries := by
  have hparse : Diff.parse (twoHunks ++ "--- a/b/x\n+++ /dev/null\n@@ -1 +0,0 @@\n-y\n") =
      .ok [twoHunksFile, removedFile] := Action.ok_of_toOption (by decide +kernel)
  have hdiff : strip (twoHunks ++ "--- a/b/x\n+++ /dev/null\n@@ -1 +0,0 @@\n-y\n") ≠ "" := by decide +kernel
  have hpath : ∀ f ∈ [twoHunksFile, removedFile], f.path = f.headerPath := by decide +kernel
  refine ⟨hparse, hpath, (listed_by_path_iff hdiff hparse hpath).mpr (List.forall_mem_cons.mpr ⟨fun _ => ?_, ?_⟩)⟩
  · exact ⟨by decide +kernel, by decide +kernel, by decide +kernel⟩
  · exact List.forall_mem_singleton.mpr fun hkept => Bool.noConfusion hkept.2

/-- A change of one file in a directory `a` and of one outside. -/
def sideDirectory := "--- a/a/x\n+++ b/a/x\n@@ -1 +1 @@\n-p\n+q\n--- a/x\n+++ b/x\n@@ -1 +1 @@\n-r\n+s\n"

/-- Two text files with paths of their own, of which one is listed. -/
theorem side_directory_merges_files :
    (Diff.parse sideDirectory).toOption.map (·.map fun f => (f.binary || f.removed, f.path, f.headerPath)) =
        some [(false, "a/x", "a/x"), (false, "x", "x")] ∧
      (changedFiles sideDirectory).toOption.map (·.map (·.1)) = some ["x"] := by
  decide +kernel

/-! ## Paths in lines -/

/-- A line of a diff: in a header, a side, which has no path when it is not there, a name of a renamed file or something
else; or a line of a hunk. -/
inductive DiffLine where
  | side (new : Bool) (path : Option String)
  | renamed (new : Bool) (path : String)
  | other (line : String)
  | content (line : String)
  deriving DecidableEq

/-- A path that is relative and does not end in a blank. -/
structure WrittenPath (p : String) : Prop where
  last : ∃ m c, p.toList = m ++ [c] ∧ isBlank c = false
  slash : beginsWith "/" p = false

namespace DiffLine

/-- A tab ends the path of a side when it has spaces. -/
def text : DiffLine → String
  | side new none => (if new then "+++ " else "--- ") ++ absent
  | side new (some p) => (if new then "+++ b/" else "--- a/") ++ p ++ if ' ' ∈ p.toList then "\t" else ""
  | renamed new p => (if new then "rename to " else "rename from ") ++ p
  | other l | content l => l

def paths : DiffLine → Strings
  | side _ p => p.toList
  | renamed _ p => [p]
  | other _ | content _ => []

structure WellFormed (l : DiffLine) : Prop where
  feed : '\n' ∉ l.text.toList
  path : ∀ p ∈ l.paths, WrittenPath p
  other : ∀ t, l = .other t → ∀ lead ∈ ["--- ", "+++ ", "rename from ", "rename to "], beginsWith lead t = false
  content : ∀ t, l = .content t → ∃ c ∈ " +-\\".toList, t.toList.head? = some c

/-- The paths that are read from a line. -/
def taken : DiffLine → Strings
  | content l => (sidePath? l).toList
  | l => l.paths

end DiffLine

open DiffLine

/-- The text of a diff. -/
def textOf (d : List DiffLine) : String := String.join (d.map (·.text ++ "\n"))

variable {d : List DiffLine} {l : DiffLine} {p t : String} {settings : Settings} {c : Char} {r : Chars}

lemma piecesAt_feed {l} (hl : '\n' ∉ l) (t) : piecesAt (· == '\n') (l ++ '\n' :: t) = l :: piecesAt (· == '\n') t := by
  induction l with
  | nil => simp [piecesAt]
  | cons c l ih =>
    rw [mem_cons, not_or] at hl
    simp [piecesAt, Ne.symm hl.1, ih hl.2]

lemma cutAtChar_textOf (hd : ∀ l ∈ d, l.WellFormed) : cutAtChar '\n' (textOf d) = d.map text ++ [""] := by
  unfold cutAtChar textOf
  induction d with
  | nil => rfl
  | cons l d ih =>
    obtain ⟨hl, hd⟩ := forall_mem_cons.1 hd
    rw [map_cons, String.join_cons, String.toList_append, String.toList_append, append_assoc,
      show "\n".toList = ['\n'] from rfl, cons_append, nil_append, piecesAt_feed hl.feed, map_cons, ih hd,
      String.ofList_toList, map_cons, cons_append]

namespace WrittenPath

lemma ne_empty (h : WrittenPath p) : p ≠ "" := by
  rintro rfl
  obtain ⟨m, c, hm, -⟩ := h.last
  simp at hm

lemma strip_ne (h : WrittenPath p) : strip p ≠ "" := by
  intro hstrip
  obtain ⟨m, c, hm, hc⟩ := h.last
  have hnil : Text.strip p.toList = [] := by simpa [strip] using congrArg String.toList hstrip
  simpa [hc] using forall_isBlank_of_strip hnil c (hm ▸ by simp)

/-- Blanks behind a path are dropped. -/
lemma strip_side (h : WrittenPath p) (hc : Text.isBlank c = false) (hr : ∀ x ∈ r, Text.isBlank x) :
    Text.strip (c :: '/' :: (p.toList ++ r)) = c :: '/' :: p.toList := by
  obtain ⟨m, z, hm, hz⟩ := h.last
  rw [Text.strip, dropWhile_cons_of_neg (by simp [hc]), Text.dropRightWhile, hm]
  simp only [reverse_cons, reverse_append, append_assoc]
  rw [dropWhile_append_of_pos (by simpa using hr)]
  simp [hz]

/-- The line of a side that is there names its path. -/
lemma sidePath?_text (h : WrittenPath p) (new) : sidePath? (side new (some p)).text = some p := by
  have hblank : ∀ x ∈ (if ' ' ∈ p.toList then "\t" else "").toList, isBlank x := by
    split <;> simp [isBlank]
  have hold := h.strip_side (by decide : isBlank 'a' = false) hblank
  have hnew := h.strip_side (by decide : isBlank 'b' = false) hblank
  have hslash := (withoutLead_cases p).2.2 h.slash
  cases new <;> simp [sidePath?, text, beginsWith, dropChars, normalPath, strip, PatchFile.withoutSide,
    Text.dropLead?, hold, hnew, hslash, h.ne_empty] <;> simp [← String.toList_inj]

end WrittenPath

lemma pathsInLine_text (h : l.WellFormed) : pathsInLine l.text = l.taken := by
  cases l with
  | side new o =>
    cases o with
    | none => cases new <;> decide +kernel
    | some p =>
      have hside := (h.path p mem_cons_self).sidePath?_text new
      have hrename : renamePath? (side new (some p)).text = none := by
        cases new <;> simp [renamePath?, text, beginsWith, dropLead?]
      simp [pathsInLine, hside, hrename, taken, paths]
  | renamed new p =>
    have hp := (h.path p mem_cons_self).ne_empty
    cases new <;> simp [pathsInLine, sidePath?, renamePath?, text, taken, paths, beginsWith,
      withoutLead, dropLead?, hp]
  | other t =>
    have hleads := h.other t rfl
    simp [text, taken, paths, pathsInLine, sidePath?, renamePath?, hleads]
  | content t =>
    obtain ⟨c, hc, hhead⟩ := h.content t rfl
    obtain ⟨r, hr⟩ := head?_eq_some_iff.1 hhead
    have hne : 'r' ≠ c := by
      rintro rfl
      exact absurd hc (by decide)
    simp [text, taken, pathsInLine, renamePath?, beginsWith, hr, dropLead?, hne]

/-- A path is listed just when a header names it or a line of a hunk looks like one that does. -/
lemma mem_pathsInDiff_iff (hoff : settings.review.filterPaths = false) (hd : ∀ l ∈ d, l.WellFormed) :
    p ∈ pathsInDiff (some settings) (textOf d) ↔ strip p ≠ "" ∧ ∃ l ∈ d, p ∈ l.taken := by
  have hempty : pathsInLine "" = [] := by decide +kernel
  have hsorted : p ∈ sortedSet (d.flatMap taken) ↔ _ := (Index.sortedOnce_spec _).2 p
  rw [pathsInDiff, cutAtChar_textOf hd, flatMap_append, flatMap_singleton, hempty, flatMap_map,
    flatMap_congr fun l hl => pathsInLine_text (hd l hl)]
  simp [filterPaths, hoff, hsorted, and_comm]

/-- The paths of a diff are those of its headers just when no line of a hunk looks like the line of a side, as a removed
line that begins with two dashes does. -/
theorem listed_paths_exact_iff (hoff : settings.review.filterPaths = false) (hd : ∀ l ∈ d, l.WellFormed) :
    (∀ p, p ∈ pathsInDiff (some settings) (textOf d) ↔ p ∈ d.flatMap DiffLine.paths) ↔
      ∀ t, .content t ∈ d → ∀ p, sidePath? t = some p → strip p ≠ "" → p ∈ d.flatMap DiffLine.paths := by
  simp only [mem_pathsInDiff_iff hoff hd, mem_flatMap]
  refine ⟨fun h t ht p hp hblank => (h p).mp ⟨hblank, _, ht, by simp [DiffLine.taken, hp]⟩, fun h p => ⟨?_, ?_⟩⟩
  · rintro ⟨hblank, l, hl, hp⟩
    cases l with
    | content t => exact h t hl p (mem_toList.mp hp) hblank
    | _ => exact ⟨_, hl, hp⟩
  · rintro ⟨l, hl, hp⟩
    refine ⟨((hd l hl).path p hp).strip_ne, l, hl, ?_⟩
    cases l with
    | content t => cases hp
    | _ => exact hp

/-- The removal of the only line of a file. -/
def removedLine (line : String) : List DiffLine :=
  [.side false "x", .side true "x", .other "@@ -1 +0,0 @@", .content ("-" ++ line)]

lemma wellFormed_removedLine (h : '\n' ∉ t.toList) : ∀ l ∈ removedLine t, l.WellFormed := by
  have hpath : WrittenPath "x" := ⟨⟨[], 'x', rfl, by decide⟩, by decide⟩
  simp only [removedLine, forall_mem_cons, not_mem_nil, false_imp_iff, implies_true, and_true]
  exact ⟨⟨by decide +kernel, by simpa [paths] using hpath, nofun, nofun⟩,
    ⟨by decide +kernel, by simpa [paths] using hpath, nofun, nofun⟩,
    ⟨by decide, nofun, by rintro _ ⟨⟩; decide, nofun⟩,
    ⟨by simpa [text] using h, nofun, nofun, by rintro _ ⟨⟩; exact ⟨'-', by decide, by simp⟩⟩⟩

def unfiltered : Settings := ⟨{}, { root := Path.ofString ".", filterPaths := false }⟩

theorem listed_paths_of_removed_line : unfiltered.review.filterPaths = false ∧ (∀ l ∈ removedLine "y", l.WellFormed) ∧
    ∀ p, p ∈ pathsInDiff (some unfiltered) (textOf (removedLine "y")) ↔ p ∈ ["x", "x"] := by
  have hwell : ∀ l ∈ removedLine "y", l.WellFormed := wellFormed_removedLine (by decide)
  refine ⟨rfl, hwell, (listed_paths_exact_iff rfl hwell).mpr fun t ht p hp => ?_⟩
  obtain rfl : t = "-y" := by simpa [removedLine] using ht
  have hnone : sidePath? "-y" = none := by decide +kernel
  cases hnone.symm.trans hp

/-- A comment that is removed is listed as a path. -/
theorem removed_comment_listed : (∀ l ∈ removedLine "-- note", l.WellFormed) ∧
    "note" ∈ pathsInDiff (some unfiltered) (textOf (removedLine "-- note")) ∧
      "note" ∉ (removedLine "-- note").flatMap DiffLine.paths := by
  have hwell : ∀ l ∈ removedLine "-- note", l.WellFormed := wellFormed_removedLine (by decide)
  refine ⟨hwell, (mem_pathsInDiff_iff rfl hwell).mpr ⟨by decide, .content "--- note", by decide, ?_⟩, by decide⟩
  decide +kernel

end PatchReview.Diff
