import PatchReview.Proofs.Repository.Walking

/-!
# Files that are left out by default

The default patterns name files and directories, and each begins with two stars. Two stars stand for one part of a path,
so nothing at the top is left out, and of a directory only what lies right in it.
-/

namespace PatchReview

open List Path String

/-! ## Patterns with a star in front at most -/

namespace Glob

variable {s t : Chars} {x name pattern : String} {path pats : List String}

/-- Characters that stand for themselves. -/
abbrev Plain (s : Chars) : Prop := '*' ∉ s ∧ '?' ∉ s ∧ '[' ∉ s

lemma matchTokens_parse (h : Plain s) : matchTokens (parse s) t ↔ t = s := by
  induction s generalizing t with
  | nil => simp [parse, matchTokens]
  | cons c s ih =>
    simp only [Plain, mem_cons, not_or, eq_comm (b := c)] at h
    obtain ⟨⟨h₁, hs₁⟩, ⟨h₂, hs₂⟩, h₃, hs₃⟩ := h
    rw [parse, if_neg (by simpa using h₁), if_neg (by simpa using h₂), if_neg (by simpa using h₃)]
    cases t with
    | nil => simp [matchTokens]
    | cons d t => simp [matchTokens, ih ⟨hs₁, hs₂, hs₃⟩]

lemma someTail_iff {p} : someTail p s ↔ ∃ t, t <:+ s ∧ p t := by
  induction s with
  | nil => simp [someTail]
  | cons c s ih =>
    rw [someTail, Bool.or_eq_true, ih]
    simp only [suffix_cons_iff, or_and_right, exists_or, exists_eq_left]

lemma accepts_stars (name) : accepts "**" name := by
  have hparse : parse "**".toList = [.star, .star] := by simp [parse]
  rw [accepts, hparse, matchTokens, someTail_iff]
  exact ⟨[], nil_suffix, rfl⟩

/-- A name, or a star and an ending. -/
def NameOrEnding (x : String) : Prop :=
  Plain x.toList ∨ x = "*" ++ dropChars 1 x ∧ Plain (dropChars 1 x).toList

/-- The name is the one that is given, or it has the ending. -/
def Fits (x name : String) : Prop := name = x ∨ ∃ e, x = "*" ++ e ∧ e.toList <:+ name.toList

lemma accepts_iff (hx : NameOrEnding x) : accepts x name ↔ Fits x name := by
  unfold accepts Fits
  rcases hx with hx | ⟨he, hplain⟩
  · rw [matchTokens_parse hx, toList_inj]
    refine (or_iff_left ?_).symm
    rintro ⟨e, rfl, -⟩
    exact hx.1 (by simp)
  · generalize dropChars 1 x = e at he hplain
    subst he
    have hparse : parse ("*" ++ e).toList = .star :: parse e.toList := by
      rw [toList_append]
      exact parse.eq_2 ..
    simp only [hparse, matchTokens, someTail_iff, matchTokens_parse hplain, exists_eq_right]
    constructor
    · exact fun h => .inr ⟨e, rfl, h⟩
    · rintro (rfl | ⟨e', he, h⟩)
      · simp
      · rwa [(String.append_right_inj _).1 he]

/-- A relative pattern is compared with the last parts of a path. -/
lemma matchPath_relative (hpat : ofString pattern = ⟨"", pats⟩) (hne : pats ≠ []) : matchPath ⟨"", path⟩ pattern =
      .ok (pats.length ≤ path.length && (path.reverse.zip pats.reverse).all fun (s, p) => accepts p s) := by
  simp only [matchPath, hpat, allParts, isAbsolute]
  by_cases hlength : path.length < pats.length
  · simp [hne, Nat.not_le.2 hlength]
  · simp [hne, hlength, Nat.not_lt.1 hlength]

lemma matchPath_file_iff (hof : ofString pattern = ⟨"", ["**", x]⟩) (hx : NameOrEnding x) :
    matchPath ⟨"", path ++ [name]⟩ pattern = .ok true ↔ path ≠ [] ∧ Fits x name := by
  rw [matchPath_relative hof (by simp), ← accepts_iff hx]
  obtain rfl | ⟨below, d, rfl⟩ := eq_nil_or_concat' path <;> simp [accepts_stars]

lemma matchPath_directory_iff (hof : ofString pattern = ⟨"", ["**", x, "**"]⟩) (hx : Plain x.toList) :
    matchPath ⟨"", path ++ [name]⟩ pattern = .ok true ↔ path.tail.getLast? = some x := by
  have haccepts (d) : accepts x d ↔ d = x := by rw [accepts, matchTokens_parse hx, toList_inj]
  rw [matchPath_relative hof (by simp)]
  obtain rfl | ⟨above, d, rfl⟩ := eq_nil_or_concat' path
  · simp
  · obtain rfl | ⟨above, u, rfl⟩ := eq_nil_or_concat' above
    · simp
    · rw [tail_append_of_ne_nil (append_ne_nil_of_right_ne_nil above (by simp))]
      simp [accepts_stars, haccepts]

end Glob

namespace Repository

open Glob FileTree

variable {name : String} {dirs path files : List String} {settings : Option Settings}

/-! ## Paths that are left out -/

/-- A pattern for files leaves out the name. -/
def ExcludedFile (name : String) : Prop := ∃ p ∈ defaultExcludes, ∃ x, ofString p = ⟨"", ["**", x]⟩ ∧ Fits x name

/-- A pattern for directories leaves out what is in directories of the name. -/
def ExcludedDirectory (name : String) : Prop := ∃ p ∈ defaultExcludes, ofString p = ⟨"", ["**", name, "**"]⟩

/-- A file is to be left out: by its name, or by one of the directories on the way to it. -/
def Excluded (dirs : Strings) (name : String) : Prop := ExcludedFile name ∨ ∃ d ∈ dirs, ExcludedDirectory d

/-- A file is to be left out, and it is below a directory, or in a directory to leave out that is below another one. -/
def ExcludedBelow (dirs : Strings) (name : String) : Prop :=
  dirs ≠ [] ∧ ExcludedFile name ∨ ∃ d, dirs.tail.getLast? = some d ∧ ExcludedDirectory d

lemma shape_of_mem : ∀ p ∈ defaultExcludes, strip p = p ∧ p ≠ "" ∧ ∃ x ∈ (ofString p).parts,
    NameOrEnding x ∧ ofString p = ⟨"", ["**", x]⟩ ∨ Plain x.toList ∧ ofString p = ⟨"", ["**", x, "**"]⟩ := by
  unfold NameOrEnding
  decide +kernel

/-- Names whose path is in order: it has no backslashes, and no blanks around it. -/
structure Tidy (path : Strings) : Prop where
  named : Named path
  backslash : '\\' ∉ (joinWith "/" path).toList
  trimmed : strip (joinWith "/" path) = joinWith "/" path

lemma dropLeads_of_none {lead s} (h : Text.dropLead? lead s = none) (n) : dropLeads lead n s = s := by
  cases n with
  | zero => rfl
  | succ n => rw [dropLeads, h]

lemma Tidy.posixPath (h : Tidy path) : posixPath (joinWith "/" path) = joinWith "/" path := by
  have hsame : substitute "\\" "/" (joinWith "/" path) = joinWith "/" path := substitute_of_notMem h.backslash "/"
  have hdot := h.named.dropLead?_eq_none (by decide : '/' ∉ ['.']) (fun hf => hf.ne_dot rfl) []
  have hslash := h.named.dropLead?_eq_none not_mem_nil (fun hf => hf.ne_empty rfl) []
  simp only [Repository.posixPath, h.trimmed, hsame]
  rw [show dropLeads ['.', '/'] _ _ = _ from dropLeads_of_none hdot _,
    show dropLeads ['/'] _ _ = _ from dropLeads_of_none hslash _, ofList_toList]

/-- Two stars want one part, so what is left out has a directory above it. -/
lemma matchesAny_iff (h : Tidy (dirs ++ [name])) :
    matchesAny (joinWith "/" (dirs ++ [name])) defaultExcludes ↔ ExcludedBelow dirs name := by
  have hmatch : ∀ p ∈ defaultExcludes, matchPath ⟨"", dirs ++ [name]⟩ p = .ok true ↔
      (dirs ≠ [] ∧ ∃ x, ofString p = ⟨"", ["**", x]⟩ ∧ Fits x name) ∨
        ∃ d, dirs.tail.getLast? = some d ∧ ofString p = ⟨"", ["**", d, "**"]⟩ := by
    intro p hp
    obtain ⟨-, -, x, -, ⟨hx, hof⟩ | ⟨hx, hof⟩⟩ := shape_of_mem p hp
    · simp [hof, matchPath_file_iff hof hx]
    · simp [hof, matchPath_directory_iff hof hx]
  have hcongr : matchesAny (joinWith "/" (dirs ++ [name])) defaultExcludes ↔
      ∃ p ∈ defaultExcludes, matchPath ⟨"", dirs ++ [name]⟩ p = .ok true := by
    rw [matchesAny, h.posixPath, h.named.ofString, any_eq_true]
    refine exists_congr fun p => and_congr_right fun hp => ?_
    obtain ⟨hstrip, hne, -⟩ := shape_of_mem p hp
    simp only [hstrip]
    cases matchPath ⟨"", dirs ++ [name]⟩ p <;> simp [hne]
  rw [hcongr, ExcludedBelow]
  unfold ExcludedFile ExcludedDirectory
  grind

/-- The settings leave the default patterns as they are. -/
def ByDefault (settings : Option Settings) : Prop :=
  ∀ s ∈ settings, s.review.filterPaths = true ∧ s.review.includeGlobs = [] ∧ s.review.excludeGlobs = []

lemma byDefault_none : ByDefault none := by simp [ByDefault]

lemma mem_filterPaths {p} (h : ByDefault settings) :
    p ∈ filterPaths settings files ↔ p ∈ files.map strip ∧ p ≠ "" ∧ matchesAny p defaultExcludes = false := by
  have hsorted (ws) : p ∈ sortedSet ws ↔ p ∈ ws := (Index.sortedOnce_spec ws).2 p
  have hnone : matchesAny p [] = false := rfl
  cases settings with
  | none => simp [filterPaths, hsorted, hnone]
  | some s =>
    obtain ⟨hon, hincluded, hexcluded⟩ := h s rfl
    simp [filterPaths, hsorted, hon, hincluded, hexcluded, hnone]

/-- By default a file that is not to be left out is kept. One that is to be left out is removed when this is for its
name and it is not at the top, or when it lies right in a directory to leave out that is not at the top. -/
theorem removed_by_default_iff (hs : ByDefault settings) (h : Tidy (dirs ++ [name]))
    (hmem : joinWith "/" (dirs ++ [name]) ∈ files) :
    (joinWith "/" (dirs ++ [name]) ∉ filterPaths settings files ↔ ExcludedBelow dirs name) ∧
      (¬Excluded dirs name → joinWith "/" (dirs ++ [name]) ∈ filterPaths settings files) := by
  have hne : joinWith "/" (dirs ++ [name]) ≠ "" := by
    intro heq
    have hof := h.named.ofString
    rw [heq] at hof
    exact h.named.1 (congrArg parts hof).symm
  have hstrip : joinWith "/" (dirs ++ [name]) ∈ files.map strip := h.trimmed ▸ mem_map_of_mem hmem
  have hremoved : joinWith "/" (dirs ++ [name]) ∉ filterPaths settings files ↔ ExcludedBelow dirs name := by
    rw [← matchesAny_iff h, mem_filterPaths hs, and_iff_right hstrip, and_iff_right hne, Bool.not_eq_false]
  refine ⟨hremoved, not_imp_comm.mp fun hnot => ?_⟩
  rcases hremoved.mp hnot with ⟨-, hname⟩ | ⟨d, hlast, hd⟩
  · exact .inl hname
  · exact .inr ⟨d, mem_of_mem_tail (mem_of_getLast? hlast), hd⟩

lemma excludedFile_lock : ExcludedFile "package-lock.json" :=
  ⟨"**/package-lock.json", by decide, _, by decide +kernel, .inl rfl⟩

theorem lock_below_removed : ByDefault none ∧ Tidy (["a"] ++ ["package-lock.json"]) ∧
    "a/package-lock.json" ∉ filterPaths none ["a/package-lock.json", "a/b.c"] := by
  have htidy : Tidy (["a"] ++ ["package-lock.json"]) := by
    refine ⟨⟨by simp, ?_⟩, by decide +kernel, by decide +kernel⟩
    simpa using ⟨⟨by decide, by decide, by decide⟩, ⟨by decide, by decide, by decide⟩⟩
  refine ⟨byDefault_none, htidy, (removed_by_default_iff byDefault_none htidy (by decide +kernel)).1.mpr ?_⟩
  exact .inl ⟨by simp, excludedFile_lock⟩

/-- A lock file at the top is kept. -/
theorem top_lock_kept : Excluded [] "package-lock.json" ∧
    "package-lock.json" ∈ filterPaths none ["package-lock.json"] := by
  refine ⟨.inl excludedFile_lock, (mem_filterPaths byDefault_none).mpr ?_⟩
  exact ⟨by decide +kernel, by decide, by decide +kernel⟩

end Repository

end PatchReview
