import Mathlib.Data.List.TakeWhile
import PatchReview.Proofs.Import.Following
import PatchReview.Proofs.Repository.Walking

/-!
# The files of modules

A module with dots in front is looked for from the directory of the file that imports it. While imports are followed,
each dot after the first goes one directory up, and a name that is imported from dots alone counts as one dot more.

A file is looked up by the end of its path as by a pattern: letters match in either case, an underscore stands for any
character and a percent sign for any run of them.
-/

namespace PatchReview

open Action List Path Text

/-! ## Dots in front of a name -/

lemma substitute_dot {new s : String} (h : '.' ∉ s.toList) : substitute "." new s = s := substitute_of_notMem h new

lemma Path.parent_eq_self {p : Path} (h : p.parts = []) : p.parent = p := by rw [parent, h, dropLast_nil, ← h]

namespace Import

/-- The files of a module in a directory. -/
def filesAt (directory : Path) (name : String) : List Path :=
  let rel := substitute "." "/" name
  if rel == "" then [directory / "__init__.py"] else [directory / (rel ++ ".py"), directory / rel / "__init__.py"]

/-- The files of a module that is named from so many directories above that of an importing file. -/
def relativeFiles (levels : Nat) (importer name : String) : Action Strings := do
  let q ← Files.resolve (ofString importer)
  return (filesAt (parent^[levels] q.parent) name).map (·.toString)

/-- The files of a module for a file that imports it, as they are followed. -/
def followedFiles (root : Path) (importer module : String) : Action Strings := do
  let q ← Files.resolve (ofString importer)
  return (moduleFiles root q module).map (·.toString)

/-- A name, maybe with dots in it, or none. -/
structure DottedName (name : String) : Prop where
  first : name.toList.head? ≠ some '.'
  blank : name.toList.any isBlank = false

variable {f name x : String} {n : Nat}

lemma toList_dots (n name) : (repeated "." n ++ name).toList = replicate n '.' ++ name.toList := by
  rw [String.toList_append, repeated, String.toList_join]
  congr 1
  induction n with
  | zero => rfl
  | succ n ih =>
    rw [replicate_succ, flatMap_cons, ih]
    rfl

lemma dots_ne_empty (n name) : (repeated "." (n + 1) ++ name == "") = false :=
  beq_eq_false_iff_ne.2 fun h => by
    have hlist := toList_dots (n + 1) name
    rw [h] at hlist
    cases hlist

lemma beginsWith_dots (n name) : beginsWith "." (repeated "." (n + 1) ++ name) := by
  rw [beginsWith, toList_dots]
  rfl

namespace DottedName

lemma strip_dots (h : DottedName name) (n) : strip (repeated "." n ++ name) = repeated "." n ++ name := by
  have hblank : ∀ c ∈ (repeated "." n ++ name).toList, ¬ isBlank c := by
    rw [toList_dots, forall_mem_append]
    exact ⟨fun c hc => eq_of_mem_replicate hc ▸ nofun, any_eq_false.1 h.blank⟩
  have hkeep (s : Chars) (hs : ∀ c ∈ s, ¬ isBlank c) : s.dropWhile isBlank = s :=
    dropWhile_eq_self_iff.2 fun hl => hs _ (get_mem ..)
  rw [strip, Text.strip, Text.dropRightWhile, hkeep _ hblank, hkeep _ fun c hc => hblank c (mem_reverse.1 hc),
    reverse_reverse, String.ofList_toList]

lemma dropWhile_dots (h : DottedName name) (n) :
    (repeated "." n ++ name).toList.dropWhile (· == '.') = name.toList := by
  rw [toList_dots, dropWhile_append, dropWhile_replicate, if_pos (beq_self_eq_true _), isEmpty_nil, if_pos rfl]
  cases hname : name.toList with
  | nil => rfl
  | cons c s =>
    have hfirst := h.first
    rw [hname, head?_cons, ne_eq] at hfirst
    exact dropWhile_cons_of_neg (by simpa using hfirst)

/-- Each dot after the first leads one directory up. -/
lemma moduleFiles_dots (h : DottedName name) (root f n) :
    moduleFiles root f (repeated "." (n + 1) ++ name) = filesAt (parent^[n] f.parent) name := by
  have hlength : (repeated "." (n + 1) ++ name).length - name.toList.length - 1 = n := by
    rw [← String.length_toList, toList_dots, length_append, length_replicate]
    omega
  rw [moduleFiles, h.strip_dots, h.dropWhile_dots]
  dsimp only
  rw [dots_ne_empty, beginsWith_dots, hlength, foldl_const, length_range, String.ofList_toList]
  rfl

end DottedName

/-- A module with dots in front is looked for beside the importing file when a name is resolved, however many dots there
are, and as many directories up as there are further dots when imports are followed. -/
theorem relative_modules (root : String) (top : Path) (n : Nat) (hf : f ≠ "") (hname : DottedName name) :
    pythonFiles (repeated "." (n + 1) ++ name) root (some f) = relativeFiles 0 f name ∧
      followedFiles top f (repeated "." (n + 1) ++ name) = relativeFiles n f name := by
  constructor
  · rw [pythonFiles, hname.strip_dots, hname.dropWhile_dots, beginsWith_dots]
    dsimp only
    rw [if_pos rfl, Option.filter_some, if_pos (by simpa using hf), String.ofList_toList]
    unfold relativeFiles filesAt
    funext q
    dsimp only
    split <;> rfl
  · unfold followedFiles relativeFiles
    simp only [hname.moduleFiles_dots]

theorem relative_modules_three_dots :
    pythonFiles (repeated "." 3 ++ "x.y") "/" (some "/p/q/r/f.py") = relativeFiles 0 "/p/q/r/f.py" "x.y" ∧
      followedFiles ⟨"/", []⟩ "/p/q/r/f.py" (repeated "." 3 ++ "x.y") = relativeFiles 2 "/p/q/r/f.py" "x.y" :=
  relative_modules "/" ⟨"/", []⟩ 2 (by decide) ⟨by decide, by decide⟩

/-- From two directories down, two dots are resolved beside the file and followed from above. -/
theorem relative_modules_differ :
    (pythonFiles "..x" "/" (some "/p/q/f.py") {}).1 = .ok ["/p/q/x.py", "/p/q/x/__init__.py"] ∧
      (followedFiles ⟨"/", []⟩ "/p/q/f.py" "..x" {}).1 = .ok ["/p/x.py", "/p/x/__init__.py"] := ⟨rfl, rfl⟩

/-! ## Names that are imported from packages -/

/-- A name without dots. -/
structure BareName (x : String) : Prop where
  ne_empty : x ≠ ""
  chars : ∀ c ∈ x.toList, c ≠ '.' ∧ c ≠ '/' ∧ c ≠ '*' ∧ ¬ isBlank c

namespace BareName

section

variable (h : BareName x)

include h

lemma dotted : DottedName x where
  first := fun hx => (h.chars '.' (mem_of_head? hx)).1 rfl
  blank := any_eq_false.2 fun c hc => (h.chars c hc).2.2.2

lemma fileName : FileName x :=
  ⟨fun hc => (h.chars _ hc).2.1 rfl, h.ne_empty, fun heq => (h.chars '.' (heq ▸ mem_singleton.2 rfl)).1 rfl⟩

lemma fileName_py : FileName (x ++ ".py") := by
  have hp : 'p' ∈ (x ++ ".py").toList := String.toList_append ▸ mem_append_right _ (by decide)
  refine ⟨?_, fun heq => absurd (heq ▸ hp) (by decide), fun heq => absurd (heq ▸ hp) (by decide)⟩
  rw [String.toList_append, mem_append]
  exact not_or.2 ⟨fun hc => (h.chars _ hc).2.1 rfl, by decide⟩

lemma filesAt_eq (d) :
    filesAt d x = [⟨d.root, d.parts ++ [x ++ ".py"]⟩, ⟨d.root, d.parts ++ [x] ++ ["__init__.py"]⟩] := by
  rw [filesAt, substitute_dot fun hc => (h.chars _ hc).1 rfl, if_neg (by simpa using h.ne_empty), h.fileName_py.div,
    h.fileName.div]
  rfl

end

end BareName

/-- The files that a statement may stand for. -/
def targets (root f : Path) (s : Python.Statement) : List Path := (importedModules s).flatMap (moduleFiles root f)

variable {names : List Python.Alias}

/-- A statement that imports names from packages alone stands for the package, and for each name one level higher. -/
lemma targets_eq (hnames : ∀ a ∈ names, BareName a.name) (root f n range) :
    targets root f (.importsFrom (n + 1) "" names range) = parent^[n] f.parent / "__init__.py" ::
        names.flatMap fun a => filesAt (parent^[n + 1] f.parent) a.name := by
  have hstar : names.filter (·.name != "*") = names := filter_eq_self.2 fun a ha =>
    bne_iff_ne.2 fun heq => ((hnames a ha).chars '*' (heq ▸ mem_singleton.2 rfl)).2.2.1 rfl
  have hname (source x : String) (h : source = repeated "." (n + 1) ++ "") :
      s!"{source}.{x}" = repeated "." (n + 2) ++ x := by
    rw [← String.toList_inj, toList_dots, replicate_succ']
    change (source ++ "." ++ x).toList = _
    rw [String.toList_append, String.toList_append, h, toList_dots, String.toList_empty, append_nil]
    rfl
  have hempty : DottedName "" := ⟨by decide, by decide⟩
  unfold targets importedModules
  dsimp only
  rw [dots_ne_empty, if_neg Bool.false_ne_true, hstar, flatMap_cons, hempty.moduleFiles_dots, flatMap_map]
  refine congrArg _ (flatMap_congr fun a ha => ?_)
  rw [hname _ _ rfl, (hnames a ha).dotted.moduleFiles_dots]

/-- A statement stands for the file of a name in the package itself only where nothing is above, or if the name is that
of the package's own file. -/
lemma mem_targets_iff (hnames : ∀ a ∈ names, BareName a.name) {a : Python.Alias}
    (ha : a ∈ names) (root f : Path) (n) (range : Python.Range) :
    parent^[n] f.parent / (a.name ++ ".py") ∈ targets root f (.importsFrom (n + 1) "" names range) ↔
      (parent^[n] f.parent).parts = [] ∨ a.name = "__init__" := by
  rw [targets_eq hnames, mem_cons, mem_flatMap, Function.iterate_succ_apply']
  generalize parent^[n] f.parent = d
  have hinit {l : Strings} (h : d.parts ++ [a.name ++ ".py"] = l ++ ["__init__.py"]) : a.name = "__init__" :=
    (String.append_left_inj ".py").1 (singleton_inj.1 (append_inj_right' h rfl))
  rw [(hnames a ha).fileName_py.div]
  constructor
  · rintro (heq | ⟨b, hb, hmem⟩)
    · exact .inr (hinit (congrArg parts heq))
    · rw [(hnames b hb).filesAt_eq, mem_pair] at hmem
      obtain heq | heq := hmem
      · have hlength := congrArg (·.parts.length) heq
        simp only [parent, length_append, length_dropLast, length_singleton] at hlength
        exact .inl (length_eq_zero_iff.1 (by omega))
      · exact .inr (hinit (congrArg parts heq))
  · rintro (htop | hname)
    · refine .inr ⟨a, ha, ?_⟩
      rw [parent_eq_self htop, (hnames a ha).filesAt_eq]
      exact mem_cons_self
    · exact .inl (by rw [hname]; rfl)

variable {w : Workspace} {o : Repository.ScanOptions} {root p q : Path} {seeds found : List Path}

/-- A Python file that is followed within the depth has a statement at its outermost level. -/
structure Stated (w : Workspace) (o : Repository.ScanOptions) (root : Path) (seeds : List Path) (depth : Nat) (f : Path)
    (s : Python.Statement) : Prop where
  importer : ∃ k < depth, Within w o root seeds k f
  python : Syntax.Language.ofPath? f = some "python"
  stated : ∃ text ss, textAt? w f = some text ∧ Python.statements text = .ok ss ∧ s ∈ ss

/-- A path leads to a file that can be indexed. -/
def Standing (w : Workspace) (o : Repository.ScanOptions) (p q : Path) : Prop :=
  w.files.resolve w.cwd p = .ok q ∧ eligible? w o q = .ok (some q)

/-- What can be indexed is a file in a known language. -/
lemma of_eligible? (h : eligible? w o p = .ok (some q)) :
    ∃ e, w.files.find? w.cwd q = .ok e ∧ FileTree.isFile e ∧ (Syntax.Language.ofPath? q).isSome := by
  unfold eligible? at h
  split at h
  · cases h
  · split at h
    · cases h
    · obtain ⟨e, he, h⟩ := except_bind_eq_ok_iff.1 h
      split at h
      · split at h
        · cases h
        · rename_i hknown
          cases h
          rw [Bool.or_eq_true, not_or, Bool.not_eq_true, Bool.not_eq_true, Option.isNone_eq_false_iff] at hknown
          exact ⟨_, he, rfl, hknown.2⟩
      · cases h

lemma mem_of_knownFiles {ps : List Path} (h : knownFiles w ps = .ok found) (hp : p ∈ ps) (hq : Standing w o p q) :
    q ∈ found := by
  obtain ⟨qs, hqs, h⟩ := except_bind_eq_ok_iff.1 h
  cases h
  obtain ⟨q?, hmem, hlook⟩ := (of_mapM_ok hqs).1 _ hp
  obtain ⟨e, he, hfile, hlanguage⟩ := of_eligible? hq.2
  rw [hq.1] at hlook
  obtain ⟨e', he', hlook⟩ := except_bind_eq_ok_iff.1 hlook
  cases he.symm.trans he'
  rw [hfile, hlanguage] at hlook
  cases hlook
  exact mem_filterMap.2 ⟨_, hmem, rfl⟩

end Import

/-! ## Ends of paths -/

namespace Index

/-- A character that stands for itself alone in a pattern. -/
def isLiteral (c : Char) : Bool :=
  !(65 ≤ c.toNat && c.toNat ≤ 90) && !(97 ≤ c.toNat && c.toNat ≤ 122) && c != '_' && c != '%' && c.toNat != 0

/-- Another character that matches one, where there is one. -/
def vary (c : Char) : Char :=
  if isLiteral c || c.toNat == 0 then c
  else if c == '_' || c == '%' then '-'
  else Char.ofNat (if c.toNat < 97 then c.toNat + 32 else c.toNat - 32)

variable {c : Char} {ps s : Chars} {rev path lang name suffix : String} {limit : Int64}

lemma forall_ascii {P : Char → Prop} (h : ∀ n < 128, P (Char.ofNat n)) (hc : c.toNat < 128) : P c := by
  simpa using h c.toNat hc

/-- How a character compares with the other one that matches it. -/
lemma vary_spec (c) : (foldAscii (vary c) = foldAscii c ∨ c = '_' ∨ c = '%') ∧ (c.toNat ≠ 0 → (vary c).toNat ≠ 0) ∧
      (vary c = c → isLiteral c ∨ c.toNat = 0) ∧ (isLiteral (foldAscii c) → foldAscii c = c) := by
  by_cases hc : c.toNat < 128
  · apply forall_ascii _ hc
    decide
  · have hfold : foldAscii c = c := if_neg (by omega)
    have hliteral : isLiteral c := by
      have hother (x) (hx : x.toNat < 128) : c ≠ x := fun h => hc (h ▸ hx)
      grind [isLiteral, hother '_' (by decide), hother '%' (by decide)]
    have hvary : vary c = c := by rw [vary, hliteral, Bool.true_or, if_pos rfl]
    rw [hvary, hfold]
    exact ⟨.inl rfl, id, fun _ => .inl hliteral, fun _ => rfl⟩

lemma anyTail_iff {p} : anyTail p s ↔ ∃ t, t <:+ s ∧ p t := by
  induction s with
  | nil => simp [anyTail]
  | cons c s ih =>
    rw [anyTail, Bool.or_eq_true, ih]
    constructor
    · rintro (h | ⟨t, ht, h⟩)
      · exact ⟨_, suffix_refl _, h⟩
      · exact ⟨t, ht.trans (suffix_cons c s), h⟩
    · rintro ⟨t, ht, h⟩
      obtain rfl | ht := suffix_cons_iff.1 ht
      · exact .inl h
      · exact .inr ⟨t, ht, h⟩

/-- Characters that stand for themselves are matched by themselves alone. -/
lemma eq_of_likeChars (hps : ∀ c ∈ ps, isLiteral c) (h : likeChars ps s) : s = ps := by
  induction ps generalizing s with
  | nil => exact isEmpty_iff.1 h
  | cons c ps ih =>
    obtain ⟨hc, hps⟩ := forall_mem_cons.1 hps
    have hpercent : c ≠ '%' := by grind [isLiteral]
    have hunder : c ≠ '_' := by grind [isLiteral]
    cases s with
    | nil => grind [likeChars]
    | cons d s =>
      have hlike : foldAscii c = foldAscii d ∧ likeChars ps s := by grind [likeChars]
      have hfold : foldAscii c = c := by grind [foldAscii, isLiteral]
      have hd : foldAscii d = d := (vary_spec d).2.2.2 (by rw [← hlike.1, hfold]; exact hc)
      rw [ih hps hlike.2, ← hd, ← hlike.1, hfold]

lemma likeChars_vary (ps) : likeChars ps (ps.map vary) := by
  induction ps with
  | nil => rfl
  | cons c ps ih =>
    obtain hfold | rfl | rfl := (vary_spec c).1
    · by_cases hpercent : c = '%'
      · subst hpercent
        exact anyTail_iff.2 ⟨_, suffix_cons _ _, ih⟩
      · grind [likeChars]
    · exact ih
    · exact anyTail_iff.2 ⟨_, suffix_cons _ _, ih⟩

/-- No path of a store holds a null character. -/
def NullFree (ix : Index) : Prop := ∀ f ∈ ix.files, ∀ c ∈ f.path.toList, c.toNat ≠ 0

lemma beforeNull_eq {s} (h : ∀ c ∈ s.toList, c.toNat ≠ 0) : beforeNull s = s.toList :=
  takeWhile_eq_self_iff.2 fun c hc => bne_iff_ne.2 (h c hc)

lemma like_percent :
    like ("%" ++ suffix) path ↔ ∃ t, t <:+ beforeNull path ∧ likeChars (beforeNull suffix) t := by
  have hpattern : beforeNull ("%" ++ suffix) = '%' :: beforeNull suffix := by
    rw [beforeNull, String.toList_append]
    rfl
  rw [like, hpattern]
  exact anyTail_iff

/-- A path that matches an ending though its characters are others wherever they may be. -/
def variedPath (suffix : String) : String := String.ofList ((beforeNull suffix).map vary)

lemma toNat_variedPath : ∀ c ∈ (variedPath suffix).toList, c.toNat ≠ 0 := by
  rw [variedPath, String.toList_ofList, forall_mem_map]
  exact fun c hc => (vary_spec c).2.1 (bne_iff_ne.1 (mem_takeWhile_imp (p := fun c : Char => c.toNat != 0) hc))

lemma like_variedPath (suffix) : like ("%" ++ suffix) (variedPath suffix) := by
  rw [like_percent, beforeNull_eq toNat_variedPath, variedPath, String.toList_ofList]
  exact ⟨_, suffix_refl _, likeChars_vary _⟩

/-- Such a path does not end so if some character may be another. -/
lemma not_suffix_variedPath (hc : c ∈ suffix.toList) (hliteral : isLiteral c = false) :
    ¬ suffix.toList <:+ (variedPath suffix).toList := by
  intro hend
  have hnull : ∀ d ∈ suffix.toList, d.toNat ≠ 0 := fun d hd => toNat_variedPath d (hend.subset hd)
  rw [variedPath, String.toList_ofList, beforeNull_eq hnull] at hend
  have heq : suffix.toList = suffix.toList.map vary := hend.eq_of_length (length_map _).symm
  have hvary : vary c = c := map_inj_left.1 (heq.symm.trans (map_id _).symm) c hc
  obtain h | h := (vary_spec c).2.2.1 hvary
  · rw [hliteral] at h
    cases h
  · exact hnull c hc h

/-- A class in the first file. -/
def loneClass (lang name : String) : SymbolRow := ⟨"", "", 1, lang, "class", name, ⟨0, 0, 1, 1, 1, 1⟩, ""⟩

/-- A store with one file at a revision, and one class in it. -/
def single (rev path lang name : String) : Index :=
  { files := [⟨1, path, lang⟩], versions := [⟨rev, 1, "", 0⟩], symbols := [loneClass lang name] }

lemma nullFree_single (h : ∀ c ∈ path.toList, c.toNat ≠ 0) : NullFree (single rev path lang name) :=
  forall_mem_singleton.2 h

lemma pathsEndingWith_single : (single rev path lang name).pathsEndingWith rev suffix limit =
      limited limit (if like ("%" ++ suffix) path then [path] else []) := by
  unfold pathsEndingWith filesAt single
  by_cases hlike : like ("%" ++ suffix) path <;> simp [hlike]

lemma limited_singleton {p : String} (hlimit : limit ≠ 0) : limited limit [p] = [p] := by
  unfold limited
  split
  · rfl
  · have hne : limit.toInt ≠ 0 := fun h => hlimit (Int64.toInt_inj.1 h)
    exact take_of_length_le (by rw [length_singleton]; omega)

/-- Every path that is found ends so just when nothing is looked for or all characters stand for themselves. -/
lemma forall_suffix_iff : (∀ ix, NullFree ix → ∀ p ∈ ix.pathsEndingWith rev suffix limit,
      suffix.toList <:+ p.toList) ↔ limit = 0 ∨ ∀ c ∈ suffix.toList, isLiteral c := by
  constructor
  · intro h
    refine Classical.or_iff_not_imp_left.2 fun hlimit c hc => Bool.not_eq_false _ ▸ fun hliteral => ?_
    refine not_suffix_variedPath hc hliteral
      (h (single rev (variedPath suffix) "" "") (nullFree_single toNat_variedPath) _ ?_)
    rw [pathsEndingWith_single, if_pos (like_variedPath suffix), limited_singleton hlimit]
    exact mem_singleton.2 rfl
  · rintro (rfl | hliteral) ix hnull p hp
    · cases hp
    · obtain ⟨f, hf, rfl⟩ := mem_map.1 (mem_of_mem_limited hp)
      obtain ⟨hf, hlike⟩ := mem_filter.1 hf
      have hfile : f ∈ ix.files := (mem_filter.1 (mem_mergeSort.1 hf)).1
      rw [like_percent, beforeNull_eq (hnull f hfile), beforeNull_eq fun c hc => by grind [isLiteral]] at hlike
      obtain ⟨t, ht, hlike⟩ := hlike
      exact eq_of_likeChars hliteral hlike ▸ ht

end Index

namespace Import

open Index

lemma definedIn_single {q path lang} :
    definedIn (single q.rev path lang q.name) q path = [Inquiry.plainSymbolHit path (loneClass lang q.name)] := by
  have hversion : (single q.rev path lang q.name).versionOf? q.rev path = some (1, "", lang) := by
    simp [versionOf?, fileAt?, single]
  rw [definedIn, hversion]
  simp [single, loneClass]

/-- The end of the path of a Java class. -/
def javaEnding (q : Request) : String :=
  let package := substitute "." "/" q.module
  s!"/{package}/{q.name}.java"

/-- A look-up by the end of a path is literal just when it looks for nothing, or for characters that are no letters and
no wildcards. So every Java class is found in a file of another name in some store. -/
theorem suffix_lookup_literal_iff (rev suffix : String) (limit : Int64) :
    ((∀ ix : Index, NullFree ix → ∀ p ∈ ix.pathsEndingWith rev suffix limit, suffix.toList <:+ p.toList) ↔
        limit = 0 ∨ ∀ c ∈ suffix.toList, isLiteral c = true) ∧
      ∀ (w : Workspace) (q : Request) (root : String) (d : Path), q.root? = some root →
        w.files.resolve w.cwd (ofString root) = .ok d →
        ∃ ix path s, NullFree ix ∧ java ix q w = (.ok (found q "java" [Inquiry.plainSymbolHit path s]), w) ∧
          ¬ (javaEnding q).toList <:+ path.toList := by
  refine ⟨forall_suffix_iff, fun w q root d hroot hd => ?_⟩
  have hletter : 'j' ∈ (javaEnding q).toList := by
    rw [javaEnding, String.toList_append]
    exact mem_append_right _ (by decide)
  refine ⟨single q.rev (variedPath (javaEnding q)) "java" q.name, _, loneClass "java" q.name,
    nullFree_single toNat_variedPath, ?_, not_suffix_variedPath hletter (by decide)⟩
  have hresolve : Files.resolve (ofString root) w = (.ok d, w) := hd ▸ ofExcept_apply _ _
  unfold java
  rw [hroot]
  refine (bind_of_ok hresolve).trans ?_
  change (pure (definedAmong _ q "java" (pathsEndingWith _ q.rev (javaEnding q) 50) _) : Action _) w = _
  rw [pathsEndingWith_single, if_pos (like_variedPath _), limited_singleton (by decide), definedAmong,
    flatMap_singleton, definedIn_single]
  rfl

/-- A module with an underscore is found in a file without one. -/
theorem underscore_matches_other :
    (single "r" "/a/myXmod.py" "python" "").pathsEndingWith "r" "/my_mod.py" 20 = ["/a/myXmod.py"] ∧
      ¬ "/my_mod.py".toList <:+ "/a/myXmod.py".toList := by
  rw [pathsEndingWith_single]
  decide

end Import

end PatchReview
